import Ruscker.Lib.Machine
import Ruscker.Lib.Tokens
import Ruscker.Lib.Window
import Ruscker.Text
import Ruscker.Proxy.Cookies
import Ruscker.Lib.Table
import Ruscker.Lib.Guard
import Ruscker.Auth.Role
import Ruscker.Db.Users
import Ruscker.Config.Spec
import Ruscker.Db.Specs
import Ruscker.Scope
import Ruscker.Admin.Users
import Ruscker.Admin.Groups
import Ruscker.Admin.Delegation
import Ruscker.Admin.GroupAccess
import Ruscker.Auth.LoginLimiter
import Ruscker.Auth.SessionsPg
import Ruscker.Auth.Sessions
import Ruscker.Admin.SessionRoles
import Ruscker.Admin.EditRaces
import Ruscker.Admin.SpecForm
import Ruscker.Mfa.Requests
import Ruscker.Mfa.OneTime
import Ruscker.Mfa.DeviceTrust
import Ruscker.Db.LastAdmin
import Ruscker.Db.Schedules
import Ruscker.Jobs.Scheduler
import Ruscker.Jobs.Pauses
import Ruscker.Auth.MustChange
import Ruscker.Config.Settings
import Ruscker.Admin.FormRoundTrip
import Ruscker.Admin.SpecEdits
import Ruscker.Admin.StaleForms
import Ruscker.Admin.SpecRewrites
import Ruscker.Lib.Fingerprint
import Ruscker.Admin.CatalogCache
import Ruscker.Lib.UrlReference
import Ruscker.Routes.Redirects
import Ruscker.Admin.UserCsv
import Ruscker.Admin.UserPages
import Ruscker.Proxy.IdentityCache
import Ruscker.Config.EnvRefs
import Ruscker.Db.Credentials
import Ruscker.Proxy.Spawn
import Ruscker.Admin.Disk
import Ruscker.Lib.Supply
import Ruscker.Admin.SpecImport
import Ruscker.Admin.ImportRaces
import Ruscker.Lib.Moments
import Ruscker.Scaler.Leader
import Ruscker.Config.Interpolate
import Ruscker.Config.Schema
import Ruscker.Db.Landing
import Ruscker.Db.LandingBlocks
import Ruscker.Admin.Export
import Ruscker.Routes.BasePath
import Ruscker.Proxy.Forward
import Ruscker.Proxy.Guard
import Ruscker.Db.Images
import Ruscker.Admin.Images
import Ruscker.Routes.Assets
import Ruscker.Core.Registry
import Ruscker.Proxy.Calls
import Ruscker.Scaler.Capacity
import Ruscker.Proxy.Seats
import Ruscker.Proxy.Reservations
import Ruscker.Proxy.Drops
import Ruscker.Proxy.Balance
import Ruscker.Docker.Spawn
import Ruscker.Docker.Labels
import Ruscker.Docker.MultiHost
import Ruscker.Docker.HostCaps
import Ruscker.Proxy.Inflight
import Ruscker.Proxy.SeatsPg
import Ruscker.Proxy.Logouts
import Ruscker.Lib.KeyedLocks
import Ruscker.Scaler.SpawnLocks
import Ruscker.Proxy.Moves
import Ruscker.Scaler.IdleStops
import Ruscker.Scaler.Reconcile
import Ruscker.Scaler.StalePasses
import Ruscker.Scaler.Deletion
import Ruscker.Lib.IpAddr
import Ruscker.Lib.Utf8
import Ruscker.Proxy.UpstreamHeaders
import Ruscker.Proxy.IdentityHeaders
import Ruscker.Proxy.ForwardedFor
import Ruscker.Lib.Percent
import Ruscker.Proxy.PlantedCookies
import Ruscker.Proxy.UpstreamPaths
import Ruscker.Proxy.Sweeps
import Ruscker.Proxy.Splash
import Ruscker.Lib.Tally
import Ruscker.Proxy.AccessCounter
import Ruscker.Proxy.RateLimit
import Ruscker.Lib.Hysteresis
import Ruscker.Scaler.Flaps
import Ruscker.Docker.Liveness
import Ruscker.Docker.Placements
import Ruscker.Admin.Alerts
import Ruscker.Proxy.WebSocket
import Ruscker.Db.BlockOrder
import Ruscker.Lib.StringLiteral
import Ruscker.Lib.ScriptText
import Ruscker.Routes.RuntimeShim
import Ruscker.Lib.Base64
import Ruscker.Lib.Json
import Ruscker.Proxy.Sticky
import Ruscker.Lib.JsonReaders
import Ruscker.Lib.JsonValue
import Ruscker.Routes.JupyterConfig
import Ruscker.Lib.Scan
import Ruscker.Lib.Spans
import Ruscker.Lib.Nesting
import Ruscker.Admin.Markdown
import Ruscker.Config.RawScan
import Ruscker.Scaler.MixedPools
import Ruscker.Proxy.Rotation
import Ruscker.Proxy.Backstop
import Ruscker.Proxy.SweepWindow
import Ruscker.Admin.SpecHistory
import Ruscker.Routes.SkipList
import Ruscker.Lib.PolicyText
import Ruscker.Routes.ContentPolicy
import Ruscker.Admin.ImageFiles
import Ruscker.Admin.ImageStore
import Ruscker.Admin.ImageNames
import Ruscker.Routes.CardImages
import Ruscker.Lib.Extremes
import Ruscker.Docker.HostChoice
import Ruscker.Proxy.LeastLoaded
import Ruscker.Core.RegistryMap
import Ruscker.Scaler.Lifetimes
import Ruscker.Proxy.HopHeaders
import Ruscker.Scaler.ColdStart
import Ruscker.Lib.Overlaps
import Ruscker.Routes.UpstreamAuthority
import Ruscker.Admin.ProcessLog
import Ruscker.Admin.Activity
import Ruscker.Admin.ImagePulls
import Ruscker.Admin.TextSearch
import Ruscker.Admin.MetricsCache
import Ruscker.Lib.Grouping
import Ruscker.Admin.Dashboard
import Ruscker.Routes.Landing
import Ruscker.Config.Validate
import Ruscker.Docker.CleanConfig
import Ruscker.Lib.Exposition
import Ruscker.Routes.Metrics
import Ruscker.Scaler.SpawnFailures
