import Ruscker.Config.Interpolate
import Ruscker.Config.Settings

/-!
# The configuration

The tree of `application.yml`: the server, proxy and logging sections, with the specs and the
landing customization under the proxy.  The YAML library prints a configuration and parses a
text; reading a configuration interpolates the text in front of the parser.
-/

namespace Ruscker

structure SessionConfig where
  timeout : Option U64
  deriving DecidableEq

structure ServletConfig where
  session : Option SessionConfig
  deriving DecidableEq

structure Server where
  useForwardHeaders : Bool
  forwardHeadersStrategy : Option Str
  secureCookies : Bool
  servlet : Option ServletConfig
  flatServletSessionTimeout : Option U64
  contextPath : Option Str
  flatServletContextPath : Option Str
  timezone : Option Str
  deriving DecidableEq

def Server.default : Server :=
  { useForwardHeaders := false, forwardHeadersStrategy := none, secureCookies := false,
    servlet := none, flatServletSessionTimeout := none, contextPath := none,
    flatServletContextPath := none, timezone := none }

structure LoggingFile where
  name : Option Str
  deriving DecidableEq

structure Logging where
  file : Option LoggingFile
  deriving DecidableEq

def Logging.default : Logging := ⟨none⟩

structure HostTls where
  ca : Str
  cert : Str
  key : Str
  deriving DecidableEq

structure Host where
  id : Str
  address : Str
  tls : Option HostTls
  maxContainers : Option U32
  weight : Option U32
  deriving DecidableEq

inductive AuthScheme where
  | none | openId | ldap | saml | simple
  deriving DecidableEq

/-! ## The landing page -/

structure LandingBlock where
  slot : Str
  title : Str
  html : Str
  cspOrigins : Str
  enabled : Bool
  deriving DecidableEq

structure LandingLogo where
  url : Str
  slot : Str
  align : Str
  link : Option Str
  height : Option U32
  margin : Option U32
  deriving DecidableEq

structure ThemePalette where
  bg : Option Str
  text : Option Str
  accent : Option Str
  deriving DecidableEq

def ThemePalette.isEmpty (p : ThemePalette) : Bool :=
  p.bg.isNone && p.text.isNone && p.accent.isNone

structure ThemeColors where
  light : ThemePalette
  dark : ThemePalette
  deriving DecidableEq

namespace ThemeColors

def default : ThemeColors := ⟨⟨none, none, none⟩, ⟨none, none, none⟩⟩

def isEmpty (c : ThemeColors) : Bool := c.light.isEmpty && c.dark.isEmpty

theorem eq_default_of_isEmpty {c : ThemeColors} (h : c.isEmpty = true) : c = default := by
  obtain ⟨⟨lb, lt, la⟩, ⟨db, dt, da⟩⟩ := c
  simp only [isEmpty, ThemePalette.isEmpty, Bool.and_eq_true, Option.isNone_iff_eq_none] at h
  obtain ⟨⟨⟨rfl, rfl⟩, rfl⟩, ⟨rfl, rfl⟩, rfl⟩ := h
  rfl

end ThemeColors

structure LandingCustomization where
  headerBg : Option Str
  headerFg : Option Str
  headerBgDark : Option Str
  headerFgDark : Option Str
  title : Option Str
  subtitle : Option Str
  footer : Option Str
  defaultTheme : Option Str
  showSearch : Option Bool
  showFilters : Option Bool
  logoMode : Option Str
  logoSize : Option I64
  logoMargin : Option I64
  headerPreset : Option Str
  cardCover : Option Str
  cardCoverDefault : Option Str
  cardCoverDefaultDark : Option Str
  catalogLayout : Option Str
  catalogDensity : Option Str
  analyticsProvider : Option Str
  analyticsKey : Option Str
  intro : Option Str
  introLocales : SortedMap Str Str
  seoTitle : Option Str
  seoDescription : Option Str
  ogImage : Option Str
  analyticsHtml : Option Str
  analyticsOrigins : Option Str
  customCss : Option Str
  blocks : List LandingBlock
  showAdminLink : Option Bool
  showHighlights : Option Bool
  logos : List LandingLogo
  themeColors : ThemeColors
  deriving DecidableEq

def LandingCustomization.default : LandingCustomization :=
  { headerBg := none, headerFg := none, headerBgDark := none, headerFgDark := none,
    title := none, subtitle := none, footer := none, defaultTheme := none, showSearch := none,
    showFilters := none, logoMode := none, logoSize := none, logoMargin := none,
    headerPreset := none, cardCover := none, cardCoverDefault := none,
    cardCoverDefaultDark := none, catalogLayout := none, catalogDensity := none,
    analyticsProvider := none, analyticsKey := none, intro := none,
    introLocales := SortedMap.empty, seoTitle := none, seoDescription := none, ogImage := none,
    analyticsHtml := none, analyticsOrigins := none, customCss := none, blocks := [],
    showAdminLink := none, showHighlights := none, logos := [],
    themeColors := ThemeColors.default }

/-! ## The tree -/

section Tree

variable [Floats]

structure Proxy where
  title : Str
  landingPage : Str
  hideNavbar : Bool
  templatePath : Option Str
  heartbeatRate : U64
  heartbeatTimeout : I64
  containerWaitTime : U64
  shutdownGraceMs : U64
  metricsIntervalSecs : U64
  maxBodySize : Option Str
  containerLogPath : Option Str
  port : U16
  bindAddress : Str
  authentication : AuthScheme
  specs : List (Spec Settings)
  landingCustomization : LandingCustomization
  metricsEnabled : Bool
  hosts : List Host
  deriving DecidableEq

def Proxy.default : Proxy :=
  { title := "Ruscker".toList, landingPage := "/".toList, hideNavbar := false,
    templatePath := none, heartbeatRate := ⟨10000, by decide⟩,
    heartbeatTimeout := ⟨3600000, by decide⟩, containerWaitTime := ⟨60000, by decide⟩,
    shutdownGraceMs := ⟨30000, by decide⟩, metricsIntervalSecs := ⟨0, by decide⟩,
    maxBodySize := none, containerLogPath := none, port := ⟨8080, by decide⟩,
    bindAddress := "0.0.0.0".toList, authentication := .none, specs := [],
    landingCustomization := .default, metricsEnabled := false, hosts := [] }

structure Config where
  server : Server
  proxy : Proxy
  logging : Logging
  deriving DecidableEq

/-! ## Reading a configuration -/

inductive ConfigError where
  | env (e : EnvError)
  | yaml (e : Str)
  deriving DecidableEq

/-- The YAML library at the type of the configuration. -/
structure Yaml where
  print : Config → Str
  parse : Str → Except Str Config

/-- The library parses what it printed for `c`. -/
def Yaml.ReadsBack (yaml : Yaml) (c : Config) : Prop := yaml.parse (yaml.print c) = .ok c

/-- `Config::from_yaml` -/
def Config.fromYaml (yaml : Yaml) (env : Environment) (raw : Str) : Except ConfigError Config :=
  match interpolate env raw with
  | .error e => .error (.env e)
  | .ok interpolated =>
    match yaml.parse interpolated with
    | .error e => .error (.yaml e)
    | .ok config => .ok config

variable {yaml : Yaml} {env : Environment} {c : Config}

/-- A printed configuration is read back where the interpolation leaves its text alone. -/
theorem fromYaml_print (hyaml : yaml.ReadsBack c) (hinert : Inert env (yaml.print c)) :
    Config.fromYaml yaml env (yaml.print c) = .ok c := by
  rw [Config.fromYaml, interpolate_of_inert hinert]
  dsimp only
  rw [hyaml]

end Tree

end Ruscker
