import Ruscker.Admin.CatalogCache
import Ruscker.Db.Landing
import Ruscker.Db.LandingBlocks

/-!
# Export and import of the catalog database

An export rebuilds a configuration from the spec rows, the landing row, the landing blocks and
the stored sections.  An import writes a configuration into a database that may hold seeded
rows already.  Between the two the configuration is a YAML text, which is interpolated before
it is parsed.
-/

namespace Ruscker.Admin.Export

open CatalogCache

section Model

variable [Floats]

/-! ## The database -/

/-- The `config_meta` rows hold the sections they read back as. -/
structure Database where
  specs : SpecTable
  landing : LandingRow
  blocks : List BlockRow
  proxyMeta : Option Proxy
  serverMeta : Option Server
  loggingMeta : Option Logging

/-- The spec a row's `config_json` reads back as. -/
def specOf (t : SpecTable) (id : Str) : Option (Spec Settings) :=
  (t.lookup id).map fun row => row.stored.spec

/-- The proxy section without the specs and the landing customization. -/
def proxyMetaValue (p : Proxy) : Proxy :=
  { p with specs := [], landingCustomization := .default }

namespace Database

variable (db : Database)

def proxySection : Proxy := db.proxyMeta.getD .default

/-- The stored sections as an export reads them. -/
def metadata : Proxy × Server × Logging :=
  (proxyMetaValue db.proxySection, db.serverMeta.getD .default, db.loggingMeta.getD .default)

def reconstructConfig : Config :=
  { server := db.serverMeta.getD .default
    proxy := { db.proxySection with
      specs := db.specs.entries.map fun e => e.2.stored.spec
      landingCustomization :=
        { db.landing.fetch with blocks := LandingBlocks.configBlocks db.blocks } }
    logging := db.loggingMeta.getD .default }

def upsertAll (t : SpecTable) (specs : List (Spec Settings)) (now : Int) : SpecTable :=
  specs.foldl (fun t spec => upsertInTx t spec now) t

/-- `import_all`: the blocks are replaced only by a nonempty list. -/
def importAll (config : Config) (ids : Nat → Str) (now : Int) : Database :=
  let lc := config.proxy.landingCustomization
  { specs := upsertAll db.specs config.proxy.specs now
    landing := LandingRow.updateInTx lc
    blocks := if lc.blocks.isEmpty then db.blocks
      else LandingBlocks.replaceAll lc.blocks ids now
    proxyMeta := some (proxyMetaValue config.proxy)
    serverMeta := some config.server
    loggingMeta := some config.logging }

end Database

/-! ## Fresh databases -/

def welcomeHtml : Str :=
  List.flatMap String.toList
    ["<section class=\x22ruscker-welcome\x22>",
     "<h2 class=\x22ruscker-welcome-heading\x22>Welcome to Ruscker</h2>",
     "<p class=\x22ruscker-welcome-sub\x22>Ruscker can host these and more. ",
     "Add your first spec from the admin panel.</p>",
     "<ul class=\x22ruscker-welcome-techs\x22>",
     "<li class=\x22ruscker-welcome-tech\x22 style=\x22--tc:#447099\x22><span>Shiny</span></li>",
     "<li class=\x22ruscker-welcome-tech\x22 style=\x22--tc:#FF4B4B\x22>",
     "<span>Streamlit</span></li>",
     "<li class=\x22ruscker-welcome-tech\x22 style=\x22--tc:#3F4F75\x22><span>Dash</span></li>",
     "<li class=\x22ruscker-welcome-tech\x22 style=\x22--tc:#75AADB\x22>",
     "<span>R Markdown</span></li>",
     "<li class=\x22ruscker-welcome-tech\x22 style=\x22--tc:#39729E\x22><span>Quarto</span></li>",
     "<li class=\x22ruscker-welcome-tech\x22 style=\x22--tc:#F37726\x22><span>Jupyter</span></li>",
     "<li class=\x22ruscker-welcome-tech\x22 style=\x22--tc:#B4C66F\x22><span>Bokeh</span></li>",
     "<li class=\x22ruscker-welcome-tech\x22 style=\x22--tc:#B43E58\x22><span>Plumber</span></li>",
     "<li class=\x22ruscker-welcome-tech\x22 style=\x22--tc:#009688\x22><span>FastAPI</span></li>",
     "<li class=\x22ruscker-welcome-tech\x22 style=\x22--tc:#6E40C9\x22><span>Voilà</span></li>",
     "</ul>",
     "<a class=\x22ruscker-welcome-docs\x22 href=\x22https://ruscker.com\x22 ",
     "target=\x22_blank\x22 rel=\x22noopener\x22>Read the Ruscker manual →</a>",
     "</section>"]

def welcomeBlock (now : Int) : BlockRow :=
  { id := "welcome-seed".toList, slot := "bottom".toList, position := 0, enabled := true,
    title := "Welcome (auto-seeded on first install)".toList, html := welcomeHtml,
    cspOrigins := [], createdAt := now }

/-- What the migrations leave behind. -/
def migrated (now : Int) : Database :=
  { specs := SortedMap.empty, landing := .initial, blocks := [welcomeBlock now],
    proxyMeta := none, serverMeta := none, loggingMeta := none }

/-- The showcase replaces the welcome block by its cards. -/
def seedShowcase (cards : List (Spec Settings)) (now : Int) (db : Database) : Database :=
  { db with
    specs := cards.foldl (fun t card => insertNew t card now) db.specs
    blocks := LandingBlocks.delete db.blocks "welcome-seed".toList }

/-- A database after its first opening: Postgres is migrated, and SQLite gets the showcase
too unless the seeding fails. -/
inductive Fresh (cards : List (Spec Settings)) : Database → Prop
  | migrated (now : Int) : Fresh cards (migrated now)
  | seeded (now now' : Int) : Fresh cards (seedShowcase cards now' (Export.migrated now))

/-! ## The admin operations -/

inductive AdminOp where
  | saveSpec (spec : Spec Settings) (now : Int)
  | createSpec (spec : Spec Settings) (now : Int)
  | setState (id : Str) (active : Bool)
  | deleteSpec (id : Str)
  | updateLanding (lc : LandingCustomization)
  | createBlock (form : BlockForm) (id : Str) (now : Int)
  | updateBlock (id : Str) (form : BlockForm)
  | deleteBlock (id : Str)
  | moveBlock (id : Str) (up : Bool)
  | importConfig (config : Config) (ids : Nat → Str) (now : Int)

def Database.apply (db : Database) : AdminOp → Database
  | .saveSpec spec now => { db with specs := upsertInTx db.specs spec now }
  | .createSpec spec now => { db with specs := insertNew db.specs spec now }
  | .setState id active => { db with specs := CatalogCache.setState db.specs id active }
  | .deleteSpec id => { db with specs := db.specs.erase id }
  | .updateLanding lc => { db with landing := LandingRow.updateInTx lc }
  | .createBlock form id now =>
    { db with blocks := LandingBlocks.insert db.blocks form.intoInput id now }
  | .updateBlock id form => { db with blocks := LandingBlocks.update db.blocks id form.intoInput }
  | .deleteBlock id => { db with blocks := LandingBlocks.delete db.blocks id }
  | .moveBlock id up => { db with blocks := LandingBlocks.moveBlock db.blocks id up }
  | .importConfig config ids now => db.importAll config ids now

/-- The databases the operations lead to. -/
inductive Reachable (cards : List (Spec Settings)) : Database → Prop
  | fresh {db : Database} : Fresh cards db → Reachable cards db
  | apply {db : Database} (op : AdminOp) : Reachable cards db → Reachable cards (db.apply op)

/-! ## What survives the loop -/

/-- Nothing of `db` is lost or changed in `db'`. -/
structure SameConfig (db db' : Database) : Prop where
  specs : ∀ id s, specOf db.specs id = some s → specOf db'.specs id = some s
  landing : db'.landing.fetch = db.landing.fetch
  blocks : LandingBlocks.configBlocks db'.blocks = LandingBlocks.configBlocks db.blocks
  metadata : db'.metadata = db.metadata

/-- The printed export is read back and its import has everything. -/
def RoundTrips (yaml : Yaml) (env : Environment) (db fresh : Database) (ids : Nat → Str)
    (now : Int) : Prop :=
  ∃ config, Config.fromYaml yaml env (yaml.print db.reconstructConfig) = .ok config ∧
    SameConfig db (fresh.importAll config ids now)

/-- The import has the exported rows over those the database was opened with, and keeps the
blocks of the opening where the export has none. -/
structure Restored (db fresh db' : Database) : Prop where
  specs : ∀ id, specOf db'.specs id = (specOf db.specs id).or (specOf fresh.specs id)
  landing : db'.landing.fetch = db.landing.fetch
  blocks : LandingBlocks.configBlocks db'.blocks =
    if LandingBlocks.configBlocks db.blocks = [] then LandingBlocks.configBlocks fresh.blocks
    else LandingBlocks.configBlocks db.blocks
  metadata : db'.metadata = db.metadata

/-! ## Rows under their own ids -/

/-- Every row is stored under the id of its spec. -/
def Keyed (t : SpecTable) : Prop := ∀ id s, specOf t id = some s → s.id = id

section Rows

variable {t : SpecTable} {spec : Spec Settings} {now : Int} {id : Str}

theorem specOf_upsertInTx (t : SpecTable) (spec : Spec Settings) (now : Int) (id : Str) :
    specOf (upsertInTx t spec now) id = if id = spec.id then some spec else specOf t id := by
  unfold upsertInTx specOf
  cases hrow : t.lookup spec.id with
  | none =>
    by_cases hid : id = spec.id
    · simp [hid]
    · simp [hid]
  | some old =>
    by_cases hsame : old.stored.spec = spec
    · by_cases hid : id = spec.id
      · simp [hid, hrow, hsame]
      · simp [hid, hsame]
    · by_cases hid : id = spec.id
      · simp [hid, hsame]
      · simp [hid, hsame]

theorem Keyed.upsertInTx (h : Keyed t) : Keyed (upsertInTx t spec now) := by
  intro id s hs
  rw [specOf_upsertInTx] at hs
  split at hs
  · next hid =>
    cases hs
    exact hid.symm
  · exact h id s hs

theorem Keyed.insertNew (h : Keyed t) : Keyed (insertNew t spec now) := by
  unfold CatalogCache.insertNew
  split
  · exact h
  · exact h.upsertInTx

theorem Keyed.erase (h : Keyed t) : Keyed (t.erase id) := by
  intro id' s hs
  unfold specOf at hs
  rw [SortedMap.lookup_erase] at hs
  split at hs
  · cases hs
  · exact h id' s hs

theorem Keyed.setState (h : Keyed t) {active : Bool} :
    Keyed (CatalogCache.setState t id active) := by
  unfold CatalogCache.setState
  split
  · exact h
  · next row hrow =>
    intro id' s hs
    unfold specOf at hs
    rw [SortedMap.lookup_insert] at hs
    split at hs
    · next hid =>
      cases hs
      have hkey : row.stored.spec.id = id := by
        apply h
        rw [specOf, hrow]
        rfl
      rw [hid]
      unfold SpecEdits.setState
      split
      · exact hkey
      · exact hkey
    · exact h id' s hs

theorem Keyed.upsertAll (h : Keyed t) (specs : List (Spec Settings)) :
    Keyed (Database.upsertAll t specs now) := by
  unfold Database.upsertAll
  induction specs generalizing t with
  | nil => exact h
  | cons s specs ih => exact ih h.upsertInTx

theorem specOf_upsertAll_of_notMem {specs : List (Spec Settings)}
    (h : ∀ s ∈ specs, s.id ≠ id) : specOf (Database.upsertAll t specs now) id = specOf t id := by
  unfold Database.upsertAll
  induction specs generalizing t with
  | nil => rfl
  | cons s specs ih =>
    rw [List.foldl_cons, ih fun r hr => h r (List.mem_cons_of_mem s hr), specOf_upsertInTx,
      if_neg fun hid => h s List.mem_cons_self hid.symm]

theorem specOf_upsertAll_of_mem {specs : List (Spec Settings)}
    (hnodup : (specs.map Spec.id).Nodup) (h : spec ∈ specs) :
    specOf (Database.upsertAll t specs now) spec.id = some spec := by
  induction specs generalizing t with
  | nil => cases h
  | cons s specs ih =>
    obtain ⟨hnew, hrest⟩ := List.nodup_cons.mp hnodup
    rcases List.mem_cons.mp h with rfl | hmem
    · have hother : ∀ r ∈ specs, r.id ≠ spec.id := by
        intro r hr heq
        exact hnew (heq ▸ List.mem_map_of_mem hr)
      exact (specOf_upsertAll_of_notMem hother).trans
        ((specOf_upsertInTx t spec now spec.id).trans (if_pos rfl))
    · exact ih hrest hmem

theorem mem_specs_iff (h : Keyed t) :
    spec ∈ t.entries.map (fun e => e.2.stored.spec) ↔ specOf t spec.id = some spec := by
  constructor
  · intro hmem
    obtain ⟨⟨k, row⟩, hrow, rfl⟩ := List.mem_map.mp hmem
    have hlookup : specOf t k = some row.stored.spec := by
      rw [specOf, SortedMap.mem_entries_iff.mp hrow]
      rfl
    rwa [h k _ hlookup]
  · intro hspec
    obtain ⟨row, hrow, hval⟩ := Option.map_eq_some_iff.mp hspec
    exact List.mem_map.mpr ⟨(spec.id, row), SortedMap.mem_entries_iff.mpr hrow, hval⟩

theorem ids_specs (h : Keyed t) :
    (t.entries.map fun e => e.2.stored.spec).map Spec.id = t.entries.map Prod.fst := by
  rw [List.map_map]
  refine List.map_congr_left fun e he => h e.1 _ ?_
  rw [specOf, SortedMap.mem_entries_iff.mp he]
  rfl

/-- The rows of one table written over those of another. -/
theorem specOf_upsertAll_entries {t₀ : SpecTable} (h : Keyed t₀) (t : SpecTable) (now : Int)
    (id : Str) :
    specOf (Database.upsertAll t (t₀.entries.map fun e => e.2.stored.spec) now) id =
      (specOf t₀ id).or (specOf t id) := by
  cases hspec : specOf t₀ id with
  | some s =>
    have hid := h id s hspec
    subst hid
    refine specOf_upsertAll_of_mem ?_ ((mem_specs_iff h).mpr hspec)
    rw [ids_specs h]
    exact t₀.nodup_keys
  | none =>
    refine specOf_upsertAll_of_notMem fun s hs heq => ?_
    have hs' := (mem_specs_iff h).mp hs
    rw [heq, hspec] at hs'
    cases hs'

end Rows

/-! ## The invariant -/

structure Inv (db : Database) : Prop where
  keyed : Keyed db.specs
  written : db.landing.Written
  known : LandingBlocks.Known db.blocks

namespace Inv

variable {db : Database} {cards : List (Spec Settings)}

theorem migrated (now : Int) : Inv (migrated now) where
  keyed := fun _ _ h => nomatch h
  written := LandingRow.written_initial
  known := by
    intro b hb
    rw [List.mem_singleton.mp hb]
    exact .tail _ List.mem_cons_self

theorem seedShowcase (hinv : Inv db) (now : Int) : Inv (seedShowcase cards now db) where
  keyed := by
    have hfold : ∀ t : SpecTable, Keyed t →
        Keyed (cards.foldl (fun t card => insertNew t card now) t) := by
      induction cards with
      | nil => exact fun _ h => h
      | cons card cards ih => exact fun t h => ih _ h.insertNew
    exact hfold _ hinv.keyed
  written := hinv.written
  known := hinv.known.delete

theorem fresh (h : Fresh cards db) : Inv db := by
  cases h with
  | migrated now => exact migrated now
  | seeded now now' => exact (migrated now).seedShowcase now'

theorem importAll (hinv : Inv db) (config : Config) (ids : Nat → Str) (now : Int) :
    Inv (db.importAll config ids now) where
  keyed := hinv.keyed.upsertAll _
  written := LandingRow.written_updateInTx _
  known := by
    unfold Database.importAll
    dsimp only
    split
    · exact hinv.known
    · exact LandingBlocks.known_importRows ids 0 _ _

theorem apply (hinv : Inv db) (op : AdminOp) : Inv (db.apply op) := by
  obtain ⟨hkeyed, hwritten, hknown⟩ := hinv
  cases op with
  | saveSpec spec now => exact ⟨hkeyed.upsertInTx, hwritten, hknown⟩
  | createSpec spec now => exact ⟨hkeyed.insertNew, hwritten, hknown⟩
  | setState id active => exact ⟨hkeyed.setState, hwritten, hknown⟩
  | deleteSpec id => exact ⟨hkeyed.erase, hwritten, hknown⟩
  | updateLanding lc => exact ⟨hkeyed, LandingRow.written_updateInTx lc, hknown⟩
  | createBlock form id now => exact ⟨hkeyed, hwritten, hknown.insert⟩
  | updateBlock id form => exact ⟨hkeyed, hwritten, hknown.update⟩
  | deleteBlock id => exact ⟨hkeyed, hwritten, hknown.delete⟩
  | moveBlock id up => exact ⟨hkeyed, hwritten, hknown.moveBlock⟩
  | importConfig config ids now =>
    exact Inv.importAll ⟨hkeyed, hwritten, hknown⟩ config ids now

theorem reachable (h : Reachable cards db) : Inv db := by
  induction h with
  | fresh hfresh => exact fresh hfresh
  | apply op _ ih => exact ih.apply op

/-- An export imported into another database. -/
theorem restored (hinv : Inv db) (fresh : Database) (ids : Nat → Str) (now : Int) :
    Restored db fresh (fresh.importAll db.reconstructConfig ids now) where
  specs := specOf_upsertAll_entries hinv.keyed fresh.specs now
  landing := hinv.written.fetch_updateInTx
  blocks := by
    by_cases hnil : LandingBlocks.configBlocks db.blocks = []
    · simp [Database.importAll, Database.reconstructConfig, hnil]
    · have hisEmpty : (LandingBlocks.configBlocks db.blocks).isEmpty = false := by
        simpa using hnil
      simp only [Database.importAll, Database.reconstructConfig, hisEmpty, if_neg hnil]
      exact LandingBlocks.configBlocks_replaceAll hinv.known ids now
  metadata := rfl

end Inv

section Claims

variable {cards : List (Spec Settings)} {db : Database} {yaml : Yaml} {env : Environment}

/-- **Export and import.**  For every database the operations lead to, the printed export
whose text the interpolation leaves alone is read back as it was, and its import into any
database restores the specs, the landing customization, the blocks if there are any, and the
stored sections. -/
theorem export_restored (hdb : Reachable cards db) (hyaml : yaml.ReadsBack db.reconstructConfig)
    (hinert : Inert env (yaml.print db.reconstructConfig)) (fresh : Database)
    (ids : Nat → Str) (now : Int) :
    ∃ config, Config.fromYaml yaml env (yaml.print db.reconstructConfig) = .ok config ∧
      Restored db fresh (fresh.importAll config ids now) :=
  ⟨db.reconstructConfig, fromYaml_print hyaml hinert, (Inv.reachable hdb).restored fresh ids now⟩

end Claims

end Model

/-! ## Printed exports -/

section Printed

def exportHead : List String :=
  ["server:", "  useForwardHeaders: false", "  forward-headers-strategy: null",
   "  secure-cookies: false", "  servlet: null", "  servlet.session.timeout: null",
   "  context-path: null", "  servlet.context-path: null", "  timezone: null", "proxy:",
   "  title: Ruscker", "  landing-page: /", "  hide-navbar: false", "  template-path: null",
   "  heartbeat-rate: 10000", "  heartbeat-timeout: 3600000", "  container-wait-time: 60000",
   "  shutdown-grace-ms: 30000", "  metrics-interval: 0", "  max-body-size: null",
   "  container-log-path: null", "  port: 8080", "  bind-address: 0.0.0.0",
   "  authentication: none", "  specs: []", "  landing-customization:",
   "    header-bg: null", "    header-fg: null", "    header-bg-dark: null",
   "    header-fg-dark: null"]

def exportMiddle : List String :=
  ["    subtitle: null", "    footer: null", "    default-theme: null",
   "    show-search: null", "    show-filters: null", "    logo-mode: null",
   "    logo-size: null", "    logo-margin: null", "    header-preset: null",
   "    card-cover: null", "    card-cover-default: null", "    card-cover-default-dark: null",
   "    catalog-layout: null", "    catalog-density: null", "    analytics-provider: null",
   "    analytics-key: null", "    intro: null", "    intro-locales: {}",
   "    seo-title: null", "    seo-description: null", "    og-image: null",
   "    analytics-html: null", "    analytics-origins: null", "    custom-css: null"]

def exportTail : List String :=
  ["    show-admin-link: null", "    show-highlights: null", "    logos: []",
   "    theme-colors:", "      light:", "        bg: null", "        text: null",
   "        accent: null", "      dark:", "        bg: null", "        text: null",
   "        accent: null", "  metrics-enabled: false", "  hosts: []", "logging:",
   "  file: null"]

/-- The export of a database with a title and blocks and nothing else. -/
def exportText (title : String) (blocks : List String) : Str :=
  (exportHead ++ ("    title: " ++ title) :: exportMiddle ++ blocks ++ exportTail).flatMap
    fun line => line.toList ++ ['\n']

theorem no_dollar_exportLines :
    ∀ line ∈ exportHead ++ exportMiddle ++ exportTail, '$' ∉ line.toList := by
  simp only [exportHead, exportMiddle, exportTail, List.forall_mem_append, List.forall_mem_cons]
  repeat rw [String.toList_ofList]
  repeat' apply And.intro
  all_goals decide

theorem no_dollar_exportText {title : String} {blocks : List String}
    (htitle : '$' ∉ title.toList) (hblocks : ∀ b ∈ blocks, '$' ∉ b.toList) :
    '$' ∉ exportText title blocks := by
  intro hmem
  obtain ⟨line, hline, hdollar⟩ := List.mem_flatMap.mp hmem
  have hnone : '$' ∉ line.toList := by
    have hlines := no_dollar_exportLines line
    simp only [List.mem_append, List.mem_cons] at hline hlines
    rcases hline with ((hhead | rfl | hmiddle) | hblock) | htail
    · exact hlines (.inl (.inl hhead))
    · rw [String.toList_append, List.mem_append]
      exact fun h => h.elim (by decide) htitle
    · exact hlines (.inl (.inr hmiddle))
    · exact hblocks line hblock
    · exact hlines (.inr htail)
  rcases List.mem_append.mp hdollar with htext | hnewline
  · exact hnone htext
  · exact absurd (List.mem_singleton.mp hnewline) (by decide)

end Printed

section Concrete

attribute [local instance] wholeFloats

/-- A library that prints `c` as `text` and reads it back. -/
def printing (text : Str) (c : Config) : Yaml :=
  ⟨fun _ => text, fun t => if t = text then .ok c else .error []⟩

theorem printing_readsBack (text : Str) (c : Config) : (printing text c).ReadsBack c := if_pos rfl

/-- The welcome block deleted. -/
def emptied : Database := (migrated 0).apply (.deleteBlock "welcome-seed".toList)

/-- A block written in its place. -/
def noted : Database :=
  emptied.apply (.createBlock ⟨"top".toList, "Note".toList, "<p>hi</p>".toList, [], some []⟩
    "b1".toList 1)

/-- A title that reads like a reference. -/
def titled : Database :=
  (migrated 0).apply (.updateLanding { LandingCustomization.default with
    title := some "${TEAM} portal".toList })

def noEnv : Environment := fun _ => .notPresent

def emptiedText : Str := exportText "null" ["    blocks: []"]

def titledText : Str := exportText "${TEAM} portal" ["    blocks: []"]

def notedText : Str :=
  exportText "null" ["    blocks:", "    - slot: top", "      title: Note",
    "      html: <p>hi</p>", "      csp-origins: ''", "      enabled: true"]

theorem export_restored_noted :
    ∃ config, Config.fromYaml (printing notedText noted.reconstructConfig) noEnv notedText =
        .ok config ∧
      Restored noted (migrated 0) ((migrated 0).importAll config (Nat.toDigits 10) 2) := by
  have hreach : Reachable [] noted := .apply _ (.apply _ (.fresh (.migrated 0)))
  have hinert : Inert noEnv notedText :=
    inert_of_no_dollar (no_dollar_exportText (by decide) (by decide))
  exact export_restored hreach (printing_readsBack _ _) hinert (migrated 0) (Nat.toDigits 10) 2

/-- **What the loop loses.**  Deleted blocks come back as the block a fresh database is seeded
with, and a text with a reference in it is not read back at all. -/
theorem export_loses :
    (Reachable [] emptied ∧ Fresh [] (migrated 0) ∧
      (printing emptiedText emptied.reconstructConfig).ReadsBack emptied.reconstructConfig ∧
      ¬ RoundTrips (printing emptiedText emptied.reconstructConfig) noEnv emptied (migrated 0)
        (Nat.toDigits 10) 1) ∧
    (Reachable [] titled ∧ Fresh [] (migrated 0) ∧
      (printing titledText titled.reconstructConfig).ReadsBack titled.reconstructConfig ∧
      ¬ RoundTrips (printing titledText titled.reconstructConfig) noEnv titled (migrated 0)
        (Nat.toDigits 10) 1) := by
  refine ⟨⟨.apply _ (.fresh (.migrated 0)), .migrated 0, printing_readsBack _ _, ?_⟩,
    ⟨.apply _ (.fresh (.migrated 0)), .migrated 0, printing_readsBack _ _, ?_⟩⟩
  · rintro ⟨config, hread, hsame⟩
    have hinert : Inert noEnv emptiedText :=
      inert_of_no_dollar (no_dollar_exportText (by decide) (by decide))
    have hconfig := (fromYaml_print (printing_readsBack _ _) hinert).symm.trans hread
    cases hconfig
    have hblocks := congrArg List.length hsame.blocks
    revert hblocks
    decide
  · rintro ⟨config, hread, -⟩
    have hrefused : interpolate noEnv titledText = .error (.missingEnvVar "TEAM".toList) := by
      simp only [titledText, exportText, exportHead, exportMiddle, exportTail, List.cons_append,
        List.nil_append, List.flatMap_cons, List.flatMap_nil, String.toList_append]
      repeat rw [String.toList_ofList]
      decide +kernel
    have herror : Config.fromYaml (printing titledText titled.reconstructConfig) noEnv
        titledText = .error (.env (.missingEnvVar "TEAM".toList)) := by
      rw [Config.fromYaml, hrefused]
    cases herror.symm.trans hread

end Concrete

end Ruscker.Admin.Export
