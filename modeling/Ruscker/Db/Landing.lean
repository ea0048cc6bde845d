import Ruscker.Config.Schema

/-!
# The landing customization in the database

One row holds the landing customization.  A write trims its texts and stores the blank ones
as `NULL`; the blocks have a table of their own and the sign-in policy is not stored.
-/

namespace Ruscker

/-- `none_if_empty` -/
def noneIfEmpty (s : Option Str) : Option Str := (s.map Str.trim).filter fun t => !t.isEmpty

@[simp] theorem noneIfEmpty_idem (s : Option Str) :
    noneIfEmpty (noneIfEmpty s) = noneIfEmpty s := by
  cases s with
  | none => rfl
  | some t =>
    by_cases ht : t.trim.isEmpty = true
    · simp [noneIfEmpty, Option.filter, ht]
    · simp [noneIfEmpty, Option.filter, ht]

/-- The singleton row.  A JSON column is the value it reads back as. -/
structure LandingRow where
  headerBg : Option Str
  headerFg : Option Str
  headerBgDark : Option Str
  headerFgDark : Option Str
  intro : Option Str
  introLocalesJson : SortedMap Str Str
  seoTitle : Option Str
  seoDescription : Option Str
  ogImage : Option Str
  analyticsHtml : Option Str
  analyticsOrigins : Option Str
  customCss : Option Str
  logosJson : Option (List LandingLogo)
  title : Option Str
  subtitle : Option Str
  themeColorsJson : Option ThemeColors
  showHighlights : Option Bool
  footer : Option Str
  defaultTheme : Option Str
  showSearch : Option Bool
  showFilters : Option Bool
  logoMode : Option Str
  logoSize : Option I64
  logoMargin : Option I64
  headerPreset : Option Str
  cardCover : Option Str
  cardCoverDefault : Option Str
  cardCoverDefaultDark : Option Str
  catalogLayout : Option Str
  catalogDensity : Option Str
  analyticsProvider : Option Str
  analyticsKey : Option Str
  deriving DecidableEq

namespace LandingCustomization

/-- `NULL` when no color is overridden. -/
def themeColorsJson (lc : LandingCustomization) : Option ThemeColors :=
  if lc.themeColors.isEmpty then none else some lc.themeColors

theorem themeColorsJson_getD (lc : LandingCustomization) :
    lc.themeColorsJson.getD ThemeColors.default = lc.themeColors := by
  unfold themeColorsJson
  split
  · next h => exact (ThemeColors.eq_default_of_isEmpty h).symm
  · rfl

end LandingCustomization

namespace LandingRow

/-- The row the migrations leave behind. -/
def initial : LandingRow :=
  { headerBg := none, headerFg := none, headerBgDark := none, headerFgDark := none,
    intro := none, introLocalesJson := SortedMap.empty, seoTitle := none,
    seoDescription := none, ogImage := none, analyticsHtml := none, analyticsOrigins := none,
    customCss := none, logosJson := none, title := none, subtitle := none,
    themeColorsJson := none, showHighlights := none, footer := none, defaultTheme := none,
    showSearch := none, showFilters := none, logoMode := none, logoSize := none,
    logoMargin := none, headerPreset := none, cardCover := none, cardCoverDefault := none,
    cardCoverDefaultDark := none, catalogLayout := none, catalogDensity := none,
    analyticsProvider := none, analyticsKey := none }

def fetch (r : LandingRow) : LandingCustomization :=
  { headerBg := r.headerBg, headerFg := r.headerFg, headerBgDark := r.headerBgDark,
    headerFgDark := r.headerFgDark, intro := r.intro, introLocales := r.introLocalesJson,
    seoTitle := r.seoTitle, seoDescription := r.seoDescription, ogImage := r.ogImage,
    analyticsHtml := r.analyticsHtml, analyticsOrigins := r.analyticsOrigins,
    customCss := r.customCss, blocks := [], showAdminLink := none,
    logos := r.logosJson.getD [], title := r.title, subtitle := r.subtitle,
    themeColors := r.themeColorsJson.getD ThemeColors.default,
    showHighlights := r.showHighlights, footer := r.footer, defaultTheme := r.defaultTheme,
    showSearch := r.showSearch, showFilters := r.showFilters, logoMode := r.logoMode,
    logoSize := r.logoSize, logoMargin := r.logoMargin, headerPreset := r.headerPreset,
    cardCover := r.cardCover, cardCoverDefault := r.cardCoverDefault,
    cardCoverDefaultDark := r.cardCoverDefaultDark, catalogLayout := r.catalogLayout,
    catalogDensity := r.catalogDensity, analyticsProvider := r.analyticsProvider,
    analyticsKey := r.analyticsKey }

/-- `update_in_tx` writes every column. -/
def updateInTx (lc : LandingCustomization) : LandingRow :=
  { headerBg := noneIfEmpty lc.headerBg, headerFg := noneIfEmpty lc.headerFg,
    intro := noneIfEmpty lc.intro, introLocalesJson := lc.introLocales,
    seoTitle := noneIfEmpty lc.seoTitle, seoDescription := noneIfEmpty lc.seoDescription,
    ogImage := noneIfEmpty lc.ogImage, analyticsHtml := noneIfEmpty lc.analyticsHtml,
    analyticsOrigins := noneIfEmpty lc.analyticsOrigins, customCss := noneIfEmpty lc.customCss,
    logosJson := some lc.logos, title := noneIfEmpty lc.title,
    subtitle := noneIfEmpty lc.subtitle, themeColorsJson := lc.themeColorsJson,
    showHighlights := lc.showHighlights, footer := noneIfEmpty lc.footer,
    defaultTheme := noneIfEmpty lc.defaultTheme, showSearch := lc.showSearch,
    showFilters := lc.showFilters, logoMode := noneIfEmpty lc.logoMode,
    logoSize := lc.logoSize, logoMargin := lc.logoMargin,
    headerPreset := noneIfEmpty lc.headerPreset, cardCover := noneIfEmpty lc.cardCover,
    cardCoverDefault := noneIfEmpty lc.cardCoverDefault,
    catalogLayout := noneIfEmpty lc.catalogLayout,
    catalogDensity := noneIfEmpty lc.catalogDensity,
    analyticsProvider := noneIfEmpty lc.analyticsProvider,
    analyticsKey := noneIfEmpty lc.analyticsKey, headerBgDark := noneIfEmpty lc.headerBgDark,
    headerFgDark := noneIfEmpty lc.headerFgDark,
    cardCoverDefaultDark := noneIfEmpty lc.cardCoverDefaultDark }

/-- A customization that was read from a written row is stored as it is. -/
theorem fetch_updateInTx_fetch (lc : LandingCustomization) :
    (updateInTx (updateInTx lc).fetch).fetch = (updateInTx lc).fetch := by
  have hcolors : (updateInTx lc).fetch.themeColorsJson.getD ThemeColors.default =
      lc.themeColors := by
    rw [LandingCustomization.themeColorsJson_getD]
    exact lc.themeColorsJson_getD
  have hcolors' := lc.themeColorsJson_getD
  simp only [updateInTx, fetch, noneIfEmpty_idem, Option.getD_some] at hcolors hcolors' ⊢
  rw [hcolors, hcolors']

/-- What every write of the row leaves behind. -/
def Written (r : LandingRow) : Prop := ∃ lc, r.fetch = (updateInTx lc).fetch

theorem written_initial : Written initial := ⟨LandingCustomization.default, rfl⟩

theorem written_updateInTx (lc : LandingCustomization) : Written (updateInTx lc) := ⟨lc, rfl⟩

theorem Written.fetch_updateInTx {r : LandingRow} (h : Written r) :
    (updateInTx r.fetch).fetch = r.fetch := by
  obtain ⟨lc, hlc⟩ := h
  rw [hlc]
  exact fetch_updateInTx_fetch lc

end LandingRow

end Ruscker
