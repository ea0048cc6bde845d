import Ruscker.Lib.Utf8
import Ruscker.Proxy.Guard

/-!
# Planted cookies

An app may set cookies, but none of Ruscker's own.  `strip_reserved_set_cookies` judges the name
in front of the first `=` of what an app sends; the browser stores what follows and sends it
back, and `filter_ruscker_cookies` judges that.  A cookie without a name is sent back as its
value, which brings a name of its own.
-/

namespace Ruscker.Proxy

open Tokens

/-! ## The filter on texts -/

section Texts

/-- The trimmed text in front of the first `=`. -/
def pairNameText (pair : Str) : Str := Str.trim ((pair.splitOnP (· = '=')).headD [])

def isReservedText (pair : Str) : Bool := isRusckerCookie (utf8 (pairNameText pair))

/-- `filter_ruscker_cookies` on any text; a `Cookie` line that reaches it is visible ASCII. -/
def filterRusckerCookieText (raw : Str) : Option Str :=
  let kept := (tokens (· = ';') isWhitespace raw).filter fun pair => !isReservedText pair
  if kept.isEmpty then none else some ("; ".toList.intercalate kept)

theorem pairNameText_trim (pair : Str) : pairNameText pair.trim = pairNameText pair := by
  refine apply_trim (f := pairNameText) (fun a l ha => ?_) (fun a l ha => ?_) pair
  · have hne : a ≠ '=' := by
      rintro rfl
      cases ha
    unfold pairNameText
    rw [headD_splitOnP, headD_splitOnP, List.takeWhile_cons_of_pos (by simp [hne])]
    exact trim_cons_of_blank ha _
  · unfold pairNameText
    rw [headD_splitOnP, headD_splitOnP, List.takeWhile_append]
    split
    · next hall =>
      have hne : a ≠ '=' := by
        rintro rfl
        cases ha
      rw [List.takeWhile_cons_of_pos (by simp [hne]), List.takeWhile_nil,
        (List.takeWhile_prefix _).eq_of_length hall]
      exact trim_concat_of_blank ha l
    · rfl

/-- One pair is kept as it is, or goes. -/
theorem filterRusckerCookieText_pair {pair : Str} (h : ';' ∉ pair) :
    filterRusckerCookieText pair =
      if pair.trim = [] ∨ isReservedText pair = true then none else some pair.trim := by
  have hsep : ∀ c ∈ pair, decide (c = ';') = false := fun c hc =>
    decide_eq_false fun heq => h (heq ▸ hc)
  have hreserved : isReservedText pair.trim = isReservedText pair := by
    rw [isReservedText, pairNameText_trim, isReservedText]
  have htrim : trim isWhitespace pair = pair.trim := rfl
  unfold filterRusckerCookieText
  rw [tokens_of_noSep hsep, htrim]
  by_cases hblank : pair.trim = []
  · rw [if_pos hblank, if_pos (.inl hblank : pair.trim = [] ∨ isReservedText pair = true)]
    rfl
  · rw [if_neg hblank]
    cases hr : isReservedText pair with
    | true => simp [hreserved.trans hr]
    | false => simp [hreserved.trans hr, hblank]

/-! ### Lines of ASCII -/

variable {raw : Str}

theorem isSemicolon_byte {c : Char} (hc : c.toNat < 128) :
    isSemicolon (Utf8.byte c) = decide (c = ';') := by
  rw [isSemicolon, decide_eq_decide, ← Char.toNat_inj, ← UInt8.toNat_inj, Utf8.toNat_byte hc]
  rfl

theorem isEquals_byte {c : Char} (hc : c.toNat < 128) :
    decide (Utf8.byte c = 61) = decide (c = '=') := by
  rw [decide_eq_decide, ← Char.toNat_inj, ← UInt8.toNat_inj, Utf8.toNat_byte hc]
  rfl

theorem isSpace_byte {c : Char} (hc : c.toNat < 128) :
    isSpace (Utf8.byte c) = isWhitespace c := by
  rw [Bool.eq_iff_iff, isSpace, isWhitespace]
  simp only [Bool.or_eq_true, Bool.and_eq_true, decide_eq_true_eq, UInt8.le_iff_toNat_le,
    ← UInt8.toNat_inj, Utf8.toNat_byte hc]
  show (9 ≤ c.toNat ∧ c.toNat ≤ 13) ∨ c.toNat = 32 ↔ _
  omega

theorem utf8_ascii (h : ∀ c ∈ raw, c.toNat < 128) : utf8 raw = raw.map Utf8.byte :=
  Utf8.encode_ascii h

theorem pairName_utf8 (h : ∀ c ∈ raw, c.toNat < 128) :
    pairName (utf8 raw) = utf8 (pairNameText raw) := by
  have hname : ∀ c ∈ raw.takeWhile (fun c => !decide (c = '=')), c.toNat < 128 := fun c hc =>
    h c ((List.takeWhile_sublist _).subset hc)
  have htake : (raw.map Utf8.byte).takeWhile (fun b => !decide (b = 61)) =
      (raw.takeWhile fun c => !decide (c = '=')).map Utf8.byte := by
    have hpieces : (raw.map Utf8.byte).splitOnP (fun b => decide (b = 61)) =
        (raw.splitOnP fun c => decide (c = '=')).map (List.map Utf8.byte) :=
      splitOnP_map fun c hc => isEquals_byte (h c hc)
    rw [← headD_splitOnP, ← headD_splitOnP, hpieces]
    obtain ⟨x, xs, hsplit⟩ := List.exists_cons_of_ne_nil (List.splitOnP_ne_nil (· = '=') raw)
    rw [hsplit]
    rfl
  rw [utf8_ascii h, pairName, headD_splitOnP, htake, pairNameText, headD_splitOnP, Str.trim,
    trim_map fun c hc => isSpace_byte (hname c hc)]
  exact (utf8_ascii fun c hc => hname c (mem_of_mem_trim hc)).symm

theorem utf8_intercalate (glue : Str) (ts : List Str) :
    utf8 (glue.intercalate ts) = (utf8 glue).intercalate (ts.map utf8) := by
  induction ts with
  | nil => rfl
  | cons t ts ih =>
    cases ts with
    | nil => rw [List.intercalate_singleton, List.map_singleton, List.intercalate_singleton]
    | cons u us =>
      rw [List.intercalate_cons_cons, List.map_cons, List.map_cons, List.intercalate_cons_cons,
        ← List.map_cons, ← ih]
      exact (List.flatMap_append).trans (congrArg (· ++ _) List.flatMap_append)

/-- On the lines a request brings, the filter of texts is that of their bytes. -/
theorem filterRusckerCookies_utf8 (h : ∀ c ∈ raw, c.toNat < 128) :
    filterRusckerCookies (utf8 raw) = (filterRusckerCookieText raw).map utf8 := by
  have hascii : ∀ pair ∈ tokens (· = ';') isWhitespace raw, ∀ c ∈ pair, c.toNat < 128 :=
    fun pair hpair c hc => h c (mem_of_mem_tokens hpair hc)
  have hpairs : cookiePairs (utf8 raw) = (tokens (· = ';') isWhitespace raw).map utf8 := by
    rw [utf8_ascii h, cookiePairs, tokens_map (fun c hc => isSemicolon_byte (h c hc))
      fun c hc => isSpace_byte (h c hc)]
    exact List.map_congr_left fun pair hpair => (utf8_ascii (hascii pair hpair)).symm
  have hkept : ((tokens (· = ';') isWhitespace raw).map utf8).filter (fun pair => !isReserved pair) =
      ((tokens (· = ';') isWhitespace raw).filter fun pair => !isReservedText pair).map utf8 := by
    rw [List.filter_map]
    refine congrArg (List.map utf8) (List.filter_congr fun pair hpair => ?_)
    exact congrArg (!isRusckerCookie ·) (pairName_utf8 (hascii pair hpair))
  unfold filterRusckerCookies filterRusckerCookieText
  rw [hpairs, hkept]
  dsimp only
  rw [List.isEmpty_map]
  split
  · rfl
  · rw [Option.map_some, utf8_intercalate]
    rfl

end Texts

/-! ## What a browser keeps of a cookie -/

section Stored

def isEquals (b : UInt8) : Bool := b = 61

/-- The part of a `Set-Cookie` value in front of its attributes. -/
def cookiePart (raw : Bytes) : Bytes := raw.takeWhile fun b => !isSemicolon b

/-- What a user agent stores; without a `=`, the text is taken for the name or for the value. -/
inductive Stores (raw : Bytes) : (name value : Bytes) → Prop where
  | pair {left right : Bytes} (hpart : cookiePart raw = left ++ 61 :: right)
      (hleft : ∀ b ∈ left, isEquals b = false) : Stores raw (trim isSpace left) (trim isSpace right)
  | nameOnly (hpart : ∀ b ∈ cookiePart raw, isEquals b = false) :
      Stores raw (trim isSpace (cookiePart raw)) []
  | valueOnly (hpart : ∀ b ∈ cookiePart raw, isEquals b = false) :
      Stores raw [] (trim isSpace (cookiePart raw))

/-- What a user agent sends back. -/
def sentBack (name value : Str) : Str := if name = [] then value else name ++ '=' :: value

/-- The name that comes back is the one that was judged, blanks of Unicode apart; a cookie
without a name has a value that brings no reserved one. -/
def ReturnsOwn (name value : Str) : Prop :=
  if name = [] then value.trim ≠ [] ∧ isReservedText value = false
  else name.trim = name ∨ isRusckerCookie (utf8 name.trim) = false

theorem mem_getAll_stripReservedSetCookies {headers : HeaderMap} {v : HeaderValue} :
    v ∈ (stripReservedSetCookies headers).getAll setCookieHeader ↔
      v ∈ headers.getAll setCookieHeader ∧ isReservedName (setCookieName v.raw) = false := by
  unfold stripReservedSetCookies
  dsimp only
  split
  · next hempty =>
    rw [List.isEmpty_iff.mp hempty]
    simp
  · have hremoved : (headers.remove setCookieHeader).getAll setCookieHeader = [] := by
      rw [HeaderMap.getAll_remove, if_pos rfl]
    rw [HeaderMap.getAll, List.map_eq_nil_iff] at hremoved
    rw [HeaderMap.getAll, List.filter_append, hremoved, List.nil_append, List.filter_map,
      List.map_map]
    simp [HeaderMap.getAll, Function.comp_def]

theorem setCookieName_eq (raw : Bytes) :
    setCookieName raw = trim isSpace ((cookiePart raw).takeWhile fun b => !isEquals b) := by
  rw [setCookieName, pairName, headD_splitOnP, headD_splitOnP]
  rfl

theorem isReservedName_utf8 (name : Str) :
    isReservedName (utf8 name) = isRusckerCookie (utf8 name) := by
  have hdecode : (utf8 name).toByteArray.utf8Decode? = some name.toArray :=
    List.utf8Decode?_utf8Encode
  rw [isReservedName, hdecode]
  rfl

variable {raw : Bytes} {name value : Str}

/-- A stored name is the one that was judged. -/
theorem Stores.name_eq {name value : Bytes} (h : Stores raw name value) (hne : name ≠ []) :
    name = setCookieName raw := by
  rw [setCookieName_eq]
  have htake : ∀ {l : Bytes}, (∀ b ∈ l, isEquals b = false) →
      ∀ rest, (l ++ rest).takeWhile (fun b => !isEquals b) =
        l ++ rest.takeWhile fun b => !isEquals b := fun hl rest =>
    List.takeWhile_append_of_pos fun b hb => by rw [hl b hb]; rfl
  cases h with
  | pair hpart hleft =>
    rw [hpart, htake hleft, List.takeWhile_cons_of_neg (by decide), List.append_nil]
  | nameOnly hpart =>
    have hall := htake hpart []
    rw [List.append_nil] at hall
    rw [hall, List.takeWhile_nil, List.append_nil]
  | valueOnly => exact absurd rfl hne

theorem Stores.mem_part {name value : Bytes} (h : Stores raw name value) {b : UInt8}
    (hb : b ∈ name ∨ b ∈ value) : b ∈ cookiePart raw := by
  cases h with
  | pair hpart =>
    rw [hpart]
    rcases hb with hb | hb
    · exact List.mem_append_left _ (mem_of_mem_trim hb)
    · exact List.mem_append_right _ (List.mem_cons_of_mem _ (mem_of_mem_trim hb))
  | nameOnly =>
    rcases hb with hb | hb
    · exact mem_of_mem_trim hb
    · cases hb
  | valueOnly =>
    rcases hb with hb | hb
    · cases hb
    · exact mem_of_mem_trim hb

theorem Stores.not_equals {name value : Bytes} (h : Stores raw name value) :
    ∀ b ∈ name, isEquals b = false := by
  intro b hb
  cases h with
  | pair _ hleft => exact hleft b (mem_of_mem_trim hb)
  | nameOnly hpart => exact hpart b (mem_of_mem_trim hb)
  | valueOnly => cases hb

theorem not_mem_sentBack (h : Stores raw (utf8 name) (utf8 value)) :
    ';' ∉ sentBack name value := by
  have hpart : Utf8.byte ';' ∉ cookiePart raw := fun hmem =>
    absurd (List.mem_takeWhile_imp hmem) (by decide)
  have hname : ';' ∉ name := fun hmem =>
    hpart (h.mem_part (.inl ((Utf8.byte_mem_encode (by decide)).mpr hmem)))
  have hvalue : ';' ∉ value := fun hmem =>
    hpart (h.mem_part (.inr ((Utf8.byte_mem_encode (by decide)).mpr hmem)))
  unfold sentBack
  split
  · exact hvalue
  · intro hmem
    rcases List.mem_append.mp hmem with hmem | hmem
    · exact hname hmem
    · rcases List.mem_cons.mp hmem with heq | hmem
      · exact absurd heq (by decide)
      · exact hvalue hmem

theorem pairNameText_append (hname : '=' ∉ name) (value : Str) :
    pairNameText (name ++ '=' :: value) = name.trim := by
  have hpos : ∀ c ∈ name, (!decide (c = '=')) = true := fun c hc => by
    have hne : c ≠ '=' := fun heq => hname (heq ▸ hc)
    rw [decide_eq_false hne]
    rfl
  rw [pairNameText, headD_splitOnP, List.takeWhile_append_of_pos hpos,
    List.takeWhile_cons_of_neg (by decide), List.append_nil]

theorem trim_append_ne_nil (name value : Str) : (name ++ '=' :: value).trim ≠ [] := by
  have hnot : ∀ s : Str, s.trim = [] → '=' ∉ s := by
    intro s hs hmem
    have hdrop : (s.dropWhile isWhitespace).rdropWhile isWhitespace = [] := hs
    rw [List.rdropWhile_eq_nil_iff] at hdrop
    have hmem' : '=' ∈ s.dropWhile isWhitespace := by
      rw [← List.takeWhile_append_dropWhile (p := isWhitespace) (l := s)] at hmem
      rcases List.mem_append.mp hmem with hmem | hmem
      · exact absurd (List.mem_takeWhile_imp hmem) (by decide)
      · exact hmem
    exact absurd (hdrop '=' hmem') (by decide)
  intro hblank
  exact hnot _ hblank (List.mem_append_right _ List.mem_cons_self)

/-- **A cookie the one filter lets through is the app's for the other unless its value, or a blank
around its name, hides a reserved name.** -/
theorem filterRusckerCookieText_sentBack_iff {headers : HeaderMap} {v : HeaderValue}
    (hpassed : v ∈ (stripReservedSetCookies headers).getAll setCookieHeader)
    (hstored : Stores v.raw (utf8 name) (utf8 value)) :
    filterRusckerCookieText (sentBack name value) = some (sentBack name value).trim ↔
      ReturnsOwn name value := by
  have hjudged := (mem_getAll_stripReservedSetCookies.mp hpassed).2
  have hkept : filterRusckerCookieText (sentBack name value) = some (sentBack name value).trim ↔
      ¬ ((sentBack name value).trim = [] ∨ isReservedText (sentBack name value) = true) := by
    rw [filterRusckerCookieText_pair (not_mem_sentBack hstored)]
    split <;> simp_all
  rw [hkept, not_or, Bool.not_eq_true]
  unfold sentBack ReturnsOwn
  by_cases hname : name = []
  · rw [if_pos hname, if_pos hname]
  · rw [if_neg hname, if_neg hname]
    have hequals : '=' ∉ name := fun hmem =>
      absurd (hstored.not_equals _ ((Utf8.byte_mem_encode (by decide)).mpr hmem)) (by decide)
    rw [isReservedText, pairNameText_append hequals]
    constructor
    · exact fun h => .inr h.2
    · refine fun h => ⟨trim_append_ne_nil name value, h.elim (fun htrim => ?_) id⟩
      have hne : utf8 name ≠ [] := by
        obtain ⟨c, s, rfl⟩ := List.exists_cons_of_ne_nil hname
        exact fun hnil => String.utf8EncodeChar_ne_nil (List.append_eq_nil_iff.mp hnil).1
      rw [← hstored.name_eq hne, isReservedName_utf8] at hjudged
      rw [htrim]
      exact hjudged

/-- A cookie whose value is the portal's session cookie. -/
def plantedCookie : HeaderValue := ⟨bytes "=ruscker_admin_session=EVIL; Path=/", by decide +kernel⟩

theorem planted_cookie_comes_back :
    plantedCookie ∈ (stripReservedSetCookies [(setCookieHeader, plantedCookie)]).getAll
        setCookieHeader ∧
      Stores plantedCookie.raw (utf8 []) (utf8 "ruscker_admin_session=EVIL".toList) ∧
      filterRusckerCookieText (sentBack [] "ruscker_admin_session=EVIL".toList) = none := by
  refine ⟨by decide +kernel, ?_, by decide +kernel⟩
  exact @Stores.pair plantedCookie.raw [] (bytes "ruscker_admin_session=EVIL") (by decide +kernel) nofun

def plainCookie : HeaderValue := ⟨bytes "theme=dark; Path=/", by decide⟩

theorem plain_cookie_is_kept :
    filterRusckerCookieText (sentBack "theme".toList "dark".toList) =
      some (sentBack "theme".toList "dark".toList).trim := by
  have hname : (bytes "theme").any isEquals = false := by decide
  have hstored : Stores plainCookie.raw (utf8 "theme".toList) (utf8 "dark".toList) :=
    @Stores.pair plainCookie.raw (bytes "theme") (bytes "dark") (by decide) fun b hb =>
      Bool.eq_false_iff.mpr (List.any_eq_false.mp hname b hb)
  have hpassed : plainCookie ∈
      (stripReservedSetCookies [(setCookieHeader, plainCookie)]).getAll setCookieHeader := by decide
  exact (filterRusckerCookieText_sentBack_iff hpassed hstored).mpr (.inl (by decide))

end Stored

end Ruscker.Proxy
