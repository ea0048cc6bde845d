import Ruscker.Config.Interpolate

/-!
# Credentials in the raw configuration

The raw text is scanned before it is parsed, line by line, for a key of a secret that is followed
by something else than references to the environment.  What YAML reads in the text is a parameter.
-/

namespace Ruscker.RawScan

/-! ## The scan -/

def sensitiveFields : List Str :=
  ["docker-registry-password".toList, "auth-token".toList, "api-key".toList, "secret".toList]

/-- What a line of `str::lines` is without its end. -/
def stripLineEnd (line : Str) : Str :=
  if line.getLast? = some '\n' then
    if line.dropLast.getLast? = some '\r' then line.dropLast.dropLast else line.dropLast
  else line

/-- `str::lines` -/
def rawLines (raw : Str) : List Str := (splitInclusive raw).map stripLineEnd

/-- The last group of `\s*(.+)$`, which takes a blank back where nothing else is left. -/
def valueGroup (rest : Str) : Option Str :=
  match trimStart rest with
  | [] => rest.getLast?.map fun c => [c]
  | c :: value => some (c :: value)

/-- The last group of `^\s*(field)\s*:\s*(.+)$`. -/
def fieldValue (field line : Str) : Option Str := do
  let rest ← (trimStart line).dropPrefix? field
  let rest ← (trimStart rest).dropPrefix? [':']
  valueGroup rest

/-- The groups of `SENSITIVE_LINE`. -/
def sensitiveLine (line : Str) : Option (Str × Str) :=
  sensitiveFields.findSome? fun field => (fieldValue field line).map fun value => (field, value)

def isQuote (c : Char) : Bool := c = '"' || c = '\x27'

/-- `str::trim_matches` of the quotes. -/
def trimQuotes (value : Str) : Str := Tokens.trim isQuote value

structure EmbeddedCredential where
  field : Str
  line : Nat
  deriving DecidableEq

def credentialOf (line : Str) (idx : Nat) : Option EmbeddedCredential :=
  if (trimStart line).head? = some '#' then none
  else
    match sensitiveLine line with
    | none => none
    | some (field, group) =>
      let unquoted := trimQuotes (Str.trim group)
      if unquoted.isEmpty || isPureEnvRef unquoted then none else some { field, line := idx + 1 }

def scanRawText (raw : Str) : List EmbeddedCredential :=
  (rawLines raw).zipIdx.filterMap fun l => credentialOf l.1 l.2

/-! ## Lines with a literal -/

def passwordKey : Str := "docker-registry-password".toList

/-- A value that is stored as it is written. -/
def Literal (value : Str) : Prop := value ≠ [] ∧ isPureEnvRef value = false

instance (value : Str) : Decidable (Literal value) := inferInstanceAs (Decidable (_ ∧ _))

def Blank (s : Str) : Prop := ∀ c ∈ s, isWhitespace c = true

/-- The line opens with a bare key and its colon. -/
def Keyed (key line rest : Str) : Prop :=
  ∃ indent gap, Blank indent ∧ Blank gap ∧ line = indent ++ (key ++ (gap ++ ':' :: rest))

/-- A literal stands behind the bare key of a password. -/
def ShowsLiteral (line : Str) : Prop :=
  ∃ rest, Keyed passwordKey line rest ∧ Literal (trimQuotes (Str.trim rest))

section Lines

variable {s t line rest key group : Str} {idx : Nat}

theorem trimStart_append (h : Blank s) : trimStart (s ++ t) = trimStart t :=
  List.dropWhile_append_of_pos h

theorem trimStart_cons {c : Char} (h : isWhitespace c = false) : trimStart (c :: s) = c :: s :=
  List.dropWhile_cons_of_neg (by simp [h])

theorem exists_trimStart (s : Str) : ∃ indent, Blank indent ∧ s = indent ++ trimStart s :=
  ⟨s.takeWhile isWhitespace, fun _ hc => List.mem_takeWhile_imp hc,
    List.takeWhile_append_dropWhile.symm⟩

theorem dropPrefix?_iff : s.dropPrefix? key = some rest ↔ s = key ++ rest := by
  rw [List.dropPrefix?_eq_some_iff]
  constructor
  · rintro ⟨key', rfl, hkey⟩
    rw [eq_of_beq hkey]
  · rintro rfl
    exact ⟨key, rfl, BEq.rfl⟩

/-- The group is there where the line has the bare key. -/
theorem fieldValue_eq_some (hkey : ∀ c ∈ key.head?, isWhitespace c = false) (hne : key ≠ []) :
    fieldValue key line = some group ↔ ∃ rest, Keyed key line rest ∧ valueGroup rest = some group := by
  simp only [fieldValue, Option.bind_eq_bind, Option.bind_eq_some_iff, dropPrefix?_iff]
  constructor
  · rintro ⟨s, hs, rest, hrest, hgroup⟩
    obtain ⟨indent, hindent, hline⟩ := exists_trimStart line
    obtain ⟨gap, hgap, hmiddle⟩ := exists_trimStart s
    refine ⟨rest, ⟨indent, gap, hindent, hgap, ?_⟩, hgroup⟩
    rw [hline, hs, hmiddle, hrest]
    rfl
  · rintro ⟨rest, ⟨indent, gap, hindent, hgap, rfl⟩, hgroup⟩
    obtain ⟨c, key, rfl⟩ := List.exists_cons_of_ne_nil hne
    refine ⟨gap ++ ':' :: rest, ?_, rest, ?_, hgroup⟩
    · rw [trimStart_append hindent, List.cons_append, trimStart_cons (hkey c rfl)]
    · rw [trimStart_append hgap]
      rfl

theorem trim_of_blank (h : Blank s) : Str.trim s = [] := by
  rw [Str.trim, Tokens.trim, List.dropWhile_eq_nil_iff.mpr h]
  rfl

theorem trim_trimStart (s : Str) : Str.trim (trimStart s) = Str.trim s := by
  rw [Str.trim, Tokens.trim, trimStart, List.dropWhile_idempotent]
  rfl

/-- The group has what the rest of the line has, but for blanks. -/
theorem trim_valueGroup (h : valueGroup rest = some group) : Str.trim group = Str.trim rest := by
  unfold valueGroup at h
  split at h
  · next hnil =>
    have hblank : Blank rest := List.dropWhile_eq_nil_iff.mp hnil
    obtain ⟨c, hlast, rfl⟩ := Option.map_eq_some_iff.mp h
    have hc : Blank [c] := List.forall_mem_singleton.mpr (hblank c (List.mem_of_mem_getLast? hlast))
    rw [trim_of_blank hblank, trim_of_blank hc]
  · next c value hvalue =>
    cases h
    rw [← hvalue, trim_trimStart]

theorem exists_valueGroup (h : rest ≠ []) : ∃ group, valueGroup rest = some group := by
  unfold valueGroup
  split
  · exact ⟨[rest.getLast h], by rw [List.getLast?_eq_some_getLast h]; rfl⟩
  · exact ⟨_, rfl⟩

theorem sensitiveLine_password : sensitiveLine line = some (passwordKey, group) ↔
    fieldValue passwordKey line = some group := by
  have hfields : sensitiveFields = passwordKey :: sensitiveFields.tail := rfl
  have hothers : ∀ field ∈ sensitiveFields.tail, field ≠ passwordKey := by decide
  rw [sensitiveLine, hfields, List.findSome?_cons]
  cases hvalue : fieldValue passwordKey line with
  | some value => simp
  | none =>
    refine ⟨fun h => ?_, nofun⟩
    obtain ⟨field, hfield, hmatch⟩ := List.exists_of_findSome?_eq_some h
    obtain ⟨value, -, heq⟩ := Option.map_eq_some_iff.mp hmatch
    cases heq
    exact absurd rfl (hothers _ hfield)

theorem passwordKey_head : ∀ c ∈ passwordKey.head?, isWhitespace c = false := by
  have hhead : passwordKey.head? = some 'd' := by decide
  rw [hhead]
  rintro c ⟨⟩
  rfl

theorem passwordKey_ne : passwordKey ≠ [] := by decide

theorem Keyed.not_comment (h : Keyed passwordKey line rest) :
    (trimStart line).head? ≠ some '#' := by
  obtain ⟨indent, gap, hindent, -, rfl⟩ := h
  rw [trimStart_append hindent]
  exact (by decide : passwordKey.head? ≠ some '#')

/-- The scan reports a line where a literal stands behind the key. -/
theorem credentialOf_iff : (∃ w, credentialOf line idx = some w ∧ w.field = passwordKey) ↔
    ShowsLiteral line := by
  constructor
  · rintro ⟨w, hw, hfield⟩
    unfold credentialOf at hw
    split at hw
    · cases hw
    · split at hw
      · cases hw
      · next field group hline =>
        dsimp only at hw
        split at hw
        · cases hw
        · next hliteral =>
          cases hw
          cases hfield
          obtain ⟨rest, hkeyed, hgroup⟩ := (fieldValue_eq_some passwordKey_head passwordKey_ne).mp
            (sensitiveLine_password.mp hline)
          refine ⟨rest, hkeyed, ?_⟩
          rw [← trim_valueGroup hgroup]
          simpa [Literal] using hliteral
  · rintro ⟨rest, hkeyed, hne, hpure⟩
    have hrest : rest ≠ [] := by
      rintro rfl
      exact hne rfl
    obtain ⟨group, hgroup⟩ := exists_valueGroup hrest
    have hline := sensitiveLine_password.mpr
      ((fieldValue_eq_some passwordKey_head passwordKey_ne).mpr ⟨rest, hkeyed, hgroup⟩)
    refine ⟨{ field := passwordKey, line := idx + 1 }, ?_, rfl⟩
    rw [credentialOf, if_neg hkeyed.not_comment, hline]
    dsimp only
    rw [trim_valueGroup hgroup, if_neg (by simp [hne, hpure])]

end Lines

/-- The scan reports a password. -/
def Reports (raw : Str) : Prop := ∃ w ∈ scanRawText raw, w.field = passwordKey

instance (raw : Str) : Decidable (Reports raw) :=
  inferInstanceAs (Decidable (∃ w ∈ scanRawText raw, w.field = passwordKey))

theorem reports_iff {raw : Str} : Reports raw ↔ ∃ line ∈ rawLines raw, ShowsLiteral line := by
  constructor
  · rintro ⟨w, hw, hfield⟩
    obtain ⟨⟨line, idx⟩, hmem, hline⟩ := List.mem_filterMap.mp hw
    exact ⟨line, List.fst_mem_of_mem_zipIdx hmem, credentialOf_iff.mp ⟨w, hline, hfield⟩⟩
  · rintro ⟨line, hmem, hshows⟩
    obtain ⟨idx, hidx⟩ := List.mem_iff_getElem?.mp hmem
    have hreport : ∃ w, credentialOf line idx = some w ∧ w.field = passwordKey :=
      credentialOf_iff.mpr hshows
    obtain ⟨w, hw, hfield⟩ := hreport
    exact ⟨w, List.mem_filterMap.mpr ⟨(line, idx), List.mk_mem_zipIdx_iff_getElem?.mpr hidx, hw⟩,
      hfield⟩

/-! ## Values on lines of their own -/

/-- How a value stands on a line. -/
inductive Style where
  | plain
  | quoted (quote : Char)

def Style.write : Style → Str → Str
  | .plain, value => value
  | .quoted quote, value => quote :: (value ++ [quote])

/-- A value that a style puts on a line as it is, and that quotes removed at its ends leave as it
is. -/
def Style.Suits : Style → Str → Prop
  | .plain, value => Str.trim value = value ∧ trimQuotes value = value
  | .quoted quote, value => isQuote quote = true ∧ trimQuotes value = value

/-- The line opens with the bare key of a password and has nothing but the value behind it. -/
def Written (value line : Str) : Prop :=
  ∃ style sep trail, Style.Suits style value ∧ Blank sep ∧ Blank trail ∧
    Keyed passwordKey line (sep ++ (style.write value ++ trail))

section Written

variable {value line rest rest' : Str}

theorem Keyed.unique (h : Keyed passwordKey line rest) (h' : Keyed passwordKey line rest') :
    rest = rest' := by
  obtain ⟨indent, gap, hindent, hgap, rfl⟩ := h
  obtain ⟨indent', gap', hindent', hgap', hline⟩ := h'
  have hkey : ∀ s : Str, trimStart (passwordKey ++ s) = passwordKey ++ s :=
    fun s => trimStart_cons (by decide)
  have hcolon : ∀ s : Str, trimStart (':' :: s) = ':' :: s := fun s => trimStart_cons (by decide)
  have hmiddle := congrArg trimStart hline
  rw [trimStart_append hindent, trimStart_append hindent', hkey, hkey] at hmiddle
  have hend := congrArg trimStart (List.append_cancel_left hmiddle)
  rw [trimStart_append hgap, trimStart_append hgap', hcolon, hcolon] at hend
  exact (List.cons.inj hend).2

theorem isWhitespace_of_isQuote {c : Char} (h : isQuote c = true) : isWhitespace c = false := by
  rcases Bool.or_eq_true_iff.mp h with h | h
  · rw [of_decide_eq_true h]
    decide
  · rw [of_decide_eq_true h]
    decide

theorem Style.trimQuotes_write {style : Style} {sep trail : Str} (hsuits : style.Suits value)
    (hsep : Blank sep) (htrail : Blank trail) :
    trimQuotes (Str.trim (sep ++ (style.write value ++ trail))) = value := by
  rw [Str.trim, Tokens.trim_append_left hsep, Tokens.trim_append_right htrail]
  cases style with
  | plain =>
    obtain ⟨htrim, hquotes⟩ := hsuits
    exact (congrArg trimQuotes htrim).trans hquotes
  | quoted quote =>
    obtain ⟨hquote, hquotes⟩ := hsuits
    have hblank := isWhitespace_of_isQuote hquote
    have htrim : Tokens.trim isWhitespace (quote :: (value ++ [quote])) =
        quote :: (value ++ [quote]) := by
      refine Tokens.trim_eq_self_iff.mpr ⟨?_, ?_⟩
      · intro c hc
        cases hc
        exact hblank
      · intro c hc
        rw [← List.cons_append, List.getLast?_concat] at hc
        cases hc
        exact hblank
    rw [Style.write, htrim, trimQuotes, Tokens.trim_cons_of_blank hquote,
      Tokens.trim_concat_of_blank hquote]
    exact hquotes

/-- On a line of its own a value is reported where it is a literal. -/
theorem Written.showsLiteral_iff (h : Written value line) : ShowsLiteral line ↔ Literal value := by
  obtain ⟨style, sep, trail, hsuits, hsep, htrail, hkeyed⟩ := h
  have hvalue := style.trimQuotes_write hsuits hsep htrail
  constructor
  · rintro ⟨rest, hkeyed', hliteral⟩
    rwa [hkeyed'.unique hkeyed, hvalue] at hliteral
  · intro hliteral
    exact ⟨_, hkeyed, by rwa [hvalue]⟩

end Written

/-! ## What YAML reads -/

section Yaml

-- the `docker-registry-password` of each spec that has one, in a text that parses
variable (yaml : Str → Option (List Str))

/-- A password is reported where one that YAML reads is a literal. -/
def Agrees (raw : Str) : Prop :=
  ∀ values, yaml raw = some values → (Reports raw ↔ ∃ value ∈ values, Literal value)

/-- A line that none of the values is written on. -/
def Stray (values : List Str) (line : Str) : Prop := ∀ value ∈ values, ¬ Written value line

/-- A literal is written on a line of its own or shows on a stray line; without one, no stray line
shows a literal. -/
def Visible (values : List Str) (raw : Str) : Prop :=
  ((∃ value ∈ values, Literal value) →
    (∃ value ∈ values, Literal value ∧ ∃ line ∈ rawLines raw, Written value line) ∨
      ∃ line ∈ rawLines raw, Stray values line ∧ ShowsLiteral line) ∧
  ((∀ value ∈ values, ¬ Literal value) →
    ∀ line ∈ rawLines raw, Stray values line → ¬ ShowsLiteral line)

/-- **The scan agrees with YAML** exactly where literals are on lines of their own and the other
lines with the key show none. -/
theorem agrees_iff (raw : Str) : Agrees yaml raw ↔
    ∀ values, yaml raw = some values → Visible values raw := by
  refine forall_congr' fun values => imp_congr_right fun _ => ?_
  rw [reports_iff]
  constructor
  · intro h
    refine ⟨?_, ?_⟩
    · intro hliteral
      obtain ⟨line, hline, hshows⟩ := h.mpr hliteral
      by_cases hstray : Stray values line
      · exact .inr ⟨line, hline, hstray, hshows⟩
      · simp only [Stray, not_forall, not_not] at hstray
        obtain ⟨value, hvalue, hwritten⟩ := hstray
        exact .inl ⟨value, hvalue, hwritten.showsLiteral_iff.mp hshows, line, hline, hwritten⟩
    · intro hnone line hline _ hshows
      obtain ⟨value, hvalue, hliteral⟩ := h.mp ⟨line, hline, hshows⟩
      exact hnone value hvalue hliteral
  · rintro ⟨hsome, hnone⟩
    constructor
    · rintro ⟨line, hline, hshows⟩
      by_contra hno
      push Not at hno
      refine hnone hno line hline (fun value hvalue hwritten => ?_) hshows
      exact hno value hvalue (hwritten.showsLiteral_iff.mp hshows)
    · intro hliteral
      rcases hsome hliteral with ⟨value, -, hvalue, line, hline, hwritten⟩ | ⟨line, hline, -, hshows⟩
      · exact ⟨line, hline, hwritten.showsLiteral_iff.mpr hvalue⟩
      · exact ⟨line, hline, hshows⟩

/-- The password of a list item that opens with it. -/
def firstKey : Str :=
  "proxy:\n  specs:\n    - docker-registry-password: hunter2\n      id: a\n".toList

/-- A reference with a comment behind it. -/
def commented : Str :=
  "proxy:\n  specs:\n    - id: a\n      docker-registry-password: $\x7bREG_PASS\x7d # vault\n".toList

/-- The scan misses the one and reports the other. -/
theorem scan_disagrees :
    ¬ Agrees (fun _ => some ["hunter2".toList]) firstKey ∧
    ¬ Agrees (fun _ => some ["$\x7bREG_PASS\x7d".toList]) commented := by
  refine ⟨fun h => ?_, fun h => ?_⟩
  · have hreports := h _ rfl
    have htext : firstKey = _ := String.toList_ofList
    rw [htext, String.toList_ofList] at hreports
    revert hreports
    decide +kernel
  · have hreports := h _ rfl
    have htext : commented = _ := String.toList_ofList
    rw [htext, String.toList_ofList] at hreports
    revert hreports
    decide +kernel

end Yaml

end Ruscker.RawScan
