import Ruscker.Lib.ScriptText
import Ruscker.Lib.StringLiteral
import Ruscker.Proxy.Spawn
import Ruscker.Routes.Redirects

/-!
# Prefixed URLs of an app's pages

A root-absolute URL of an app is put under the path that the app is mounted at: in the served page
by `rewrite_url`, and in the running page by a script that carries the same rule and the path as a
string literal.
-/

namespace Ruscker.Routes.Rewrite

open StringLiterals

/-! ## The served page -/

def skipPrefixes : List Str :=
  ["/admin/".toList, "/admin".toList, "/assets/".toList, "/app/".toList, "/__set/".toList,
    "/__assets__/".toList]

def rewriteUrl (value basePath : Str) : Option Str :=
  let trimmed := value.dropWhile isWhitespace
  if ! ['/'].isPrefixOf trimmed then none
  else if ['/', '/'].isPrefixOf trimmed then none
  else if skipPrefixes.any fun p => p.isPrefixOf trimmed then none
  else if basePath.isPrefixOf trimmed then none
  else some (basePath ++ trimmed.dropWhile fun c => c = '/')

/-! ## The running page -/

/-- `skips` -/
def shimSkips : List Str :=
  ["/admin/".toList, "/admin".toList, "/assets/".toList, "/app/".toList, "/__set/".toList,
    "/__assets__/".toList]

/-- The script's `prefix`, on a string `u`. -/
def shimPrefix (base u : Str) : Str :=
  if u.length = 0 then u
  else if u[0]? ≠ some '/' then u
  else if u[1]? = some '/' then u
  else if shimSkips.any fun p => p.isPrefixOf u then u
  else if base.isPrefixOf u then u
  else base ++ u.dropWhile fun c => c = '/'

/-- `{base:?}` -/
def baseLiteral [DebugTables] (base : Str) : Str := '"' :: (debug base ++ ['"'])

/-- The string that the script has for its base, unless the literal ends the script element. -/
def shimBase [DebugTables] (base : Str) : Option Str :=
  match baseLiteral base with
  | '"' :: literal =>
    if ScriptTexts.Ends literal then none else (read .plain literal).map Prod.fst
  | _ => none

/-- What the script embedded by `build_runtime_shim` makes of a URL. -/
def runtimePrefix [DebugTables] (base u : Str) : Option Str :=
  (shimBase base).map fun b => shimPrefix b u

/-- The path that an app is mounted at, with the configured context path. -/
def appBase (contextPath specId : Str) : Str :=
  mountPrefix (normalizeBasePath contextPath) appPrefix specId ++ ['/']

/-! ## The rule -/

/-- A root-absolute URL that is neither Ruscker's own nor under the base already. -/
def Mounts (base u : Str) : Prop :=
  ['/'] <+: u ∧ ¬ ['/', '/'] <+: u ∧ (∀ p ∈ skipPrefixes, ¬ p <+: u) ∧ ¬ base <+: u

instance (base u : Str) : Decidable (Mounts base u) := inferInstanceAs (Decidable (_ ∧ _))

section Rule

variable {base u value : Str}

theorem any_skip {skips : List Str} : (skips.any fun p => p.isPrefixOf u) = true ↔
    ¬ ∀ p ∈ skips, ¬ p <+: u := by
  rw [List.any_eq_true]
  push Not
  simp only [List.isPrefixOf_iff_prefix]

theorem rewriteUrl_eq : rewriteUrl value base =
    if Mounts base (value.dropWhile isWhitespace) then
      some (base ++ (value.dropWhile isWhitespace).dropWhile fun c => c = '/')
    else none := by
  unfold rewriteUrl
  dsimp only
  simp only [any_skip, Bool.not_eq_true', ← Bool.not_eq_true, List.isPrefixOf_iff_prefix]
  by_cases hmounts : Mounts base (value.dropWhile isWhitespace)
  · have ⟨hroot, hprotocol, hskip, hbase⟩ := hmounts
    rw [if_neg (not_not.mpr hroot), if_neg hprotocol, if_neg (not_not.mpr hskip), if_neg hbase,
      if_pos hmounts]
  · rw [if_neg hmounts]
    split_ifs with hroot hprotocol hskip hbase
    · rfl
    · rfl
    · exact absurd ⟨hroot, hprotocol, hskip, hbase⟩ hmounts
    · rfl
    · rfl

theorem root_prefix_iff : ['/'] <+: u ↔ u[0]? = some '/' := by
  cases u with
  | nil => simp
  | cons c s => simp [List.cons_prefix_cons, eq_comm]

theorem protocol_prefix_iff (h : ['/'] <+: u) : ['/', '/'] <+: u ↔ u[1]? = some '/' := by
  obtain ⟨s, rfl⟩ := h
  cases s with
  | nil => simp
  | cons c s => simp [List.cons_prefix_cons, eq_comm]

theorem shimPrefix_eq : shimPrefix base u =
    if Mounts base u then base ++ u.dropWhile fun c => c = '/' else u := by
  unfold shimPrefix
  have hskips : shimSkips = skipPrefixes := rfl
  simp only [hskips, any_skip, List.isPrefixOf_iff_prefix, ne_eq, ← root_prefix_iff]
  by_cases hroot : ['/'] <+: u
  · have hlength : u.length ≠ 0 := by
      obtain ⟨s, rfl⟩ := hroot
      simp
    rw [if_neg hlength, if_neg (not_not.mpr hroot)]
    simp only [← protocol_prefix_iff hroot]
    by_cases hmounts : Mounts base u
    · have ⟨_, hprotocol, hskip, hbase⟩ := hmounts
      rw [if_neg hprotocol, if_neg (not_not.mpr hskip), if_neg hbase, if_pos hmounts]
    · rw [if_neg hmounts]
      split_ifs with hprotocol hskip hbase
      · rfl
      · rfl
      · exact absurd ⟨hroot, hprotocol, hskip, hbase⟩ hmounts
      · rfl
  · rw [if_neg fun hmounts : Mounts base u => hroot hmounts.1, if_pos hroot, ite_self]

/-- A mounted URL is none that was under the base. -/
theorem Mounts.ne_append (h : Mounts base u) (t : Str) : base ++ t ≠ u := by
  rintro rfl
  exact h.2.2.2 (List.prefix_append _ _)

theorem Mounts.trimmed (h : Mounts base u) : u.dropWhile isWhitespace = u := by
  obtain ⟨s, rfl⟩ := h.1
  rfl

end Rule

/-! ## The literal -/

section Literal

variable {base : Str} {c : Char}

theorem toNat_of_toLower {a : Char} (h : c.toLower = a) :
    c.toNat = a.toNat ∨ (65 ≤ c.toNat ∧ c.toNat ≤ 90 ∧ c.toNat + 32 = a.toNat) := by
  have hnat := congrArg Char.toNat h
  rw [toNat_toLower] at hnat
  split at hnat
  · next hupper => exact .inr ⟨hupper.1, hupper.2, hnat⟩
  · exact .inl hnat

theorem exists_digit_of_mem {n : Nat} (h : c ∈ Nat.toDigits 16 n) : ∃ d < 16, c = d.digitChar := by
  induction n using Nat.strong_induction_on with
  | _ n ih =>
    by_cases hn : n < 16
    · rw [Nat.toDigits_of_lt_base hn] at h
      exact ⟨n, hn, List.mem_singleton.mp h⟩
    · rw [Nat.toDigits_of_base_le (by decide) (by omega), List.mem_append] at h
      rcases h with h | h
      · exact ih (n / 16) (by omega) h
      · exact ⟨n % 16, by omega, List.mem_singleton.mp h⟩

variable [DebugTables]

/-- The escapes of a character do not start an end tag. -/
theorem lt_notMem_escape : '<' ∉ ((escapeDebug c).tail).map Char.toLower := by
  have hdigits : '<' ∉ (Nat.toDigits 16 c.toNat).map Char.toLower := by
    intro hmem
    obtain ⟨b, hb, hlower⟩ := List.mem_map.mp hmem
    obtain ⟨d, hd, rfl⟩ := exists_digit_of_mem hb
    have hall : ∀ d : Fin 16, d.val.digitChar.toLower ≠ '<' := by decide
    exact hall ⟨d, hd⟩ hlower
  unfold escapeDebug
  split_ifs with hnull htab hreturn hnewline hquote hascii hprintable
  · decide
  · decide
  · decide
  · decide
  · rcases hquote with rfl | rfl
    · decide
    · decide
  · simp
  · simp
  · simp only [unicodeEscape, List.cons_append, List.nil_append, List.tail_cons, List.map_cons,
      List.map_append, List.mem_cons, List.mem_append, not_or]
    exact ⟨by decide, by decide, hdigits, by decide⟩

/-- The characters of an end tag are printed as themselves. -/
def Plain (a : Char) : Prop := 0x23 ≤ a.toNat ∧ a.toNat ≤ 0x7a ∧ a ≠ '\\'

instance : DecidablePred Plain := fun _ => inferInstanceAs (Decidable (_ ∧ _))

theorem escapeDebug_of_plain {a : Char} (ha : Plain a) (h : c.toLower = a) :
    escapeDebug c = [c] ∧ c ≠ '\\' := by
  obtain ⟨hlow, hhigh, hne⟩ := ha
  have hslash : a.toNat ≠ 92 := fun heq => hne (Char.toNat_inj.mp heq)
  have hc : 0x23 ≤ c.toNat ∧ c.toNat ≤ 0x7a ∧ c.toNat ≠ 92 := by
    rcases toNat_of_toLower h with heq | ⟨hupper, hle, heq⟩
    · omega
    · omega
  have hneq : ∀ b : Char, b.toNat < 0x23 ∨ b.toNat = 92 → c ≠ b := by
    rintro b hb rfl
    omega
  refine ⟨?_, hneq _ (by decide)⟩
  unfold escapeDebug
  rw [if_neg (hneq _ (by decide)), if_neg (hneq _ (by decide)), if_neg (hneq _ (by decide)),
    if_neg (hneq _ (by decide)), if_neg, if_pos ⟨by omega, by omega⟩]
  rintro (heq | heq)
  · exact hneq _ (by decide) heq
  · exact hneq _ (by decide) heq

theorem prefix_literal_iff {w s : Str} (hw : ∀ a ∈ w, Plain a) :
    w <+: (debug s ++ ['"']).map Char.toLower ↔ w <+: s.map Char.toLower := by
  induction w generalizing s with
  | nil => exact iff_of_true (List.nil_prefix) (List.nil_prefix)
  | cons a w ih =>
    have ha := hw a List.mem_cons_self
    cases s with
    | nil =>
      refine iff_of_false ?_ (by simp)
      intro h
      have hquote : a = '"' := (List.cons_prefix_cons.mp h).1
      rw [hquote] at ha
      exact absurd ha.1 (by decide)
    | cons c s =>
      rw [debug_cons]
      rcases escapeDebug_cases (c := c) with ⟨t, heq⟩ | ⟨heq, -⟩
      · rw [heq]
        refine iff_of_false ?_ ?_
        · intro h
          exact ha.2.2 (List.cons_prefix_cons.mp h).1
        · intro h
          have hlower := (List.cons_prefix_cons.mp h).1.symm
          obtain ⟨hself, hne⟩ := escapeDebug_of_plain ha hlower
          rw [heq] at hself
          exact hne (List.cons.inj hself).1.symm
      · rw [heq]
        simp only [List.cons_append, List.nil_append, List.map_cons, List.cons_prefix_cons]
        rw [ih fun b hb => hw b (List.mem_cons_of_mem _ hb)]

/-- The literal has an end tag just when its text has. -/
theorem ends_literal_iff : ScriptTexts.Ends (debug base ++ ['"']) ↔ ScriptTexts.Ends base := by
  induction base with
  | nil =>
    change ScriptTexts.Ends ['"'] ↔ ScriptTexts.Ends []
    decide
  | cons c s ih =>
    have hat : ScriptTexts.AtEnd (debug (c :: s) ++ ['"']) ↔ ScriptTexts.AtEnd (c :: s) := by
      exact prefix_literal_iff (Str.forall_mem_of_all (by decide))
    rw [ScriptTexts.ends_cons, ← hat, ← ih, debug_cons]
    obtain ⟨x, t, heq⟩ : ∃ x t, escapeDebug c = x :: t := by
      rcases escapeDebug_cases (c := c) with ⟨t, heq⟩ | ⟨heq, -⟩
      · exact ⟨_, t, heq⟩
      · exact ⟨_, [], heq⟩
    have hlt := lt_notMem_escape (c := c)
    rw [heq] at hlt ⊢
    rw [List.cons_append, List.cons_append, ScriptTexts.ends_cons]
    refine or_congr_right ?_
    unfold ScriptTexts.Ends
    rw [List.append_assoc, List.map_append]
    constructor
    · exact ScriptTexts.infix_of_head_notMem hlt
    · exact fun h => h.trans (List.suffix_append _ _).isInfix

theorem shimBase_eq : shimBase base =
    if ScriptTexts.Ends base then none else some (literalValue none base) := by
  have hread : read .plain (debug base ++ ['"']) = some (literalValue none base, []) :=
    read_debug none base []
  change (if ScriptTexts.Ends (debug base ++ ['"']) then none
    else (read .plain (debug base ++ ['"'])).map Prod.fst) = _
  rw [hread]
  simp only [ends_literal_iff, Option.map_some]

end Literal

/-! ## The two passes -/

theorem appBase_head (contextPath specId : Str) : ['/'] <+: appBase contextPath specId := by
  unfold appBase mountPrefix
  rcases normalizeBasePath_cases contextPath with hroot | ⟨c, t, heq, -⟩
  · rw [hroot]
    exact ⟨_, rfl⟩
  · rw [heq]
    exact ⟨_, rfl⟩

/-- **The passes agree** on a URL just when the base does not end the script, and either the URL
has no white space in front and the base is read back, or neither pass touches it. -/
theorem runtime_agrees_iff [DebugTables] (contextPath specId u : Str) :
    let base := appBase contextPath specId
    runtimePrefix base u = some ((rewriteUrl u base).getD u) ↔
      ¬ ScriptTexts.Ends base ∧
        ((u.dropWhile isWhitespace = u ∧ ¬ Misread base) ∨
          (¬ Mounts base (u.dropWhile isWhitespace) ∧ ¬ Mounts (literalValue none base) u)) := by
  intro base
  have hhead : ['/'] <+: base := appBase_head contextPath specId
  unfold runtimePrefix
  rw [shimBase_eq, rewriteUrl_eq]
  by_cases hends : ScriptTexts.Ends base
  · simp [hends]
  · rw [if_neg hends, Option.map_some, Option.some.injEq, shimPrefix_eq, and_iff_right hends,
      ← literalValue_eq_self_iff]
    by_cases hserved : Mounts base (u.dropWhile isWhitespace)
    · rw [if_pos hserved, Option.getD_some]
      by_cases hrunning : Mounts (literalValue none base) u
      · rw [if_pos hrunning, hrunning.trimmed]
        simp [hrunning]
      · rw [if_neg hrunning]
        constructor
        · intro heq
          -- the result starts with a slash, so nothing was trimmed
          obtain ⟨t, ht⟩ := hhead
          rw [← ht] at heq
          rw [heq] at hserved
          rw [← ht] at hserved
          exact absurd rfl (hserved.ne_append _)
        · rintro (⟨htrim, hread⟩ | ⟨hnot, -⟩)
          · rw [htrim] at hserved
            rw [hread] at hrunning
            exact absurd hserved hrunning
          · exact absurd hserved hnot
    · rw [if_neg hserved, Option.getD_none]
      by_cases hrunning : Mounts (literalValue none base) u
      · rw [if_pos hrunning]
        constructor
        · intro heq
          exact absurd heq (hrunning.ne_append _)
        · rintro (⟨htrim, hread⟩ | ⟨-, hnot⟩)
          · rw [htrim] at hserved
            rw [hread] at hrunning
            exact absurd hrunning hserved
          · exact absurd hrunning hnot
      · rw [if_neg hrunning]
        simp [hrunning, hserved]

/-- Tables that print what is not ASCII as an escape. -/
@[reducible] def asciiTables : DebugTables := ⟨fun _ => false, fun _ => false⟩

/-- The served page trims the URL, and the running page does not. -/
theorem shim_keeps_blank :
    let _ : DebugTables := asciiTables
    let base := appBase [] "x".toList
    let u := " /lib/a.js".toList
    rewriteUrl u base = some "/app/x/lib/a.js".toList ∧ runtimePrefix base u = some u ∧
      runtimePrefix base u ≠ some ((rewriteUrl u base).getD u) := by
  decide +kernel

end Ruscker.Routes.Rewrite
