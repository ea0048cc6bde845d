import Mathlib.Data.List.TakeWhile
import Ruscker.Lib.Json

/-!
# JSON readers in front of more text

What is read in front of nothing is read in front of more text as well, unless a number goes on
into it.  So a JSON text that is cut off is no JSON text.
-/

namespace Json

def isNumberChar (c : Char) : Bool :=
  c.isDigit || c = '+' || c = '-' || c = '.' || c = 'e' || c = 'E'

/-- A text that no number goes on into. -/
def Stops (s : List Char) : Prop := ∀ c ∈ s.head?, isNumberChar c = false

section Behind

variable {s q rest : List Char}

theorem Stops.isDigit (hq : Stops q) : ∀ c ∈ q.head?, c.isDigit = false := by
  intro c hc
  have hstop := hq c hc
  rw [isNumberChar] at hstop
  simp only [Bool.or_eq_false_iff] at hstop
  exact hstop.1.1.1.1.1

theorem Stops.ne (hq : Stops q) {c : Char} (hc : isNumberChar c = true) (t : List Char) :
    q ≠ c :: t := by
  rintro rfl
  have hstop := hq c rfl
  rw [hc] at hstop
  cases hstop

theorem takeWhile_append_stops (hq : Stops q) :
    (s ++ q).takeWhile Char.isDigit = s.takeWhile Char.isDigit ∧
      (s ++ q).dropWhile Char.isDigit = s.dropWhile Char.isDigit ++ q := by
  induction s with
  | nil =>
    cases q with
    | nil => exact ⟨rfl, rfl⟩
    | cons c q =>
      have hc := hq.isDigit c rfl
      exact ⟨List.takeWhile_cons_of_neg (by simp [hc]), List.dropWhile_cons_of_neg (by simp [hc])⟩
  | cons c s ih =>
    cases hc : c.isDigit with
    | true => simp [hc, ih.1, ih.2]
    | false => simp [hc]

theorem readDigits_append (hq : Stops q) {ds : List Char} (h : readDigits s = some (ds, rest)) :
    readDigits (s ++ q) = some (ds, rest ++ q) := by
  obtain ⟨htake, hdrop⟩ := takeWhile_append_stops (s := s) hq
  unfold readDigits at h ⊢
  rw [htake, hdrop]
  split at h
  · cases h
  · next hne =>
    cases h
    rw [if_neg hne]

theorem readMinus_append (h : s ≠ []) :
    readMinus (s ++ q) = ((readMinus s).1, (readMinus s).2 ++ q) := by
  obtain ⟨c, t, rfl⟩ := List.exists_cons_of_ne_nil h
  by_cases hc : c = '-'
  · subst hc
    rfl
  · simp [readMinus, hc]

theorem readSign_append (h : s ≠ []) :
    readSign (s ++ q) = ((readSign s).1, (readSign s).2 ++ q) := by
  obtain ⟨c, t, rfl⟩ := List.exists_cons_of_ne_nil h
  by_cases hc : c = '+'
  · subst hc
    rfl
  · have hminus := readMinus_append (q := q) h
    simpa [readSign, hc] using hminus

theorem readExponent_append (hq : Stops q) {text : List Char}
    (h : readExponent s = some (text, rest)) :
    readExponent (s ++ q) = some (text, rest ++ q) := by
  cases s with
  | nil =>
    cases h
    cases q with
    | nil => rfl
    | cons c q =>
      have hlower : c ≠ 'e' := fun heq => hq.ne (c := 'e') rfl q (heq ▸ rfl)
      have hupper : c ≠ 'E' := fun heq => hq.ne (c := 'E') rfl q (heq ▸ rfl)
      simp [readExponent, hlower, hupper]
  | cons e s =>
    rw [readExponent] at h
    rw [List.cons_append, readExponent]
    split at h
    · next he =>
      obtain ⟨p, hp, heq⟩ := Option.map_eq_some_iff.mp h
      cases heq
      have hs : s ≠ [] := by
        rintro rfl
        cases hp
      rw [if_pos he, readSign_append hs]
      dsimp only
      rw [readDigits_append hq hp]
      rfl
    · next he =>
      cases h
      rw [if_neg he]
      rfl

theorem readFraction_append (hq : Stops q) {text : List Char}
    (h : readFraction s = some (text, rest)) :
    readFraction (s ++ q) = some (text, rest ++ q) := by
  cases s with
  | nil =>
    cases h
    rw [List.nil_append, readFraction]
    exact fun t => hq.ne rfl t
  | cons c s =>
    by_cases hc : c = '.'
    · subst hc
      rw [readFraction] at h
      obtain ⟨p, hp, heq⟩ := Option.map_eq_some_iff.mp h
      cases heq
      rw [List.cons_append, readFraction, readDigits_append hq hp]
      rfl
    · have hne : ∀ t u : List Char, c :: t ≠ '.' :: u := fun t u heq => hc (List.cons.inj heq).1
      rw [readFraction] at h
      · cases h
        rw [List.cons_append, readFraction]
        exact fun t => hne _ t
      · exact fun t => hne _ t

theorem readInteger_append (hq : Stops q) {text : List Char}
    (h : readInteger s = some (text, rest)) :
    readInteger (s ++ q) = some (text, rest ++ q) := by
  cases s with
  | nil => cases h
  | cons c s =>
    by_cases hc : c = '0'
    · subst hc
      rw [readInteger] at h
      split at h
      · cases h
      · next hdigit =>
        cases h
        rw [List.cons_append, readInteger, if_neg]
        cases rest with
        | nil =>
          intro hany
          obtain ⟨d, hd, hdigit⟩ := (Option.any_eq_true _ _).mp hany
          rw [hq.isDigit d hd] at hdigit
          cases hdigit
        | cons d rest => exact hdigit
    · have hne : ∀ t u : List Char, c :: t ≠ '0' :: u := fun t u heq => hc (List.cons.inj heq).1
      rw [readInteger] at h
      · rw [List.cons_append, readInteger]
        · exact readDigits_append hq h
        · exact fun t => hne _ t
      · exact fun t => hne _ t

/-- A number is read the same in front of more text. -/
theorem readNumber_append (hq : Stops q) {text : List Char}
    (h : readNumber s = some (text, rest)) : readNumber (s ++ q) = some (text, rest ++ q) := by
  have hs : s ≠ [] := by
    rintro rfl
    cases h
  unfold readNumber at h ⊢
  obtain ⟨integer, hinteger, h⟩ := Option.bind_eq_some_iff.mp h
  obtain ⟨fraction, hfraction, h⟩ := Option.bind_eq_some_iff.mp h
  obtain ⟨exponent, hexponent, h⟩ := Option.bind_eq_some_iff.mp h
  cases h
  rw [readMinus_append hs]
  simp only [readInteger_append hq hinteger, readFraction_append hq hfraction,
    readExponent_append hq hexponent, Option.bind_eq_bind, Option.bind_some]

theorem readString_append {ps : List Piece} (h : readString s = some (ps, rest)) :
    readString (s ++ q) = some (ps, rest ++ q) := by
  fun_induction readString s generalizing ps rest with
  | case2 s =>
    cases h
    rfl
  | case3 s c₁ c₂ c₃ c₄ a b c d ha hb hc hd ih =>
    obtain ⟨p, hp, heq⟩ := Option.map_eq_some_iff.mp h
    cases heq
    simp only [List.cons_append, readString, hd, hc, hb, ha, ih hp, Option.map_some]
  | case5 s c₁ hu c hc ih =>
    obtain ⟨p, hp, heq⟩ := Option.map_eq_some_iff.mp h
    cases heq
    rw [List.cons_append, List.cons_append, readString_short hc, ih hp]
    rfl
  | case8 c s hquote hu hslash hplain ih =>
    obtain ⟨p, hp, heq⟩ := Option.map_eq_some_iff.mp h
    cases heq
    simp only [Bool.or_eq_true, decide_eq_true_eq, not_or] at hplain
    rw [List.cons_append, readString_plain (Nat.le_of_not_lt hplain.1) hquote hplain.2, ih hp]
    rfl
  | _ => cases h

theorem skip_append (h : skip s ≠ []) : skip (s ++ q) = skip s ++ q := by
  induction s with
  | nil => exact absurd rfl h
  | cons c s ih =>
    cases hc : isBlank c with
    | true =>
      have hskip : ∀ t, skip (c :: t) = skip t := fun t => List.dropWhile_cons_of_pos hc
      rw [hskip] at h ⊢
      rw [List.cons_append, hskip, ih h]
    | false => rw [List.cons_append, skip_cons hc, skip_cons hc, List.cons_append]

theorem skip_append_of_nil (h : skip s = []) : skip (s ++ q) = skip q := by
  induction s with
  | nil => rfl
  | cons c s ih =>
    cases hc : isBlank c with
    | true =>
      have hskip : ∀ t, skip (c :: t) = skip t := fun t => List.dropWhile_cons_of_pos hc
      rw [hskip] at h
      rw [List.cons_append, hskip, ih h]
    | false =>
      rw [skip_cons hc] at h
      cases h

theorem skip_cons_append {c : Char} {t : List Char} (h : skip s = c :: t) :
    skip (s ++ q) = c :: (t ++ q) := by
  rw [skip_append (by simp [h]), h, List.cons_append]

theorem isBlank_skip {c : Char} {t : List Char} (h : skip s = c :: t) : isBlank c = false := by
  have hhead := List.head?_dropWhile_not isBlank s
  have hs : s.dropWhile isBlank = c :: t := h
  rw [hs] at hhead
  simpa using hhead

@[simp] theorem skip_skip : skip (skip s) = skip s := by
  cases h : skip s with
  | nil => rfl
  | cons c t => exact skip_cons (isBlank_skip h)

/-- What starts like a number is read as one. -/
theorem readValue_number {n : Nat} {c : Char} {t : List Char} (hs : skip s = c :: t)
    (hc : isNumberChar c = true) :
    readValue (n + 1) s = (readNumber (c :: t)).map fun p => (.num p.1, p.2) := by
  have hne : ∀ d : Char, isNumberChar d = false → c ≠ d := by
    rintro d hd rfl
    rw [hc] at hd
    cases hd
  rw [readValue, hs]
  split
  · next heq => exact absurd (List.cons.inj heq).1 (hne _ rfl)
  · next heq => exact absurd (List.cons.inj heq).1 (hne _ rfl)
  · next heq => exact absurd (List.cons.inj heq).1 (hne _ rfl)
  · next heq => exact absurd (List.cons.inj heq).1 (hne _ rfl)
  · next heq => exact absurd (List.cons.inj heq).1 (hne _ rfl)
  · next heq => exact absurd (List.cons.inj heq).1 (hne _ rfl)
  · rfl

/-- A text of a number's characters in front of the rest. -/
def Numeric (s text rest : List Char) : Prop := s = text ++ rest ∧ ∀ c ∈ text, isNumberChar c = true

theorem isNumberChar_of_isDigit {c : Char} (h : c.isDigit = true) : isNumberChar c = true := by
  rw [isNumberChar, h]
  rfl

theorem numeric_nil : Numeric s [] s := ⟨rfl, nofun⟩

theorem Numeric.cons {text : List Char} (h : Numeric s text rest) {c : Char}
    (hc : isNumberChar c = true) : Numeric (c :: s) (c :: text) rest := by
  refine ⟨congrArg (c :: ·) h.1, ?_⟩
  intro d hd
  rcases List.mem_cons.mp hd with rfl | hd
  · exact hc
  · exact h.2 d hd

theorem Numeric.append {text text' mid : List Char} (h : Numeric s text mid)
    (h' : Numeric mid text' rest) : Numeric s (text ++ text') rest := by
  refine ⟨by rw [h.1, h'.1, List.append_assoc], ?_⟩
  intro c hc
  rcases List.mem_append.mp hc with hc | hc
  · exact h.2 c hc
  · exact h'.2 c hc

theorem numeric_readDigits {ds : List Char} (h : readDigits s = some (ds, rest)) :
    Numeric s ds rest ∧ ds ≠ [] := by
  unfold readDigits at h
  split at h
  · cases h
  · next hne =>
    cases h
    refine ⟨⟨List.takeWhile_append_dropWhile.symm, ?_⟩, hne⟩
    intro c hc
    exact isNumberChar_of_isDigit (List.mem_takeWhile_imp hc)

theorem numeric_readMinus : Numeric s (readMinus s).1 (readMinus s).2 := by
  unfold readMinus
  split
  · exact numeric_nil.cons rfl
  · exact numeric_nil

theorem numeric_readSign : Numeric s (readSign s).1 (readSign s).2 := by
  unfold readSign
  split
  · exact numeric_nil.cons rfl
  · exact numeric_readMinus

theorem numeric_readExponent {text : List Char} (h : readExponent s = some (text, rest)) :
    Numeric s text rest := by
  unfold readExponent at h
  split at h
  · next e s =>
    split at h
    · next he =>
      obtain ⟨p, hp, heq⟩ := Option.map_eq_some_iff.mp h
      cases heq
      refine (numeric_readSign.append (numeric_readDigits hp).1).cons ?_
      rw [isNumberChar]
      simp only [Bool.or_eq_true] at he ⊢
      tauto
    · cases h
      exact numeric_nil
  · cases h
    exact numeric_nil

theorem numeric_readFraction {text : List Char} (h : readFraction s = some (text, rest)) :
    Numeric s text rest := by
  unfold readFraction at h
  split at h
  · obtain ⟨p, hp, heq⟩ := Option.map_eq_some_iff.mp h
    cases heq
    exact (numeric_readDigits hp).1.cons rfl
  · cases h
    exact numeric_nil

theorem numeric_readInteger {text : List Char} (h : readInteger s = some (text, rest)) :
    Numeric s text rest ∧ text ≠ [] := by
  unfold readInteger at h
  split at h
  · split at h
    · cases h
    · cases h
      exact ⟨numeric_nil.cons rfl, List.cons_ne_nil _ _⟩
  · exact numeric_readDigits h

/-- A number is a text of its own characters. -/
theorem numeric_readNumber {text : List Char} (h : readNumber s = some (text, rest)) :
    Numeric s text rest ∧ text ≠ [] := by
  unfold readNumber at h
  obtain ⟨integer, hinteger, h⟩ := Option.bind_eq_some_iff.mp h
  obtain ⟨fraction, hfraction, h⟩ := Option.bind_eq_some_iff.mp h
  obtain ⟨exponent, hexponent, h⟩ := Option.bind_eq_some_iff.mp h
  cases h
  obtain ⟨hnumeric, hne⟩ := numeric_readInteger hinteger
  refine ⟨numeric_readMinus.append (hnumeric.append
    ((numeric_readFraction hfraction).append (numeric_readExponent hexponent))), ?_⟩
  simp [hne]

theorem readNumber_head {p : List Char × List Char} (h : readNumber s = some p) :
    ∃ c t, s = c :: t ∧ isNumberChar c = true := by
  obtain ⟨⟨hs, hall⟩, hne⟩ := numeric_readNumber h
  obtain ⟨c, t, htext⟩ := List.exists_cons_of_ne_nil hne
  rw [htext] at hs hall
  exact ⟨c, t ++ p.2, hs, hall c List.mem_cons_self⟩

/-- A reader that reads the same in front of more text. -/
def Continues {α : Type*} (q : List Char) (read : List Char → Option (α × List Char)) : Prop :=
  ∀ s a rest, read s = some (a, rest) → read (s ++ q) = some (a, rest ++ q)

theorem map_continues {α β : Type*} {o o' : Option (α × List Char)} {f : α → β} {b : β}
    (h : (o.map fun p => (f p.1, p.2)) = some (b, rest))
    (hread : ∀ a, o = some (a, rest) → o' = some (a, rest ++ q)) :
    (o'.map fun p => (f p.1, p.2)) = some (b, rest ++ q) := by
  obtain ⟨p, hp, heq⟩ := Option.map_eq_some_iff.mp h
  cases heq
  rw [hread _ hp]
  rfl

theorem readValue_array {n : Nat} {t : List Char} (hs : skip s = '[' :: t) :
    readValue (n + 1) s = match skip t with
      | ']' :: r => some (.arr [], r)
      | r => (readItems n r).map fun p => (.arr p.1, p.2) := by
  rw [readValue, hs]
  rfl

theorem readValue_object {n : Nat} {t : List Char} (hs : skip s = '{' :: t) :
    readValue (n + 1) s = match skip t with
      | '}' :: r => some (.obj [], r)
      | r => (readMembers n r).map fun p => (.obj p.1, p.2) := by
  rw [readValue, hs]
  rfl

theorem readValue_continues {n : Nat} (hq : Stops q) (hitems : Continues q (readItems n))
    (hmembers : Continues q (readMembers n)) : Continues q (readValue (n + 1)) := by
  intro s a rest h
  rw [readValue] at h
  split at h
  · next heq =>
    cases h
    rw [readValue, skip_cons_append heq]
    rfl
  · next heq =>
    cases h
    rw [readValue, skip_cons_append heq]
    rfl
  · next heq =>
    cases h
    rw [readValue, skip_cons_append heq]
    rfl
  · next heq =>
    rw [readValue, skip_cons_append heq]
    exact map_continues h fun _ => readString_append
  · next t heq =>
    rw [readValue_array (skip_cons_append heq)]
    split at h
    · next heq =>
      cases h
      rw [skip_cons_append heq]
      rfl
    · next hne =>
      have hcons : skip t ≠ [] := by
        intro heq
        obtain ⟨vs, hvs⟩ := exists_of_map h
        exact ne_nil_of_readItems hvs heq
      obtain ⟨d, u, hd⟩ := List.exists_cons_of_ne_nil hcons
      rw [skip_append hcons]
      split
      · next r heq =>
        rw [hd, List.cons_append] at heq
        exact absurd ((List.cons.inj heq).1 ▸ hd) (hne u)
      · exact map_continues h fun _ => hitems _ _ _
  · next t heq =>
    rw [readValue_object (skip_cons_append heq)]
    split at h
    · next heq =>
      cases h
      rw [skip_cons_append heq]
      rfl
    · next hne =>
      have hcons : skip t ≠ [] := by
        intro heq
        obtain ⟨ms, hms⟩ := exists_of_map h
        exact ne_nil_of_readMembers hms heq
      obtain ⟨d, u, hd⟩ := List.exists_cons_of_ne_nil hcons
      rw [skip_append hcons]
      split
      · next r heq =>
        rw [hd, List.cons_append] at heq
        exact absurd ((List.cons.inj heq).1 ▸ hd) (hne u)
      · exact map_continues h fun _ => hmembers _ _ _
  · obtain ⟨p, hp, -⟩ := Option.map_eq_some_iff.mp h
    obtain ⟨c, t, hs, hc⟩ := readNumber_head hp
    rw [readValue_number (skip_cons_append hs) hc]
    rw [hs] at h
    exact map_continues h fun _ => readNumber_append hq

/-- All readers go on being right in front of a text that no number goes on into. -/
theorem continues (hq : Stops q) (n : Nat) :
    Continues q (readValue n) ∧ Continues q (readItems n) ∧ Continues q (readMembers n) := by
  induction n with
  | zero =>
    refine ⟨?_, ?_, ?_⟩
    · intro s a rest h
      cases h
    · intro s a rest h
      cases h
    · intro s a rest h
      cases h
  | succ n ih =>
    obtain ⟨hvalue, hitems, hmembers⟩ := ih
    refine ⟨readValue_continues hq hitems hmembers, ?_, ?_⟩
    · intro s a rest h
      rw [readItems] at h ⊢
      split at h
      · cases h
      · next v r hv =>
        rw [hvalue _ _ _ hv]
        dsimp only
        split at h
        · next heq =>
          rw [skip_cons_append heq]
          exact map_continues h fun _ => hitems _ _ _
        · next heq =>
          cases h
          rw [skip_cons_append heq]
          rfl
        · cases h
    · intro s a rest h
      rw [readMembers] at h ⊢
      split at h
      · next heq =>
        rw [skip_cons_append heq]
        split at h
        · cases h
        · next k r hk =>
          simp only [readString_append hk]
          split at h
          · next heq =>
            simp only [skip_cons_append heq]
            split at h
            · cases h
            · next v r hv =>
              simp only [hvalue _ _ _ hv]
              split at h
              · next heq =>
                simp only [skip_cons_append heq]
                exact map_continues h fun _ => hmembers _ _ _
              · next heq =>
                cases h
                simp only [skip_cons_append heq]
              · cases h
          · cases h
      · cases h

/-- **A JSON text in front of more text is none.** -/
theorem read_append_eq_none {v : Tree} (h : read s = some v) (hq : Stops q) (hne : skip q ≠ []) :
    read (s ++ q) = none := by
  unfold read at h
  split at h
  · next v' rest hvalue =>
    split at h
    · next hrest =>
      have hfuel : 2 * s.length + 2 ≤ 2 * (s ++ q).length + 2 := by
        rw [List.length_append]
        omega
      rw [← readValue_fuel hfuel] at hvalue
      have hread := (continues hq _).1 _ _ _ hvalue
      rw [read, hread]
      dsimp only
      rw [skip_append_of_nil hrest, if_neg hne]
    · cases h
  · cases h

end Behind

end Json
