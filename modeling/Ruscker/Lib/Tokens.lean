import Mathlib.Data.List.DropRight

/-!
# Separated lists of trimmed tokens

Comma lists, cookie headers and multi-line form fields are all read the same way:
split at a separator, trim each piece, drop the empty ones.  This file treats that
reading over an arbitrary alphabet.  Reading distributes over a separator, every
token it yields is *clean*, and a list of clean tokens survives being written with
padded separators and read back.
-/

namespace Tokens

variable {α : Type*}

/-! ## Trimming -/

/-- Drop the blank elements at both ends. -/
def trim (ws : α → Bool) (l : List α) : List α :=
  (l.dropWhile ws).rdropWhile ws

variable {ws sep : α → Bool}

@[simp] theorem trim_nil : trim ws [] = [] := rfl

theorem trim_sublist (l : List α) : List.Sublist (trim ws l) l :=
  ((List.rdropWhile_prefix ws (l.dropWhile ws)).sublist).trans (List.dropWhile_sublist ws)

theorem mem_of_mem_trim {l : List α} {a : α} (h : a ∈ trim ws l) : a ∈ l :=
  (trim_sublist l).subset h

theorem trim_cons_of_blank {a : α} (h : ws a = true) (l : List α) :
    trim ws (a :: l) = trim ws l := by
  simp [trim, h]

/-- A list whose first element is not blank keeps it under trimming on the right. -/
theorem rdropWhile_cons_of_not_blank {a : α} (h : ws a = false) (l : List α) :
    (a :: l).rdropWhile ws = a :: l.rdropWhile ws := by
  induction l using List.reverseRecOn with
  | nil => simp [List.rdropWhile, h]
  | append_singleton l b ih =>
    rw [← List.cons_append, List.rdropWhile_concat, List.rdropWhile_concat, ih]
    split <;> rfl

theorem trim_cons_of_not_blank {a : α} (h : ws a = false) (l : List α) :
    trim ws (a :: l) = a :: l.rdropWhile ws := by
  simp [trim, h, rdropWhile_cons_of_not_blank h]

@[simp] theorem trim_trim (l : List α) : trim ws (trim ws l) = trim ws l := by
  induction l with
  | nil => rfl
  | cons a l ih =>
    cases h : ws a with
    | true => simpa [trim_cons_of_blank h] using ih
    | false =>
      simp only [trim_cons_of_not_blank h]
      rw [List.rdropWhile_idempotent]

theorem trim_concat_of_blank {a : α} (h : ws a = true) (l : List α) :
    trim ws (l ++ [a]) = trim ws l := by
  induction l with
  | nil => exact trim_cons_of_blank h []
  | cons b l ih =>
    rw [List.cons_append]
    cases hb : ws b with
    | true => rw [trim_cons_of_blank hb, trim_cons_of_blank hb, ih]
    | false =>
      rw [trim_cons_of_not_blank hb, trim_cons_of_not_blank hb, List.rdropWhile_concat_pos ws l a h]

theorem trim_append_left {pad : List α} (h : ∀ a ∈ pad, ws a = true) (l : List α) :
    trim ws (pad ++ l) = trim ws l := by
  rw [trim, List.dropWhile_append_of_pos h, trim]

theorem trim_append_right {pad : List α} (h : ∀ a ∈ pad, ws a = true) (l : List α) :
    trim ws (l ++ pad) = trim ws l := by
  induction pad using List.reverseRecOn with
  | nil => rw [List.append_nil]
  | append_singleton pad a ih =>
    obtain ⟨hpad, ha⟩ := List.forall_mem_append.mp h
    rw [← List.append_assoc, trim_concat_of_blank (ha a List.mem_cons_self), ih hpad]

/-- A text is trimmed exactly when neither of its ends is blank. -/
theorem trim_eq_self_iff {l : List α} :
    trim ws l = l ↔ (∀ a ∈ l.head?, ws a = false) ∧ ∀ a ∈ l.getLast?, ws a = false := by
  cases l with
  | nil => simp
  | cons a l =>
    cases ha : ws a with
    | true =>
      rw [trim_cons_of_blank ha]
      constructor
      · intro heq
        have hsub : List.Sublist (trim ws l) l := trim_sublist l
        have hlen := hsub.length_le
        rw [heq, List.length_cons] at hlen
        omega
      · rintro ⟨hhead, -⟩
        rw [hhead a rfl] at ha
        cases ha
    | false =>
      rw [trim_cons_of_not_blank ha, ← rdropWhile_cons_of_not_blank ha,
        List.rdropWhile_eq_self_iff]
      constructor
      · intro hlast
        refine ⟨fun b hb => ?_, fun b hb => ?_⟩
        · cases hb
          exact ha
        · rw [List.getLast?_eq_some_getLast (List.cons_ne_nil a l)] at hb
          cases hb
          simpa using hlast (List.cons_ne_nil a l)
      · intro h hne
        rw [h.2 _ (List.getLast?_eq_some_getLast hne)]
        exact Bool.false_ne_true

theorem trim_eq_self {l : List α} (h : ∀ a ∈ l, ws a = false) : trim ws l = l :=
  trim_eq_self_iff.mpr ⟨fun a ha => h a (List.mem_of_mem_head? ha),
    fun a ha => h a (List.mem_of_mem_getLast? ha)⟩

/-- What neither a blank at the front nor one at the end can change is a function of the
trimmed text. -/
theorem apply_trim {β : Sort*} {f : List α → β}
    (hfront : ∀ a l, ws a = true → f (a :: l) = f l)
    (hback : ∀ a l, ws a = true → f (l ++ [a]) = f l) (l : List α) : f (trim ws l) = f l := by
  have hdrop : ∀ l : List α, f (l.dropWhile ws) = f l := fun l => by
    induction l with
    | nil => rfl
    | cons a l ih =>
      cases ha : ws a with
      | true => rw [List.dropWhile_cons_of_pos ha, ih, hfront a l ha]
      | false => rw [List.dropWhile_cons_of_neg (by simp [ha])]
  have hrdrop : ∀ l : List α, f (l.rdropWhile ws) = f l := fun l => by
    induction l using List.reverseRecOn with
    | nil => rfl
    | append_singleton l a ih =>
      cases ha : ws a with
      | true => rw [List.rdropWhile_concat_pos ws l a ha, ih, hback a l ha]
      | false => rw [List.rdropWhile_concat_neg ws l a (by simp [ha])]
  rw [trim, hrdrop, hdrop]

/-! ## Tokens -/

/-- The trimmed, nonempty pieces between separators. -/
def tokens (sep ws : α → Bool) (l : List α) : List (List α) :=
  ((l.splitOnP sep).map (trim ws)).filter fun t => !t.isEmpty

/-- What a token looks like: nonempty, without separators, and already trimmed. -/
structure Clean (sep ws : α → Bool) (t : List α) : Prop where
  ne_nil : t ≠ []
  noSep : ∀ a ∈ t, sep a = false
  trimmed : trim ws t = t

@[simp] theorem tokens_nil : tokens sep ws [] = [] := by
  simp [tokens]

/-- Reading distributes over a separator. -/
theorem tokens_append_sep {s : α} (hs : sep s = true) (l r : List α) :
    tokens sep ws (l ++ s :: r) = tokens sep ws l ++ tokens sep ws r := by
  simp [tokens, List.splitOnP_append_cons l r hs]

theorem tokens_of_noSep {l : List α} (h : ∀ a ∈ l, sep a = false) :
    tokens sep ws l = if trim ws l = [] then [] else [trim ws l] := by
  simp only [tokens, List.splitOnP_eq_singleton h, List.map_cons, List.map_nil]
  split
  · next hnil => simp [hnil]
  · next hne => simp [hne]

theorem Clean.tokens_eq {t : List α} (h : Clean sep ws t) : tokens sep ws t = [t] := by
  rw [tokens_of_noSep h.noSep, h.trimmed, if_neg h.ne_nil]

/-- Blank padding in front of a text does not change its tokens. -/
theorem tokens_cons_blank {a : α} (hb : ws a = true) (hs : sep a = false) (l : List α) :
    tokens sep ws (a :: l) = tokens sep ws l := by
  rw [tokens, tokens, List.splitOnP_cons_eq_if_modifyHead, hs]
  cases h : l.splitOnP sep with
  | nil => exact absurd h (List.splitOnP_ne_nil sep l)
  | cons x xs => simp [trim_cons_of_blank hb]

theorem tokens_append_blank {pad : List α} (hb : ∀ a ∈ pad, ws a = true)
    (hs : ∀ a ∈ pad, sep a = false) (l : List α) :
    tokens sep ws (pad ++ l) = tokens sep ws l := by
  induction pad with
  | nil => rfl
  | cons a pad ih =>
    rw [List.cons_append, tokens_cons_blank (hb a (by simp)) (hs a (by simp))]
    exact ih (fun b h => hb b (by simp [h])) fun b h => hs b (by simp [h])

/-- A piece between separators is made of the elements of the text that are not
separators. -/
theorem mem_piece {l t : List α} (h : t ∈ l.splitOnP sep) {a : α} (ha : a ∈ t) :
    a ∈ l ∧ sep a = false := by
  induction l generalizing t with
  | nil => simp_all
  | cons x l ih =>
    rw [List.splitOnP_cons_eq_if_modifyHead] at h
    split at h
    · rcases List.mem_cons.mp h with rfl | h
      · simp at ha
      · exact ⟨List.mem_cons_of_mem x (ih h ha).1, (ih h ha).2⟩
    · next hx =>
      obtain ⟨y, ys, hsplit⟩ := List.exists_cons_of_ne_nil (List.splitOnP_ne_nil sep l)
      rw [hsplit] at h ih
      rcases List.mem_cons.mp h with rfl | h
      · rcases List.mem_cons.mp ha with rfl | ha
        · exact ⟨by simp, by simpa using hx⟩
        · have hy := ih (by simp) ha
          exact ⟨List.mem_cons_of_mem x hy.1, hy.2⟩
      · have ht := ih (List.mem_cons_of_mem y h) ha
        exact ⟨List.mem_cons_of_mem x ht.1, ht.2⟩

theorem exists_piece_of_mem_tokens {l t : List α} (h : t ∈ tokens sep ws l) :
    ∃ piece ∈ l.splitOnP sep, trim ws piece = t ∧ t ≠ [] := by
  simp only [tokens, List.mem_filter, List.mem_map] at h
  obtain ⟨⟨piece, hpiece, rfl⟩, hne⟩ := h
  exact ⟨piece, hpiece, rfl, by simpa using hne⟩

theorem clean_of_mem_tokens {l t : List α} (h : t ∈ tokens sep ws l) : Clean sep ws t := by
  obtain ⟨piece, hpiece, rfl, hne⟩ := exists_piece_of_mem_tokens h
  exact ⟨hne, fun a ha => (mem_piece hpiece (mem_of_mem_trim ha)).2, trim_trim piece⟩

theorem mem_of_mem_tokens {l t : List α} (h : t ∈ tokens sep ws l) {a : α} (ha : a ∈ t) :
    a ∈ l := by
  obtain ⟨piece, hpiece, rfl, -⟩ := exists_piece_of_mem_tokens h
  exact (mem_piece hpiece (mem_of_mem_trim ha)).1

theorem mem_intercalate {glue : List α} {ts : List (List α)} {a : α}
    (h : a ∈ glue.intercalate ts) : a ∈ glue ∨ ∃ t ∈ ts, a ∈ t := by
  induction ts with
  | nil => simp at h
  | cons t ts ih =>
    cases ts with
    | nil => exact .inr ⟨t, by simp, by simpa using h⟩
    | cons u us =>
      rw [List.intercalate_cons_cons, List.mem_append, List.mem_append] at h
      rcases h with (ht | hglue) | hrest
      · exact .inr ⟨t, by simp, ht⟩
      · exact .inl hglue
      · rcases ih hrest with hglue | ⟨v, hv, ha⟩
        · exact .inl hglue
        · exact .inr ⟨v, List.mem_cons_of_mem t hv, ha⟩

/-- Trimmed pieces, none of them empty, make a trimmed text. -/
theorem trim_intercalate {glue : List α} {ts : List (List α)}
    (h : ∀ t ∈ ts, t ≠ [] ∧ trim ws t = t) :
    trim ws (glue.intercalate ts) = glue.intercalate ts := by
  have hends : (∀ a ∈ (glue.intercalate ts).head?, ∃ t ∈ ts, a ∈ t.head?) ∧
      (∀ a ∈ (glue.intercalate ts).getLast?, ∃ t ∈ ts, a ∈ t.getLast?) := by
    induction ts with
    | nil => simp
    | cons t ts ih =>
      obtain ⟨b, t', heq⟩ := List.exists_cons_of_ne_nil (h t List.mem_cons_self).1
      cases ts with
      | nil => simp
      | cons u us =>
        obtain ⟨hhead, hlast⟩ := ih fun v hv => h v (List.mem_cons_of_mem t hv)
        have hne : glue.intercalate (u :: us) ≠ [] := by
          obtain ⟨d, u', hu⟩ := List.exists_cons_of_ne_nil (h u (by simp)).1
          cases us with
          | nil => simp [hu]
          | cons v vs => simp [List.intercalate_cons_cons, hu]
        rw [List.intercalate_cons_cons]
        constructor
        · intro a ha
          refine ⟨t, List.mem_cons_self, ?_⟩
          rw [heq] at ha ⊢
          exact ha
        · intro a ha
          rw [List.getLast?_append, List.getLast?_eq_some_getLast hne, Option.some_or] at ha
          obtain ⟨v, hv, hin⟩ := hlast a (by rw [List.getLast?_eq_some_getLast hne]; exact ha)
          exact ⟨v, List.mem_cons_of_mem t hv, hin⟩
  refine trim_eq_self_iff.mpr ⟨fun a ha => ?_, fun a ha => ?_⟩
  · obtain ⟨t, ht, hin⟩ := hends.1 a ha
    exact (trim_eq_self_iff.mp (h t ht).2).1 a hin
  · obtain ⟨t, ht, hin⟩ := hends.2 a ha
    exact (trim_eq_self_iff.mp (h t ht).2).2 a hin

/-- Reading a joined text reads its parts in turn. -/
theorem tokens_intercalate_eq_flatMap {s : α} {pad : List α} (hs : sep s = true)
    (hb : ∀ a ∈ pad, ws a = true) (hp : ∀ a ∈ pad, sep a = false) (ts : List (List α)) :
    tokens sep ws ((s :: pad).intercalate ts) = ts.flatMap (tokens sep ws) := by
  induction ts with
  | nil => simp
  | cons t ts ih =>
    cases ts with
    | nil => simp
    | cons u us =>
      rw [List.intercalate_cons_cons, List.append_assoc, List.cons_append,
        tokens_append_sep hs, tokens_append_blank hb hp, ih]
      rfl

theorem flatMap_tokens_of_clean {ts : List (List α)} (hts : ∀ t ∈ ts, Clean sep ws t) :
    ts.flatMap (tokens sep ws) = ts := by
  induction ts with
  | nil => rfl
  | cons t ts ih =>
    rw [List.flatMap_cons, (hts t (by simp)).tokens_eq, ih fun u hu => hts u (by simp [hu])]
    rfl

/-- **Writing and reading back.** Clean tokens joined by a separator followed by
blank padding are read back unchanged. -/
theorem tokens_intercalate {s : α} {pad : List α} (hs : sep s = true)
    (hb : ∀ a ∈ pad, ws a = true) (hp : ∀ a ∈ pad, sep a = false)
    {ts : List (List α)} (hts : ∀ t ∈ ts, Clean sep ws t) :
    tokens sep ws ((s :: pad).intercalate ts) = ts := by
  rw [tokens_intercalate_eq_flatMap hs hb hp, flatMap_tokens_of_clean hts]

/-! ## Another alphabet -/

section Map

variable {β : Type*} {f : β → α} {sep' ws' : β → Bool} {l : List β}

/-- The first piece is what stands in front of the first separator. -/
theorem headD_splitOnP (sep : α → Bool) (l : List α) :
    (l.splitOnP sep).headD [] = l.takeWhile fun a => !sep a := by
  induction l with
  | nil => rfl
  | cons a l ih =>
    rw [List.splitOnP_cons_eq_if_modifyHead, List.takeWhile_cons]
    cases ha : sep a with
    | true => rfl
    | false =>
      obtain ⟨x, xs, hsplit⟩ := List.exists_cons_of_ne_nil (List.splitOnP_ne_nil sep l)
      rw [hsplit] at ih ⊢
      exact congrArg (a :: ·) ih

theorem dropWhile_map_congr (h : ∀ b ∈ l, ws (f b) = ws' b) :
    (l.map f).dropWhile ws = (l.dropWhile ws').map f := by
  induction l with
  | nil => rfl
  | cons b l ih =>
    rw [List.map_cons, List.dropWhile_cons, List.dropWhile_cons, h b List.mem_cons_self,
      ih fun c hc => h c (List.mem_cons_of_mem b hc)]
    split <;> rfl

theorem trim_map (h : ∀ b ∈ l, ws (f b) = ws' b) :
    trim ws (l.map f) = (trim ws' l).map f := by
  have hdrop : ∀ b ∈ (l.dropWhile ws').reverse, ws (f b) = ws' b := fun b hb =>
    h b ((List.dropWhile_sublist ws').subset (List.mem_reverse.mp hb))
  rw [trim, trim, dropWhile_map_congr h, List.rdropWhile, List.rdropWhile, ← List.map_reverse,
    dropWhile_map_congr hdrop, List.map_reverse]

theorem splitOnP_map (h : ∀ b ∈ l, sep (f b) = sep' b) :
    (l.map f).splitOnP sep = (l.splitOnP sep').map (List.map f) := by
  induction l with
  | nil => rfl
  | cons b l ih =>
    rw [List.map_cons, List.splitOnP_cons_eq_if_modifyHead, List.splitOnP_cons_eq_if_modifyHead,
      h b List.mem_cons_self, ih fun c hc => h c (List.mem_cons_of_mem b hc)]
    obtain ⟨x, xs, hsplit⟩ := List.exists_cons_of_ne_nil (List.splitOnP_ne_nil sep' l)
    rw [hsplit]
    split <;> rfl

/-- A text is read alike in an alphabet that tells the same separators and blanks apart. -/
theorem tokens_map (hsep : ∀ b ∈ l, sep (f b) = sep' b) (hws : ∀ b ∈ l, ws (f b) = ws' b) :
    tokens sep ws (l.map f) = (tokens sep' ws' l).map (List.map f) := by
  have htrim : ∀ piece ∈ l.splitOnP sep', trim ws (piece.map f) = (trim ws' piece).map f :=
    fun piece hpiece => trim_map fun b hb => hws b (mem_piece hpiece hb).1
  have hpieces : ((l.map f).splitOnP sep).map (trim ws) =
      ((l.splitOnP sep').map (trim ws')).map (List.map f) := by
    rw [splitOnP_map hsep, List.map_map, List.map_map]
    exact List.map_congr_left htrim
  rw [tokens, tokens, hpieces, List.filter_map]
  refine congrArg (List.map (List.map f)) (List.filter_congr fun t _ => ?_)
  exact congrArg (!·) List.isEmpty_map

end Map

/-! ## Looking a piece up in the joined text -/

section Delimited

variable {s : α} {g : List α} {gs : List (List α)}

theorem splitOnP_intercalate (hs : sep s = true) (hgs : ∀ t ∈ gs, ∀ a ∈ t, sep a = false)
    (hne : gs ≠ []) : ([s].intercalate gs).splitOnP sep = gs := by
  induction gs with
  | nil => exact absurd rfl hne
  | cons t ts ih =>
    have ht := List.splitOnP_eq_singleton (hgs t List.mem_cons_self)
    cases ts with
    | nil => rw [List.intercalate_singleton, ht]
    | cons u us =>
      rw [List.intercalate_cons_cons, List.append_assoc, List.singleton_append,
        List.splitOnP_append_cons _ _ hs, ht,
        ih (fun v hv => hgs v (List.mem_cons_of_mem t hv)) (List.cons_ne_nil u us)]
      rfl

theorem infix_delimited_of_mem (h : g ∈ gs) :
    s :: (g ++ [s]) <:+: s :: ([s].intercalate gs ++ [s]) := by
  induction gs with
  | nil => cases h
  | cons t ts ih =>
    cases ts with
    | nil =>
      obtain rfl := List.mem_singleton.mp h
      exact ⟨[], [], by simp⟩
    | cons u us =>
      rw [List.intercalate_cons_cons]
      rcases List.mem_cons.mp h with rfl | h
      · exact ⟨[], [s].intercalate (u :: us) ++ [s], by simp⟩
      · refine (ih h).trans (List.IsSuffix.isInfix ⟨s :: t, ?_⟩)
        simp

/-- With a separator in front of and behind it, a piece is found among the pieces only. -/
theorem infix_delimited_iff (hs : sep s = true) (hne : g ≠ []) (hg : ∀ a ∈ g, sep a = false)
    (hgs : ∀ t ∈ gs, ∀ a ∈ t, sep a = false) :
    s :: (g ++ [s]) <:+: s :: ([s].intercalate gs ++ [s]) ↔ g ∈ gs := by
  refine ⟨fun hinfix => ?_, infix_delimited_of_mem⟩
  obtain ⟨front, back, heq⟩ := hinfix
  have hpiece : g ∈ (s :: ([s].intercalate gs ++ [s])).splitOnP sep := by
    rw [← heq, List.append_assoc, List.cons_append, List.append_assoc, List.singleton_append,
      List.splitOnP_append_cons _ _ hs, List.splitOnP_append_cons _ _ hs,
      List.splitOnP_eq_singleton hg]
    simp
  have hopen := List.splitOnP_append_cons [] ([s].intercalate gs ++ [s]) hs
  rw [List.nil_append, List.splitOnP_append_cons _ _ hs] at hopen
  rw [hopen] at hpiece
  by_cases hnil : gs = []
  · subst hnil
    simp [hne] at hpiece
  · rw [splitOnP_intercalate hs hgs hnil] at hpiece
    simpa [hne] using hpiece

end Delimited

end Tokens
