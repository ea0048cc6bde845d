import Mathlib.Data.List.Basic

/-!
# Records of quoted fields

A record is its fields joined by a separator.  A field that holds a special element is
put in quotes, with its own quotes doubled.  Reading toggles at a quote and takes a doubled
one inside a quoted run for an element.  A written record reads back field by field, and
reading invents no elements.
-/

namespace Csv

variable {α : Type*} [DecidableEq α]

/-- The fields of a record; `cur` is what is read of the field at hand. -/
def split (sep quote : α) : Bool → List α → List α → List (List α)
  | _, cur, [] => [cur]
  | true, cur, c :: rest =>
    if c = quote then
      match rest with
      | [] => [cur]
      | d :: rest' =>
        if d = quote then split sep quote true (cur ++ [quote]) rest'
        else split sep quote false cur (d :: rest')
    else split sep quote true (cur ++ [c]) rest
  | false, cur, c :: rest =>
    if c = quote then split sep quote true cur rest
    else if c = sep then cur :: split sep quote false [] rest
    else split sep quote false (cur ++ [c]) rest

def double (quote : α) (v : List α) : List α :=
  v.flatMap fun c => if c = quote then [quote, quote] else [c]

def field (special : α → Bool) (quote : α) (v : List α) : List α :=
  if v.any special then quote :: double quote v ++ [quote] else v

variable {special : α → Bool} {sep quote : α} {v rest cur : List α}

/-! ## Writing and reading back -/

theorem split_plain (hsep : sep ∉ v) (hquote : quote ∉ v) (cur rest : List α) :
    split sep quote false cur (v ++ rest) = split sep quote false (cur ++ v) rest := by
  induction v generalizing cur with
  | nil => simp
  | cons c v ih =>
    have hc : c ≠ quote := fun heq => hquote (heq ▸ List.mem_cons_self)
    have hs : c ≠ sep := fun heq => hsep (heq ▸ List.mem_cons_self)
    rw [List.cons_append, split, if_neg hc, if_neg hs,
      ih (fun hin => hsep (List.mem_cons_of_mem c hin))
        (fun hin => hquote (List.mem_cons_of_mem c hin))]
    simp

theorem split_quoted {c : α} (hc : c ≠ quote) (cur rest : List α) :
    split sep quote true cur (c :: rest) = split sep quote true (cur ++ [c]) rest := by
  cases rest with
  | nil => simp [split, hc]
  | cons d rest => simp [split, hc]

/-- Inside quotes, up to the closing one. -/
theorem split_double (hrest : ∀ a ∈ rest.head?, a ≠ quote) (cur v : List α) :
    split sep quote true cur (double quote v ++ quote :: rest) =
      split sep quote false (cur ++ v) rest := by
  induction v generalizing cur with
  | nil =>
    cases rest with
    | nil => simp [double, split]
    | cons d rest =>
      have hd : d ≠ quote := hrest d rfl
      rw [double, List.flatMap_nil, List.nil_append, split, if_pos rfl]
      simp [hd]
  | cons c v ih =>
    rw [double, List.flatMap_cons]
    by_cases hc : c = quote
    · subst hc
      rw [if_pos rfl]
      have hpair : split sep c true cur (c :: c :: (double c v ++ c :: rest)) =
          split sep c true (cur ++ [c]) (double c v ++ c :: rest) := by
        simp [split]
      have htail := ih (cur ++ [c])
      rw [List.append_assoc, List.singleton_append] at htail
      exact hpair.trans htail
    · rw [if_neg hc]
      show split sep quote true cur (c :: (double quote v ++ quote :: rest)) = _
      rw [split_quoted hc, ih]
      simp

theorem split_field (hsep : special sep = true) (hquote : special quote = true)
    (hrest : ∀ a ∈ rest.head?, a ≠ quote) (cur v : List α) :
    split sep quote false cur (field special quote v ++ rest) =
      split sep quote false (cur ++ v) rest := by
  unfold field
  split
  · show split sep quote false cur (quote :: (double quote v ++ [quote] ++ rest)) = _
    rw [split, if_pos rfl, List.append_assoc]
    exact split_double hrest cur v
  · next hplain =>
    have hnot : ∀ a, special a = true → a ∉ v := fun a ha hin =>
      hplain (List.any_eq_true.mpr ⟨a, hin, ha⟩)
    exact split_plain (hnot sep hsep) (hnot quote hquote) cur rest

/-- **Writing and reading back.** -/
theorem split_intercalate (hsep : special sep = true) (hquote : special quote = true)
    (hne : sep ≠ quote) {fields : List (List α)} (h : fields ≠ []) :
    split sep quote false [] ([sep].intercalate (fields.map (field special quote))) = fields := by
  induction fields with
  | nil => exact absurd rfl h
  | cons v fields ih =>
    cases fields with
    | nil =>
      have hfield : split sep quote false [] (field special quote v ++ []) =
          split sep quote false ([] ++ v) [] :=
        split_field hsep hquote (fun a ha => by cases ha) [] v
      rw [List.append_nil] at hfield
      rw [List.map_singleton, List.intercalate_singleton, hfield]
      rfl
    | cons w fields =>
      have hhead : ∀ a ∈ (sep :: [sep].intercalate
          ((w :: fields).map (field special quote))).head?, a ≠ quote := by
        intro a ha
        cases ha
        exact hne
      rw [List.map_cons, List.map_cons, List.intercalate_cons_cons, List.append_assoc,
        List.singleton_append, ← List.map_cons, split_field hsep hquote hhead, List.nil_append,
        split, if_neg hne, if_pos rfl, ih (List.cons_ne_nil w fields)]

/-! ## Reading invents nothing -/

omit [DecidableEq α] in
/-- A character moved from the text to the field that is being read. -/
theorem mem_of_mem_concat {a c : α} {rest : List α} (h : a ∈ cur ++ [c] ∨ a ∈ rest) :
    a ∈ cur ∨ a ∈ c :: rest := by
  rcases h with hcur | hrest
  · rcases List.mem_append.mp hcur with hold | hnew
    · exact .inl hold
    · rw [List.mem_singleton.mp hnew]
      exact .inr List.mem_cons_self
  · exact .inr (List.mem_cons_of_mem _ hrest)

theorem mem_of_mem_split {b : Bool} {s f : List α} {a : α}
    (hf : f ∈ split sep quote b cur s) (ha : a ∈ f) : a ∈ cur ∨ a ∈ s := by
  fun_induction split sep quote b cur s with
  | case1 b cur =>
    rw [List.mem_singleton.mp hf] at ha
    exact .inl ha
  | case2 cur =>
    rw [List.mem_singleton.mp hf] at ha
    exact .inl ha
  | case3 cur rest ih =>
    exact (mem_of_mem_concat (ih hf)).imp id (List.mem_cons_of_mem _)
  | case4 cur d rest hd ih =>
    exact (ih hf).imp id (List.mem_cons_of_mem _)
  | case5 cur c rest hc ih =>
    exact mem_of_mem_concat (ih hf)
  | case6 cur rest ih =>
    exact (ih hf).imp id (List.mem_cons_of_mem _)
  | case7 cur rest hne ih =>
    rcases List.mem_cons.mp hf with rfl | hf
    · exact .inl ha
    · rcases ih hf with hnil | hrest
      · cases hnil
      · exact .inr (List.mem_cons_of_mem _ hrest)
  | case8 cur c rest hc hs ih =>
    exact mem_of_mem_concat (ih hf)

theorem mem_field {a : α} (h : a ∈ field special quote v) : a = quote ∨ a ∈ v := by
  unfold field at h
  split at h
  · rw [List.cons_append, List.mem_cons, List.mem_append, List.mem_singleton] at h
    rcases h with hq | hbody | hq
    · exact .inl hq
    · obtain ⟨c, hc, ha⟩ := List.mem_flatMap.mp hbody
      split at ha
      · next heq =>
        simp only [List.mem_cons, List.not_mem_nil, or_false, or_self] at ha
        exact .inl ha
      · rw [List.mem_singleton.mp ha]
        exact .inr hc
    · exact .inl hq
  · exact .inr h

end Csv
