import Mathlib.Data.List.TakeWhile
import Ruscker.Lib.Scan

/-!
# Runs between markers

A pass over a list takes, from left to right, each run between two markers.  A marker is so many
marks in a row; a run is not empty and has no mark.
-/

namespace Spans

open Scans

variable {α β : Type*}

/-- A run between its markers. -/
structure Span (α : Type*) where
  before : List α
  run : List α
  after : List α

abbrev Part (α : Type*) := Item α (Span α)

def source : Part α → List α
  | .one a => [a]
  | .found s => s.before ++ (s.run ++ s.after)

/-- Other entries in place of the markers. -/
def wrapped (left right : List α) : Part α → List α
  | .one a => [a]
  | .found s => left ++ (s.run ++ right)

section Pass

variable (isMark : α → Bool)

/-- So many marks, and what follows them. -/
def marker : Nat → List α → Option (List α × List α)
  | 0, l => some ([], l)
  | _ + 1, [] => none
  | n + 1, a :: l => if isMark a then (marker n l).map fun p => (a :: p.1, p.2) else none

def isFree (a : α) : Bool := !isMark a

/-- A run between markers, and what follows it. -/
def spanAt (n : Nat) (l : List α) : Option (Span α × List α) :=
  match marker isMark n l with
  | none => none
  | some (before, l) =>
    match l.takeWhile (isFree isMark), marker isMark n (l.dropWhile (isFree isMark)) with
    | a :: run, some (after, rest) => some (⟨before, a :: run, after⟩, rest)
    | _, _ => none

def parts (n : Nat) (l : List α) : List (Part α) := scan (spanAt isMark n) l

/-- The pass that puts other entries in place of the markers. -/
def wrap (n : Nat) (left right : List α) (l : List α) : List α :=
  (parts isMark n l).flatMap (wrapped left right)

end Pass

/-- A run and its markers. -/
structure IsSpan (isMark : α → Bool) (n : Nat) (s : Span α) : Prop where
  length_before : s.before.length = n
  length_after : s.after.length = n
  before_marks : ∀ a ∈ s.before, isMark a = true
  after_marks : ∀ a ∈ s.after, isMark a = true
  run_ne : s.run ≠ []
  run_free : ∀ a ∈ s.run, isMark a = false

section Laws

variable {isMark : α → Bool} {n : Nat} {l : List α}

theorem marker_eq_some {p : List α × List α} (h : marker isMark n l = some p) :
    l = p.1 ++ p.2 ∧ p.1.length = n ∧ ∀ a ∈ p.1, isMark a = true := by
  induction n generalizing l p with
  | zero =>
    cases h
    exact ⟨rfl, rfl, List.forall_mem_nil _⟩
  | succ n ih =>
    cases l with
    | nil => cases h
    | cons a l =>
      rw [marker] at h
      split at h
      · next ha =>
        obtain ⟨q, hq, rfl⟩ := Option.map_eq_some_iff.mp h
        obtain ⟨hl, hlength, hmarks⟩ := ih hq
        exact ⟨congrArg (a :: ·) hl, congrArg (· + 1) hlength,
          List.forall_mem_cons.mpr ⟨ha, hmarks⟩⟩
      · cases h

theorem spanAt_eq_some {s : Span α} {rest : List α} (h : spanAt isMark n l = some (s, rest)) :
    l = source (.found s) ++ rest ∧ IsSpan isMark n s := by
  unfold spanAt at h
  split at h
  · cases h
  · next before l' hbefore =>
    obtain ⟨hl, hlength, hmarks⟩ := marker_eq_some hbefore
    split at h
    · next a run after rest hrun hafter =>
      cases h
      obtain ⟨hl', hlength', hmarks'⟩ := marker_eq_some hafter
      refine ⟨?_, ⟨hlength, hlength', hmarks, hmarks', List.cons_ne_nil _ _, ?_⟩⟩
      · have hsplit := List.takeWhile_append_dropWhile (p := isFree isMark) (l := l')
        rw [hrun, hl'] at hsplit
        simp only at hl
        rw [hl, ← hsplit]
        simp [source]
      · intro b hb
        dsimp only at hb
        rw [← hrun] at hb
        have hfree := List.mem_takeWhile_imp hb
        simpa [isFree] using hfree
    · cases h

theorem takes_spanAt : Takes (spanAt isMark n) := by
  intro l s rest h
  obtain ⟨hl, hspan⟩ := spanAt_eq_some h
  have hrun := List.length_pos_iff.mpr hspan.run_ne
  rw [hl]
  simp only [source, List.length_append]
  omega

/-- The parts of a list come one by one. -/
theorem parts_induct {motive : List α → List (Part α) → Prop} (nil : motive [] [])
    (one : ∀ a l, spanAt isMark n (a :: l) = none → motive l (parts isMark n l) →
      motive (a :: l) (.one a :: parts isMark n l))
    (found : ∀ s rest, IsSpan isMark n s →
      spanAt isMark n (source (.found s) ++ rest) = some (s, rest) →
      motive rest (parts isMark n rest) →
      motive (source (.found s) ++ rest) (.found s :: parts isMark n rest)) (l : List α) :
    motive l (parts isMark n l) := by
  refine scan_induct takes_spanAt nil one ?_ l
  intro l s rest hfound ih
  obtain ⟨hl, hspan⟩ := spanAt_eq_some hfound
  rw [hl] at hfound ⊢
  exact found s rest hspan hfound ih

/-- The parts put together are the list. -/
theorem flatMap_source : (parts isMark n l).flatMap source = l := by
  refine parts_induct (n := n)
    (motive := fun l ps => ps.flatMap source = l) rfl ?_ ?_ l
  · intro a l _ ih
    rw [List.flatMap_cons, ih]
    rfl
  · intro s rest _ _ ih
    rw [List.flatMap_cons, ih]

theorem isSpan_of_mem {s : Span α} (h : Item.found s ∈ parts isMark n l) : IsSpan isMark n s := by
  refine parts_induct (n := n) (motive := fun _ ps =>
    Item.found s ∈ ps → IsSpan isMark n s) nofun ?_ ?_ l h
  · intro a l _ ih hmem
    rcases List.mem_cons.mp hmem with heq | hmem
    · cases heq
    · exact ih hmem
  · intro s' rest hspan _ ih hmem
    rcases List.mem_cons.mp hmem with heq | hmem
    · cases heq
      exact hspan
    · exact ih hmem

/-- The pass makes up no entry but the ones it puts in place of the markers. -/
theorem mem_of_mem_wrap {left right : List α} {a : α} (h : a ∈ wrap isMark n left right l) :
    a ∈ l ∨ a ∈ left ∨ a ∈ right := by
  obtain ⟨part, hpart, ha⟩ := List.mem_flatMap.mp h
  have hsource : ∀ b ∈ source part, b ∈ l := by
    intro b hb
    have hmem := List.mem_flatMap.mpr ⟨part, hpart, hb⟩
    rwa [flatMap_source] at hmem
  cases part with
  | one b => exact .inl (hsource a ha)
  | found s =>
    rcases List.mem_append.mp ha with hleft | ha
    · exact .inr (.inl hleft)
    · rcases List.mem_append.mp ha with hrun | hright
      · exact .inl (hsource a (List.mem_append_right _ (List.mem_append_left _ hrun)))
      · exact .inr (.inr hright)

end Laws

/-! ## The pass on longer entries -/

/-- A mark is one mark, and any other entry is some entries without a mark. -/
structure Spells (isMark : α → Bool) (isMark' : β → Bool) (f : α → List β) : Prop where
  mark : ∀ a, isMark a = true → ∃ b, f a = [b] ∧ isMark' b = true
  free : ∀ a, isMark a = false → f a ≠ [] ∧ ∀ b ∈ f a, isMark' b = false

section Spell

variable {isMark : α → Bool} {isMark' : β → Bool} {f : α → List β} {n : Nat} {l : List α}

theorem marker_flatMap (hf : Spells isMark isMark' f) :
    marker isMark' n (l.flatMap f) =
      (marker isMark n l).map fun p => (p.1.flatMap f, p.2.flatMap f) := by
  induction n generalizing l with
  | zero => rfl
  | succ n ih =>
    cases l with
    | nil => rfl
    | cons a l =>
      cases ha : isMark a with
      | true =>
        obtain ⟨b, hb, hmark⟩ := hf.mark a ha
        rw [List.flatMap_cons, hb, List.singleton_append, marker, marker, if_pos hmark, if_pos ha,
          ih, Option.map_map, Option.map_map]
        congr 1
        funext p
        simp [hb]
      | false =>
        obtain ⟨hne, hfree⟩ := hf.free a ha
        obtain ⟨b, bs, hb⟩ := List.exists_cons_of_ne_nil hne
        have hmark := hfree b (hb ▸ List.mem_cons_self)
        rw [List.flatMap_cons, hb, List.cons_append, marker, marker, if_neg (by simp [hmark]),
          if_neg (by simp [ha])]
        rfl

theorem isFree_append {bs m : List β} (h : ∀ b ∈ bs, isMark' b = false) :
    (bs ++ m).takeWhile (isFree isMark') = bs ++ m.takeWhile (isFree isMark') ∧
      (bs ++ m).dropWhile (isFree isMark') = m.dropWhile (isFree isMark') := by
  have hall : ∀ b ∈ bs, isFree isMark' b = true := by
    intro b hb
    simp [isFree, h b hb]
  exact ⟨List.takeWhile_append_of_pos hall, List.dropWhile_append_of_pos hall⟩

theorem isFree_flatMap (hf : Spells isMark isMark' f) :
    (l.flatMap f).takeWhile (isFree isMark') = (l.takeWhile (isFree isMark)).flatMap f ∧
      (l.flatMap f).dropWhile (isFree isMark') = (l.dropWhile (isFree isMark)).flatMap f := by
  induction l with
  | nil => exact ⟨rfl, rfl⟩
  | cons a l ih =>
    cases ha : isMark a with
    | true =>
      obtain ⟨b, hb, hmark⟩ := hf.mark a ha
      have hfree : ¬ isFree isMark a = true := by simp [isFree, ha]
      have hfree' : ¬ isFree isMark' b = true := by simp [isFree, hmark]
      rw [List.flatMap_cons, hb, List.singleton_append, List.takeWhile_cons_of_neg hfree',
        List.dropWhile_cons_of_neg hfree', List.takeWhile_cons_of_neg hfree,
        List.dropWhile_cons_of_neg hfree, List.flatMap_cons, hb]
      exact ⟨rfl, rfl⟩
    | false =>
      have hfree : isFree isMark a = true := by simp [isFree, ha]
      obtain ⟨htake, hdrop⟩ := isFree_append (m := l.flatMap f) (hf.free a ha).2
      rw [List.flatMap_cons, htake, hdrop, List.takeWhile_cons_of_pos hfree,
        List.dropWhile_cons_of_pos hfree, List.flatMap_cons, ih.1, ih.2]
      exact ⟨rfl, rfl⟩

/-- A run with its markers, spelled out. -/
def spelled (f : α → List β) (s : Span α) : Span β :=
  ⟨s.before.flatMap f, s.run.flatMap f, s.after.flatMap f⟩

theorem spanAt_flatMap (hf : Spells isMark isMark' f) :
    spanAt isMark' n (l.flatMap f) =
      (spanAt isMark n l).map fun p => (spelled f p.1, p.2.flatMap f) := by
  unfold spanAt
  rw [marker_flatMap hf]
  cases marker isMark n l with
  | none => rfl
  | some p =>
    obtain ⟨before, l⟩ := p
    obtain ⟨htake, hdrop⟩ := isFree_flatMap (l := l) hf
    simp only [Option.map_some, htake, hdrop, marker_flatMap hf]
    cases hrun : l.takeWhile (isFree isMark) with
    | nil => rfl
    | cons a run =>
      have ha : isMark a = false := by
        have hmem := List.mem_takeWhile_imp (hrun ▸ List.mem_cons_self)
        simpa [isFree] using hmem
      obtain ⟨b, bs, hb⟩ := List.exists_cons_of_ne_nil (hf.free a ha).1
      rw [List.flatMap_cons, hb, List.cons_append]
      cases marker isMark n (l.dropWhile (isFree isMark)) with
      | none => rfl
      | some q => simp [spelled, hb]

theorem spanAt_of_free {b : β} {m : List β} (hn : 0 < n) (hb : isMark' b = false) :
    spanAt isMark' n (b :: m) = none := by
  obtain ⟨n, rfl⟩ : ∃ k, n = k + 1 := ⟨n - 1, by omega⟩
  have hmarker : marker isMark' (n + 1) (b :: m) = none := if_neg (by simp [hb])
  rw [spanAt, hmarker]

theorem Spells.ne_nil (hf : Spells isMark isMark' f) (a : α) : f a ≠ [] := by
  cases ha : isMark a with
  | true =>
    obtain ⟨b, hb, -⟩ := hf.mark a ha
    rw [hb]
    exact List.cons_ne_nil _ _
  | false => exact (hf.free a ha).1

theorem Spells.tail_free (hf : Spells isMark isMark' f) (a : α) :
    ∀ b ∈ (f a).tail, isMark' b = false := by
  intro b hmem
  cases ha : isMark a with
  | true =>
    obtain ⟨b', hb, -⟩ := hf.mark a ha
    rw [hb] at hmem
    cases hmem
  | false => exact (hf.free a ha).2 b (List.mem_of_mem_tail hmem)

/-- **The pass on what entries spell** is what the pass on the entries spells. -/
theorem wrap_flatMap {left right : List α} (hf : Spells isMark isMark' f) (hn : 0 < n) :
    wrap isMark' n (left.flatMap f) (right.flatMap f) (l.flatMap f) =
      (wrap isMark n left right l).flatMap f := by
  have hscan := scan_flatMap (φ := spelled f) takes_spanAt takes_spanAt hf.ne_nil
    (fun l => spanAt_flatMap (n := n) (l := l) hf)
    (fun a b hb m => spanAt_of_free hn (hf.tail_free a b hb)) l
  rw [wrap, parts, hscan, List.flatMap_assoc, wrap, parts, List.flatMap_assoc]
  congr 1
  funext part
  cases part with
  | one a => simp [Item.spelled, wrapped, List.flatMap_map]
  | found s => simp [Item.spelled, wrapped, spelled]

end Spell

end Spans
