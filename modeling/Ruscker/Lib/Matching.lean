import Mathlib.Algebra.GroupWithZero.Nat
import Mathlib.Data.List.Infix

/-!
# Scanning a list for a pattern

A pattern says what matches at the head of a list.  A scan walks the list from the left,
takes the first match it meets and goes on behind it, so that matches never overlap.
-/

namespace Matching

/-- What matches at the head of a list, and the elements a match stands for. -/
structure Pattern (α β : Type*) where
  head : List α → Option β
  text : β → List α
  text_ne_nil : ∀ b, text b ≠ []
  text_prefix : ∀ {l b}, head l = some b → text b <+: l

inductive Segment (α β : Type*) where
  | literal (a : α)
  | hit (b : β)
  deriving DecidableEq

namespace Segment

variable {α β : Type*}

/-- A segment with its match replaced. -/
def render (f : β → List α) : Segment α β → List α
  | literal a => [a]
  | hit b => f b

@[simp] theorem render_literal (f : β → List α) (a : α) :
    (literal a : Segment α β).render f = [a] := rfl

@[simp] theorem render_hit (f : β → List α) (b : β) :
    (hit b : Segment α β).render f = f b := rfl

end Segment

namespace Pattern

variable {α β : Type*} (p : Pattern α β)

/-- The matches of a list and the elements between them; the counter skips the rest of a
match. -/
def scan : Nat → List α → List (Segment α β)
  | _, [] => []
  | skip + 1, _ :: l => scan skip l
  | 0, a :: l =>
    match p.head (a :: l) with
    | some b => .hit b :: scan ((p.text b).length - 1) l
    | none => .literal a :: scan 0 l

/-- Every match replaced, from the left to the right. -/
def replaceWith (f : β → List α) (l : List α) : List α :=
  (p.scan 0 l).flatMap (Segment.render f)

def hits (l : List α) : List β :=
  (p.scan 0 l).filterMap fun
    | .literal _ => none
    | .hit b => some b

theorem scan_eq_drop (skip : Nat) (l : List α) : p.scan skip l = p.scan 0 (l.drop skip) := by
  induction l generalizing skip with
  | nil => cases skip <;> simp [scan]
  | cons a l ih =>
    cases skip with
    | zero => rfl
    | succ skip => rw [scan, ih, List.drop_succ_cons]

@[simp] theorem scan_nil : p.scan 0 [] = [] := rfl

theorem scan_cons {a : α} {l : List α} (h : p.head (a :: l) = none) :
    p.scan 0 (a :: l) = .literal a :: p.scan 0 l := by
  rw [scan, h]

theorem scan_text_append {b : β} {l : List α} (h : p.head (p.text b ++ l) = some b) :
    p.scan 0 (p.text b ++ l) = .hit b :: p.scan 0 l := by
  obtain ⟨a, t, ht⟩ := List.exists_cons_of_ne_nil (p.text_ne_nil b)
  rw [ht, List.cons_append] at h ⊢
  rw [scan, h]
  simp [scan_eq_drop, ht]

/-- A list is scanned off its head, by an element that starts no match or by a match. -/
@[elab_as_elim] theorem scanInduction {motive : List α → Prop} (nil : motive [])
    (literal : ∀ a l, p.head (a :: l) = none → motive l → motive (a :: l))
    (hit : ∀ b l, p.head (p.text b ++ l) = some b → motive l → motive (p.text b ++ l))
    (l : List α) : motive l := by
  induction hn : l.length using Nat.strong_induction_on generalizing l with
  | _ n ih =>
    subst hn
    cases l with
    | nil => exact nil
    | cons a l =>
      cases hh : p.head (a :: l) with
      | none => exact literal a l hh (ih l.length (by simp) l rfl)
      | some b =>
        obtain ⟨rest, hrest⟩ := p.text_prefix hh
        have hpos : 0 < (p.text b).length := List.length_pos_iff.mpr (p.text_ne_nil b)
        have hlen : rest.length < (a :: l).length := by
          rw [← hrest, List.length_append]
          omega
        rw [← hrest] at hh ⊢
        exact hit b rest hh (ih rest.length hlen rest rfl)

@[simp] theorem replaceWith_nil (f : β → List α) : p.replaceWith f [] = [] := rfl

theorem replaceWith_cons {f : β → List α} {a : α} {l : List α} (h : p.head (a :: l) = none) :
    p.replaceWith f (a :: l) = a :: p.replaceWith f l := by
  simp [replaceWith, p.scan_cons h]

theorem replaceWith_text_append {f : β → List α} {b : β} {l : List α}
    (h : p.head (p.text b ++ l) = some b) :
    p.replaceWith f (p.text b ++ l) = f b ++ p.replaceWith f l := by
  simp [replaceWith, p.scan_text_append h]

@[simp] theorem hits_nil : p.hits [] = [] := rfl

theorem hits_cons {a : α} {l : List α} (h : p.head (a :: l) = none) :
    p.hits (a :: l) = p.hits l := by
  simp [hits, p.scan_cons h]

theorem hits_text_append {b : β} {l : List α} (h : p.head (p.text b ++ l) = some b) :
    p.hits (p.text b ++ l) = b :: p.hits l := by
  simp [hits, p.scan_text_append h]

/-- The segments spell the list. -/
theorem replaceWith_text (l : List α) : p.replaceWith p.text l = l := by
  induction l using p.scanInduction with
  | nil => rfl
  | literal a l h ih => rw [p.replaceWith_cons h, ih]
  | hit b l h ih => rw [p.replaceWith_text_append h, ih]

theorem replaceWith_congr {f g : β → List α} {l : List α} (h : ∀ b ∈ p.hits l, f b = g b) :
    p.replaceWith f l = p.replaceWith g l := by
  induction l using p.scanInduction with
  | nil => rfl
  | literal a l hl ih =>
    rw [p.hits_cons hl] at h
    rw [p.replaceWith_cons hl, p.replaceWith_cons hl, ih h]
  | hit b l hb ih =>
    rw [p.hits_text_append hb] at h
    rw [p.replaceWith_text_append hb, p.replaceWith_text_append hb, h b List.mem_cons_self,
      ih fun c hc => h c (List.mem_cons_of_mem b hc)]

theorem replaceWith_of_hits_eq_nil {f : β → List α} {l : List α} (h : p.hits l = []) :
    p.replaceWith f l = l := by
  rw [p.replaceWith_congr (g := p.text) (by simp [h]), p.replaceWith_text]

theorem length_replaceWith (f : β → List α) (l : List α) :
    (p.replaceWith f l).length + ((p.hits l).map fun b => (p.text b).length).sum =
      l.length + ((p.hits l).map fun b => (f b).length).sum := by
  induction l using p.scanInduction with
  | nil => rfl
  | literal a l h ih =>
    rw [p.replaceWith_cons h, p.hits_cons h, List.length_cons, List.length_cons]
    omega
  | hit b l h ih =>
    rw [p.replaceWith_text_append h, p.hits_text_append h, List.length_append, List.length_append,
      List.map_cons, List.map_cons, List.sum_cons, List.sum_cons]
    omega

/-- What is put in for the matches can be read off the result where the lengths agree. -/
theorem eq_of_replaceWith_eq {f g : β → List α} {l : List α}
    (hlen : ∀ b ∈ p.hits l, (f b).length = (g b).length)
    (h : p.replaceWith f l = p.replaceWith g l) : ∀ b ∈ p.hits l, f b = g b := by
  induction l using p.scanInduction with
  | nil => simp
  | literal a l hl ih =>
    rw [p.replaceWith_cons hl, p.replaceWith_cons hl, List.cons_inj_right] at h
    rw [p.hits_cons hl] at hlen ⊢
    exact ih hlen h
  | hit b l hl ih =>
    rw [p.replaceWith_text_append hl, p.replaceWith_text_append hl] at h
    rw [p.hits_text_append hl] at hlen ⊢
    obtain ⟨hhead, htail⟩ := List.append_inj h (hlen b List.mem_cons_self)
    intro c hc
    rcases List.mem_cons.mp hc with rfl | hc
    · exact hhead
    · exact ih (fun d hd => hlen d (List.mem_cons_of_mem b hd)) htail c hc

theorem exists_of_mem_hits {b : β} {l : List α} (hb : b ∈ p.hits l) :
    ∃ x y, l = x ++ (p.text b ++ y) ∧ p.head (p.text b ++ y) = some b := by
  induction l using p.scanInduction with
  | nil => cases hb
  | literal a l h ih =>
    rw [p.hits_cons h] at hb
    obtain ⟨x, y, rfl, hy⟩ := ih hb
    exact ⟨a :: x, y, rfl, hy⟩
  | hit c l h ih =>
    rw [p.hits_text_append h] at hb
    rcases List.mem_cons.mp hb with rfl | hb
    · exact ⟨[], l, rfl, h⟩
    · obtain ⟨x, y, rfl, hy⟩ := ih hb
      exact ⟨p.text c ++ x, y, (List.append_assoc _ _ _).symm, hy⟩

/-- What matches in `x` is the same with `t` behind it. -/
def Separate (x t : List α) : Prop :=
  ∀ a s, a :: s <:+ x → p.head (a :: s ++ t) = p.head (a :: s)

variable {p} in
theorem Separate.of_suffix {x y t : List α} (h : p.Separate x t) (hy : y <:+ x) :
    p.Separate y t := fun a s hs => h a s (hs.trans hy)

variable {p} in
/-- Such a list is scanned in two parts. -/
theorem scan_append {x t : List α} (h : p.Separate x t) :
    p.scan 0 (x ++ t) = p.scan 0 x ++ p.scan 0 t := by
  induction x using p.scanInduction with
  | nil => rfl
  | literal a l hl ih =>
    have hlt : p.head (a :: (l ++ t)) = none := (h a l List.suffix_rfl).trans hl
    rw [List.cons_append, p.scan_cons hlt, p.scan_cons hl,
      ih (h.of_suffix (List.suffix_cons a l)), List.cons_append]
  | hit b l hl ih =>
    have hlt : p.head (p.text b ++ (l ++ t)) = some b := by
      obtain ⟨a, u, hu⟩ := List.exists_cons_of_ne_nil (p.text_ne_nil b)
      rw [← hl, hu, ← List.append_assoc]
      exact h a (u ++ l) (by rw [hu, List.cons_append])
    rw [List.append_assoc, p.scan_text_append hlt, p.scan_text_append hl,
      ih (h.of_suffix (List.suffix_append _ l)), List.cons_append]

variable {p} in
theorem replaceWith_append {f : β → List α} {x t : List α} (h : p.Separate x t) :
    p.replaceWith f (x ++ t) = p.replaceWith f x ++ p.replaceWith f t := by
  rw [replaceWith, scan_append h, List.flatMap_append, ← replaceWith, ← replaceWith]

variable {p} in
theorem hits_append {x t : List α} (h : p.Separate x t) :
    p.hits (x ++ t) = p.hits x ++ p.hits t := by
  rw [hits, scan_append h, List.filterMap_append, ← hits, ← hits]

/-- The scan meets a match as soon as there is one anywhere. -/
theorem hits_eq_nil_iff {l : List α} :
    p.hits l = [] ↔ ∀ a s, a :: s <:+ l → p.head (a :: s) = none := by
  induction l using p.scanInduction with
  | nil => simp
  | literal a l h ih =>
    rw [p.hits_cons h, ih]
    constructor
    · intro hl b s hs
      rcases List.suffix_cons_iff.mp hs with heq | hs
      · rw [heq, h]
      · exact hl b s hs
    · exact fun hl b s hs => hl b s (hs.trans (List.suffix_cons a l))
  | hit b l h _ =>
    refine iff_of_false (by simp [p.hits_text_append h]) fun hl => ?_
    obtain ⟨a, t, ht⟩ := List.exists_cons_of_ne_nil (p.text_ne_nil b)
    rw [ht, List.cons_append] at h hl
    rw [hl a (t ++ l) List.suffix_rfl] at h
    cases h

end Pattern

/-! ## A fixed word -/

section Word

variable {α : Type*} [DecidableEq α]

/-- The pattern of one nonempty word. -/
def word (w : List α) (hw : w ≠ []) : Pattern α Unit where
  head l := if w <+: l then some () else none
  text _ := w
  text_ne_nil _ := hw
  text_prefix h := by
    by_contra hne
    rw [if_neg hne] at h
    cases h

variable {w : List α} (hw : w ≠ [])

theorem word_head_eq_none_iff {l : List α} : (word w hw).head l = none ↔ ¬ w <+: l := by
  simp [word]

theorem hits_word_eq_nil_iff {l : List α} : (word w hw).hits l = [] ↔ ¬ w <:+: l := by
  rw [(word w hw).hits_eq_nil_iff]
  simp only [word_head_eq_none_iff]
  constructor
  · rintro h ⟨pre, post, rfl⟩
    obtain ⟨a, t, rfl⟩ := List.exists_cons_of_ne_nil hw
    exact h a (t ++ post) ⟨pre, by simp⟩ ⟨post, by simp⟩
  · exact fun h a s hs hp => h (hp.isInfix.trans hs.isInfix)

/-- `str::replace` at a nonempty word. -/
def replace (new : List α) (l : List α) : List α := (word w hw).replaceWith (fun _ => new) l

theorem replace_cons {new l : List α} {a : α} (h : ¬ w <+: a :: l) :
    replace hw new (a :: l) = a :: replace hw new l :=
  (word w hw).replaceWith_cons ((word_head_eq_none_iff hw).mpr h)

theorem replace_append (new l : List α) : replace hw new (w ++ l) = new ++ replace hw new l :=
  (word w hw).replaceWith_text_append (b := ()) (if_pos (List.prefix_append w l))

theorem length_replace (new l : List α) :
    (replace hw new l).length + ((word w hw).hits l).length * w.length =
      l.length + ((word w hw).hits l).length * new.length := by
  have h := (word w hw).length_replaceWith (fun _ => new) l
  simpa [replace, word] using h

/-- Replacing a word by another one leaves a list as it is only where the word is absent. -/
theorem replace_eq_self_iff {new : List α} (hne : new ≠ w) {l : List α} :
    replace hw new l = l ↔ ¬ w <:+: l := by
  rw [← hits_word_eq_nil_iff hw]
  refine ⟨fun h => ?_, fun h => (word w hw).replaceWith_of_hits_eq_nil h⟩
  by_cases hlen : new.length = w.length
  · have hself : (word w hw).replaceWith (fun _ => new) l =
        (word w hw).replaceWith (word w hw).text l :=
      h.trans ((word w hw).replaceWith_text l).symm
    have hall := (word w hw).eq_of_replaceWith_eq (fun _ _ => hlen) hself
    exact List.eq_nil_iff_forall_not_mem.mpr fun b hb => hne (hall b hb)
  · have hcount := length_replace hw new l
    rw [h, Nat.add_left_cancel_iff] at hcount
    rcases Nat.eq_zero_or_pos ((word w hw).hits l).length with hz | hpos
    · exact List.length_eq_zero_iff.mp hz
    · exact absurd (Nat.eq_of_mul_eq_mul_left hpos hcount).symm hlen

end Word

end Matching
