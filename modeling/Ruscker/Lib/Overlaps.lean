import Ruscker.Lib.Matching

/-!
# Words that do not overlap

Two words are apart when no end of the first can be read as a beginning of the second.  A text
can then be divided in front of the second and behind it, and the first word is found in the parts
as it is found in the whole.
-/

namespace Matching

variable {α : Type*} {w v s t x l : List α}

/-- No end of `w`, `w` itself apart, begins `v` or is begun by it. -/
def Apart (w v : List α) : Prop :=
  ∀ s, s ≠ [] → s <:+ w → s ≠ w → ¬ s <+: v ∧ ¬ v <+: s

theorem Apart.not_prefix (h : Apart w v) (hne : s ≠ []) (hs : s <:+ w) (hw : s ≠ w)
    (hst : s <+: t) : ¬ v <+: t := by
  intro hv
  rcases List.prefix_or_prefix_of_prefix hst hv with hsv | hvs
  · exact (h s hne hs hw).1 hsv
  · exact (h s hne hs hw).2 hvs

theorem suffix_ne_of_append (hs : s ≠ []) (h : w = s ++ v) : v <:+ w ∧ v ≠ w := by
  refine ⟨⟨s, h.symm⟩, fun heq => ?_⟩
  have hlen := congrArg List.length (heq.trans h)
  rw [List.length_append] at hlen
  have hpos := List.length_pos_iff.mpr hs
  omega

/-- A word that starts before `v` ends before it. -/
theorem Apart.prefix_of_prefix_append (h : Apart w v) (hs : s ≠ []) (hp : w <+: s ++ (v ++ t)) :
    w <+: s := by
  rcases List.prefix_or_prefix_of_prefix hp (List.prefix_append s (v ++ t)) with hws | ⟨r, hr⟩
  · exact hws
  · by_cases hnil : r = []
    · rw [← hr, hnil, List.append_nil]
    · obtain ⟨hsuffix, hne⟩ := suffix_ne_of_append hs hr.symm
      rw [← hr, List.prefix_append_right_inj] at hp
      exact absurd (List.prefix_append v t) (h.not_prefix hnil hsuffix hne hp)

/-- The first place of a word leaves none before it. -/
theorem exists_first (hw : w ≠ []) (h : w <:+: l) : ∃ g r, l = g ++ (w ++ r) ∧ ¬ w <:+: g := by
  induction l with
  | nil => exact absurd (List.infix_nil.mp h) hw
  | cons a l ih =>
    by_cases hp : w <+: a :: l
    · obtain ⟨r, hr⟩ := hp
      exact ⟨[], r, hr.symm, fun hnil => hw (List.infix_nil.mp hnil)⟩
    · obtain ⟨g, r, rfl, hg⟩ := ih ((List.infix_cons_iff.mp h).resolve_left hp)
      refine ⟨a :: g, r, rfl, fun hin => ?_⟩
      rcases List.infix_cons_iff.mp hin with hpg | hin
      · exact hp (hpg.trans (List.prefix_append (a :: g) (w ++ r)))
      · exact hg hin

/-- A text is taken apart at the places of a word, from the left to the right. -/
theorem pieceInduction {motive : List α → Prop} (hw : w ≠ [])
    (piece : ∀ l, ¬ w <:+: l → motive l)
    (word : ∀ g l, ¬ w <:+: g → motive l → motive (g ++ (w ++ l))) (l : List α) : motive l := by
  induction hn : l.length using Nat.strong_induction_on generalizing l with
  | _ n ih =>
    subst hn
    by_cases h : w <:+: l
    · obtain ⟨g, r, rfl, hg⟩ := exists_first hw h
      have hpos := List.length_pos_iff.mpr hw
      have hlt : r.length < (g ++ (w ++ r)).length := by
        simp only [List.length_append]
        omega
      exact word g r hg (ih r.length hlt r rfl)
    · exact piece l h

/-- Two words of which none starts inside the other one. -/
structure Unmixed (w v : List α) : Prop where
  left : Apart w v
  right : Apart v w
  not_prefix : ¬ w <+: v
  not_prefix' : ¬ v <+: w

theorem Unmixed.symm (h : Unmixed w v) : Unmixed v w :=
  ⟨h.right, h.left, h.not_prefix', h.not_prefix⟩

theorem Unmixed.not_starts (h : Unmixed w v) (hs : s ≠ []) (hsuffix : s <:+ v) :
    ¬ w <+: s ++ t := by
  intro hp
  by_cases heq : s = v
  · subst heq
    rcases List.prefix_or_prefix_of_prefix hp (List.prefix_append s t) with hprefix | hprefix
    · exact h.not_prefix hprefix
    · exact h.not_prefix' hprefix
  · exact h.right.not_prefix hs hsuffix heq (List.prefix_append s t) hp

theorem Unmixed.not_infix (h : Unmixed w v) (hw : w ≠ []) : ¬ w <:+: v := by
  intro hin
  obtain ⟨s, hbegins, hsuffix⟩ := List.infix_iff_prefix_suffix.mp hin
  have hs : s ≠ [] := by
    rintro rfl
    exact hw (List.prefix_nil.mp hbegins)
  exact h.not_starts hs hsuffix (t := []) (hbegins.trans (List.prefix_append s []))

/-! ## Where a word is met -/

section Scan

variable [DecidableEq α] (hw : w ≠ []) {new : List α}

theorem word_separate (h : ∀ s, s ≠ [] → s <:+ x → w <+: s ++ t → w <+: s) :
    (word w hw).Separate x t := by
  intro a s hs
  have hiff : w <+: a :: s ++ t ↔ w <+: a :: s :=
    ⟨h (a :: s) (List.cons_ne_nil a s) hs, fun hp => hp.trans (List.prefix_append _ t)⟩
  simp only [word, hiff]

theorem Apart.separate (h : Apart w v) : (word w hw).Separate x (v ++ t) :=
  word_separate hw fun _ hne _ hp => h.prefix_of_prefix_append hne hp

theorem Unmixed.separate (h : Unmixed w v) : (word w hw).Separate v t :=
  word_separate hw fun _ hne hs hp => absurd hp (h.not_starts hne hs)

theorem hits_word_append (l : List α) :
    (word w hw).hits (w ++ l) = () :: (word w hw).hits l :=
  (word w hw).hits_text_append (b := ()) (if_pos (List.prefix_append w l))

/-- A word without overlaps is met on both sides of each of its places. -/
theorem hits_around (h : Apart w w) (x l : List α) :
    ((word w hw).hits (x ++ (w ++ l))).length =
      ((word w hw).hits x).length + (((word w hw).hits l).length + 1) := by
  rw [Pattern.hits_append (h.separate hw), hits_word_append, List.length_append, List.length_cons]

theorem replace_around (h : Apart w w) (x l : List α) :
    replace hw new (x ++ (w ++ l)) = replace hw new x ++ (new ++ replace hw new l) := by
  rw [← replace_append]
  exact Pattern.replaceWith_append (h.separate hw)

theorem Unmixed.hits_append (h : Unmixed w v) (l : List α) :
    (word w hw).hits (v ++ l) = (word w hw).hits l := by
  rw [Pattern.hits_append (h.separate hw), (hits_word_eq_nil_iff hw).mpr (h.not_infix hw),
    List.nil_append]

theorem Unmixed.replace_append (h : Unmixed w v) (l : List α) :
    replace hw new (v ++ l) = v ++ replace hw new l := by
  have hself := (word w hw).replaceWith_of_hits_eq_nil (f := fun _ => new)
    ((hits_word_eq_nil_iff hw).mpr (h.not_infix hw))
  rw [replace, Pattern.replaceWith_append (h.separate hw), hself, ← replace]

/-- Another word divides the text for a replacement. -/
theorem Unmixed.replace_around (h : Unmixed w v) (x l : List α) :
    replace hw new (x ++ (v ++ l)) = replace hw new x ++ (v ++ replace hw new l) := by
  rw [← h.replace_append]
  exact Pattern.replaceWith_append (h.left.separate hw)

end Scan

/-! ## One word replaced, another one counted -/

section Makes

variable [DecidableEq α] (hw : w ≠ []) (hv : v ≠ [])

/-- No piece of the text between the places of `v` has a `v` once `new` stands for its `w`. -/
def MakesNone (v new l : List α) : Prop :=
  ∀ x g y, l = x ++ (g ++ y) → (x = [] ∨ v <:+ x) → (y = [] ∨ v <+: y) →
    ¬ v <:+: g → ¬ v <:+: replace hw new g

variable {hw} {new : List α}

theorem MakesNone.piece (h : MakesNone hw v new l) (hl : ¬ v <:+: l) :
    ¬ v <:+: replace hw new l :=
  h [] l [] (by simp) (.inl rfl) (.inl rfl) hl

theorem MakesNone.first {g : List α} (h : MakesNone hw v new (g ++ (v ++ l)))
    (hg : ¬ v <:+: g) : ¬ v <:+: replace hw new g :=
  h [] g (v ++ l) rfl (.inl rfl) (.inr (List.prefix_append v l)) hg

theorem MakesNone.rest {g : List α} (h : MakesNone hw v new (g ++ (v ++ l))) :
    MakesNone hw v new l := by
  intro x g' y hl hx hy
  refine h (g ++ (v ++ x)) g' y (by simp [hl]) (.inr ?_) hy
  rcases hx with rfl | hx
  · rw [List.append_nil]
    exact List.suffix_append g v
  · exact (hx.trans (List.suffix_append v x)).trans (List.suffix_append g _)

/-- How many `v` there are behind the replacement. -/
theorem hits_replace_around (hself : Apart v v) (h : Unmixed w v) (x l : List α) :
    ((word v hv).hits (replace hw new (x ++ (v ++ l)))).length =
      ((word v hv).hits (replace hw new x)).length +
        (((word v hv).hits (replace hw new l)).length + 1) := by
  rw [h.replace_around hw, hits_around hv hself]

theorem length_hits_le_replace (hself : Apart v v) (h : Unmixed w v) (l : List α) :
    ((word v hv).hits l).length ≤ ((word v hv).hits (replace hw new l)).length := by
  induction l using pieceInduction hv with
  | piece l hl =>
    rw [(hits_word_eq_nil_iff hv).mpr hl]
    exact Nat.zero_le _
  | word g l hg ih =>
    rw [hits_replace_around hv hself h, hits_around hv hself, (hits_word_eq_nil_iff hv).mpr hg,
      List.length_nil]
    omega

theorem makesNone_iff (hself : Apart v v) (h : Unmixed w v) : MakesNone hw v new l ↔
    ((word v hv).hits (replace hw new l)).length = ((word v hv).hits l).length := by
  constructor
  · intro hnone
    induction l using pieceInduction hv with
    | piece l hl =>
      rw [(hits_word_eq_nil_iff hv).mpr hl, (hits_word_eq_nil_iff hv).mpr (hnone.piece hl)]
    | word g l hg ih =>
      rw [hits_replace_around hv hself h, hits_around hv hself, ih hnone.rest,
        (hits_word_eq_nil_iff hv).mpr hg, (hits_word_eq_nil_iff hv).mpr (hnone.first hg)]
  · intro hcount x g y hl hx hy hg
    have hle : ∀ m, ((word v hv).hits m).length ≤ ((word v hv).hits (replace hw new m)).length :=
      length_hits_le_replace hv hself h
    -- The counts agree on what is left of the text when one end of it is taken off.
    have hright : ((word v hv).hits (replace hw new (g ++ y))).length =
        ((word v hv).hits (g ++ y)).length := by
      rcases hx with rfl | ⟨x, rfl⟩
      · rwa [hl] at hcount
      · rw [hl, List.append_assoc, hits_replace_around hv hself h, hits_around hv hself] at hcount
        have hx := hle x
        have hgy := hle (g ++ y)
        omega
    have hpiece : ((word v hv).hits (replace hw new g)).length =
        ((word v hv).hits g).length := by
      rcases hy with rfl | ⟨y, rfl⟩
      · rwa [List.append_nil] at hright
      · rw [hits_replace_around hv hself h, hits_around hv hself] at hright
        have hy := hle y
        have hg := hle g
        omega
    rw [(hits_word_eq_nil_iff hv).mpr hg, List.length_nil, List.length_eq_zero_iff] at hpiece
    exact (hits_word_eq_nil_iff hv).mp hpiece

end Makes

end Matching
