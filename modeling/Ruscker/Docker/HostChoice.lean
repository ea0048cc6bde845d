import Mathlib.Algebra.Order.Field.Basic
import Mathlib.Data.Rat.Defs
import Ruscker.Docker.HostCaps
import Ruscker.Lib.Extremes

/-!
# The host of a spawn

`choose_host` takes a least loaded host or a fullest one by comparisons of indices: the loads are
cross-multiplied in `u128`, and the indices break ties.  No product is cut off, and the host is the
first of those with the exactly least load for their weight.
-/

namespace Ruscker.Docker.Capped

open Extremes

/-! ## The comparisons of the source -/

/-- `count as u128 * weight.max(1) as u128`. -/
def HostLoad.cross (a b : HostLoad) : Nat := a.count * Nat.max b.weight.val 1 % 2 ^ 128

/-- The comparison of `min_by`. -/
def spreadCmp (a b : HostLoad × Nat) : Ordering :=
  (compare (a.1.cross b.1) (b.1.cross a.1)).then (compare a.2 b.2)

/-- The comparison of `max_by`. -/
def binPackCmp (a b : HostLoad × Nat) : Ordering :=
  (compare a.1.count b.1.count).then (compare b.2 a.2)

def eligibleHosts (loads : List HostLoad) : List (HostLoad × Nat) :=
  loads.zipIdx.filter fun l => l.1.isEligible

/-- Anti-affinity, where it leaves a host. -/
def freeOrAll (antiAffinity : Bool) (eligible : List (HostLoad × Nat)) : List (HostLoad × Nat) :=
  if antiAffinity then
    let free := eligible.filter fun l => !l.1.runsSpec
    if free.isEmpty then eligible else free
  else eligible

/-- `choose_host`, with the indices and the loads they stand for. -/
def chooseHostBy (loads : List HostLoad) (placement : Placement) (antiAffinity : Bool) :
    Option Nat :=
  let eligible := eligibleHosts loads
  if eligible.isEmpty then none
  else match placement with
    | .spread => (minBy spreadCmp (freeOrAll antiAffinity eligible)).map Prod.snd
    | .binPack => (maxBy binPackCmp (freeOrAll antiAffinity eligible)).map Prod.snd

/-! ## The host that should be taken -/

/-- A host below its cap, and without the spec where anti-affinity finds such a host. -/
def isCandidate (loads : List HostLoad) (antiAffinity : Bool) (l : HostLoad) : Bool :=
  l.isEligible &&
    (!(antiAffinity && loads.any fun m => m.isEligible && !m.runsSpec) || !l.runsSpec)

/-- The containers of a host for its weight; a weight of zero counts as one. -/
def HostLoad.ratio (l : HostLoad) : ℚ := l.count / (Nat.max l.weight.val 1 : ℕ)

def IsBetter (placement : Placement) (a b : HostLoad) : Prop :=
  match placement with
  | .spread => a.ratio < b.ratio
  | .binPack => b.count < a.count

/-- The first of the best candidates. -/
structure IsChosen (loads : List HostLoad) (placement : Placement) (antiAffinity : Bool) (i : Nat)
    (l : HostLoad) : Prop where
  at_index : loads[i]? = some l
  candidate : isCandidate loads antiAffinity l = true
  best : ∀ m ∈ loads, isCandidate loads antiAffinity m = true → ¬ IsBetter placement m l
  first : ∀ j m, loads[j]? = some m → isCandidate loads antiAffinity m = true → j < i →
    IsBetter placement l m

section Choice

variable {loads : List HostLoad} {placement : Placement} {antiAffinity : Bool} {i j : Nat}
  {l m : HostLoad}

theorem IsChosen.unique (hl : IsChosen loads placement antiAffinity i l)
    (hm : IsChosen loads placement antiAffinity j m) : i = j := by
  rcases Nat.lt_trichotomy i j with hlt | heq | hlt
  · exact absurd (hm.first i l hl.at_index hl.candidate hlt)
      (hl.best m (List.mem_of_getElem? hm.at_index) hm.candidate)
  · exact heq
  · exact absurd (hl.first j m hm.at_index hm.candidate hlt)
      (hm.best l (List.mem_of_getElem? hl.at_index) hl.candidate)

theorem not_isBetter_self : ¬ IsBetter placement l l := by
  cases placement with
  | spread => exact lt_irrefl l.ratio
  | binPack => exact Nat.lt_irrefl l.count

theorem not_isBetter_of_isBetter (h : IsBetter placement l m) : ¬ IsBetter placement m l := by
  cases placement with
  | spread => exact lt_asymm h
  | binPack => exact Nat.lt_asymm h

/-- The hosts to choose among, in their order. -/
def pool (loads : List HostLoad) (antiAffinity : Bool) : List (HostLoad × Nat) :=
  loads.zipIdx.filter fun l => isCandidate loads antiAffinity l.1

theorem mem_pool : (l, i) ∈ pool loads antiAffinity ↔
    loads[i]? = some l ∧ isCandidate loads antiAffinity l = true := by
  rw [pool, List.mem_filter, List.mk_mem_zipIdx_iff_getElem?]

theorem zipIdx_pairwise (loads : List HostLoad) : loads.zipIdx.Pairwise fun a b => a.2 < b.2 := by
  rw [← List.pairwise_map (R := (· < ·)), List.zipIdx_map_snd]
  exact List.pairwise_lt_range'

theorem pool_pairwise : (pool loads antiAffinity).Pairwise fun a b => a.2 < b.2 :=
  (zipIdx_pairwise loads).filter _

theorem isEmpty_free : ((eligibleHosts loads).filter fun l => !l.1.runsSpec).isEmpty =
    !loads.any fun m => m.isEligible && !m.runsSpec := by
  have hloads : loads.zipIdx.map Prod.fst = loads := List.zipIdx_map_fst 0 loads
  conv_rhs => rw [← hloads, List.any_map]
  rw [Bool.eq_iff_iff, List.isEmpty_iff, eligibleHosts, List.filter_filter, List.filter_eq_nil_iff,
    Bool.not_eq_true', List.any_eq_false]
  simp [and_comm]

/-- The hosts below their cap, or those of them without the spec. -/
theorem freeOrAll_eq_pool : freeOrAll antiAffinity (eligibleHosts loads) =
    pool loads antiAffinity := by
  unfold freeOrAll pool isCandidate
  dsimp only
  rw [isEmpty_free]
  cases antiAffinity with
  | false => simp [eligibleHosts]
  | true =>
    cases loads.any fun m => m.isEligible && !m.runsSpec with
    | false => simp [eligibleHosts]
    | true => simp [eligibleHosts, Bool.and_comm]

/-- Anti-affinity never leaves nothing. -/
theorem pool_eq_nil : pool loads antiAffinity = [] ↔ eligibleHosts loads = [] := by
  rw [← freeOrAll_eq_pool, freeOrAll]
  split
  · dsimp only
    split
    · rfl
    · next hfree =>
      rw [List.isEmpty_iff] at hfree
      refine iff_of_false hfree fun hnone => hfree ?_
      rw [hnone, List.filter_nil]
  · rfl

/-- Every host is at its cap. -/
theorem eligibleHosts_eq_nil :
    eligibleHosts loads = [] ↔ ∀ l ∈ loads, ∃ m, l.max = some m ∧ m.val ≤ l.count := by
  have hcap (l : HostLoad) : ¬ l.isEligible = true ↔ ∃ m, l.max = some m ∧ m.val ≤ l.count := by
    rw [HostLoad.isEligible]
    cases l.max with
    | none => simp
    | some m => simp
  rw [eligibleHosts, List.filter_eq_nil_iff]
  constructor
  · intro h l hl
    obtain ⟨i, hi⟩ := List.mem_iff_getElem?.mp hl
    exact (hcap l).mp (h (l, i) (List.mk_mem_zipIdx_iff_getElem?.mpr hi))
  · rintro h ⟨l, i⟩ hl
    exact (hcap l).mpr (h l (List.mem_of_getElem? (List.mk_mem_zipIdx_iff_getElem?.mp hl)))

/-! ### No product is cut off -/

theorem cross_eq {a b : HostLoad} (ha : a.count < 2 ^ 64) :
    a.cross b = a.count * Nat.max b.weight.val 1 := by
  have hweight : Nat.max b.weight.val 1 ≤ 2 ^ 32 := Nat.max_le.mpr ⟨b.weight.isLt.le, by decide⟩
  have hproduct : a.count * Nat.max b.weight.val 1 < 2 ^ 64 * 2 ^ 32 :=
    Nat.mul_lt_mul_of_lt_of_le ha hweight (by decide)
  exact Nat.mod_eq_of_lt (hproduct.trans (by decide))

/-- The products compare as the ratios do. -/
theorem isLighter_iff {a b : HostLoad} : a.isLighter b = true ↔ a.ratio < b.ratio := by
  have hpos (l : HostLoad) : (0 : ℚ) < (Nat.max l.weight.val 1 : ℕ) :=
    Nat.cast_pos.mpr (Nat.lt_of_lt_of_le Nat.one_pos (Nat.le_max_right _ _))
  rw [HostLoad.isLighter, decide_eq_true_iff, HostLoad.ratio, HostLoad.ratio,
    div_lt_div_iff₀ (hpos a) (hpos b)]
  exact_mod_cast Iff.rfl

/-- The index decides a tie for the earlier host, which the walk has already. -/
theorem minBy_spreadCmp (hcounts : ∀ l ∈ loads, l.count < 2 ^ 64) :
    minBy spreadCmp (pool loads antiAffinity) =
      minByKey (fun l => l.1.ratio) (pool loads antiAffinity) := by
  refine pick_congr (pool_pairwise.imp_of_mem ?_)
  rintro ⟨a, i⟩ ⟨b, j⟩ ha hb (hij : i < j)
  have hcount (x : HostLoad × Nat) (hx : x ∈ pool loads antiAffinity) : x.1.count < 2 ^ 64 :=
    hcounts x.1 (List.mem_of_getElem? (mem_pool.mp hx).1)
  rw [compareOn_isGT, spreadCmp, cross_eq (hcount _ ha), cross_eq (hcount _ hb),
    compare_lt_iff_lt.mpr hij, Ordering.isGT_then, Ordering.isGT_lt, Bool.and_false, Bool.or_false,
    Bool.eq_iff_iff, Ordering.isGT_iff_eq_gt, compare_gt_iff_gt, decide_eq_true_iff,
    ← isLighter_iff, HostLoad.isLighter, decide_eq_true_iff]

/-- For `max_by` the comparison of the indices is the other way round. -/
theorem maxBy_binPackCmp : maxBy binPackCmp (pool loads antiAffinity) =
    (pool loads antiAffinity).argmax fun l => l.1.count := by
  rw [List.argmax, foldl_argAux_none]
  refine pick_congr (pool_pairwise.imp_of_mem ?_)
  rintro ⟨a, i⟩ ⟨b, j⟩ - - (hij : i < j)
  rw [binPackCmp, compare_gt_iff_gt.mpr hij, Bool.eq_iff_iff, Ordering.isLE_then_iff_or,
    decide_eq_true_iff, compare_lt_iff_lt]
  simp

/-! ### The host that is taken -/

/-- What the walk over the pool ends with. -/
def bestIn (placement : Placement) (pool : List (HostLoad × Nat)) : Option (HostLoad × Nat) :=
  match placement with
  | .spread => minByKey (fun l => l.1.ratio) pool
  | .binPack => pool.argmax fun l => l.1.count

theorem chooseHostBy_eq_bestIn (hcounts : ∀ l ∈ loads, l.count < 2 ^ 64) :
    chooseHostBy loads placement antiAffinity =
      (bestIn placement (pool loads antiAffinity)).map Prod.snd := by
  unfold chooseHostBy
  dsimp only
  rw [freeOrAll_eq_pool]
  split
  · next hnone =>
    rw [pool_eq_nil.mpr (List.isEmpty_iff.mp hnone)]
    cases placement with
    | spread => rfl
    | binPack => rfl
  · cases placement with
    | spread => exact congrArg (Option.map Prod.snd) (minBy_spreadCmp hcounts)
    | binPack => exact congrArg (Option.map Prod.snd) maxBy_binPackCmp

theorem bestIn_eq_none {l : List (HostLoad × Nat)} : bestIn placement l = none ↔ l = [] := by
  cases placement with
  | spread => exact pick_eq_none
  | binPack => exact List.argmax_eq_none

theorem bestIn_iff : bestIn placement (pool loads antiAffinity) = some (l, i) ↔
    ∃ before behind, loads.zipIdx = before ++ (l, i) :: behind ∧
      isCandidate loads antiAffinity l = true ∧
      (∀ b ∈ before, isCandidate loads antiAffinity b.1 = true → IsBetter placement l b.1) ∧
      ∀ b ∈ behind, isCandidate loads antiAffinity b.1 = true → ¬ IsBetter placement b.1 l := by
  cases placement with
  | spread =>
    rw [bestIn, minByKey_iff, pool, exists_split_filter]
    simp [IsBetter]
  | binPack =>
    rw [bestIn, argmax_iff, pool, exists_split_filter]
    simp [IsBetter]

theorem isChosen_of_bestIn (h : bestIn placement (pool loads antiAffinity) = some (l, i)) :
    IsChosen loads placement antiAffinity i l := by
  obtain ⟨before, behind, heq, hl, hbefore, hbehind⟩ := bestIn_iff.mp h
  have hindex {j : Nat} {m : HostLoad} (hm : loads[j]? = some m) :
      (m, j) ∈ before ++ (l, i) :: behind := heq ▸ List.mk_mem_zipIdx_iff_getElem?.mpr hm
  have hat : loads[i]? = some l := List.mk_mem_zipIdx_iff_getElem?.mp <|
    heq ▸ List.mem_append_right before List.mem_cons_self
  refine ⟨hat, hl, ?_, ?_⟩
  · intro m hm hcandidate
    obtain ⟨j, hj⟩ := List.mem_iff_getElem?.mp hm
    rcases List.mem_append.mp (hindex hj) with hmem | hmem
    · exact not_isBetter_of_isBetter (hbefore (m, j) hmem hcandidate)
    rcases List.mem_cons.mp hmem with hself | hmem
    · cases hself
      exact not_isBetter_self
    · exact hbehind (m, j) hmem hcandidate
  · intro j m hm hcandidate hlt
    have hpairwise := zipIdx_pairwise loads
    rw [heq, List.pairwise_append, List.pairwise_cons] at hpairwise
    rcases List.mem_append.mp (hindex hm) with hmem | hmem
    · exact hbefore (m, j) hmem hcandidate
    rcases List.mem_cons.mp hmem with hself | hmem
    · cases hself
      exact absurd hlt (Nat.lt_irrefl i)
    · exact absurd hlt (Nat.lt_asymm (hpairwise.2.1.1 (m, j) hmem))

theorem chooseHostBy_eq_some (hcounts : ∀ l ∈ loads, l.count < 2 ^ 64) :
    chooseHostBy loads placement antiAffinity = some i ↔
      ∃ l, IsChosen loads placement antiAffinity i l := by
  rw [chooseHostBy_eq_bestIn hcounts]
  constructor
  · intro h
    obtain ⟨⟨l, j⟩, hbest, rfl⟩ := Option.map_eq_some_iff.mp h
    exact ⟨l, isChosen_of_bestIn hbest⟩
  · rintro ⟨l, hl⟩
    cases hbest : bestIn placement (pool loads antiAffinity) with
    | none =>
      have hmem : (l, i) ∈ pool loads antiAffinity := mem_pool.mpr ⟨hl.at_index, hl.candidate⟩
      rw [bestIn_eq_none.mp hbest] at hmem
      cases hmem
    | some best => rw [Option.map_some, hl.unique (isChosen_of_bestIn hbest)]

/-- The walks of `choose_host` over loads. -/
theorem bestOf_eq_pick (better : HostLoad → HostLoad → Bool) (l : List (HostLoad × Nat)) :
    bestOf better l = pick (fun next best => better next.1 best.1) l := by
  cases l with
  | nil => rfl
  | cons first rest => rfl

theorem bestOf_isLighter (l : List (HostLoad × Nat)) :
    bestOf HostLoad.isLighter l = minByKey (fun l => l.1.ratio) l := by
  rw [bestOf_eq_pick, minByKey, minBy]
  congr
  funext next best
  rw [compareOn_isGT, Bool.eq_iff_iff, decide_eq_true_iff]
  exact isLighter_iff

theorem bestOf_isFuller (l : List (HostLoad × Nat)) :
    bestOf HostLoad.isFuller l = l.argmax fun l => l.1.count := by
  rw [bestOf_eq_pick, List.argmax, foldl_argAux_none]
  rfl

/-- The comparisons of indices come to the walks over loads. -/
theorem chooseHostBy_eq_chooseHost (hcounts : ∀ l ∈ loads, l.count < 2 ^ 64) :
    chooseHostBy loads placement antiAffinity = chooseHost loads placement antiAffinity := by
  have hpool : pool loads antiAffinity =
      if antiAffinity && !((eligibleHosts loads).filter fun l => !l.1.runsSpec).isEmpty
      then (eligibleHosts loads).filter fun l => !l.1.runsSpec else eligibleHosts loads := by
    rw [← freeOrAll_eq_pool, freeOrAll]
    cases antiAffinity with
    | false => rfl
    | true =>
      cases hfree : ((eligibleHosts loads).filter fun l => !l.1.runsSpec).isEmpty with
      | false => simp [hfree]
      | true => simp [hfree]
  rw [chooseHostBy_eq_bestIn hcounts, hpool]
  cases placement with
  | spread => exact congrArg (Option.map Prod.snd) (bestOf_isLighter _).symm
  | binPack => exact congrArg (Option.map Prod.snd) (bestOf_isFuller _).symm

/-- **The host of a spawn.** There is none just when every host is at its cap, and otherwise it is
the first of the best candidates. -/
theorem chooseHostBy_correct (hcounts : ∀ l ∈ loads, l.count < 2 ^ 64) :
    (chooseHostBy loads placement antiAffinity = none ↔
      ∀ l ∈ loads, ∃ m, l.max = some m ∧ m.val ≤ l.count) ∧
    ∀ i, chooseHostBy loads placement antiAffinity = some i ↔
      ∃ l, IsChosen loads placement antiAffinity i l := by
  refine ⟨?_, fun i => chooseHostBy_eq_some hcounts⟩
  rw [chooseHostBy_eq_bestIn hcounts, Option.map_eq_none_iff, bestIn_eq_none, pool_eq_nil,
    eligibleHosts_eq_nil]

end Choice

section Example

/-- Counts that one floating-point number stands for. -/
def adjacentLoads : List HostLoad :=
  [⟨2 ^ 54 + 2, none, ⟨1, one_lt_u32⟩, false⟩, ⟨2 ^ 54 + 1, none, ⟨0, by decide⟩, true⟩]

theorem adjacentLoads_chosen : ∃ l, IsChosen adjacentLoads .spread false 1 l :=
  ((chooseHostBy_correct (by decide)).2 1).mp (by decide)

end Example

end Ruscker.Docker.Capped
