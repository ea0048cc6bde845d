import Mathlib.Algebra.Order.BigOperators.Group.Finset
import Mathlib.Algebra.Order.Ring.Int
import Mathlib.Data.List.MinMax
import Ruscker.Lib.SortedMap

/-!
# Fingerprints of a table

The count of the rows, the sum of their versions and the latest of their stamps.  A table
that descends from an earlier one, with rows added under fresh stamps and rewritten under
higher versions, has the earlier fingerprint only if it is the earlier table.
-/

namespace Fingerprints

variable {κ ρ τ : Type*} [LinearOrder κ] [LinearOrder τ]

structure Fingerprint (τ : Type*) where
  count : Nat
  total : Int
  latest : WithBot τ
  deriving DecidableEq

section Descent

variable (version : ρ → Int) (stamp : ρ → τ)

def fingerprint (t : SortedMap κ ρ) : Fingerprint τ where
  count := t.entries.length
  total := (t.entries.map fun e => version e.2).sum
  latest := (t.entries.map fun e => stamp e.2).maximum

/-- Later than every stamp of the table. -/
def Fresh (t : SortedMap κ ρ) (now : τ) : Prop := ∀ e ∈ t.entries, stamp e.2 < now

instance (t : SortedMap κ ρ) (now : τ) : Decidable (Fresh stamp t now) :=
  inferInstanceAs (Decidable (∀ e ∈ t.entries, stamp e.2 < now))

/-- What became of a row that was not deleted. -/
def Kept (row row' : ρ) : Prop :=
  row' = row ∨ version row < version row' ∧ stamp row ≤ stamp row'

/-- Every row of `new` was added since `old` under a fresh stamp, or kept. -/
def Descends (old new : SortedMap κ ρ) : Prop :=
  ∀ k, ∀ row' ∈ new.lookup k,
    Fresh stamp old (stamp row') ∨ ∃ row ∈ old.lookup k, Kept version stamp row row'

/-- The row that stood under the key does not: what stands there is a later version, or
was stamped later. -/
def Gone (t : SortedMap κ ρ) (k : κ) (row : ρ) : Prop :=
  ∀ row' ∈ t.lookup k, stamp row < stamp row' ∨
    version row < version row' ∧ stamp row ≤ stamp row'

end Descent

variable {version : ρ → Int} {stamp : ρ → τ} {old new t : SortedMap κ ρ} {k : κ}
  {row row' : ρ}

theorem Fresh.lt_of_lookup {now : τ} (h : Fresh stamp t now) (hrow : t.lookup k = some row) :
    stamp row < now :=
  h (k, row) (SortedMap.mem_entries_iff.mpr hrow)

theorem Kept.refl (row : ρ) : Kept version stamp row row := .inl rfl

theorem Kept.stamp_le (h : Kept version stamp row row') : stamp row ≤ stamp row' := by
  rcases h with rfl | ⟨-, hle⟩
  · exact le_refl _
  · exact hle

theorem Kept.version_le (h : Kept version stamp row row') : version row ≤ version row' := by
  rcases h with rfl | ⟨hlt, -⟩
  · exact Int.le_refl _
  · exact Int.le_of_lt hlt

theorem Kept.eq_of_version (h : Kept version stamp row row')
    (hversion : version row = version row') : row' = row := by
  rcases h with rfl | ⟨hlt, -⟩
  · rfl
  · omega

theorem Kept.trans {row'' : ρ} (h : Kept version stamp row row')
    (h' : Kept version stamp row' row'') : Kept version stamp row row'' := by
  rcases h' with rfl | ⟨hlt, hle⟩
  · exact h
  · exact .inr ⟨Int.lt_of_le_of_lt h.version_le hlt, h.stamp_le.trans hle⟩

/-! ## Steps -/

theorem Descends.refl (t : SortedMap κ ρ) : Descends version stamp t t :=
  fun _ row' hrow => .inr ⟨row', hrow, .refl row'⟩

/-- Adding a row under a fresh stamp. -/
theorem Descends.add (h : Descends version stamp old new) (k : κ)
    (hfresh : Fresh stamp old (stamp row')) : Descends version stamp old (new.insert k row') := by
  intro k' row'' hrow
  rw [Option.mem_def, SortedMap.lookup_insert] at hrow
  split at hrow
  · cases hrow
    exact .inl hfresh
  · exact h k' row'' hrow

/-- Rewriting a row. -/
theorem Descends.rewrite (h : Descends version stamp old new) (hrow : new.lookup k = some row)
    (hkept : Kept version stamp row row') : Descends version stamp old (new.insert k row') := by
  intro k' row'' hrow''
  rw [Option.mem_def, SortedMap.lookup_insert] at hrow''
  split at hrow''
  · next heq =>
    cases hrow''
    subst heq
    rcases h k' row hrow with hfresh | ⟨before, hbefore, hold⟩
    · exact .inl fun e he => (hfresh e he).trans_le hkept.stamp_le
    · exact .inr ⟨before, hbefore, hold.trans hkept⟩
  · exact h k' row'' hrow''

theorem Descends.erase (h : Descends version stamp old new) (k : κ) :
    Descends version stamp old (new.erase k) := by
  intro k' row' hrow
  rw [Option.mem_def, SortedMap.lookup_erase] at hrow
  split at hrow
  · cases hrow
  · exact h k' row' hrow

theorem Descends.gone (h : Descends version stamp old new) (hold : old.lookup k = some row)
    (hnew : new.lookup k ≠ some row) : Gone version stamp new k row := by
  intro row' hrow'
  rcases h k row' hrow' with hfresh | ⟨before, hbefore, hkept⟩
  · exact .inl (hfresh.lt_of_lookup hold)
  · cases Option.some.inj (hold.symm.trans hbefore)
    rcases hkept with rfl | hlater
    · exact absurd hrow' hnew
    · exact .inr hlater

theorem Gone.lookup_ne (h : Gone version stamp t k row) : t.lookup k ≠ some row := by
  intro hrow
  rcases h row hrow with hlt | ⟨hlt, -⟩
  · exact lt_irrefl _ hlt
  · exact lt_irrefl _ hlt

theorem Gone.add {k' : κ} (h : Gone version stamp t k row) (hlt : stamp row < stamp row') :
    Gone version stamp (t.insert k' row') k row := by
  intro row'' hrow
  rw [Option.mem_def, SortedMap.lookup_insert] at hrow
  split at hrow
  · cases hrow
    exact .inl hlt
  · exact h row'' hrow

theorem Gone.rewrite {k' : κ} {before : ρ} (h : Gone version stamp t k row)
    (hbefore : t.lookup k' = some before) (hkept : Kept version stamp before row') :
    Gone version stamp (t.insert k' row') k row := by
  intro row'' hrow
  rw [Option.mem_def, SortedMap.lookup_insert] at hrow
  split at hrow
  · next heq =>
    cases hrow
    subst heq
    rcases h before hbefore with hlt | ⟨hlt, hle⟩
    · exact .inl (hlt.trans_le hkept.stamp_le)
    · exact .inr ⟨Int.lt_of_lt_of_le hlt hkept.version_le, hle.trans hkept.stamp_le⟩
  · exact h row'' hrow

theorem Gone.erase (h : Gone version stamp t k row) (k' : κ) :
    Gone version stamp (t.erase k') k row := by
  intro row' hrow
  rw [Option.mem_def, SortedMap.lookup_erase] at hrow
  split at hrow
  · cases hrow
  · exact h row' hrow

/-! ## Equal fingerprints -/

/-- No row is fresh where the latest stamp is the old one. -/
theorem not_fresh_of_latest
    (hlatest : (fingerprint version stamp old).latest = (fingerprint version stamp new).latest)
    (hrow : new.lookup k = some row) : ¬ Fresh stamp old (stamp row) := by
  intro hfresh
  have hmem : stamp row ∈ new.entries.map fun e => stamp e.2 :=
    List.mem_map.mpr ⟨(k, row), SortedMap.mem_entries_iff.mpr hrow, rfl⟩
  have hle : (stamp row : WithBot τ) ≤ (old.entries.map fun e => stamp e.2).maximum := by
    rw [show (old.entries.map fun e => stamp e.2).maximum = _ from hlatest]
    exact List.le_maximum_of_mem' hmem
  have hlt : (old.entries.map fun e => stamp e.2).maximum < (stamp row : WithBot τ) := by
    cases hmax : (old.entries.map fun e => stamp e.2).maximum with
    | bot => exact WithBot.bot_lt_coe _
    | coe m =>
      obtain ⟨e, he, rfl⟩ := List.mem_map.mp (List.maximum_mem hmax)
      exact WithBot.coe_lt_coe.mpr (hfresh e he)
  exact absurd hle (not_le.mpr hlt)

/-- **Injectivity along a history.** -/
theorem Descends.eq_of_fingerprint (h : Descends version stamp old new)
    (heq : fingerprint version stamp old = fingerprint version stamp new) : old = new := by
  have hkept : ∀ k, ∀ row' ∈ new.lookup k, ∃ row ∈ old.lookup k, Kept version stamp row row' :=
    fun k row' hrow => (h k row' hrow).resolve_left
      (not_fresh_of_latest (congrArg Fingerprint.latest heq) hrow)
  have hkeys : new.keys = old.keys := by
    refine Finset.eq_of_subset_of_card_le (fun k hk => ?_) ?_
    · obtain ⟨row', hrow'⟩ := Option.isSome_iff_exists.mp (SortedMap.mem_keys_iff.mp hk)
      obtain ⟨row, hrow, -⟩ := hkept k row' hrow'
      exact SortedMap.mem_keys_iff.mpr (Option.isSome_iff_exists.mpr ⟨row, hrow⟩)
    · rw [SortedMap.card_keys, SortedMap.card_keys]
      exact Nat.le_of_eq (congrArg Fingerprint.count heq)
  have htotal : ∑ k ∈ old.keys, (old.lookup k).elim 0 version =
      ∑ k ∈ old.keys, (new.lookup k).elim 0 version := by
    rw [← SortedMap.sum_entries, ← hkeys, ← SortedMap.sum_entries]
    exact congrArg Fingerprint.total heq
  have hle : ∀ k ∈ old.keys,
      (old.lookup k).elim 0 version ≤ (new.lookup k).elim 0 version := by
    intro k hk
    rw [← hkeys] at hk
    obtain ⟨row', hrow'⟩ := Option.isSome_iff_exists.mp (SortedMap.mem_keys_iff.mp hk)
    obtain ⟨row, hrow, hstep⟩ := hkept k row' hrow'
    rw [Option.mem_def.mp hrow, hrow']
    exact hstep.version_le
  have hversions := (Finset.sum_eq_sum_iff_of_le hle).mp htotal
  refine SortedMap.ext_lookup fun k => ?_
  by_cases hk : k ∈ old.keys
  · obtain ⟨row', hrow'⟩ := Option.isSome_iff_exists.mp
      (SortedMap.mem_keys_iff.mp (hkeys.symm ▸ hk))
    obtain ⟨row, hrow, hstep⟩ := hkept k row' hrow'
    have hversion := hversions k hk
    rw [Option.mem_def.mp hrow, hrow'] at hversion ⊢
    rw [hstep.eq_of_version hversion]
  · have hk' : k ∉ new.keys := hkeys.symm ▸ hk
    rw [SortedMap.mem_keys_iff, Option.isSome_iff_ne_none, not_not] at hk hk'
    rw [hk, hk']

end Fingerprints
