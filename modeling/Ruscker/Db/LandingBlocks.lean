import Mathlib.Data.List.Lex
import Mathlib.Data.List.Sort
import Mathlib.Data.Prod.Lex
import Ruscker.Config.Schema

/-!
# The landing blocks

Blocks are listed by slot, position and creation.  A new block goes behind the last one of
its slot, an edit keeps the position unless the slot changes, and an import replaces the
whole table by the blocks of the configuration in their order.
-/

namespace Ruscker

/-- A row of `landing_blocks`. -/
structure BlockRow where
  id : Str
  slot : Str
  position : Int
  enabled : Bool
  title : Str
  html : Str
  cspOrigins : Str
  createdAt : Int
  deriving DecidableEq

structure BlockInput where
  slot : Str
  enabled : Bool
  title : Str
  html : Str
  cspOrigins : Str
  deriving DecidableEq

def blockSlots : List Str := ["top".toList, "bottom".toList]

/-- A slot outside the known ones counts as the top. -/
def guardSlot (slot : Str) : Str := if blockSlots.contains slot then slot else "top".toList

theorem guardSlot_mem (slot : Str) : guardSlot slot ∈ blockSlots := by
  unfold guardSlot
  split
  · next h => exact List.contains_iff_mem.mp h
  · exact List.mem_cons_self

theorem guardSlot_of_mem {slot : Str} (h : slot ∈ blockSlots) : guardSlot slot = slot :=
  if_pos (List.contains_iff_mem.mpr h)

structure BlockForm where
  slot : Str
  title : Str
  html : Str
  cspOrigins : Str
  enabled : Option Str

def BlockForm.intoInput (form : BlockForm) : BlockInput :=
  { slot := guardSlot form.slot, enabled := form.enabled.isSome, title := form.title.trim,
    html := form.html, cspOrigins := form.cspOrigins.trim }

namespace BlockRow

/-- `ORDER BY slot, position, created_at` -/
def key (b : BlockRow) : Str ×ₗ Int ×ₗ Int := toLex (b.slot, toLex (b.position, b.createdAt))

def toConfig (b : BlockRow) : LandingBlock :=
  { slot := b.slot, title := b.title, html := b.html, cspOrigins := b.cspOrigins,
    enabled := b.enabled }

theorem slot_le_of_key_le {b c : BlockRow} (h : b.key ≤ c.key) : b.slot ≤ c.slot := by
  rcases Prod.Lex.le_iff.mp h with hlt | ⟨heq, -⟩
  · exact le_of_lt hlt
  · exact le_of_eq heq

theorem key_le_of_position_lt {b c : BlockRow} (hslot : b.slot ≤ c.slot)
    (hposition : b.slot = c.slot → b.position < c.position) : b.key ≤ c.key := by
  rcases lt_or_eq_of_le hslot with hlt | heq
  · exact Prod.Lex.le_iff.mpr (.inl hlt)
  · refine Prod.Lex.le_iff.mpr (.inr ⟨heq, Prod.Lex.le_iff.mpr (.inl ?_)⟩)
    exact hposition heq

end BlockRow

/-- The order of the listing. -/
def BlockRow.Before (a b : BlockRow) : Prop := a.key ≤ b.key

instance : DecidableRel BlockRow.Before := fun a b =>
  inferInstanceAs (Decidable (a.key ≤ b.key))

instance : Std.Total BlockRow.Before := ⟨fun a b => le_total a.key b.key⟩

instance : IsTrans BlockRow BlockRow.Before := ⟨fun _ _ _ => le_trans⟩

namespace LandingBlocks

def listAll (t : List BlockRow) : List BlockRow := t.insertionSort BlockRow.Before

/-- The blocks of an export. -/
def configBlocks (t : List BlockRow) : List LandingBlock := (listAll t).map BlockRow.toConfig

/-- `COALESCE(MAX(position) + 1, 0)` over a slot -/
def nextPosition (t : List BlockRow) (slot : Str) : Int :=
  ((t.filter fun b => b.slot = slot).map BlockRow.position).max?.elim 0 fun p => p + 1

def insert (t : List BlockRow) (input : BlockInput) (id : Str) (now : Int) : List BlockRow :=
  t ++ [{ id, slot := input.slot, position := nextPosition t input.slot,
          enabled := input.enabled, title := input.title, html := input.html,
          cspOrigins := input.cspOrigins, createdAt := now }]

def update (t : List BlockRow) (id : Str) (input : BlockInput) : List BlockRow :=
  match t.find? fun b => b.id = id with
  | none => t
  | some current =>
    let position := if current.slot = input.slot then current.position
      else nextPosition t input.slot
    t.map fun b =>
      if b.id = id then
        { b with slot := input.slot, position, enabled := input.enabled, title := input.title,
                 html := input.html, cspOrigins := input.cspOrigins }
      else b

def delete (t : List BlockRow) (id : Str) : List BlockRow := t.filter fun b => b.id ≠ id

/-- The nearest block of the slot in front of a position or behind it. -/
def neighbour (t : List BlockRow) (slot : Str) (position : Int) (up : Bool) : Option BlockRow :=
  let slotRows := (t.filter fun b => b.slot = slot).insertionSort fun a b =>
    a.position ≤ b.position
  if up then (slotRows.filter fun b => b.position < position).getLast?
  else (slotRows.filter fun b => position < b.position).head?

def setPosition (t : List BlockRow) (id : Str) (position : Int) : List BlockRow :=
  t.map fun b => if b.id = id then { b with position } else b

/-- A block at the edge of its slot stays. -/
def moveBlock (t : List BlockRow) (id : Str) (up : Bool) : List BlockRow :=
  match t.find? fun b => b.id = id with
  | none => t
  | some me =>
    match neighbour t me.slot me.position up with
    | none => t
    | some n => setPosition (setPosition t id n.position) n.id me.position

/-- One update for each id; only a row of the slot moves the counter on. -/
def renumber (slot : Str) : (pos : Int) → (ids : List Str) → List BlockRow → List BlockRow
  | _, [], t => t
  | pos, id :: ids, t =>
    let affected := t.any fun b => b.id = id ∧ b.slot = slot
    renumber slot (if affected then pos + 1 else pos) ids
      (t.map fun b => if b.id = id ∧ b.slot = slot then { b with position := pos } else b)

/-- An unknown slot is refused. -/
def reorder (t : List BlockRow) (slot : Str) (ids : List Str) : List BlockRow × Bool :=
  if blockSlots.contains slot then (renumber slot 0 ids t, true) else (t, false)

/-- The rows of imported blocks: `next` is the next position of every slot, and `ids` the
fresh ids from the `n`-th on. -/
def importRows (ids : Nat → Str) (now : Int) : (n : Nat) → (next : Str → Int) →
    List LandingBlock → List BlockRow
  | _, _, [] => []
  | n, next, b :: blocks =>
    let slot := guardSlot b.slot
    { id := ids n, slot, position := next slot, enabled := b.enabled, title := b.title,
      html := b.html, cspOrigins := b.cspOrigins, createdAt := now } ::
      importRows ids now (n + 1) (Function.update next slot (next slot + 1)) blocks

/-- `replace_all_in_tx` -/
def replaceAll (blocks : List LandingBlock) (ids : Nat → Str) (now : Int) : List BlockRow :=
  importRows ids now 0 (fun _ => 0) blocks

/-! ## Known slots -/

/-- Every block is in a slot that is rendered. -/
def Known (t : List BlockRow) : Prop := ∀ b ∈ t, b.slot ∈ blockSlots

section Known

variable {t : List BlockRow} {id : Str} {now : Int}

theorem Known.insert (h : Known t) {form : BlockForm} :
    Known (insert t form.intoInput id now) := by
  intro b hb
  rcases List.mem_append.mp hb with hold | hnew
  · exact h b hold
  · rw [List.mem_singleton.mp hnew]
    exact guardSlot_mem form.slot

theorem Known.update (h : Known t) {form : BlockForm} : Known (update t id form.intoInput) := by
  unfold LandingBlocks.update
  split
  · exact h
  · intro b hb
    obtain ⟨c, hc, rfl⟩ := List.mem_map.mp hb
    by_cases hid : c.id = id
    · rw [if_pos hid]
      exact guardSlot_mem form.slot
    · rw [if_neg hid]
      exact h c hc

theorem Known.delete (h : Known t) : Known (delete t id) := fun b hb =>
  h b (List.mem_of_mem_filter hb)

theorem Known.setPosition (h : Known t) {position : Int} : Known (setPosition t id position) := by
  intro b hb
  obtain ⟨c, hc, rfl⟩ := List.mem_map.mp hb
  have hslot := h c hc
  split
  · exact hslot
  · exact hslot

theorem Known.moveBlock (h : Known t) {up : Bool} : Known (moveBlock t id up) := by
  unfold LandingBlocks.moveBlock
  split
  · exact h
  · split
    · exact h
    · exact h.setPosition.setPosition

theorem known_importRows (ids : Nat → Str) (n : Nat) (next : Str → Int)
    (blocks : List LandingBlock) : Known (importRows ids now n next blocks) := by
  induction blocks generalizing n next with
  | nil => exact nofun
  | cons b blocks ih =>
    intro c hc
    rcases List.mem_cons.mp hc with rfl | hmem
    · exact guardSlot_mem b.slot
    · exact ih _ _ c hmem

end Known

/-! ## Exported blocks are imported in their order -/

theorem sorted_configBlocks (t : List BlockRow) :
    (configBlocks t).Pairwise fun a b => a.slot ≤ b.slot := by
  unfold configBlocks listAll
  rw [List.pairwise_map]
  exact (List.pairwise_insertionSort BlockRow.Before t).imp BlockRow.slot_le_of_key_le

theorem slot_mem_of_mem_configBlocks {t : List BlockRow} (h : Known t) {b : LandingBlock}
    (hb : b ∈ configBlocks t) : b.slot ∈ blockSlots := by
  obtain ⟨c, hc, rfl⟩ := List.mem_map.mp hb
  exact h c ((List.mem_insertionSort _).mp hc)

/-- The rows of imported blocks are not in front of the positions that were handed out. -/
theorem next_le_position {ids : Nat → Str} {now : Int} {n : Nat} {next : Str → Int}
    {blocks : List LandingBlock} {r : BlockRow} (hr : r ∈ importRows ids now n next blocks) :
    next r.slot ≤ r.position := by
  induction blocks generalizing n next with
  | nil => cases hr
  | cons b blocks ih =>
    rcases List.mem_cons.mp hr with rfl | hmem
    · exact le_refl _
    · have hle := ih hmem
      by_cases hslot : r.slot = guardSlot b.slot
      · rw [hslot, Function.update_self] at hle
        rw [hslot]
        omega
      · rwa [Function.update_of_ne hslot] at hle

theorem slot_mem_importRows {ids : Nat → Str} {now : Int} {n : Nat} {next : Str → Int}
    {blocks : List LandingBlock} {r : BlockRow} (hr : r ∈ importRows ids now n next blocks) :
    ∃ b ∈ blocks, r.slot = guardSlot b.slot := by
  induction blocks generalizing n next with
  | nil => cases hr
  | cons b blocks ih =>
    rcases List.mem_cons.mp hr with rfl | hmem
    · exact ⟨b, List.mem_cons_self, rfl⟩
    · obtain ⟨c, hc, hslot⟩ := ih hmem
      exact ⟨c, List.mem_cons_of_mem b hc, hslot⟩

/-- Blocks in the order of their slots become rows in the order of the listing. -/
theorem sorted_importRows {ids : Nat → Str} {now : Int} {n : Nat} {next : Str → Int}
    {blocks : List LandingBlock} (hslots : ∀ b ∈ blocks, b.slot ∈ blockSlots)
    (hsorted : blocks.Pairwise fun a b => a.slot ≤ b.slot) :
    (importRows ids now n next blocks).Pairwise BlockRow.Before := by
  induction blocks generalizing n next with
  | nil => exact List.Pairwise.nil
  | cons b blocks ih =>
    obtain ⟨hhead, htail⟩ := List.pairwise_cons.mp hsorted
    refine List.pairwise_cons.mpr ⟨fun r hr => ?_, ih (fun c hc => hslots c (.tail b hc)) htail⟩
    obtain ⟨c, hc, hslot⟩ := slot_mem_importRows hr
    have hb := guardSlot_of_mem (hslots b List.mem_cons_self)
    refine BlockRow.key_le_of_position_lt ?_ fun heq => ?_
    · change guardSlot b.slot ≤ r.slot
      rw [hslot, hb, guardSlot_of_mem (hslots c (.tail b hc))]
      exact hhead c hc
    · change next (guardSlot b.slot) < r.position
      change guardSlot b.slot = r.slot at heq
      have hle := next_le_position hr
      rw [← heq, Function.update_self] at hle
      omega

theorem toConfig_importRows {ids : Nat → Str} {now : Int} {n : Nat} {next : Str → Int}
    {blocks : List LandingBlock} (hslots : ∀ b ∈ blocks, b.slot ∈ blockSlots) :
    (importRows ids now n next blocks).map BlockRow.toConfig = blocks := by
  induction blocks generalizing n next with
  | nil => rfl
  | cons b blocks ih =>
    have hb := guardSlot_of_mem (hslots b List.mem_cons_self)
    rw [importRows, List.map_cons, ih fun c hc => hslots c (.tail b hc)]
    simp only [BlockRow.toConfig, hb]

/-- **An exported list of blocks is exported again after its import.** -/
theorem configBlocks_replaceAll {t : List BlockRow} (h : Known t) (ids : Nat → Str) (now : Int) :
    configBlocks (replaceAll (configBlocks t) ids now) = configBlocks t := by
  have hslots : ∀ b ∈ configBlocks t, b.slot ∈ blockSlots := fun b hb =>
    slot_mem_of_mem_configBlocks h hb
  have hsorted : (replaceAll (configBlocks t) ids now).Pairwise BlockRow.Before :=
    sorted_importRows hslots (sorted_configBlocks t)
  unfold configBlocks listAll at hsorted ⊢
  rw [hsorted.insertionSort_eq]
  exact toConfig_importRows hslots

end LandingBlocks

end Ruscker
