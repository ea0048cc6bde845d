import Ruscker.Lib.Table

/-!
# One lock for each key

Clients take the lock of their key from a map, which makes it when it is not there, and keep
their copy of it while they wait and while they are inside.  Entries of the map can be collected.
As long as no entry is collected that a client has a copy of, clients with one key have one lock.
-/

namespace KeyedLocks

open Tables

/-- The lock of each key by its number, and the next number. -/
structure Locks (κ : Type*) where
  map : Table κ Nat
  next : Nat

/-- What a client has to do with the locks: its key, its copy, and whether it is inside. -/
structure Client (κ : Type*) where
  key : κ
  copy : Option Nat
  holds : Bool

section Operations

variable {κ : Type*} [DecidableEq κ] (locks : Locks κ) (key : κ)

/-- The lock of a key, which is made if there is none. -/
def intern : Locks κ × Nat :=
  match locks.map.lookup key with
  | some id => (locks, id)
  | none => (⟨locks.map.insert key locks.next, locks.next + 1⟩, locks.next)

/-- Only the entries that meet `p` stay. -/
def collect (p : κ → Bool) : Locks κ := { locks with map := locks.map.retain fun k _ => p k }

variable {locks key} {key' : κ} {id : Nat}

theorem lookup_intern : (intern locks key).1.map.lookup key = some (intern locks key).2 := by
  unfold intern
  split
  · next id hid => exact hid
  · exact AList.lookup_insert locks.map

/-- The entries that are there stay. -/
theorem lookup_intern_of_lookup (h : locks.map.lookup key' = some id) :
    (intern locks key).1.map.lookup key' = some id := by
  unfold intern
  split
  · exact h
  · next hnone => exact Table.lookup_insert_of_new hnone h

theorem lookup_collect {p : κ → Bool} (h : locks.map.lookup key = some id) (hp : p key = true) :
    (collect locks p).map.lookup key = some id :=
  Table.lookup_retain.mpr ⟨h, hp⟩

end Operations

/-! ## Clients apart -/

section Clients

variable {ι κ : Type*} [DecidableEq κ]

/-- A copy is the lock its key has on the map, a client inside has one, and no two clients are
inside one lock. -/
structure Sound (locks : Locks κ) (clients : ι → Option (Client κ)) : Prop where
  agree : ∀ i c id, clients i = some c → c.copy = some id → locks.map.lookup c.key = some id
  copied : ∀ i c, clients i = some c → c.holds = true → c.copy ≠ none
  alone : ∀ i j c d, clients i = some c → clients j = some d → c.holds = true → d.holds = true →
    c.copy = d.copy → i = j

variable {locks locks' : Locks κ} {clients clients' : ι → Option (Client κ)} {i j : ι}
  {c d : Client κ}

namespace Sound

/-- **Exclusion.** No two clients with one key are inside. -/
theorem one_holder (h : Sound locks clients) (hi : clients i = some c) (hj : clients j = some d)
    (hc : c.holds = true) (hd : d.holds = true) (hkey : c.key = d.key) : i = j := by
  obtain ⟨id, hid⟩ := Option.ne_none_iff_exists'.mp (h.copied i c hi hc)
  obtain ⟨id', hid'⟩ := Option.ne_none_iff_exists'.mp (h.copied j d hj hd)
  have hlookup := h.agree i c id hi hid
  have hlookup' := h.agree j d id' hj hid'
  rw [hkey, hlookup'] at hlookup
  exact h.alone i j c d hi hj hc hd (hid.trans (hlookup.symm.trans hid'.symm))

/-- The map keeps the locks that have copies. -/
theorem relock (h : Sound locks clients)
    (hkeep : ∀ i c id, clients i = some c → c.copy = some id →
      locks.map.lookup c.key = some id → locks'.map.lookup c.key = some id) :
    Sound locks' clients where
  agree i c id hi hid := hkeep i c id hi hid (h.agree i c id hi hid)
  copied := h.copied
  alone := h.alone

/-- A collection that drops no lock with a copy. -/
theorem collect (h : Sound locks clients) {p : κ → Bool}
    (hp : ∀ i c, clients i = some c → c.copy ≠ none → p c.key = true) :
    Sound (KeyedLocks.collect locks p) clients :=
  h.relock fun i c id hi hid hlookup =>
    lookup_collect hlookup (hp i c hi (by rw [hid]; exact Option.some_ne_none id))

/-- One client changes: its copy agrees with the map, and it is inside with it alone or not
inside. -/
theorem set (h : Sound locks clients) (hother : ∀ j, j ≠ i → clients' j = clients j)
    (hself : clients' i = some c)
    (hagree : ∀ id, c.copy = some id → locks.map.lookup c.key = some id)
    (hcopied : c.holds = true → c.copy ≠ none)
    (halone : c.holds = true → ∀ j d, j ≠ i → clients j = some d → d.holds = true →
      c.copy ≠ d.copy) : Sound locks clients' := by
  have hcases : ∀ j d, clients' j = some d → (j = i ∧ d = c) ∨ (j ≠ i ∧ clients j = some d) := by
    intro j d hj
    by_cases hji : j = i
    · subst hji
      exact .inl ⟨rfl, Option.some.inj (hj.symm.trans hself)⟩
    · exact .inr ⟨hji, (hother j hji) ▸ hj⟩
  refine ⟨fun j d id hj hid => ?_, fun j d hj hd => ?_, fun j k d e hj hk hd he heq => ?_⟩
  · rcases hcases j d hj with ⟨-, rfl⟩ | ⟨-, hj⟩
    · exact hagree id hid
    · exact h.agree j d id hj hid
  · rcases hcases j d hj with ⟨-, rfl⟩ | ⟨-, hj⟩
    · exact hcopied hd
    · exact h.copied j d hj hd
  · rcases hcases j d hj with ⟨rfl, rfl⟩ | ⟨hji, hj⟩
    · rcases hcases k e hk with ⟨rfl, -⟩ | ⟨hki, hk⟩
      · rfl
      · exact absurd heq (halone hd k e hki hk he)
    · rcases hcases k e hk with ⟨rfl, rfl⟩ | ⟨-, hk⟩
      · exact absurd heq.symm (halone he j d hji hj hd)
      · exact h.alone j k d e hj hk hd he heq

/-- A client that is not inside may also be a new one or let its copy go. -/
theorem outside (h : Sound locks clients) (hother : ∀ j, j ≠ i → clients' j = clients j)
    (hself : clients' i = some c)
    (hagree : ∀ id, c.copy = some id → locks.map.lookup c.key = some id)
    (hc : c.holds = false) : Sound locks clients' :=
  h.set hother hself hagree (fun hholds => by rw [hc] at hholds; cases hholds)
    fun hholds => by rw [hc] at hholds; cases hholds

/-- A client takes a copy. -/
theorem intern (h : Sound locks clients) (key : κ)
    (hother : ∀ j, j ≠ i → clients' j = clients j)
    (hself : clients' i = some ⟨key, some (KeyedLocks.intern locks key).2, false⟩) :
    Sound (KeyedLocks.intern locks key).1 clients' := by
  have hlocks : Sound (KeyedLocks.intern locks key).1 clients :=
    h.relock fun _ _ _ _ _ hlookup => lookup_intern_of_lookup hlookup
  refine hlocks.outside hother hself (fun id hid => ?_) rfl
  cases hid
  exact lookup_intern

/-- A client goes in with its copy, while nobody is inside with the same one. -/
theorem enter (h : Sound locks clients) (hi : clients i = some c) {id : Nat}
    (hid : c.copy = some id)
    (hfree : ∀ j d, clients j = some d → d.holds = true → d.copy ≠ some id)
    (hother : ∀ j, j ≠ i → clients' j = clients j)
    (hself : clients' i = some { c with holds := true }) : Sound locks clients' := by
  refine h.set hother hself (fun id hid => h.agree i c id hi hid) (fun _ => ?_)
    fun _ j d _ hj hd heq => ?_
  · rw [hid]
    exact Option.some_ne_none id
  · exact hfree j d hj hd (heq.symm.trans hid)

/-- A client inside stays there. -/
theorem stay (h : Sound locks clients) (hi : clients i = some c)
    (hother : ∀ j, j ≠ i → clients' j = clients j) (hself : clients' i = some c) :
    Sound locks clients' := by
  have hsame : clients' = clients := by
    funext j
    by_cases hji : j = i
    · rw [hji, hself, hi]
    · exact hother j hji
  rw [hsame]
  exact h

end Sound

end Clients

end KeyedLocks
