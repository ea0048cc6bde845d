import Ruscker.Db.Users

/-!
# The in-memory session store

A session records the role and the account it was opened for.  The store never looks
at the user table again: a session ends by expiry, by logout, or by a sweep of all
sessions of its actor.
-/

namespace Ruscker.Auth

open Tables

variable [Unicode]

/-- `actor` is the database username, absent for a break-glass token session. -/
structure SessionEntry where
  expiry : Nat
  role : Role
  actor : Option Username

abbrev SessionStore := Table Str SessionEntry

namespace SessionStore

/-- `create` under a freshly minted id. -/
def create (store : SessionStore) (now ttl : Nat) (id : Str) (role : Role)
    (actor : Option Username) : Option SessionStore :=
  Table.insertNew store id ⟨now + ttl, role, actor⟩

/-- The live session of an id; an expired one is dropped on the way. -/
def validate (store : SessionStore) (now : Nat) (id : Str) :
    Option SessionEntry × SessionStore :=
  match store.lookup id with
  | some entry => if now < entry.expiry then (some entry, store) else (none, store.erase id)
  | none => (none, store)

def remove (store : SessionStore) (id : Str) : SessionStore := store.erase id

def revokeByActor (store : SessionStore) (actor : Username) : SessionStore :=
  Table.retain store fun _ entry => entry.actor ≠ some actor

variable {store store' : SessionStore} {now ttl : Nat} {id id' : Str} {role : Role}
  {actor : Option Username} {entry : SessionEntry}

theorem lookup_create (h : store.create now ttl id role actor = some store')
    (hentry : store'.lookup id' = some entry) :
    store.lookup id' = some entry ∨ entry = ⟨now + ttl, role, actor⟩ := by
  obtain ⟨-, rfl⟩ := Table.insertNew_eq_some h
  rw [Table.lookup_insert_eq] at hentry
  split at hentry
  · exact .inr (Option.some.inj hentry).symm
  · exact .inl hentry

theorem lookup_validate (hentry : (store.validate now id).2.lookup id' = some entry) :
    store.lookup id' = some entry := by
  unfold validate at hentry
  split at hentry
  · split at hentry
    · exact hentry
    · rw [Table.lookup_erase_eq] at hentry
      split at hentry
      · cases hentry
      · exact hentry
  · exact hentry

/-- A validated session stays in the store. -/
theorem lookup_of_validate (h : (store.validate now id).1 = some entry) :
    (store.validate now id).2.lookup id = some entry := by
  unfold validate at h ⊢
  split at h
  · next found hfound =>
    split at h
    · next hlive =>
      cases h
      simp [hfound, hlive]
    · cases h
  · cases h

theorem lookup_revokeByActor {u : Username} :
    (store.revokeByActor u).lookup id = some entry ↔
      store.lookup id = some entry ∧ entry.actor ≠ some u := by
  rw [revokeByActor, Table.lookup_retain]
  simp

end SessionStore

end Ruscker.Auth
