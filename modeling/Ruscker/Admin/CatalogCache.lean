import Mathlib.Data.List.Sort
import Ruscker.Admin.SpecEdits
import Ruscker.Db.Specs
import Ruscker.Lib.Fingerprint

/-!
# The catalog cache

The admin pages read the effective catalog through a cache per node.  A cached catalog is
valid while the signature of the `specs` table is the one it was stored under: the count
of the rows, the sum of their versions and the latest update.  The signature and the
listing are two reads, writes of any node fall between them, and each read may fail.
-/

namespace Ruscker.Admin.CatalogCache

open Fingerprints Machines Machines.Machine SpecEdits

section Cache

variable [Floats]

/-- A row of the `specs` table with its dates. -/
structure Row where
  stored : Stored
  createdAt : Int
  updatedAt : Int
  deriving DecidableEq

def Row.version (row : Row) : Int := row.stored.version

abbrev SpecTable := SortedMap Str Row

abbrev CatalogSignature := Fingerprint Int

def catalogSignature (t : SpecTable) : CatalogSignature := fingerprint Row.version Row.updatedAt t

/-- `ORDER BY created_at, id`: the entries are in the order of their ids. -/
def listAll (t : SpecTable) : List (Spec Settings) :=
  ((t.entries.map Prod.snd).insertionSort fun a b => a.createdAt ≤ b.createdAt).map
    fun row => row.stored.spec

/-- The specs the runtime acts on, for the outcome of the listing. -/
def effectiveSpecs (listed : Option (List (Spec Settings))) (yaml : List (Spec Settings)) :
    List (Spec Settings) :=
  match listed with
  | some dbSpecs => dbSpecs ++ yaml.filter fun s => !(dbSpecs.map Spec.id).contains s.id
  | none => yaml

/-- A listing that answered gives the effective catalog of its table. -/
theorem effectiveSpecs_listAll (db : Specs Settings) (yaml : List (Spec Settings)) :
    effectiveSpecs (some db.listAll) yaml = Ruscker.effectiveSpecs db yaml := rfl

def catalog (t : SpecTable) (yaml : List (Spec Settings)) : List (Spec Settings) :=
  effectiveSpecs (some (listAll t)) yaml

/-! ## Writes -/

def upsertInTx (t : SpecTable) (spec : Spec Settings) (now : Int) : SpecTable :=
  match t.lookup spec.id with
  | none => t.insert spec.id ⟨⟨spec, 1⟩, now, now⟩
  | some old =>
    if old.stored.spec = spec then t
    else t.insert spec.id ⟨⟨spec, old.stored.version + 1⟩, old.createdAt, now⟩

/-- Refused where the id is taken. -/
def insertNew (t : SpecTable) (spec : Spec Settings) (now : Int) : SpecTable :=
  if (t.lookup spec.id).isSome then t else upsertInTx t spec now

/-- Neither date moves. -/
def setState (t : SpecTable) (id : Str) (active : Bool) : SpecTable :=
  match t.lookup id with
  | none => t
  | some row => t.insert id { row with stored := SpecEdits.setState active row.stored }

/-- Apart from the dates an upsert is the one of the edit form. -/
theorem stored_upsertInTx (t : SpecTable) (spec : Spec Settings) (now : Int) :
    ((upsertInTx t spec now).lookup spec.id).map Row.stored =
      some (upsertRow ((t.lookup spec.id).map Row.stored) spec) := by
  unfold upsertInTx
  cases hrow : t.lookup spec.id with
  | none => simp [upsertRow]
  | some old =>
    by_cases hsame : old.stored.spec = spec
    · simp [upsertRow, hsame, hrow]
    · simp [upsertRow, hsame]

/-! ## Calls -/

/-- A call of `effective_specs_cached` after each of its queries.  `signed` is the table
whose signature it read. -/
inductive Phase where
  | signing
  | checking (sig : CatalogSignature) (signed : SpecTable)
  /-- without a key when the signature query failed -/
  | listing (key : Option (CatalogSignature × SpecTable))
  | storing (sig : CatalogSignature) (specs : List (Spec Settings)) (answered : Bool)
  /-- `answered` when the database answered every query of the call -/
  | done (specs : List (Spec Settings)) (answered : Bool)
  deriving DecidableEq

/-- `began` is the moment the call started at. -/
structure Call where
  node : Nat
  began : Nat
  phase : Phase
  deriving DecidableEq

/-- The table a call is about to list under a signature. -/
def Phase.signed : Phase → Option SpecTable
  | .listing key => key.map Prod.snd
  | _ => none

/-- The table and what it was at each earlier moment. -/
structure History where
  past : List SpecTable
  table : SpecTable

namespace History

def moments (h : History) : List SpecTable := h.past ++ [h.table]

def write (h : History) (t : SpecTable) : History := ⟨h.moments, t⟩

/-- The table of the `n`-th moment or a later one. -/
def Since (h : History) (n : Nat) (t : SpecTable) : Prop := ∃ j, n ≤ j ∧ h.moments[j]? = some t

end History

structure Cluster where
  history : History
  caches : Nat → Option (CatalogSignature × List (Spec Settings))
  calls : List Call

inductive Event where
  | begin (node : Nat)
  | readSignature (i : Nat) (answered : Bool)
  | readCache (i : Nat)
  | list (i : Nat) (answered : Bool)
  | store (i : Nat)
  | insertNew (spec : Spec Settings) (now : Int)
  | upsert (spec : Spec Settings) (now : Int)
  | setState (id : Str) (active : Bool)
  | delete (id : Str)

namespace Cluster

def table (s : Cluster) : SpecTable := s.history.table

def write (s : Cluster) (t : SpecTable) : Cluster := { s with history := s.history.write t }

def advance (s : Cluster) (i : Nat) (next : Call → Option Phase) : Option Cluster :=
  (s.calls[i]?).bind fun call => (next call).map fun phase =>
    { s with calls := s.calls.set i { call with phase } }

def readSignature (s : Cluster) (answered : Bool) (call : Call) : Option Phase :=
  match call.phase with
  | .signing =>
    some (if answered then .checking (catalogSignature s.table) s.table else .listing none)
  | _ => none

def readCache (s : Cluster) (call : Call) : Option Phase :=
  match call.phase with
  | .checking sig signed =>
    match s.caches call.node with
    | some (cached, specs) =>
      some (if cached = sig then .done specs true else .listing (some (sig, signed)))
    | none => some (.listing (some (sig, signed)))
  | _ => none

def list (yaml : Nat → List (Spec Settings)) (s : Cluster) (answered : Bool) (call : Call) :
    Option Phase :=
  match call.phase with
  | .listing key =>
    let specs := effectiveSpecs (if answered then some (listAll s.table) else none)
      (yaml call.node)
    some (key.elim (.done specs false) fun key => .storing key.1 specs answered)
  | _ => none

def store (s : Cluster) (i : Nat) : Option Cluster :=
  match s.calls[i]? with
  | some ⟨node, began, .storing sig specs answered⟩ =>
    some { s with
      caches := Function.update s.caches node (some (sig, specs))
      calls := s.calls.set i ⟨node, began, .done specs answered⟩ }
  | _ => none

end Cluster

/-- `yaml` holds the specs of each node's configuration. -/
def step (yaml : Nat → List (Spec Settings)) (s : Cluster) : Event → Option Cluster
  | .begin node => some { s with calls := s.calls ++ [⟨node, s.history.past.length, .signing⟩] }
  | .readSignature i answered => s.advance i (s.readSignature answered)
  | .readCache i => s.advance i s.readCache
  | .list i answered => s.advance i (s.list yaml answered)
  | .store i => s.store i
  | .insertNew spec now => some (s.write (insertNew s.table spec now))
  | .upsert spec now => some (s.write (upsertInTx s.table spec now))
  | .setState id active => some (s.write (setState s.table id active))
  | .delete id => some (s.write (s.table.erase id))

def machine (yaml : Nat → List (Spec Settings)) : Machine Cluster Event := ⟨step yaml⟩

/-- Nothing cached and no call in flight. -/
def initial (t : SpecTable) : Cluster := ⟨⟨[], t⟩, fun _ => none, []⟩

/-! ## Coherence -/

/-- Equal signatures mean equal rows, and a call whose queries were all answered returned
the catalog of a moment it saw. -/
structure Coherent (yaml : Nat → List (Spec Settings)) (s : Cluster) : Prop where
  signatures : ∀ t ∈ s.history.moments, ∀ t' ∈ s.history.moments,
    catalogSignature t = catalogSignature t' → t = t'
  answers : ∀ call ∈ s.calls, ∀ specs, call.phase = .done specs true →
    ∃ t, s.history.Since call.began t ∧ specs = catalog t (yaml call.node)

/-- A row is created after every update the table ever showed, and no update dates its row
back. -/
def Timely (s : Cluster) (spec : Spec Settings) (now : Int) : Prop :=
  match s.table.lookup spec.id with
  | none => ∀ t ∈ s.history.moments, Fresh Row.updatedAt t now
  | some old => old.stored.spec = spec ∨ old.updatedAt ≤ now

/-- The side condition: creations and updates are timely, and a listing under a signature
succeeds and finds the table it signed, or one of its rows changed or deleted. -/
def Orderly (s : Cluster) : Event → Prop
  | .insertNew spec now => (s.table.lookup spec.id).isNone → Timely s spec now
  | .upsert spec now => Timely s spec now
  | .list i answered => ∀ call ∈ s.calls[i]?, ∀ signed ∈ call.phase.signed,
      answered = true ∧
        (signed = s.table ∨ ∃ e ∈ signed.entries, s.table.lookup e.1 ≠ some e.2)
  | _ => True

instance (s : Cluster) (spec : Spec Settings) (now : Int) : Decidable (Timely s spec now) := by
  unfold Timely
  split
  · exact inferInstance
  · exact inferInstance

instance (s : Cluster) (e : Event) : Decidable (Orderly s e) := by
  unfold Orderly
  split <;> exact inferInstance

/-! ## Histories -/

namespace History

variable {h : History} {t t' : SpecTable} {n : Nat}

theorem getElem?_moments : h.moments[h.past.length]? = some h.table := by simp [moments]

theorem since_table (hn : n ≤ h.past.length) : h.Since n h.table :=
  ⟨h.past.length, hn, getElem?_moments⟩

theorem eq_table_of_since (hsince : h.Since h.past.length t) : t = h.table := by
  obtain ⟨j, hle, hj⟩ := hsince
  have hlt : j < h.past.length + 1 := by
    simpa [moments] using (List.getElem?_eq_some_iff.mp hj).1
  have heq : j = h.past.length := by omega
  rw [heq, getElem?_moments] at hj
  exact (Option.some.inj hj).symm

theorem Since.mem (hsince : h.Since n t) : t ∈ h.moments := by
  obtain ⟨j, -, hj⟩ := hsince
  exact List.mem_of_getElem? hj

theorem Since.write (hsince : h.Since n t) : (h.write t').Since n t := by
  obtain ⟨j, hle, hj⟩ := hsince
  have hlt : j < h.moments.length := (List.getElem?_eq_some_iff.mp hj).1
  exact ⟨j, hle, (List.getElem?_append_left hlt).trans hj⟩

theorem since_write (hsince : (h.write t').Since n t) : h.Since n t ∨ t = t' := by
  obtain ⟨j, hle, hj⟩ := hsince
  rcases getElem?_concat_cases hj with heq | hold
  · exact .inr heq
  · exact .inl ⟨j, hle, hold⟩

theorem mem_write (ht : t ∈ (h.write t').moments) : t ∈ h.moments ∨ t = t' := by
  rcases List.mem_append.mp ht with hold | hnew
  · exact .inl hold
  · exact .inr (List.mem_singleton.mp hnew)

end History

/-! ## The invariant -/

section Invariant

variable {yaml : Nat → List (Spec Settings)} {s s' : Cluster} {h : History} {t t' : SpecTable}

/-- The row of one moment is no longer there, and will not be again. -/
abbrev Left (h : History) (k : Str) (row : Row) : Prop :=
  Gone Row.version Row.updatedAt h.table k row

/-- What a node may keep under a signature: the catalog of the signed table, or that of a
moment from which on a row of the signed table is gone. -/
def Keyed (yaml : List (Spec Settings)) (h : History) (sig : CatalogSignature)
    (specs : List (Spec Settings)) : Prop :=
  ∃ signed ∈ h.moments, sig = catalogSignature signed ∧
    ∃ j listed, h.moments[j]? = some listed ∧ specs = catalog listed yaml ∧
      (signed = listed ∨ ∃ k row, signed.lookup k = some row ∧ Left h k row ∧
        ∀ t, h.Since j t → t.lookup k ≠ some row)

def PhaseOk (yaml : List (Spec Settings)) (h : History) (began : Nat) : Phase → Prop
  | .signing => True
  | .checking sig signed => sig = catalogSignature signed ∧ h.Since began signed
  | .listing key => ∀ p ∈ key, p.1 = catalogSignature p.2 ∧ h.Since began p.2
  | .storing sig specs _ =>
    Keyed yaml h sig specs ∧ ∃ t, h.Since began t ∧ specs = catalog t yaml
  | .done specs answered => answered = true → ∃ t, h.Since began t ∧ specs = catalog t yaml

def CallOk (yaml : Nat → List (Spec Settings)) (h : History) (call : Call) : Prop :=
  call.began ≤ h.past.length ∧ PhaseOk (yaml call.node) h call.began call.phase

structure Inv (yaml : Nat → List (Spec Settings)) (s : Cluster) : Prop where
  descends : ∀ t ∈ s.history.moments, Descends Row.version Row.updatedAt t s.table
  signatures : ∀ t ∈ s.history.moments, ∀ t' ∈ s.history.moments,
    catalogSignature t = catalogSignature t' → t = t'
  calls : ∀ call ∈ s.calls, CallOk yaml s.history call
  caches : ∀ node, ∀ entry ∈ s.caches node, Keyed (yaml node) s.history entry.1 entry.2

/-- What a write can do to the table: it descends from every moment, and what left stays
away. -/
structure Follows (h : History) (t : SpecTable) : Prop where
  descends : ∀ old ∈ h.moments, Descends Row.version Row.updatedAt old t
  gone : ∀ signed ∈ h.moments, ∀ k row, signed.lookup k = some row → Left h k row →
    Gone Row.version Row.updatedAt t k row

theorem Keyed.write {yaml : List (Spec Settings)} {sig : CatalogSignature}
    {specs : List (Spec Settings)} (hkeyed : Keyed yaml h sig specs) (hfollows : Follows h t) :
    Keyed yaml (h.write t) sig specs := by
  obtain ⟨signed, hmem, hsig, j, listed, hj, hspecs, hrow⟩ := hkeyed
  have hlt : j < h.moments.length := (List.getElem?_eq_some_iff.mp hj).1
  refine ⟨signed, List.mem_append_left _ hmem, hsig, j, listed,
    (List.getElem?_append_left hlt).trans hj, hspecs, ?_⟩
  rcases hrow with heq | ⟨k, row, hlookup, hleft, haway⟩
  · exact .inl heq
  · have hgone := hfollows.gone signed hmem k row hlookup hleft
    refine .inr ⟨k, row, hlookup, hgone, fun t' hsince => ?_⟩
    rcases History.since_write hsince with hold | rfl
    · exact haway t' hold
    · exact hgone.lookup_ne

theorem PhaseOk.write {yaml : List (Spec Settings)} {began : Nat} {phase : Phase}
    (hphase : PhaseOk yaml h began phase) (hfollows : Follows h t) :
    PhaseOk yaml (h.write t) began phase := by
  cases phase with
  | signing => trivial
  | checking sig signed => exact ⟨hphase.1, hphase.2.write⟩
  | listing key => exact fun p hp => ⟨(hphase p hp).1, (hphase p hp).2.write⟩
  | storing sig specs answered =>
    obtain ⟨hkeyed, listed, hsince, hspecs⟩ := hphase
    exact ⟨hkeyed.write hfollows, listed, hsince.write, hspecs⟩
  | done specs answered =>
    intro hanswered
    obtain ⟨listed, hsince, hspecs⟩ := hphase hanswered
    exact ⟨listed, hsince.write, hspecs⟩

/-- A write that follows keeps signatures apart. -/
theorem Inv.write (hinv : Inv yaml s) (hfollows : Follows s.history t) :
    Inv yaml (s.write t) where
  descends old hold := by
    rcases History.mem_write hold with hmem | rfl
    · exact hfollows.descends old hmem
    · exact .refl old
  signatures old hold new hnew hsig := by
    rcases History.mem_write hold with hmem | rfl
    · rcases History.mem_write hnew with hmem' | rfl
      · exact hinv.signatures old hmem new hmem' hsig
      · exact (hfollows.descends old hmem).eq_of_fingerprint hsig
    · rcases History.mem_write hnew with hmem' | rfl
      · exact ((hfollows.descends new hmem').eq_of_fingerprint hsig.symm).symm
      · rfl
  calls call hcall := by
    obtain ⟨hbegan, hphase⟩ := hinv.calls call hcall
    refine ⟨?_, hphase.write hfollows⟩
    have hlength : (s.write t).history.past.length = s.history.past.length + 1 := by
      simp [Cluster.write, History.write, History.moments]
    omega
  caches node entry hentry := (hinv.caches node entry hentry).write hfollows

theorem Inv.follows_self (hinv : Inv yaml s) : Follows s.history s.table :=
  ⟨hinv.descends, fun _ _ _ _ _ hleft => hleft⟩

theorem Inv.follows_add (hinv : Inv yaml s) (k : Str) {row : Row}
    (hfresh : ∀ t ∈ s.history.moments, Fresh Row.updatedAt t row.updatedAt) :
    Follows s.history (s.table.insert k row) where
  descends old hold := (hinv.descends old hold).add k (hfresh old hold)
  gone signed hmem _ _ hlookup hleft :=
    Gone.add hleft ((hfresh signed hmem).lt_of_lookup hlookup)

theorem Inv.follows_rewrite (hinv : Inv yaml s) {k : Str} {row row' : Row}
    (hrow : s.table.lookup k = some row) (hkept : Kept Row.version Row.updatedAt row row') :
    Follows s.history (s.table.insert k row') where
  descends old hold := (hinv.descends old hold).rewrite hrow hkept
  gone _ _ _ _ _ hleft := Gone.rewrite hleft hrow hkept

theorem Inv.follows_erase (hinv : Inv yaml s) (k : Str) :
    Follows s.history (s.table.erase k) where
  descends old hold := (hinv.descends old hold).erase k
  gone _ _ _ _ _ hleft := Gone.erase hleft k

theorem Inv.follows_upsert (hinv : Inv yaml s) {spec : Spec Settings} {now : Int}
    (htimely : Timely s spec now) : Follows s.history (upsertInTx s.table spec now) := by
  unfold Timely at htimely
  unfold upsertInTx
  split at htimely
  · exact hinv.follows_add spec.id htimely
  · next old hold =>
    split
    · exact hinv.follows_self
    · next hchanged =>
      refine hinv.follows_rewrite hold (.inr ⟨?_, htimely.resolve_left hchanged⟩)
      exact Int.lt_succ old.stored.version

theorem Inv.follows_setState (hinv : Inv yaml s) (id : Str) (active : Bool) :
    Follows s.history (setState s.table id active) := by
  unfold CatalogCache.setState
  cases hrow : s.table.lookup id with
  | none => exact hinv.follows_self
  | some row =>
    refine hinv.follows_rewrite hrow ?_
    unfold SpecEdits.setState
    split
    · exact .refl row
    · exact .inr ⟨Int.lt_succ row.stored.version, Int.le_refl _⟩

/-! ## Calls -/

theorem inv_advance {i : Nat} {next : Call → Option Phase} (hinv : Inv yaml s)
    (hnext : ∀ call ∈ s.calls, s.calls[i]? = some call → ∀ phase ∈ next call,
      PhaseOk (yaml call.node) s.history call.began phase)
    (hstep : s.advance i next = some s') : Inv yaml s' := by
  obtain ⟨call, hi, hmap⟩ := Option.bind_eq_some_iff.mp hstep
  obtain ⟨phase, hphase, rfl⟩ := Option.map_eq_some_iff.mp hmap
  have hmem : call ∈ s.calls := List.mem_of_getElem? hi
  refine ⟨hinv.descends, hinv.signatures, ?_, hinv.caches⟩
  exact forall_mem_set hinv.calls
    ⟨(hinv.calls call hmem).1, hnext call hmem hi phase hphase⟩

theorem phaseOk_readSignature (hinv : Inv yaml s) {answered : Bool} {call : Call}
    (hcall : call ∈ s.calls) {phase : Phase} (hphase : phase ∈ s.readSignature answered call) :
    PhaseOk (yaml call.node) s.history call.began phase := by
  unfold Cluster.readSignature at hphase
  split at hphase
  · cases hphase
    split
    · exact ⟨rfl, History.since_table (hinv.calls call hcall).1⟩
    · exact fun p hp => absurd hp (Option.not_mem_none p)
  · cases hphase

/-- A hit returns the catalog of a moment of the call: what the node kept under the
signature is that of the signed table, or of a later moment than the signature's. -/
theorem Keyed.answer (hinv : Inv yaml s) {node began : Nat} {signed : SpecTable}
    {specs : List (Spec Settings)}
    (hkeyed : Keyed (yaml node) s.history (catalogSignature signed) specs)
    (hsince : s.history.Since began signed) :
    ∃ t, s.history.Since began t ∧ specs = catalog t (yaml node) := by
  obtain ⟨signed', hmem, hsig, j, listed, hj, hspecs, hrow⟩ := hkeyed
  cases hinv.signatures signed hsince.mem signed' hmem hsig
  rcases hrow with rfl | ⟨k, row, hlookup, -, haway⟩
  · exact ⟨signed, hsince, hspecs⟩
  · obtain ⟨i, hbegan, hi⟩ := hsince
    refine ⟨listed, ⟨j, ?_, hj⟩, hspecs⟩
    by_cases hle : j ≤ i
    · exact absurd hlookup (haway signed ⟨i, hle, hi⟩)
    · omega

theorem phaseOk_readCache (hinv : Inv yaml s) {call : Call} (hcall : call ∈ s.calls)
    {phase : Phase} (hphase : phase ∈ s.readCache call) :
    PhaseOk (yaml call.node) s.history call.began phase := by
  have hold := (hinv.calls call hcall).2
  unfold Cluster.readCache at hphase
  split at hphase
  · next sig signed hchecking =>
    rw [hchecking] at hold
    obtain ⟨rfl, hsince⟩ := hold
    have hmiss : PhaseOk (yaml call.node) s.history call.began
        (.listing (some (catalogSignature signed, signed))) := by
      intro p hp
      cases hp
      exact ⟨rfl, hsince⟩
    split at hphase
    · next cached specs hcache =>
      cases hphase
      split
      · next hhit =>
        have hkeyed := hinv.caches call.node (cached, specs) hcache
        rw [hhit] at hkeyed
        exact fun _ => hkeyed.answer hinv hsince
      · exact hmiss
    · cases hphase
      exact hmiss
  · cases hphase

theorem phaseOk_list (hinv : Inv yaml s) {i : Nat} {answered : Bool} {call : Call}
    (hcall : call ∈ s.calls) (hi : s.calls[i]? = some call) (hok : Orderly s (.list i answered))
    {phase : Phase} (hphase : phase ∈ s.list yaml answered call) :
    PhaseOk (yaml call.node) s.history call.began phase := by
  obtain ⟨hbegan, hold⟩ := hinv.calls call hcall
  unfold Cluster.list at hphase
  split at hphase
  · next key hlisting =>
    rw [hlisting] at hold
    cases hphase
    cases key with
    | none => exact nofun
    | some p =>
      obtain ⟨sig, signed⟩ := p
      have hsigned : signed ∈ call.phase.signed := by
        rw [hlisting]
        rfl
      obtain ⟨rfl, hfound⟩ := hok call hi signed hsigned
      obtain ⟨hsig, hsince⟩ := hold (sig, signed) rfl
      refine ⟨⟨signed, hsince.mem, hsig, s.history.past.length, s.table,
        History.getElem?_moments, rfl, ?_⟩, s.table, History.since_table hbegan, rfl⟩
      rcases hfound with heq | ⟨⟨k, row⟩, hentry, haway⟩
      · exact .inl heq
      · have hlookup := SortedMap.mem_entries_iff.mp hentry
        have hgone := (hinv.descends signed hsince.mem).gone hlookup haway
        refine .inr ⟨k, row, hlookup, hgone, fun t hlast => ?_⟩
        rw [History.eq_table_of_since hlast]
        exact haway
  · cases hphase

/-! ## Steps -/

theorem inv_store {i : Nat} (hinv : Inv yaml s) (hstep : s.store i = some s') :
    Inv yaml s' := by
  unfold Cluster.store at hstep
  split at hstep
  · next node began sig specs answered hi =>
    cases hstep
    obtain ⟨hbegan, hkeyed, hanswer⟩ := hinv.calls _ (List.mem_of_getElem? hi)
    refine ⟨hinv.descends, hinv.signatures, ?_, ?_⟩
    · exact forall_mem_set hinv.calls ⟨hbegan, fun _ => hanswer⟩
    · intro node' entry (hentry : Function.update s.caches node (some (sig, specs)) node' = _)
      by_cases hnode : node' = node
      · subst hnode
        rw [Function.update_self] at hentry
        cases hentry
        exact hkeyed
      · rw [Function.update_of_ne hnode] at hentry
        exact hinv.caches node' entry hentry
  · cases hstep

theorem inv_step {e : Event} (hinv : Inv yaml s) (hok : Orderly s e)
    (hstep : (machine yaml).step s e = some s') : Inv yaml s' := by
  cases e with
  | begin node =>
    cases hstep
    exact ⟨hinv.descends, hinv.signatures,
      forall_mem_concat hinv.calls ⟨Nat.le_refl _, trivial⟩, hinv.caches⟩
  | readSignature i answered =>
    exact inv_advance hinv (fun _ hcall _ _ => phaseOk_readSignature hinv hcall) hstep
  | readCache i => exact inv_advance hinv (fun _ hcall _ _ => phaseOk_readCache hinv hcall) hstep
  | list i answered =>
    exact inv_advance hinv (fun _ hcall hi _ => phaseOk_list hinv hcall hi hok) hstep
  | store i => exact inv_store hinv hstep
  | insertNew spec now =>
    cases hstep
    refine hinv.write ?_
    unfold insertNew
    split
    · exact hinv.follows_self
    · next hnone => exact hinv.follows_upsert (hok (by simpa using hnone))
  | upsert spec now =>
    cases hstep
    exact hinv.write (hinv.follows_upsert hok)
  | setState id active =>
    cases hstep
    exact hinv.write (hinv.follows_setState id active)
  | delete id =>
    cases hstep
    exact hinv.write (hinv.follows_erase id)

theorem inv_initial (t : SpecTable) : Inv yaml (initial t) := by
  have hmoments : ∀ old ∈ (initial t).history.moments, old = t := fun old hold =>
    List.mem_singleton.mp hold
  refine ⟨fun old hold => ?_, fun old hold new hnew _ => ?_, ?_, ?_⟩
  · rw [hmoments old hold]
    exact .refl t
  · rw [hmoments old hold, hmoments new hnew]
  · exact fun call hcall => absurd hcall List.not_mem_nil
  · exact fun node entry hentry => absurd hentry (Option.not_mem_none entry)

theorem Inv.coherent (hinv : Inv yaml s) : Coherent yaml s := by
  refine ⟨hinv.signatures, fun call hcall specs hdone => ?_⟩
  have hphase := (hinv.calls call hcall).2
  rw [hdone] at hphase
  exact hphase rfl

/-- **Coherence.** Whatever writes, failed reads and calls of any number of nodes
interleave, in an orderly run the signature names the table and no answer is stale. -/
theorem coherent_of_orderly {t : SpecTable} {events : List Event}
    (hrun : (machine yaml).Run Orderly (initial t) events s) : Coherent yaml s :=
  (hrun.invariant (inv_initial t) fun _ _ _ => inv_step).coherent

end Invariant

end Cache

/-! ## Two apps -/

section TwoApps

attribute [local instance] wholeFloats

def appA : Spec Settings := ⟨"a".toList, none, none, bareSettings "A" .empty⟩

def appB : Spec Settings := ⟨"b".toList, none, none, bareSettings "B" .empty⟩

/-- The configuration of every node. -/
def yamlA : Nat → List (Spec Settings) := fun _ => [appA]

/-- The calls of one node, up to the hit or the miss. -/
def readCall (i : Nat) : List Event := [.begin 0, .readSignature i true, .readCache i]

/-- One app deleted and another created under the same clock. -/
def replaced : List Event := [.insertNew appA 5, .delete appA.id, .insertNew appB 5]

/-- The listing of the first call fails, and its fallback is kept under the signature. -/
def keptFallback : List Event :=
  .insertNew appB 5 :: readCall 0 ++ [.list 0 false, .store 0] ++ readCall 1

theorem signature_collides :
    ¬ ((∀ (yaml : Nat → List (Spec Settings)) (events : List Event) (s : Cluster),
        (machine yaml).Run Free (initial .empty) events s →
        ∀ t ∈ s.history.moments, ∀ t' ∈ s.history.moments,
          catalogSignature t = catalogSignature t' → t = t') ∨
      ∀ (yaml : Nat → List (Spec Settings)) (events : List Event) (s : Cluster),
        (machine yaml).Run Free (initial .empty) events s →
        ∀ call ∈ s.calls, ∀ specs, call.phase = .done specs true →
          ∃ t, s.history.Since call.began t ∧ specs = catalog t (yaml call.node)) := by
  rintro (hclaim | hclaim)
  · have hsame := hclaim yamlA replaced
      (((machine yamlA).exec (initial .empty) replaced).get (by decide))
      (run_free_iff.mpr (Option.some_get _).symm)
      (SortedMap.empty.insert appA.id ⟨⟨appA, 1⟩, 5, 5⟩) (by decide)
      (SortedMap.empty.insert appB.id ⟨⟨appB, 1⟩, 5, 5⟩) (by decide) (by decide)
    exact absurd hsame (by decide)
  · obtain ⟨t, hsince, hspecs⟩ := hclaim yamlA keptFallback
      (((machine yamlA).exec (initial .empty) keptFallback).get (by decide))
      (run_free_iff.mpr (Option.some_get _).symm)
      ⟨0, 1, .done [appA] true⟩ (by decide) [appA] rfl
    rw [History.eq_table_of_since hsince] at hspecs
    exact absurd hspecs (by decide)

/-- The second app is created later than the first one ever was updated. -/
def replacedLater : List Event :=
  .insertNew appA 5 :: readCall 0 ++ [.list 0 true, .store 0] ++ readCall 1 ++
    [.delete appA.id, .insertNew appB 6] ++ readCall 2 ++ [.list 2 true, .store 2]

theorem coherent_of_orderly_replacedLater :
    ∃ s, (machine fun _ => []).Run Orderly (initial .empty) replacedLater s ∧
      Coherent (fun _ => []) s ∧ s.calls.map Call.phase =
        [.done [appA] true, .done [appA] true, .done [appB] true] := by
  have hsome : ((machine fun _ => []).execIf Orderly (initial .empty)
      replacedLater).isSome = true := by decide
  have hrun := run_execIf hsome
  exact ⟨_, hrun, coherent_of_orderly hrun, rfl⟩

end TwoApps

end Ruscker.Admin.CatalogCache
