import Mathlib.Data.List.Infix
import Ruscker.Lib.Machine
import Ruscker.Lib.Moments
import Ruscker.Text

/-!
# Card images

`serve_card_image` answers warm requests from two caches of its process: the digest of a
file's bytes, and the thumbnails under file and digest.  A cold request reads the bytes and
fills them.  A change commits to the shared database and then drops the entries of its files,
in its own process only; an import drops none.

The machine runs the requests of several nodes among the changes.  The database keeps its
past, so that an answer can be held against what was stored since its request began.
-/

namespace Ruscker.Routes.Assets

open Machines Machines.Machine Moments

variable {ν β η : Type}

/-- What a node's requests depend on beside its caches. -/
structure Params (ν β η : Type) where
  contentHash : β → η
  isSvg : β → Bool
  /-- the images directory of a node -/
  disk : ν → Str → Option β

/-! ## The store -/

/-- The images by their file names. -/
abbrev Files (β : Type) := Str → Option β

/-- A commit; a name in use refuses a rename, a missing image a rename and a delete. -/
inductive Mutation (β : Type) where
  | upload (file : Str) (blob : β)
  | rename (old new : Str)
  | delete (file : Str)
  | importFile (file : Str) (blob : β)

namespace Mutation

def apply (files : Files β) : Mutation β → Option (Files β)
  | .upload file blob => some (Function.update files file (some blob))
  | .rename old new =>
    if old ≠ new ∧ files new = none then
      (files old).map fun blob =>
        Function.update (Function.update files old none) new (some blob)
    else none
  | .delete file => (files file).map fun _ => Function.update files file none
  | .importFile file blob => some (Function.update files file (some blob))

/-- The files whose entries the handler drops after its commit. -/
def invalidates : Mutation β → List Str
  | .upload file _ => [file]
  | .rename old new => [old, new]
  | .delete file => [file]
  | .importFile _ _ => []

end Mutation

/-! ## Requests -/

inductive Phase (β η : Type) where
  | looking
  | known (digest : η)
  | reading
  | filling (blob : β)
  | filled (blob : β)
  | done
  deriving DecidableEq

structure CardRequest (ν β η : Type) where
  node : ν
  file : Str
  wantThumb : Bool
  /-- does the validator of the client match this digest? -/
  ifNoneMatch : η → Bool
  /-- the commits the database had seen -/
  began : Nat
  phase : Phase β η

inductive Served where
  | notModified
  | thumbnail
  deriving DecidableEq

/-- An answer that rests on a digest. -/
structure Reply (ν η : Type) where
  served : Served
  node : ν
  file : Str
  digest : η
  began : Nat
  ended : Nat

structure Cache (η : Type) where
  /-- `IMAGE_DIGEST` -/
  digest : Str → Option η
  /-- the keys of `THUMB_CACHE` -/
  thumbs : Str → η → Bool

namespace Cache

def empty : Cache η := ⟨fun _ => none, fun _ _ => false⟩

def setDigest (c : Cache η) (file : Str) (digest : Option η) : Cache η :=
  { c with digest := Function.update c.digest file digest }

def addThumb [DecidableEq η] (c : Cache η) (file : Str) (digest : η) : Cache η :=
  { c with thumbs := fun f d => (f = file && d = digest) || c.thumbs f d }

def prune (c : Cache η) (file : Str) : Cache η :=
  { c with thumbs := fun f d => f ≠ file && c.thumbs f d }

theorem digest_setDigest (c : Cache η) (file file' : Str) (digest : Option η) :
    (c.setDigest file digest).digest file' = if file' = file then digest else c.digest file' :=
  Function.update_apply c.digest file digest file'

@[simp] theorem digest_addThumb [DecidableEq η] (c : Cache η) (file : Str) (digest : η) :
    (c.addThumb file digest).digest = c.digest := rfl

@[simp] theorem digest_prune (c : Cache η) (file : Str) : (c.prune file).digest = c.digest := rfl

end Cache

/-- A handler between its commit and the end of its `invalidate_thumb` calls. -/
structure Invalidation (ν : Type) where
  node : ν
  files : List Str
  /-- have the thumbnails of the first file been dropped? -/
  pruned : Bool

structure State (ν β η : Type) where
  files : Timeline (Files β)
  caches : ν → Cache η
  requests : List (CardRequest ν β η)
  pending : List (Invalidation ν)
  replies : List (Reply ν η)

inductive Event (ν β η : Type) where
  | request (node : ν) (file : Str) (wantThumb : Bool) (ifNoneMatch : η → Bool)
  | look (i : Nat)
  | answer (i : Nat)
  | read (i : Nat) (answered : Bool)
  | fill (i : Nat)
  | serve (i : Nat) (generated : Bool)
  | commit (node : ν) (mutation : Mutation β)
  | prune (j : Nat)
  | forget (j : Nat)

section Steps

variable [DecidableEq ν]

namespace State

def setCache (s : State ν β η) (n : ν) (c : Cache η) : State ν β η :=
  { s with caches := Function.update s.caches n c }

def setPending (s : State ν β η) (j : Nat) (v : Invalidation ν) : State ν β η :=
  { s with pending := s.pending.set j v }

theorem caches_setCache (s : State ν β η) (n n' : ν) (c : Cache η) :
    (s.setCache n c).caches n' = if n' = n then c else s.caches n' :=
  Function.update_apply s.caches n c n'

end State

variable [DecidableEq η] (P : Params ν β η)

namespace State

variable (s : State ν β η)

def setPhase (i : Nat) (r : CardRequest ν β η) (phase : Phase β η) : State ν β η :=
  { s with requests := s.requests.set i { r with phase } }

def reply (r : CardRequest ν β η) (served : Served) (digest : η) : State ν β η :=
  { s with replies :=
      s.replies ++ [⟨served, r.node, r.file, digest, r.began, s.files.clock⟩] }

def stepRequest (i : Nat) (f : CardRequest ν β η → Option (State ν β η)) :
    Option (State ν β η) := s.requests[i]?.bind f

/-- A name with a slash or two dots in a row is no file name. -/
def badName (file : Str) : Bool := file.contains '/' || decide (['.', '.'] <:+: file)

/-- With the digest at hand: a cached thumbnail, a revalidation, or the long way. -/
def answerKnown (i : Nat) (r : CardRequest ν β η) (digest : η) : State ν β η :=
  if r.wantThumb then
    if (s.caches r.node).thumbs r.file digest then
      (s.setPhase i r .done).reply r .thumbnail digest
    else s.setPhase i r .reading
  else if r.ifNoneMatch digest then (s.setPhase i r .done).reply r .notModified digest
  else s.setPhase i r .reading

/-- The database first, and the images directory where it holds nothing or fails. -/
def fetched (r : CardRequest ν β η) (answered : Bool) : Option β :=
  (if answered then s.files.now r.file else none).or (P.disk r.node r.file)

/-- With the bytes at hand: the thumbnail, where one is wanted and can be made, or the file. -/
def serveRead (i : Nat) (r : CardRequest ν β η) (blob : β) (generated : Bool) : State ν β η :=
  let digest := P.contentHash blob
  let c := s.caches r.node
  if r.wantThumb && !P.isSvg blob && c.thumbs r.file digest then
    (s.setPhase i r .done).reply r .thumbnail digest
  else if r.wantThumb && !P.isSvg blob && generated then
    ((s.setPhase i r .done).setCache r.node (c.addThumb r.file digest)).reply r .thumbnail digest
  else if r.ifNoneMatch digest then (s.setPhase i r .done).reply r .notModified digest
  else s.setPhase i r .done

def step : Event ν β η → Option (State ν β η)
  | .request node file wantThumb ifNoneMatch =>
    if badName file then some s
    else some { s with requests :=
        s.requests ++ [⟨node, file, wantThumb, ifNoneMatch, s.files.clock, .looking⟩] }
  | .look i => s.stepRequest i fun r =>
    match r.phase with
    | .looking => some (s.setPhase i r (((s.caches r.node).digest r.file).elim .reading .known))
    | _ => none
  | .answer i => s.stepRequest i fun r =>
    match r.phase with
    | .known digest => some (s.answerKnown i r digest)
    | _ => none
  | .read i answered => s.stepRequest i fun r =>
    match r.phase with
    | .reading => some (s.setPhase i r ((s.fetched P r answered).elim .done .filling))
    | _ => none
  | .fill i => s.stepRequest i fun r =>
    match r.phase with
    | .filling blob =>
      some ((s.setPhase i r (.filled blob)).setCache r.node
        ((s.caches r.node).setDigest r.file (some (P.contentHash blob))))
    | _ => none
  | .serve i generated => s.stepRequest i fun r =>
    match r.phase with
    | .filled blob => some (s.serveRead P i r blob generated)
    | _ => none
  | .commit node mutation => (mutation.apply s.files.now).map fun files =>
    { s with
      files := s.files.advance files
      pending := s.pending ++ [⟨node, mutation.invalidates, false⟩] }
  | .prune j => s.pending[j]?.bind fun v =>
    match v.files, v.pruned with
    | file :: _, false =>
      some ((s.setCache v.node ((s.caches v.node).prune file)).setPending j { v with pruned := true })
    | _, _ => none
  | .forget j => s.pending[j]?.bind fun v =>
    match v.files, v.pruned with
    | file :: rest, true =>
      some ((s.setCache v.node ((s.caches v.node).setDigest file none)).setPending j
        ⟨v.node, rest, false⟩)
    | _, _ => none

end State

def machine : Machine (State ν β η) (Event ν β η) := ⟨State.step P⟩

def init (files : Files β) : State ν β η :=
  ⟨.start files, fun _ => .empty, [], [], []⟩

end Steps

/-! ## Coherence -/

section Coherence

variable (P : Params ν β η)

/-- The node finds these bytes under the file name, in the database or on its disk. -/
def Stored (n : ν) (file : Str) (blob : β) (files : Files β) : Prop :=
  files file = some blob ∨ P.disk n file = some blob

def Shows (n : ν) (file : Str) (digest : η) (files : Files β) : Prop :=
  ∃ blob, P.contentHash blob = digest ∧ Stored P n file blob files

/-- The digest behind an answer is that of bytes that were stored after the request began. -/
def Fresh (s : State ν β η) : Prop :=
  ∀ a ∈ s.replies, s.files.SeenIn (Shows P a.node a.file a.digest) a.began a.ended

/-- The node has still to drop what it knows of the file. -/
def Pending (s : State ν β η) (n : ν) (file : Str) : Prop :=
  ∃ v ∈ s.pending, v.node = n ∧ file ∈ v.files

/-- A fill lands while its bytes are stored or an invalidation is still to come; a commit
changes a file only of which no node but its own holds a digest; and no digest is looked up
between a commit and its invalidation. -/
def Coherent (s : State ν β η) : Event ν β η → Prop
  | .look i => ∀ r ∈ s.requests[i]?, Pending s r.node r.file →
      (s.caches r.node).digest r.file = none
  | .fill i => ∀ r ∈ s.requests[i]?, ∀ blob, r.phase = .filling blob →
      Stored P r.node r.file blob s.files.now ∨ Pending s r.node r.file
  | .commit node mutation => ∀ files ∈ mutation.apply s.files.now, ∀ n file,
      files file ≠ s.files.now file → (s.caches n).digest file ≠ none →
        n = node ∧ file ∈ mutation.invalidates
  | _ => True

/-! ### The invariant -/

/-- What a phase holds was stored since the request began. -/
def CardRequest.Good (files : Timeline (Files β)) (r : CardRequest ν β η) : Prop :=
  r.began ≤ files.clock ∧ match r.phase with
    | .known digest => files.SeenSince (Shows P r.node r.file digest) r.began
    | .filling blob => files.SeenSince (Shows P r.node r.file (P.contentHash blob)) r.began
    | .filled blob => files.SeenSince (Shows P r.node r.file (P.contentHash blob)) r.began
    | _ => True

/-- A digest is that of stored bytes, or it is still to be dropped. -/
def Tracked (s : State ν β η) : Prop :=
  ∀ n file digest, (s.caches n).digest file = some digest →
    Shows P n file digest s.files.now ∨ Pending s n file

structure Inv (s : State ν β η) : Prop where
  tracked : Tracked P s
  requests : ∀ r ∈ s.requests, r.Good P s.files
  fresh : Fresh P s

variable {P} {s : State ν β η}

theorem CardRequest.Good.advance {files : Timeline (Files β)} {r : CardRequest ν β η}
    (h : r.Good P files) (next : Files β) : r.Good P (files.advance next) := by
  refine ⟨Nat.le_trans h.1 ?_, ?_⟩
  · rw [Timeline.clock_advance]
    exact Nat.le_succ _
  · have hphase := h.2
    cases hr : r.phase with
    | known digest =>
      rw [hr] at hphase
      exact Timeline.SeenSince.advance hphase
    | filling blob =>
      rw [hr] at hphase
      exact Timeline.SeenSince.advance hphase
    | filled blob =>
      rw [hr] at hphase
      exact Timeline.SeenSince.advance hphase
    | looking => trivial
    | reading => trivial
    | done => trivial

namespace Inv

theorem setPhase {i : Nat} {r : CardRequest ν β η} {phase : Phase β η} (h : Inv P s)
    (hgood : ({ r with phase } : CardRequest ν β η).Good P s.files) : Inv P (s.setPhase i r phase) :=
  { h with requests := forall_mem_set h.requests hgood }

/-- An answer that rests on bytes seen since the request began. -/
theorem reply {r : CardRequest ν β η} {served : Served} {digest : η} (h : Inv P s)
    (hseen : s.files.SeenSince (Shows P r.node r.file digest) r.began) :
    Inv P (s.reply r served digest) where
  tracked := h.tracked
  requests := h.requests
  fresh := forall_mem_concat h.fresh hseen

theorem setCache [DecidableEq ν] {n : ν} {c : Cache η} (h : Inv P s)
    (hc : ∀ file digest, c.digest file = some digest →
      Shows P n file digest s.files.now ∨ Pending s n file) : Inv P (s.setCache n c) where
  tracked n' file digest hdigest := by
    rw [State.caches_setCache] at hdigest
    split at hdigest
    · next hn =>
      subst hn
      exact hc file digest hdigest
    · exact h.tracked n' file digest hdigest
  requests := h.requests
  fresh := h.fresh

theorem look {i : Nat} {r : CardRequest ν β η} (h : Inv P s) (hr : s.requests[i]? = some r)
    (hok : Pending s r.node r.file → (s.caches r.node).digest r.file = none) :
    Inv P (s.setPhase i r (((s.caches r.node).digest r.file).elim .reading .known)) := by
  have hgood := h.requests r (List.mem_of_getElem? hr)
  refine h.setPhase ⟨hgood.1, ?_⟩
  cases hdigest : (s.caches r.node).digest r.file with
  | none => trivial
  | some digest =>
    rcases h.tracked r.node r.file digest hdigest with hshows | hpending
    · exact Timeline.SeenSince.now hshows hgood.1
    · rw [hok hpending] at hdigest
      cases hdigest

theorem read {i : Nat} {r : CardRequest ν β η} {answered : Bool} (h : Inv P s)
    (hr : s.requests[i]? = some r) :
    Inv P (s.setPhase i r ((s.fetched P r answered).elim .done .filling)) := by
  have hgood := h.requests r (List.mem_of_getElem? hr)
  refine h.setPhase ⟨hgood.1, ?_⟩
  cases hblob : s.fetched P r answered with
  | none => trivial
  | some blob =>
    refine Timeline.SeenSince.now ⟨blob, rfl, ?_⟩ hgood.1
    rcases Option.or_eq_some_iff.mp hblob with hdb | ⟨-, hdisk⟩
    · split at hdb
      · exact .inl hdb
      · cases hdb
    · exact .inr hdisk

theorem commit {node : ν} {mutation : Mutation β} {files : Files β} (h : Inv P s)
    (hok : ∀ n file, files file ≠ s.files.now file → (s.caches n).digest file ≠ none →
      n = node ∧ file ∈ mutation.invalidates) :
    Inv P { s with
      files := s.files.advance files
      pending := s.pending ++ [⟨node, mutation.invalidates, false⟩] } where
  tracked n file digest hdigest := by
    rcases h.tracked n file digest hdigest with ⟨blob, hblob, hstored⟩ | ⟨v, hv, hpending⟩
    · by_cases hsame : files file = s.files.now file
      · refine .inl ⟨blob, hblob, hstored.imp_left fun hdb => ?_⟩
        rw [Timeline.now_advance, hsame, hdb]
      · have hne : (s.caches n).digest file ≠ none := by
          rw [hdigest]
          exact Option.some_ne_none digest
        obtain ⟨rfl, hfile⟩ := hok n file hsame hne
        exact .inr ⟨_, List.mem_append_right _ List.mem_cons_self, rfl, hfile⟩
    · exact .inr ⟨v, List.mem_append_left _ hv, hpending⟩
  requests r hr := (h.requests r hr).advance files
  fresh a ha := (h.fresh a ha).advance

/-- After its digest went, a file is no longer to be dropped there. -/
theorem forget [DecidableEq ν] {j : Nat} {v : Invalidation ν} {file : Str} {rest : List Str}
    (h : Inv P s) (hv : s.pending[j]? = some v) (hfiles : v.files = file :: rest) :
    Inv P ((s.setCache v.node ((s.caches v.node).setDigest file none)).setPending j
      ⟨v.node, rest, false⟩) where
  tracked n f digest hdigest := by
    have hkept : ¬ (n = v.node ∧ f = file) ∧ (s.caches n).digest f = some digest := by
      change ((s.setCache v.node _).caches n).digest f = some digest at hdigest
      rw [State.caches_setCache] at hdigest
      split at hdigest
      · next hn =>
        subst hn
        rw [Cache.digest_setDigest] at hdigest
        split at hdigest
        · cases hdigest
        · next hf => exact ⟨fun hand => hf hand.2, hdigest⟩
      · next hn => exact ⟨fun hand => hn hand.1, hdigest⟩
    refine (h.tracked n f digest hkept.2).imp_right ?_
    rintro ⟨w, hw, rfl, hf⟩
    by_cases heq : w = v
    · subst heq
      rw [hfiles] at hf
      have hlt : j < s.pending.length := (List.getElem?_eq_some_iff.mp hv).1
      exact ⟨⟨w.node, rest, false⟩, List.mem_set hlt _, rfl,
        (List.mem_cons.mp hf).resolve_left fun hfile => hkept.1 ⟨rfl, hfile⟩⟩
    · exact ⟨w, mem_set_of_ne hv hw heq, rfl, hf⟩
  requests := h.requests
  fresh := h.fresh

theorem prune [DecidableEq ν] {j : Nat} {v : Invalidation ν} {file : Str} (h : Inv P s)
    (hv : s.pending[j]? = some v) :
    Inv P ((s.setCache v.node ((s.caches v.node).prune file)).setPending j
      { v with pruned := true }) where
  tracked n f digest hdigest := by
    have hkept : (s.caches n).digest f = some digest := by
      change ((s.setCache v.node _).caches n).digest f = some digest at hdigest
      rw [State.caches_setCache] at hdigest
      split at hdigest
      · next hn =>
        subst hn
        exact hdigest
      · exact hdigest
    refine (h.tracked n f digest hkept).imp_right ?_
    rintro ⟨w, hw, rfl, hf⟩
    by_cases heq : w = v
    · subst heq
      have hlt : j < s.pending.length := (List.getElem?_eq_some_iff.mp hv).1
      exact ⟨{ w with pruned := true }, List.mem_set hlt _, rfl, hf⟩
    · exact ⟨w, mem_set_of_ne hv hw heq, rfl, hf⟩
  requests := h.requests
  fresh := h.fresh

theorem answerKnown [DecidableEq ν] [DecidableEq η] {i : Nat} {r : CardRequest ν β η} {digest : η}
    (h : Inv P s) (hr : s.requests[i]? = some r) (hphase : r.phase = .known digest) :
    Inv P (s.answerKnown i r digest) := by
  have hgood := h.requests r (List.mem_of_getElem? hr)
  have hseen : s.files.SeenSince (Shows P r.node r.file digest) r.began := by
    have hknown := hgood.2
    rwa [hphase] at hknown
  have hdone : Inv P (s.setPhase i r .done) := h.setPhase ⟨hgood.1, trivial⟩
  have hreading : Inv P (s.setPhase i r .reading) := h.setPhase ⟨hgood.1, trivial⟩
  unfold State.answerKnown
  split
  · split
    · exact hdone.reply hseen
    · exact hreading
  · split
    · exact hdone.reply hseen
    · exact hreading

theorem serveRead [DecidableEq ν] [DecidableEq η] {i : Nat} {r : CardRequest ν β η} {blob : β}
    {generated : Bool} (h : Inv P s) (hr : s.requests[i]? = some r)
    (hphase : r.phase = .filled blob) : Inv P (s.serveRead P i r blob generated) := by
  have hgood := h.requests r (List.mem_of_getElem? hr)
  have hseen : s.files.SeenSince (Shows P r.node r.file (P.contentHash blob)) r.began := by
    have hfilled := hgood.2
    rwa [hphase] at hfilled
  have hdone : Inv P (s.setPhase i r .done) := h.setPhase ⟨hgood.1, trivial⟩
  unfold State.serveRead
  dsimp only
  split
  · exact hdone.reply hseen
  · split
    · refine Inv.reply (hdone.setCache fun file digest hdigest => ?_) hseen
      exact h.tracked r.node file digest hdigest
    · split
      · exact hdone.reply hseen
      · exact hdone

/-- A fill puts down the digest of bytes that were read since the request began. -/
theorem fill [DecidableEq ν] {i : Nat} {r : CardRequest ν β η} {blob : β} (h : Inv P s)
    (hr : s.requests[i]? = some r) (hphase : r.phase = .filling blob)
    (hok : Stored P r.node r.file blob s.files.now ∨ Pending s r.node r.file) :
    Inv P ((s.setPhase i r (.filled blob)).setCache r.node
      ((s.caches r.node).setDigest r.file (some (P.contentHash blob)))) := by
  have hgood := h.requests r (List.mem_of_getElem? hr)
  have hfilled : Inv P (s.setPhase i r (.filled blob)) := by
    refine h.setPhase ⟨hgood.1, ?_⟩
    have hfilling := hgood.2
    rwa [hphase] at hfilling
  refine hfilled.setCache fun file digest hdigest => ?_
  rw [Cache.digest_setDigest] at hdigest
  split at hdigest
  · next hfile =>
    cases hdigest
    subst hfile
    exact hok.imp_left fun hstored => ⟨blob, rfl, hstored⟩
  · exact h.tracked r.node file digest hdigest

end Inv

theorem inv_init (files : Files β) : Inv P (init files : State ν β η) where
  tracked n file digest hdigest := by cases hdigest
  requests := by simp [init]
  fresh := by simp [Fresh, init]

theorem step_inv [DecidableEq ν] [DecidableEq η] {s s' : State ν β η} {e : Event ν β η} (h : Inv P s)
    (hok : Coherent P s e) (hstep : (machine P).step s e = some s') : Inv P s' := by
  cases e with
  | request node file wantThumb ifNoneMatch =>
    change (if _ then _ else _) = _ at hstep
    split at hstep
    · cases hstep
      exact h
    · cases hstep
      exact { h with requests := forall_mem_concat h.requests ⟨Nat.le_refl _, trivial⟩ }
  | look i =>
    obtain ⟨r, hr, hstep⟩ := Option.bind_eq_some_iff.mp hstep
    split at hstep
    · cases hstep
      exact h.look hr (hok r hr)
    · cases hstep
  | answer i =>
    obtain ⟨r, hr, hstep⟩ := Option.bind_eq_some_iff.mp hstep
    split at hstep
    · next hphase =>
      cases hstep
      exact h.answerKnown hr hphase
    · cases hstep
  | read i answered =>
    obtain ⟨r, hr, hstep⟩ := Option.bind_eq_some_iff.mp hstep
    split at hstep
    · cases hstep
      exact h.read hr
    · cases hstep
  | fill i =>
    obtain ⟨r, hr, hstep⟩ := Option.bind_eq_some_iff.mp hstep
    split at hstep
    · next hphase =>
      cases hstep
      exact h.fill hr hphase (hok r hr _ hphase)
    · cases hstep
  | serve i generated =>
    obtain ⟨r, hr, hstep⟩ := Option.bind_eq_some_iff.mp hstep
    split at hstep
    · next hphase =>
      cases hstep
      exact h.serveRead hr hphase
    · cases hstep
  | commit node mutation =>
    obtain ⟨files, hfiles, rfl⟩ := Option.map_eq_some_iff.mp hstep
    exact h.commit (hok files hfiles)
  | prune j =>
    obtain ⟨v, hv, hstep⟩ := Option.bind_eq_some_iff.mp hstep
    split at hstep
    · cases hstep
      exact h.prune hv
    · cases hstep
  | forget j =>
    obtain ⟨v, hv, hstep⟩ := Option.bind_eq_some_iff.mp hstep
    split at hstep
    · next hfiles _ =>
      cases hstep
      exact h.forget hv hfiles
    · cases hstep

end Coherence

/-! ### A fill behind an invalidation -/

section Example

/-- One node without an images directory; a file is its own digest. -/
def oneNode : Params Unit Nat Nat := ⟨id, fun _ => false, fun _ _ => none⟩

def logoFile : Files Nat := fun file => if file = "logo".toList then some 1 else none

/-- A request and a revalidation. -/
def revalidation : List (Event Unit Nat Nat) :=
  [.request () "logo".toList false fun _ => false, .look 0, .read 0 true, .fill 0, .serve 0 true,
    .request () "logo".toList false fun digest => digest = 1, .look 1, .answer 1]

theorem revalidation_runs : ∃ s,
    (machine oneNode).Run (Coherent oneNode) (init logoFile) revalidation s ∧
      s.replies.map Reply.served = [.notModified] := by
  have hnone : ∀ {s : State Unit Nat Nat}, s.pending = [] → ∀ n file, ¬ Pending s n file := by
    rintro s hs n file ⟨v, hv, -⟩
    rw [hs] at hv
    cases hv
  refine ⟨_, .cons trivial rfl (.cons ?_ rfl (.cons trivial rfl (.cons ?_ rfl (.cons trivial rfl
    (.cons trivial rfl (.cons ?_ rfl (.cons trivial rfl (.nil _)))))))), rfl⟩
  · exact fun r _ hpending => absurd hpending (hnone rfl _ _)
  · intro r hr blob hphase
    cases hr
    cases hphase
    exact .inl (.inl rfl)
  · exact fun r _ hpending => absurd hpending (hnone rfl _ _)

/-- A deletion commits and invalidates between a read and its fill. -/
def lateFill : List (Event Unit Nat Nat) :=
  [.request () "logo".toList false fun _ => false, .look 0, .read 0 true,
    .commit () (.delete "logo".toList), .prune 0, .forget 0, .fill 0, .serve 0 true,
    .request () "logo".toList false fun digest => digest = 1, .look 1, .answer 1]

end Example

end Ruscker.Routes.Assets
