import Ruscker.Docker.Labels
import Ruscker.Lib.Base64
import Ruscker.Lib.Json
import Ruscker.Proxy.Calls

/-!
# Sticky cookies

The value of a sticky cookie is the JSON of a session and the head of its signature, in base64.
The signature is an arbitrary function of the key and the message.
-/

namespace Ruscker.Proxy.Sticky

open Docker (Uuid)

variable {ι κ : Type*}

def cookieNamePrefix : Str := "__ruscker_session".toList

def cookieName (specId : Str) : Str := cookieNamePrefix ++ '_' :: specId

/-- The bytes of a signature that a cookie keeps. -/
def tagLen : Nat := 16

structure StickySession (ι κ : Type*) where
  sessionId : κ
  specId : Str
  replicaId : ι
  deriving DecidableEq

structure CookieKey where
  bytes : List UInt8
  length_eq : bytes.length = 32

/-- What HMAC-SHA256 gives. -/
structure Tag where
  bytes : List UInt8
  length_eq : bytes.length = 32

def truncated (tag : Tag) : List UInt8 := tag.bytes.take tagLen

theorem length_truncated (tag : Tag) : (truncated tag).length = tagLen := by
  rw [truncated, List.length_take, tag.length_eq]
  rfl

/-- The alphabet of URLs and file names. -/
def urlSafe : Base64.Alphabet where
  symbols := "ABCDEFGHIJKLMNOPQRSTUVWXYZabcdefghijklmnopqrstuvwxyz0123456789-_".toList
  length_eq := by
    rw [String.toList_ofList]
    rfl
  nodup := by
    rw [String.toList_ofList]
    decide +kernel

/-! ## The payload -/

section Payload

variable [Uuid ι] [Uuid κ]

/-- The fields of a session, in the order they are written. -/
def fields (session : StickySession ι κ) : List (Str × Str) :=
  [(['i'], Uuid.text session.sessionId), (['s'], session.specId),
    (['r'], Uuid.text session.replicaId)]

def toVec (session : StickySession ι κ) : List UInt8 :=
  Utf8.encode (Json.printObject (fields session))

def string : Json.Tree → Option Str
  | .str pieces => Json.bytesTextOf pieces
  | _ => none

def uuid (ι : Type*) [Uuid ι] (v : Json.Tree) : Option ι := (string v).bind Uuid.parse

/-- The fields that have come so far. -/
structure Fields (ι κ : Type*) where
  i : Option κ := none
  s : Option Str := none
  r : Option ι := none

/-- A field comes once, and a member that is no field is passed over. -/
def visitMember (f : Fields ι κ) (m : List Json.Piece × Json.Tree) : Option (Fields ι κ) :=
  match Json.bytesTextOf m.1 with
  | none => none
  | some key =>
    if key = ['i'] then
      if f.i.isSome then none else (uuid κ m.2).map fun v => { f with i := some v }
    else if key = ['s'] then
      if f.s.isSome then none else (string m.2).map fun v => { f with s := some v }
    else if key = ['r'] then
      if f.r.isSome then none else (uuid ι m.2).map fun v => { f with r := some v }
    else some f

def ofFields : Option κ → Option Str → Option ι → Option (StickySession ι κ)
  | some i, some s, some r => some ⟨i, s, r⟩
  | _, _, _ => none

def visitMap (members : List (List Json.Piece × Json.Tree)) : Option (StickySession ι κ) :=
  (members.foldlM visitMember {}).bind fun f => ofFields f.i f.s f.r

def visitSeq : List Json.Tree → Option (StickySession ι κ)
  | [i, s, r] => ofFields (uuid κ i) (string s) (uuid ι r)
  | _ => none

def fromSlice (payload : List UInt8) : Option (StickySession ι κ) :=
  match Json.read (Json.ofBytes payload) with
  | some (.obj members) => visitMap members
  | some (.arr items) => visitSeq items
  | _ => none

end Payload

/-! ## What a payload says -/

theorem ofFields_eq_some {i : Option κ} {s : Option Str} {r : Option ι}
    {session : StickySession ι κ} : ofFields i s r = some session ↔
      i = some session.sessionId ∧ s = some session.specId ∧ r = some session.replicaId := by
  constructor
  · intro h
    unfold ofFields at h
    split at h
    · cases h
      exact ⟨rfl, rfl, rfl⟩
    · cases h
  · rintro ⟨rfl, rfl, rfl⟩
    rfl

section Denotes

variable [Uuid ι] [Uuid κ] {session : StickySession ι κ}

/-- The values of the members with a key. -/
def valuesOf (key : Str) (members : List (List Json.Piece × Json.Tree)) : List Json.Tree :=
  (members.filter fun m => Json.bytesTextOf m.1 = some key).map Prod.snd

/-- A JSON value that is a session: an object with each of the fields once, or the array of the
three. -/
inductive Denotes (session : StickySession ι κ) : Json.Tree → Prop where
  | object {members : List (List Json.Piece × Json.Tree)} {i s r : Json.Tree}
      (hkeys : ∀ m ∈ members, (Json.bytesTextOf m.1).isSome)
      (hi : valuesOf ['i'] members = [i]) (hs : valuesOf ['s'] members = [s])
      (hr : valuesOf ['r'] members = [r]) (hsession : uuid κ i = some session.sessionId)
      (hspec : string s = some session.specId) (hreplica : uuid ι r = some session.replicaId) :
      Denotes session (.obj members)
  | array {i s r : Json.Tree} (hsession : uuid κ i = some session.sessionId)
      (hspec : string s = some session.specId) (hreplica : uuid ι r = some session.replicaId) :
      Denotes session (.arr [i, s, r])

/-- Bytes that are the JSON of a session. -/
def IsJsonOf (payload : List UInt8) (session : StickySession ι κ) : Prop :=
  ∃ v, Json.read (Json.ofBytes payload) = some v ∧ Denotes session v

/-- What the values of a key make of a field. -/
def Adds {α : Type*} (read : Json.Tree → Option α) (before after : Option α) (vs : List Json.Tree) :
    Prop :=
  (vs = [] ∧ after = before) ∨ (before = none ∧ ∃ v, vs = [v] ∧ (read v).isSome ∧ after = read v)

theorem adds_nil {α : Type*} {read : Json.Tree → Option α} {before after : Option α} :
    Adds read before after [] ↔ after = before := by
  constructor
  · rintro (⟨-, h⟩ | ⟨-, v, hv, -⟩)
    · exact h
    · cases hv
  · exact fun h => .inl ⟨rfl, h⟩

theorem adds_cons {α : Type*} {read : Json.Tree → Option α} {before after : Option α}
    {v : Json.Tree} {vs : List Json.Tree} :
    Adds read before after (v :: vs) ↔
      before = none ∧ ∃ a, read v = some a ∧ Adds read (some a) after vs := by
  constructor
  · rintro (⟨h, -⟩ | ⟨hbefore, v', hv, hread, hafter⟩)
    · cases h
    · cases hv
      obtain ⟨a, ha⟩ := Option.isSome_iff_exists.mp hread
      exact ⟨hbefore, a, ha, adds_nil.mpr (hafter.trans ha)⟩
  · rintro ⟨hbefore, a, ha, ⟨rfl, hafter⟩ | ⟨h, -⟩⟩
    · exact .inr ⟨hbefore, v, rfl, Option.isSome_of_eq_some ha, hafter.trans ha.symm⟩
    · cases h

theorem valuesOf_cons {key key' : Str} {m : List Json.Piece × Json.Tree}
    {members : List (List Json.Piece × Json.Tree)} (h : Json.bytesTextOf m.1 = some key') :
    valuesOf key (m :: members) =
      if key' = key then m.2 :: valuesOf key members else valuesOf key members := by
  unfold valuesOf
  rw [List.filter_cons, h]
  simp only [Option.some.injEq, decide_eq_true_eq]
  split
  · rfl
  · rfl

theorem field_bind {α β γ : Type*} {field value : Option α} {g : α → β} {k : β → Option γ} {c : γ} :
    ((if field.isSome then none else value.map g).bind k = some c) ↔
      field = none ∧ ∃ a, value = some a ∧ k (g a) = some c := by
  cases field with
  | none => simp [Option.bind_eq_some_iff]
  | some a => simp

/-- The fold keeps account of each field. -/
theorem foldlM_visitMember {f f' : Fields ι κ} {members : List (List Json.Piece × Json.Tree)} :
    members.foldlM visitMember f = some f' ↔
      (∀ m ∈ members, (Json.bytesTextOf m.1).isSome) ∧
        Adds (uuid κ) f.i f'.i (valuesOf ['i'] members) ∧
        Adds string f.s f'.s (valuesOf ['s'] members) ∧
        Adds (uuid ι) f.r f'.r (valuesOf ['r'] members) := by
  induction members generalizing f with
  | nil =>
    have hempty : ∀ key, valuesOf key [] = [] := fun _ => rfl
    rw [hempty, hempty, hempty, adds_nil, adds_nil, adds_nil]
    constructor
    · intro h
      cases h
      exact ⟨nofun, rfl, rfl, rfl⟩
    · rintro ⟨-, hi, hs, hr⟩
      obtain ⟨i, s, r⟩ := f
      obtain ⟨i', s', r'⟩ := f'
      cases hi
      cases hs
      cases hr
      rfl
  | cons m members ih =>
    rw [List.foldlM_cons]
    cases hkey : Json.bytesTextOf m.1 with
    | none => simp [visitMember, hkey]
    | some key =>
      have hall : (∀ x ∈ m :: members, (Json.bytesTextOf x.1).isSome) ↔
          ∀ x ∈ members, (Json.bytesTextOf x.1).isSome := by
        simp [hkey]
      rw [hall, valuesOf_cons hkey, valuesOf_cons hkey, valuesOf_cons hkey]
      simp only [visitMember, hkey, Option.bind_eq_bind]
      by_cases hi : key = ['i']
      · subst hi
        rw [if_pos rfl, if_pos rfl, field_bind, adds_cons, if_neg (by decide : ['i'] ≠ ['s']),
          if_neg (by decide : ['i'] ≠ ['r'])]
        simp only [ih]
        constructor
        · rintro ⟨hnone, a, ha, hmembers, hadds, hrest⟩
          exact ⟨hmembers, ⟨hnone, a, ha, hadds⟩, hrest⟩
        · rintro ⟨hmembers, ⟨hnone, a, ha, hadds⟩, hrest⟩
          exact ⟨hnone, a, ha, hmembers, hadds, hrest⟩
      rw [if_neg hi, if_neg hi]
      by_cases hs : key = ['s']
      · subst hs
        rw [if_pos rfl, if_pos rfl, field_bind, adds_cons, if_neg (by decide : ['s'] ≠ ['r'])]
        simp only [ih]
        constructor
        · rintro ⟨hnone, a, ha, hmembers, hi, hadds, hr⟩
          exact ⟨hmembers, hi, ⟨hnone, a, ha, hadds⟩, hr⟩
        · rintro ⟨hmembers, hi, ⟨hnone, a, ha, hadds⟩, hr⟩
          exact ⟨hnone, a, ha, hmembers, hi, hadds, hr⟩
      rw [if_neg hs, if_neg hs]
      by_cases hr : key = ['r']
      · subst hr
        rw [if_pos rfl, if_pos rfl, field_bind, adds_cons]
        simp only [ih]
        constructor
        · rintro ⟨hnone, a, ha, hmembers, hi, hs, hadds⟩
          exact ⟨hmembers, hi, hs, hnone, a, ha, hadds⟩
        · rintro ⟨hmembers, hi, hs, hnone, a, ha, hadds⟩
          exact ⟨hnone, a, ha, hmembers, hi, hs, hadds⟩
      rw [if_neg hr, if_neg hr]
      exact ih

theorem adds_none {α : Type*} {read : Json.Tree → Option α} {vs : List Json.Tree} {a : α} :
    Adds read none (some a) vs ↔ ∃ v, vs = [v] ∧ read v = some a := by
  constructor
  · rintro (⟨-, h⟩ | ⟨-, v, hv, -, hafter⟩)
    · cases h
    · exact ⟨v, hv, hafter.symm⟩
  · rintro ⟨v, hv, hread⟩
    exact .inr ⟨rfl, v, hv, Option.isSome_of_eq_some hread, hread.symm⟩

/-- A payload is read as a session exactly when it is the JSON of that session. -/
theorem fromSlice_eq_some {payload : List UInt8} :
    fromSlice payload = some session ↔ IsJsonOf payload session := by
  unfold fromSlice IsJsonOf
  constructor
  · intro h
    split at h
    · next members hread =>
      obtain ⟨f, hf, hsession⟩ := Option.bind_eq_some_iff.mp h
      obtain ⟨hi, hs, hr⟩ := ofFields_eq_some.mp hsession
      obtain ⟨hkeys, haddi, hadds, haddr⟩ := foldlM_visitMember.mp hf
      rw [hi] at haddi
      rw [hs] at hadds
      rw [hr] at haddr
      obtain ⟨i, hi, hsession⟩ := adds_none.mp haddi
      obtain ⟨s, hs, hspec⟩ := adds_none.mp hadds
      obtain ⟨r, hr, hreplica⟩ := adds_none.mp haddr
      exact ⟨_, hread, .object hkeys hi hs hr hsession hspec hreplica⟩
    · next items hread =>
      unfold visitSeq at h
      split at h
      · next i s r =>
        obtain ⟨hsession, hspec, hreplica⟩ := ofFields_eq_some.mp h
        exact ⟨_, hread, .array hsession hspec hreplica⟩
      · cases h
    · cases h
  · rintro ⟨v, hread, hv⟩
    rw [hread]
    cases hv with
    | object hkeys hi hs hr hsession hspec hreplica =>
      have hfold : List.foldlM visitMember ({} : Fields ι κ) _ =
          some ⟨some session.sessionId, some session.specId, some session.replicaId⟩ :=
        foldlM_visitMember.mpr ⟨hkeys, adds_none.mpr ⟨_, hi, hsession⟩,
          adds_none.mpr ⟨_, hs, hspec⟩, adds_none.mpr ⟨_, hr, hreplica⟩⟩
      exact Option.bind_eq_some_iff.mpr ⟨_, hfold, rfl⟩
    | array hsession hspec hreplica => exact ofFields_eq_some.mpr ⟨hsession, hspec, hreplica⟩

/-- What a printed string is read as. -/
def printed (s : Str) : Json.Tree := .str (s.flatMap Json.bytePieces)

theorem string_printed {s : Str} : string (printed s) = some s := Json.bytesTextOf_bytePieces

theorem uuid_printed {id : ι} : uuid ι (printed (Uuid.text id)) = some id := by
  rw [uuid, string_printed]
  exact Uuid.parse_text id

/-- A printed field is found under its own name. -/
theorem valuesOf_printed {key : Str} {ms : List (Str × Str)} :
    valuesOf key (ms.map fun m => (m.1.flatMap Json.bytePieces, printed m.2)) =
      (ms.filter fun m => m.1 = key).map fun m => printed m.2 := by
  induction ms with
  | nil => rfl
  | cons m ms ih =>
    rw [List.map_cons, valuesOf_cons Json.bytesTextOf_bytePieces, List.filter_cons, ih]
    simp only [decide_eq_true_eq]
    split
    · rfl
    · rfl

/-- The payload of a session is its JSON. -/
theorem isJsonOf_toVec (session : StickySession ι κ) : IsJsonOf (toVec session) session := by
  refine ⟨_, Json.read_printObject _ _,
    .object ?_ ?_ ?_ ?_ uuid_printed string_printed uuid_printed⟩
  · intro m hm
    obtain ⟨m, -, rfl⟩ := List.mem_map.mp hm
    exact Option.isSome_of_eq_some Json.bytesTextOf_bytePieces
  · exact valuesOf_printed
  · exact valuesOf_printed
  · exact valuesOf_printed

end Denotes

/-! ## The cookie -/

/-- Equality that looks at every byte. -/
def ctEq (a b : List UInt8) : Bool :=
  if a.length ≠ b.length then false
  else (a.zip b).foldl (fun diff p => diff ||| (p.1 ^^^ p.2)) 0 = 0

section Cookie

variable [Uuid ι] [Uuid κ] (sign : CookieKey → List UInt8 → Tag) (key : CookieKey)

def encode (session : StickySession ι κ) : Str :=
  let payload := toVec session
  urlSafe.encode (payload ++ truncated (sign key payload))

def decode (cookieValue : Str) : Except Str (StickySession ι κ) :=
  match urlSafe.decode cookieValue with
  | none => .error "invalid cookie encoding".toList
  | some raw =>
    if raw.length < tagLen + 2 then .error "cookie too short".toList
    else
      let payload := raw.take (raw.length - tagLen)
      let tag := raw.drop (raw.length - tagLen)
      if ctEq (truncated (sign key payload)) tag then
        match fromSlice payload with
        | some session => .ok session
        | none => .error "malformed payload".toList
      else .error "bad signature".toList

/-- The branch of `resolve_replica` for a cookie that still leads to a replica: that replica, and
the session. -/
def resolveReplica [DecidableEq ι] (reg : Registry ι) (cookies : Str → Option Str)
    (specId : Str) : Option (Replica ι × κ) :=
  match cookies (cookieName specId) with
  | none => none
  | some raw =>
    match decode (ι := ι) (κ := κ) sign key raw with
    | .error _ => none
    | .ok session =>
      if session.specId = specId then
        match (reg.replicasOf specId).find? fun r => r.id = session.replicaId with
        | none => none
        | some r =>
          if r.state = .ready ∨ r.state = .draining then some (r, session.sessionId) else none
      else none

end Cookie

def stickyReplicaIsLive [DecidableEq ι] (reg : Registry ι) (specId : Str)
    (session : StickySession ι κ) : Bool :=
  session.specId = specId && (reg.replicasOf specId).any fun r =>
    r.id = session.replicaId && (r.state = .ready || r.state = .draining)

/-! ## What a cookie is good for -/

theorem foldl_xor_eq_zero {pairs : List (UInt8 × UInt8)} {diff : UInt8} :
    pairs.foldl (fun diff p => diff ||| (p.1 ^^^ p.2)) diff = 0 ↔
      diff = 0 ∧ ∀ p ∈ pairs, p.1 = p.2 := by
  induction pairs generalizing diff with
  | nil => simp
  | cons p pairs ih =>
    rw [List.foldl_cons, ih, UInt8.or_eq_zero_iff, UInt8.xor_eq_zero_iff, List.forall_mem_cons,
      and_assoc]

theorem ctEq_eq_true {a b : List UInt8} : ctEq a b = true ↔ a = b := by
  unfold ctEq
  constructor
  · intro h
    split at h
    · cases h
    · next hlength =>
      obtain ⟨-, hpairs⟩ := foldl_xor_eq_zero.mp (of_decide_eq_true h)
      apply List.ext_getElem (not_not.mp hlength)
      intro n ha hb
      exact hpairs (a[n], b[n]) (List.mem_iff_getElem.mpr ⟨n, by simp [ha, hb], by simp⟩)
  · rintro rfl
    rw [if_neg (not_not.mpr rfl)]
    apply decide_eq_true
    refine foldl_xor_eq_zero.mpr ⟨rfl, ?_⟩
    intro p hp
    obtain ⟨n, hn, rfl⟩ := List.mem_iff_getElem.mp hp
    simp

theorem stickyReplicaIsLive_of_ne [DecidableEq ι] {reg : Registry ι} {specId : Str}
    {session : StickySession ι κ} (hne : session.specId ≠ specId) :
    stickyReplicaIsLive reg specId session = false := by
  rw [stickyReplicaIsLive, decide_eq_false hne, Bool.false_and]

section Cookie

variable [Uuid ι] [Uuid κ] {sign : CookieKey → List UInt8 → Tag} {key : CookieKey}
  {session : StickySession ι κ} {c : Str}

/-- The bytes of a signed payload come apart again. -/
theorem take_drop_wire {payload tag : List UInt8} (htag : tag.length = tagLen) :
    (payload ++ tag).take ((payload ++ tag).length - tagLen) = payload ∧
      (payload ++ tag).drop ((payload ++ tag).length - tagLen) = tag := by
  have hlength : (payload ++ tag).length - tagLen = payload.length := by
    rw [List.length_append, htag, Nat.add_sub_cancel]
  rw [hlength]
  exact ⟨List.take_left, List.drop_left⟩

/-- No value is shorter than two characters. -/
theorem length_of_isJsonOf {payload : List UInt8} (h : IsJsonOf payload session) :
    2 ≤ payload.length := by
  obtain ⟨v, hread, hv⟩ := h
  have hcomposite : v.isComposite = true := by
    cases hv with
    | object => rfl
    | array => rfl
  have hlength := Json.two_le_length hcomposite hread
  rw [Json.ofBytes, List.length_map] at hlength
  exact hlength

/-- **A cookie value is accepted exactly when it is a signed payload.** -/
theorem decode_eq_ok : decode sign key c = .ok session ↔
    ∃ payload, c = urlSafe.encode (payload ++ truncated (sign key payload)) ∧
      IsJsonOf payload session := by
  unfold decode
  constructor
  · intro h
    split at h
    · cases h
    · next raw hraw =>
      split at h
      · cases h
      · next hlength =>
        dsimp only at h
        split at h
        · next htag =>
          split at h
          · next session' hpayload =>
            cases h
            refine ⟨_, ?_, fromSlice_eq_some.mp hpayload⟩
            rw [ctEq_eq_true.mp htag, List.take_append_drop]
            exact Base64.Alphabet.eq_encode_of_decode hraw
          · cases h
        · cases h
  · rintro ⟨payload, rfl, hpayload⟩
    have hwire : (payload ++ _).take _ = payload ∧ _ :=
      take_drop_wire (length_truncated (sign key payload))
    obtain ⟨htake, hdrop⟩ := hwire
    have hlength := length_of_isJsonOf hpayload
    rw [Base64.Alphabet.decode_encode]
    dsimp only
    rw [htake, hdrop, if_neg, if_pos (ctEq_eq_true.mpr rfl), fromSlice_eq_some.mpr hpayload]
    rw [List.length_append, length_truncated]
    omega

theorem decode_encode : decode sign key (encode sign key session) = .ok session :=
  decode_eq_ok.mpr ⟨_, rfl, isJsonOf_toVec session⟩

variable [DecidableEq ι] {reg : Registry ι} {cookies : Str → Option Str} {specId raw : Str}

theorem resolveReplica_of_ok (hraw : cookies (cookieName specId) = some raw)
    (hok : decode sign key raw = .ok session) :
    resolveReplica (κ := κ) sign key reg cookies specId =
      if session.specId = specId then
        ((reg.replicasOf specId).find? fun r => r.id = session.replicaId).bind fun r =>
          if r.state = .ready ∨ r.state = .draining then some (r, session.sessionId) else none
      else none := by
  unfold resolveReplica
  rw [hraw]
  dsimp only
  rw [hok]
  dsimp only
  split
  · split
    · next hfind => rw [hfind, Option.bind_none]
    · next hfind => rw [hfind, Option.bind_some]
  · rfl

/-- The session of a cookie, as the calls on the replicas take it. -/
def StickySession.toCookie (session : StickySession ι κ) : Calls.Cookie ι κ :=
  ⟨session.sessionId, session.specId, session.replicaId⟩

/-- A cookie that verifies leads where the calls let it lead. -/
theorem resolveReplica_eq_stickyReplica {s : Calls.State ι κ}
    (hraw : cookies (cookieName specId) = some raw) (hok : decode sign key raw = .ok session) :
    resolveReplica sign key s.replicas cookies specId =
      (Calls.stickyReplica s specId session.toCookie).map fun r => (r, session.sessionId) := by
  have hid : session.toCookie.replica = session.replicaId := rfl
  rw [resolveReplica_of_ok hraw hok, Calls.stickyReplica, hid]
  by_cases hspec : session.specId = specId
  · have hcookie : session.toCookie.specId = specId := hspec
    rw [if_pos hspec, if_pos hcookie]
    cases (s.replicas.replicasOf specId).find? fun r => r.id = session.replicaId with
    | none => rfl
    | some r =>
      rw [Option.bind_some]
      split
      · next hstate => simp [Option.filter, hstate]
      · next hstate => simp [Option.filter, hstate]
  · have hcookie : session.toCookie.specId ≠ specId := hspec
    rw [if_neg hspec, if_neg hcookie]
    rfl

/-- **A cookie whose session names another spec is not honoured.** -/
theorem resolveReplica_of_ne (hraw : cookies (cookieName specId) = some raw)
    (hok : decode sign key raw = .ok session) (hne : session.specId ≠ specId) :
    resolveReplica (κ := κ) sign key reg cookies specId = none := by
  rw [resolveReplica_of_ok hraw hok, if_neg hne]

/-- A session comes back from its cookie, only signed JSON is a cookie, and a cookie of one spec
is no cookie of another. -/
theorem cookie_binds_session (sign : CookieKey → List UInt8 → Tag) (key : CookieKey) :
    (∀ session : StickySession ι κ, decode sign key (encode sign key session) = .ok session) ∧
      (∀ (c : Str) (session : StickySession ι κ), decode sign key c = .ok session →
        ∃ payload, c = urlSafe.encode (payload ++ (sign key payload).bytes.take 16) ∧
          IsJsonOf payload session) ∧
      ∀ (reg : Registry ι) (cookies : Str → Option Str) (specId : Str)
        (session : StickySession ι κ), session.specId ≠ specId →
        cookies (cookieName specId) = some (encode sign key session) →
        resolveReplica (κ := κ) sign key reg cookies specId = none ∧
          stickyReplicaIsLive reg specId session = false := by
  refine ⟨fun _ => decode_encode, fun _ _ => decode_eq_ok.mp, ?_⟩
  intro reg cookies specId session hne hraw
  exact ⟨resolveReplica_of_ne hraw decode_encode hne, stickyReplicaIsLive_of_ne hne⟩

end Cookie

end Ruscker.Proxy.Sticky
