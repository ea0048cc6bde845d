import Ruscker.Proxy.UpstreamHeaders

/-!
# Identity headers

An app behind the portal believes the `X-SP-*` and `X-Ruscker-User-*` headers it gets.  What
a visitor sends under those names is taken away before the identity of the session is written,
and no later stage writes there, so a container gets the session's identity and nothing else.
-/

namespace Ruscker.Proxy

open HeaderMap

/-! ## Their names -/

section Names

/-- Every name an identity may be sent under. -/
def identityNames : List Str :=
  ["X-SP-UserId", "X-SP-UserGroups", "X-Ruscker-User-Email", "X-Ruscker-User-Setor"].map
    String.toList

def lowerName (name : Str) : Bytes := (utf8 name).map toLowerByte

theorem isReservedIdentity_of_mem_identityNames :
    ∀ name ∈ identityNames, isReservedIdentity (lowerName name) = true := by
  decide +kernel

theorem lowerName_injOn :
    ∀ a ∈ identityNames, ∀ b ∈ identityNames, lowerName a = lowerName b → a = b := by
  decide

theorem nodup_pushClaim {claims : List IdentityClaim} (name : Str) (h : claims.Nodup) :
    (pushClaim claims name).Nodup := by
  unfold pushClaim
  cases identityClaim name with
  | none => exact h
  | some claim =>
    rw [Option.elim_some]
    split
    · exact h
    · next hnew =>
      refine List.nodup_append.mpr ⟨h, List.nodup_singleton claim, ?_⟩
      intro a ha b hb heq
      rw [List.mem_singleton.mp hb] at heq
      exact hnew (List.contains_iff_mem.mpr (heq ▸ ha))

theorem nodup_effectiveIdentityClaims [Floats] (s : Settings) :
    s.effectiveIdentityClaims.Nodup := by
  have hfold : ∀ (names : List Str) (claims : List IdentityClaim), claims.Nodup →
      (names.foldl pushClaim claims).Nodup := by
    intro names
    induction names with
    | nil => exact fun _ h => h
    | cons name names ih => exact fun claims h => ih _ (nodup_pushClaim name h)
  exact hfold _ [] List.nodup_nil

/-- The header of a claim. -/
def claimName : IdentityClaim → Str
  | .email => "X-Ruscker-User-Email".toList
  | .setor => "X-Ruscker-User-Setor".toList

theorem claimName_injective : Function.Injective claimName := by
  intro a b h
  cases a <;> cases b
  · rfl
  · exact absurd h (by decide)
  · exact absurd h (by decide)
  · rfl

theorem claimName_mem_identityNames (claim : IdentityClaim) :
    claimName claim ∈ identityNames.drop 2 := by
  cases claim <;> decide

variable (identity : Identity) (addDefault : Bool) {claims : List IdentityClaim}

theorem claimPair_fst (claim : IdentityClaim) :
    (claimPair identity claim).1 = claimName claim := by
  cases claim <;> rfl

theorem map_fst_headerPairs (claims : List IdentityClaim) :
    ((identity.headerPairs addDefault claims).map Prod.fst).Sublist
      (identityNames.take 2 ++ claims.map claimName) := by
  rw [Identity.headerPairs, List.map_append]
  refine List.Sublist.append ?_ ?_
  · cases addDefault with
    | false => exact List.nil_sublist _
    | true => exact List.Sublist.refl _
  · induction claims with
    | nil => exact List.Sublist.slnil
    | cons claim claims ih =>
      rw [List.filterMap_cons, List.map_cons, claimPair_fst]
      cases ((claimPair identity claim).2.filter fun value => !value.trim.isEmpty) with
      | none => exact ih.cons _
      | some value => exact ih.cons_cons _

theorem mem_identityNames_of_mem_headerPairs {name : Str}
    (h : name ∈ (identity.headerPairs addDefault claims).map Prod.fst) :
    name ∈ identityNames := by
  rcases List.mem_append.mp ((map_fst_headerPairs identity addDefault claims).subset h) with
    hdefault | hclaim
  · exact List.mem_of_mem_take hdefault
  · obtain ⟨claim, -, rfl⟩ := List.mem_map.mp hclaim
    exact List.mem_of_mem_drop (claimName_mem_identityNames claim)

theorem nodup_headerPairs (hclaims : claims.Nodup) :
    ((identity.headerPairs addDefault claims).map Prod.fst).Nodup := by
  refine (map_fst_headerPairs identity addDefault claims).nodup ?_
  refine List.nodup_append.mpr ⟨by decide, ?_, ?_⟩
  · exact hclaims.map claimName_injective
  · rintro a ha b hb rfl
    obtain ⟨claim, -, rfl⟩ := List.mem_map.mp hb
    have hdisjoint : ∀ name ∈ identityNames.drop 2, name ∉ identityNames.take 2 := by decide
    exact hdisjoint _ (claimName_mem_identityNames claim) ha

end Names

/-! ## What a container gets -/

theorem encodeHeader_fst {pair : Bytes × Bytes} {line : Bytes × HeaderValue}
    (h : encodeHeader pair = some line) : line.1 = pair.1.map toLowerByte := by
  unfold encodeHeader headerName at h
  split at h
  · obtain ⟨v, -, rfl⟩ := Option.map_eq_some_iff.mp h
    rfl
  · cases h

theorem map_fst_filterMap_encodeHeader (pairs : List (Bytes × Bytes)) :
    ((pairs.filterMap encodeHeader).map Prod.fst).Sublist
      (pairs.map fun pair => pair.1.map toLowerByte) := by
  induction pairs with
  | nil => exact List.Sublist.slnil
  | cons pair pairs ih =>
    cases hpair : encodeHeader pair with
    | none =>
      rw [List.filterMap_cons_none hpair]
      exact ih.cons _
    | some line =>
      rw [List.filterMap_cons_some hpair, List.map_cons, List.map_cons, encodeHeader_fst hpair]
      exact ih.cons_cons _

theorem headers_of_mem_sent {validUri : Bytes → Bool} {target : Target} {req : Inbound}
    {first second : Outcome} {sent : Outbound × Bool}
    (h : sent ∈ (doForward validUri target req first second).sent) :
    sent.1.headers = outboundHeaders target req := by
  unfold doForward at h
  dsimp only at h
  split at h
  · split at h
    · cases List.mem_singleton.mp h
      rfl
    · rcases List.mem_cons.mp h with rfl | h
      · rfl
      · cases List.mem_singleton.mp h
        rfl
  · cases h

/-- The headers of an identity, as far as they can be sent. -/
def Identity.lines (identity : Identity) (addDefault : Bool) (claims : List IdentityClaim) :
    HeaderMap :=
  ((identity.headerPairs addDefault claims).map fun p => (utf8 p.1, utf8 p.2)).filterMap
    encodeHeader

theorem map_fst_lines (identity : Identity) (addDefault : Bool) (claims : List IdentityClaim) :
    ((identity.lines addDefault claims).map Prod.fst).Sublist
      (((identity.headerPairs addDefault claims).map Prod.fst).map lowerName) := by
  refine (map_fst_filterMap_encodeHeader _).trans ?_
  rw [List.map_map, List.map_map]
  exact List.Sublist.refl _

theorem nodup_lines (identity : Identity) (addDefault : Bool) {claims : List IdentityClaim}
    (hclaims : claims.Nodup) : ((identity.lines addDefault claims).map Prod.fst).Nodup := by
  refine (map_fst_lines identity addDefault claims).nodup ?_
  refine List.Nodup.map_on (fun a ha b hb => lowerName_injOn a ?_ b ?_)
    (nodup_headerPairs identity addDefault hclaims)
  · exact mem_identityNames_of_mem_headerPairs identity addDefault ha
  · exact mem_identityNames_of_mem_headerPairs identity addDefault hb

theorem isReservedIdentity_of_mem_lines {identity : Identity} {addDefault : Bool}
    {claims : List IdentityClaim} {line : Bytes × HeaderValue}
    (hline : line ∈ identity.lines addDefault claims) : isReservedIdentity line.1 = true := by
  have hname := (map_fst_lines identity addDefault claims).subset (List.mem_map_of_mem hline)
  obtain ⟨name, hpair, heq⟩ := List.mem_map.mp hname
  rw [← heq]
  exact isReservedIdentity_of_mem_identityNames name
    (mem_identityNames_of_mem_headerPairs identity addDefault hpair)

section Sessions

variable [Floats]

/-- The headers that tell who is signed in, where the spec asks for them. -/
def sessionLines (portal : Portal) (spec : Spec Settings) (session : Option AdminSession) :
    HeaderMap :=
  (session.bind AdminSession.actor).elim [] fun username =>
    Identity.lines ⟨username, portal.resolveIdentity username⟩ (addDefaultHttpHeaders spec)
      spec.settings.effectiveIdentityClaims

variable {portal : Portal} {spec : Spec Settings} {v : Visit} {r : Resolved}

/-- Without a look at the user's row, there was nothing to disclose. -/
theorem filterMap_identityBytes (portal : Portal) (spec : Spec Settings) (v : Visit) :
    (identityBytes portal spec v).filterMap encodeHeader = sessionLines portal spec v.session := by
  unfold identityBytes identityHeaders identity sessionLines Visit.actor
  cases hactor : v.session.bind AdminSession.actor with
  | none => rfl
  | some username =>
    rw [Option.filter_some, Option.elim_some]
    split
    · rfl
    · next hnot =>
      simp only [Bool.or_eq_true, Bool.not_eq_true', not_or, Bool.not_eq_false,
        List.isEmpty_iff] at hnot
      rw [Identity.lines, hnot.2, eq_false_of_ne_true hnot.1.2]
      rfl

theorem nodup_sessionLines (portal : Portal) (spec : Spec Settings)
    (session : Option AdminSession) : ((sessionLines portal spec session).map Prod.fst).Nodup := by
  unfold sessionLines
  cases session.bind AdminSession.actor with
  | none => exact List.nodup_nil
  | some username => exact nodup_lines _ _ (nodup_effectiveIdentityClaims _)

theorem isReservedIdentity_of_mem_sessionLines {session : Option AdminSession}
    {line : Bytes × HeaderValue} (hline : line ∈ sessionLines portal spec session) :
    isReservedIdentity line.1 = true := by
  unfold sessionLines at hline
  cases hactor : session.bind AdminSession.actor with
  | none =>
    rw [hactor] at hline
    cases hline
  | some username =>
    rw [hactor] at hline
    exact isReservedIdentity_of_mem_lines hline

/-- The stages in front of the identity leave no reserved name, and those behind it add none. -/
theorem under_outboundHeaders (portal : Portal) (spec : Spec Settings) (v : Visit)
    (r : Resolved) :
    (outboundHeaders (target portal spec v r) (inbound portal spec v)).under isReservedIdentity =
      sessionLines portal spec v.session := by
  have hlines := filterMap_identityBytes portal spec v
  unfold outboundHeaders
  rw [under_applySmartRoutingHeaders rfl rfl rfl rfl rfl]
  have hempty : (stripRusckerCookies (stripReservedIdentityHeaders
      (stripHopHeaders (inbound portal spec v).headers))).under isReservedIdentity = [] :=
    (under_stripRusckerCookies rfl).trans under_stripReservedIdentityHeaders_self
  refine (under_foldl_insertIdentity_own ?_ ?_).trans ?_
  · intro line hline
    exact isReservedIdentity_of_mem_sessionLines (hlines ▸ hline)
  · rw [hempty]
    exact (congrArg (fun l => (l.map Prod.fst).Nodup) hlines).mpr
      (nodup_sessionLines portal spec v.session)
  · rw [hempty]
    exact hlines

/-! ## The requests of an exchange -/

/-- What a forward of this visit sends, however its sends end. -/
def sentHeaders (portal : Portal) (spec : Spec Settings) (v : Visit) (r : Resolved)
    (first second : Outcome) : List HeaderMap :=
  (doForward portal.validUri (target portal spec v r) (inbound portal spec v) first second).sent.map
    fun sent => sent.1.headers

/-- Two visitors with one session: whatever else they send, their requests carry the identity
of that session. -/
theorem identity_headers_from_session {v' : Visit} (r r' : Resolved)
    (first second first' second' : Outcome) (hsession : v.session = v'.session) :
    (∀ headers ∈ sentHeaders portal spec v r first second,
      headers.under isReservedIdentity = sessionLines portal spec v.session) ∧
    (∀ headers ∈ sentHeaders portal spec v' r' first' second',
      headers.under isReservedIdentity = sessionLines portal spec v.session) ∧
    (v.actor = none → sessionLines portal spec v.session = []) ∧
    (addDefaultHttpHeaders spec = false → spec.settings.effectiveIdentityClaims = [] →
      sessionLines portal spec v.session = []) := by
  have hsent : ∀ (v : Visit) (r : Resolved) (first second : Outcome),
      ∀ headers ∈ sentHeaders portal spec v r first second,
        headers.under isReservedIdentity = sessionLines portal spec v.session := by
    intro v r first second headers hheaders
    obtain ⟨sent, hmem, rfl⟩ := List.mem_map.mp hheaders
    rw [headers_of_mem_sent hmem]
    exact under_outboundHeaders portal spec v r
  refine ⟨hsent v r first second, hsession ▸ hsent v' r' first' second', ?_, ?_⟩
  · intro hactor
    rw [sessionLines, show v.session.bind AdminSession.actor = none from hactor]
    rfl
  · intro hdefault hclaims
    rw [sessionLines, hdefault, hclaims]
    cases v.session.bind AdminSession.actor <;> rfl

end Sessions

/-! ### A forged name -/

section Example

attribute [local instance] wholeFloats

/-- A user of the portal who claims to be another. -/
def forgedVisit : Visit :=
  { anonymousVisit with
    headers := [(bytes "x-sp-userid", ⟨bytes "root", by decide⟩)]
    session := some ⟨some "ana".toList, .viewer⟩ }

def disclosingSpec : Spec Settings :=
  { staffWiki with settings := { staffWiki.settings with addDefaultHttpHeaders := some true } }

def anyReplica : Resolved where
  replicaId := "r1".toList
  upstream := bytes "10.0.0.2:3838"
  sessionId := "s1".toList
  cookieUsed := true
  seatReserved := false
  trackSession := true

theorem forged_identity_is_replaced :
    (sessionLines quietPortal disclosingSpec forgedVisit.session).map
        (fun line => (line.1, line.2.raw)) =
      [(bytes "x-sp-userid", bytes "ana"), (bytes "x-sp-usergroups", [])] ∧
    ∀ headers ∈ sentHeaders quietPortal disclosingSpec forgedVisit anyReplica
        (.failed false) (.failed false),
      headers.under isReservedIdentity =
        sessionLines quietPortal disclosingSpec forgedVisit.session := by
  have hsame := @identity_headers_from_session _ quietPortal disclosingSpec forgedVisit
    { forgedVisit with headers := [] } anyReplica anyReplica (.failed false) (.failed false)
    (.failed false) (.failed false) rfl
  exact ⟨by decide +kernel, hsame.1⟩

end Example

end Ruscker.Proxy
