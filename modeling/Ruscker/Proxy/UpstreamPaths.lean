import Ruscker.Db.Credentials
import Ruscker.Lib.Percent
import Ruscker.Proxy.IdentityHeaders

/-!
# The path a container is asked for

The router hands over the rest of a path decoded.  `do_forward` writes it into the text of a new
URI and has that parsed, without encoding it again, so an escaped character is sent as itself.
How `http::Uri` parses is a parameter, with what its documentation says of it.
-/

namespace Ruscker.Proxy

/-! ## Parsing -/

section Parsing

structure ParsedUri where
  path : Bytes
  query : Option Bytes
  deriving DecidableEq

/-- A question mark or a number sign ends a path. -/
def isPathEnd (b : UInt8) : Bool := b = 63 || b = 35

/-- The query of a target, without its fragment. -/
def queryOf (rest : Bytes) : Option Bytes :=
  match rest.dropWhile fun b => !isPathEnd b with
  | 63 :: query => some (query.takeWhile fun b => b ≠ 35)
  | _ => none

def querySuffix (query : Option Str) : Bytes := (query.map utf8).elim [] (bytes "?" ++ ·)

/-- The text of an `http` URI. -/
def httpText (authority : Bytes) (rest : Str) (query : Option Str) : Bytes :=
  bytes "http://" ++ authority ++ utf8 ('/' :: rest) ++ querySuffix query

structure UriParser where
  parse : Bytes → Option ParsedUri
  isAuthority : Bytes → Bool
  isPathByte : UInt8 → Bool
  isQueryByte : UInt8 → Bool
  maxLen : Nat

/-- A text of its characters is a URI up to a length, and is kept as it is written. -/
structure UriParser.Lawful (uris : UriParser) : Prop where
  pathByte : ∀ b, uris.isPathByte b = true → isPathEnd b = false
  queryByte : ∀ b, uris.isQueryByte b = true → b ≠ 35
  accepts : ∀ authority rest query, uris.isAuthority authority = true →
    (∀ b ∈ utf8 rest, uris.isPathByte b = true) →
    (∀ q ∈ query, ∀ b ∈ utf8 q, uris.isQueryByte b = true) →
    (httpText authority rest query).length ≤ uris.maxLen →
    (uris.parse (httpText authority rest query)).isSome = true
  splits : ∀ authority rest u, uris.isAuthority authority = true →
    uris.parse (bytes "http://" ++ authority ++ 47 :: rest) = some u →
    u = ⟨47 :: rest.takeWhile (fun b => !isPathEnd b), queryOf rest⟩
  bounded : ∀ text u, uris.parse text = some u → text.length ≤ uris.maxLen

theorem httpText_eq (authority : Bytes) (rest : Str) (query : Option Str) :
    httpText authority rest query =
      bytes "http://" ++ authority ++ 47 :: (utf8 rest ++ querySuffix query) := by
  rw [httpText, List.append_assoc _ (utf8 ('/' :: rest))]
  rfl

theorem takeWhile_querySuffix (query : Option Str) :
    (querySuffix query).takeWhile (fun b => !isPathEnd b) = [] := by
  cases query with
  | none => rfl
  | some q => rfl

theorem length_takeWhile_target_le (rest : Bytes) (query : Option Str) :
    ((rest ++ querySuffix query).takeWhile fun b => !isPathEnd b).length ≤ rest.length := by
  rw [List.takeWhile_append]
  split
  · rw [takeWhile_querySuffix, List.append_nil]
  · exact (List.takeWhile_sublist _).length_le

/-- What was written as path and query is read as path and query. -/
theorem split_target {rest : Str} {query : Option Str}
    (hrest : ∀ b ∈ utf8 rest, isPathEnd b = false)
    (hquery : ∀ q ∈ query, ∀ b ∈ utf8 q, b ≠ 35) :
    (utf8 rest ++ querySuffix query).takeWhile (fun b => !isPathEnd b) = utf8 rest ∧
      queryOf (utf8 rest ++ querySuffix query) = query.map utf8 := by
  have hpos : ∀ b ∈ utf8 rest, (!isPathEnd b) = true := fun b hb => by
    rw [hrest b hb]
    rfl
  constructor
  · rw [List.takeWhile_append_of_pos hpos, takeWhile_querySuffix, List.append_nil]
  · rw [queryOf, List.dropWhile_append_of_pos hpos]
    cases query with
    | none => rfl
    | some q =>
      have htake : (utf8 q).takeWhile (fun b => b ≠ 35) = utf8 q :=
        List.takeWhile_eq_self_iff.mpr fun b hb => decide_eq_true (hquery q rfl b hb)
      exact congrArg some htake

end Parsing

/-! ## The handlers of the routes -/

section Routes

/-- The extractor's part of a path: decoded, and refused where that is no text. -/
def extractRest (rest : Str) : Option Str := Str.fromUtf8 (Percent.decode (utf8 rest))

theorem extractRest_of_not_hasEscape {rest : Str} (hplain : ¬ Percent.HasEscape (utf8 rest)) :
    extractRest rest = some rest := by
  rw [extractRest, Percent.decode_of_not_hasEscape hplain]
  exact Str.fromUtf8_asBytes rest

/-- `forward_app` and `forward_api`, up to `forward`. -/
def Visit.routed (v : Visit) (rest : Str) : Option Visit :=
  (extractRest rest).map fun decoded => { v with upstreamPath := '/' :: decoded }

theorem length_of_fromUtf8 {b : Bytes} {s : Str} (h : Str.fromUtf8 b = some s) :
    (utf8 s).length = b.length := by
  unfold Str.fromUtf8 at h
  obtain ⟨chars, hdecode, rfl⟩ := Option.map_eq_some_iff.mp h
  have hsome : b.toByteArray.utf8Decode?.isSome = true := by
    rw [hdecode]
    rfl
  have hencode := @ByteArray.utf8Encode_get_utf8Decode? b.toByteArray hsome
  simp only [hdecode, Option.get_some] at hencode
  have hsize := congrArg ByteArray.size hencode
  have htext : List.utf8Encode chars.toList = (utf8 chars.toList).toByteArray := rfl
  rw [htext, List.size_toByteArray, List.size_toByteArray] at hsize
  exact hsize

variable [Floats] {uris : UriParser} {portal : Portal} {spec : Spec Settings} {v : Visit}
  {r : Resolved} {rest : Str}

/-- The container is asked for what the visitor asked for. -/
def AsksFor (uris : UriParser) (portal : Portal) (spec : Spec Settings) (r : Resolved) (v : Visit)
    (rest : Str) : Prop :=
  ∃ routed, v.routed rest = some routed ∧
    uris.parse (upstreamUri (target portal spec routed r) (inbound portal spec routed)) =
      some ⟨47 :: utf8 rest, v.query.map utf8⟩

/-- **An escape in the path never reaches the container.** -/
theorem asksFor_iff (hlawful : uris.Lawful) (hauthority : uris.isAuthority r.upstream = true)
    (hrest : ∀ b ∈ utf8 rest, uris.isPathByte b = true)
    (hquery : ∀ q ∈ v.query, ∀ b ∈ utf8 q, uris.isQueryByte b = true) :
    AsksFor uris portal spec r v rest ↔
      ¬ Percent.HasEscape (utf8 rest) ∧
        (httpText r.upstream rest v.query).length ≤ uris.maxLen := by
  constructor
  · rintro ⟨routed, hrouted, hparse⟩
    obtain ⟨decoded, hdecoded, rfl⟩ := Option.map_eq_some_iff.mp hrouted
    have htext : upstreamUri (target portal spec { v with upstreamPath := '/' :: decoded } r)
        (inbound portal spec { v with upstreamPath := '/' :: decoded }) =
          httpText r.upstream decoded v.query := rfl
    rw [htext] at hparse
    have hlen := hlawful.bounded _ _ hparse
    rw [httpText_eq] at hparse
    have hsplit := hlawful.splits _ _ _ hauthority hparse
    have hpath : utf8 rest = (utf8 decoded ++ querySuffix v.query).takeWhile fun b => !isPathEnd b :=
      (List.cons.inj (congrArg ParsedUri.path hsplit)).2
    have hle := length_takeWhile_target_le (utf8 decoded) v.query
    rw [← hpath, length_of_fromUtf8 hdecoded] at hle
    have hplain : ¬ Percent.HasEscape (utf8 rest) := fun hesc => by
      have hlt := Percent.length_decode_lt hesc
      omega
    have hsame : extractRest rest = some decoded := hdecoded
    obtain rfl := Option.some.inj ((extractRest_of_not_hasEscape hplain).symm.trans hsame)
    exact ⟨hplain, hlen⟩
  · rintro ⟨hplain, hlen⟩
    have hrouted : v.routed rest = some { v with upstreamPath := '/' :: rest } := by
      rw [Visit.routed, extractRest_of_not_hasEscape hplain]
      rfl
    refine ⟨{ v with upstreamPath := '/' :: rest }, hrouted, ?_⟩
    have haccepted := hlawful.accepts r.upstream rest v.query hauthority hrest hquery hlen
    obtain ⟨u, hu⟩ := Option.isSome_iff_exists.mp haccepted
    obtain ⟨hpath, hq⟩ := split_target (fun b hb => hlawful.pathByte b (hrest b hb))
      fun q hq b hb => hlawful.queryByte b (hquery q hq b hb)
    have hsplit := hu
    rw [httpText_eq] at hsplit
    have hparts := hlawful.splits _ _ _ hauthority hsplit
    rw [hpath, hq] at hparts
    exact hparts ▸ hu

end Routes

/-! ### Escapes of a slash and of a blank -/

section Example

attribute [local instance] wholeFloats

def isUriPathByte (b : UInt8) : Bool :=
  b = 33 || b = 34 || (36 ≤ b && b ≤ 59) || b = 61 || (64 ≤ b && b ≤ 95) || 97 ≤ b

def isUriQueryByte (b : UInt8) : Bool := b = 33 || (36 ≤ b && b ≤ 59) || b = 61 || 63 ≤ b

/-- Letters, digits, dots, dashes and the colon in front of a port. -/
def isHostByte (b : UInt8) : Bool :=
  (97 ≤ b && b ≤ 122) || (48 ≤ b && b ≤ 58) || b = 45 || b = 46

def maxUriLen : Nat := 65534

/-- The part of `http::Uri` that reads the addresses of containers. -/
def parseHttpUri (text : Bytes) : Option ParsedUri :=
  let authority := (text.drop 7).takeWhile fun b => b ≠ 47
  let target := (text.drop 7).dropWhile fun b => b ≠ 47
  let path := (target.drop 1).takeWhile fun b => !isPathEnd b
  let query := queryOf (target.drop 1)
  if text.length ≤ maxUriLen ∧ text.take 7 = bytes "http://" ∧ authority.all isHostByte ∧
    target.head? = some 47 ∧ path.all isUriPathByte ∧ query.all (·.all isUriQueryByte) then
    some ⟨47 :: path, query⟩
  else none

def httpUris : UriParser where
  parse := parseHttpUri
  isAuthority authority := authority.all isHostByte
  isPathByte := isUriPathByte
  isQueryByte := isUriQueryByte
  maxLen := maxUriLen

theorem parseHttpUri_target {authority : Bytes} (h : authority.all isHostByte = true)
    (rest : Bytes) :
    parseHttpUri (bytes "http://" ++ authority ++ 47 :: rest) =
      if (bytes "http://" ++ authority ++ 47 :: rest).length ≤ maxUriLen ∧
          (rest.takeWhile fun b => !isPathEnd b).all isUriPathByte ∧
          (queryOf rest).all (·.all isUriQueryByte) then
        some ⟨47 :: rest.takeWhile (fun b => !isPathEnd b), queryOf rest⟩
      else none := by
  have hhost : ∀ b ∈ authority, decide (b ≠ 47) = true := by
    intro b hb
    refine decide_eq_true fun heq => ?_
    have hbyte := List.all_eq_true.mp h b hb
    rw [heq] at hbyte
    exact absurd hbyte (by decide)
  have hlen : (bytes "http://").length = 7 := rfl
  have hdrop : (bytes "http://" ++ authority ++ 47 :: rest).drop 7 = authority ++ 47 :: rest := by
    rw [List.append_assoc]
    exact List.drop_left' hlen
  have htake : (bytes "http://" ++ authority ++ 47 :: rest).take 7 = bytes "http://" := by
    rw [List.append_assoc]
    exact List.take_left' hlen
  have hauthority : (authority ++ 47 :: rest).takeWhile (fun b => decide (b ≠ 47)) = authority := by
    rw [List.takeWhile_append_of_pos hhost, List.takeWhile_cons_of_neg (by decide), List.append_nil]
  have htarget : (authority ++ 47 :: rest).dropWhile (fun b => decide (b ≠ 47)) = 47 :: rest := by
    rw [List.dropWhile_append_of_pos hhost, List.dropWhile_cons_of_neg (by decide)]
  unfold parseHttpUri
  rw [hdrop, htake, hauthority, htarget]
  simp only [List.drop_succ_cons, List.drop_zero, List.head?_cons, h, true_and]

theorem not_isPathEnd_of_isUriPathByte {b : UInt8} (h : isUriPathByte b = true) :
    isPathEnd b = false := by
  refine Bool.eq_false_iff.mpr fun hend => ?_
  simp only [isPathEnd, Bool.or_eq_true, decide_eq_true_eq] at hend
  rcases hend with rfl | rfl
  · exact absurd h (by decide)
  · exact absurd h (by decide)

theorem ne_of_isUriQueryByte {b : UInt8} (h : isUriQueryByte b = true) : b ≠ 35 := by
  rintro rfl
  exact absurd h (by decide)

theorem httpUris_lawful : httpUris.Lawful where
  pathByte _ := not_isPathEnd_of_isUriPathByte
  queryByte _ := ne_of_isUriQueryByte
  accepts authority rest query hauthority hrest hquery hlen := by
    obtain ⟨hpath, hq⟩ := split_target (fun b hb => not_isPathEnd_of_isUriPathByte (hrest b hb))
      fun q hq b hb => ne_of_isUriQueryByte (hquery q hq b hb)
    rw [httpText_eq] at hlen ⊢
    have hcond : (utf8 rest).all isUriPathByte ∧ (query.map utf8).all (·.all isUriQueryByte) := by
      refine ⟨List.all_eq_true.mpr hrest, ?_⟩
      cases query with
      | none => rfl
      | some q => exact List.all_eq_true.mpr (hquery q rfl)
    have htarget := parseHttpUri_target hauthority (utf8 rest ++ querySuffix query)
    rw [hpath, hq, if_pos ⟨hlen, hcond⟩] at htarget
    exact Option.isSome_iff_exists.mpr ⟨_, htarget⟩
  splits authority rest u hauthority hparse := by
    have htarget := parseHttpUri_target hauthority rest
    have hsome : parseHttpUri (bytes "http://" ++ authority ++ 47 :: rest) = some u := hparse
    rw [htarget] at hsome
    split at hsome
    · exact (Option.some.inj hsome).symm
    · cases hsome
  bounded text u hparse := by
    have hsome : parseHttpUri text = some u := hparse
    unfold parseHttpUri at hsome
    dsimp only at hsome
    split at hsome
    · next hcond => exact hcond.1
    · cases hsome

def chartVisit : Visit := { anonymousVisit with query := some "width=3".toList }

theorem plain_path_is_asked_for :
    AsksFor httpUris quietPortal staffWiki anyReplica chartVisit "plots/1.png".toList := by
  have hpath : (utf8 "plots/1.png".toList).all isUriPathByte = true := by decide
  have hquery : (utf8 "width=3".toList).all isUriQueryByte = true := by decide
  refine (asksFor_iff httpUris_lawful ?_ (List.all_eq_true.mp hpath) ?_).mpr ⟨?_, ?_⟩
  · decide
  · intro q hq
    cases hq
    exact List.all_eq_true.mp hquery
  · rw [← Percent.decode_eq_self_iff]
    decide
  · decide

/-- A slash in a name divides it, and a blank is refused. -/
theorem escapes_are_lost :
    ¬ AsksFor httpUris quietPortal staffWiki anyReplica chartVisit "a%2Fb".toList ∧
      ¬ AsksFor httpUris quietPortal staffWiki anyReplica chartVisit "a%20b".toList := by
  have hrouted : ∀ rest decoded : Str, Percent.decode (utf8 rest) = utf8 decoded →
      chartVisit.routed rest = some { chartVisit with upstreamPath := '/' :: decoded } := by
    intro rest decoded hdecode
    have hextract : extractRest rest = some decoded := by
      rw [extractRest, hdecode]
      exact Str.fromUtf8_asBytes decoded
    rw [Visit.routed, hextract]
    rfl
  constructor
  · rintro ⟨routed, hroute, hparse⟩
    rw [hrouted "a%2Fb".toList "a/b".toList (by decide)] at hroute
    cases hroute
    exact absurd hparse (by decide)
  · rintro ⟨routed, hroute, hparse⟩
    rw [hrouted "a%20b".toList "a b".toList (by decide)] at hroute
    cases hroute
    exact absurd hparse (by decide)

end Example

end Ruscker.Proxy
