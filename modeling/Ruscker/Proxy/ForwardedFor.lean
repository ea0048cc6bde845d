import Ruscker.Lib.IpAddr
import Ruscker.Lib.Utf8
import Ruscker.Proxy.IdentityHeaders

/-!
# Whom a request is from

`forward` puts the address of the TCP peer last in `X-Forwarded-For`, and with forwarded headers
trusted, `client_key` reads such an address back.  The header is written before those go that
the visitor's own `Connection` line lists, and it is read from its first line, while a proxy may
write on a later one.
-/

namespace Ruscker.Proxy

open HeaderMap IpAddrs Tokens

/-! ## Header texts -/

section Texts

theorem toNat_ofNat_byte (b : UInt8) : (Char.ofNat b.toNat).toNat = b.toNat := by
  have hlt : b.toNat < 256 := b.toNat_lt
  have hvalid : b.toNat.isValidChar := .inl (by omega)
  rw [Char.ofNat, dif_pos hvalid]
  rfl

theorem toNat_lt_of_isVisibleAscii {b : UInt8} (h : isVisibleAscii b = true) : b.toNat < 128 := by
  simp only [isVisibleAscii, Bool.or_eq_true, Bool.and_eq_true, decide_eq_true_eq,
    UInt8.lt_iff_toNat_lt] at h
  rcases h with ⟨-, hlt⟩ | rfl
  · exact Nat.lt_trans hlt (by decide)
  · decide

theorem byte_ofNat (b : UInt8) : Utf8.byte (Char.ofNat b.toNat) = b := by
  rw [Utf8.byte, toNat_ofNat_byte]
  exact UInt8.ofNat_toNat

/-- A text that was read from a header is written back as it was. -/
theorem headerText_eq_some {v : HeaderValue} {s : Str} (h : headerText v = some s) :
    v.isVisible = true ∧ utf8 s = v.raw := by
  unfold headerText HeaderValue.toStr at h
  split at h
  · next hvisible =>
    obtain rfl := Option.some.inj h
    refine ⟨hvisible, ?_⟩
    have hascii : ∀ c ∈ v.raw.map fun b => Char.ofNat b.toNat, c.toNat < 128 := by
      intro c hc
      obtain ⟨b, hb, rfl⟩ := List.mem_map.mp hc
      rw [toNat_ofNat_byte]
      exact toNat_lt_of_isVisibleAscii (List.all_eq_true.mp hvisible b hb)
    refine (Utf8.encode_ascii hascii).trans ?_
    rw [List.map_map]
    exact List.map_id'' byte_ofNat v.raw
  · cases h

theorem headerText_of_visible {v : HeaderValue} (h : v.isVisible = true) :
    headerText v = some (v.raw.map fun b => Char.ofNat b.toNat) := by
  rw [headerText, HeaderValue.toStr, if_pos h]
  rfl

variable {ip : IpAddr}

/-- The bytes of an address: visible, no blank and no comma. -/
theorem mem_utf8_text {b : UInt8} (hb : b ∈ utf8 ip.text) : 46 ≤ b.toNat ∧ b.toNat ≤ 102 := by
  have hascii : ∀ c ∈ ip.text, c.toNat < 128 := fun c hc => by
    have hrange := range_of_isReadChar (isReadChar_of_mem_text hc)
    omega
  have heq : utf8 ip.text = ip.text.map Utf8.byte := Utf8.encode_ascii hascii
  rw [heq] at hb
  obtain ⟨c, hc, rfl⟩ := List.mem_map.mp hb
  rw [Utf8.toNat_byte (hascii c hc)]
  exact range_of_isReadChar (isReadChar_of_mem_text hc)

theorem visible_utf8_text : (utf8 ip.text).all isVisibleAscii = true := by
  refine List.all_eq_true.mpr fun b hb => ?_
  have hrange := mem_utf8_text hb
  simp only [isVisibleAscii, Bool.or_eq_true, Bool.and_eq_true, decide_eq_true_eq,
    UInt8.le_iff_toNat_le, UInt8.lt_iff_toNat_lt]
  exact .inl ⟨Nat.le_trans (by decide) hrange.1, Nat.lt_of_le_of_lt hrange.2 (by decide)⟩

theorem not_isComma_of_mem_utf8_text {b : UInt8} (hb : b ∈ utf8 ip.text) : isComma b = false := by
  have hrange := mem_utf8_text hb
  refine decide_eq_false fun heq => ?_
  rw [heq] at hrange
  exact absurd hrange.1 (by decide)

theorem trim_utf8_text : trim isSpace (utf8 ip.text) = utf8 ip.text := by
  refine trim_eq_self fun b hb => ?_
  have hrange := mem_utf8_text hb
  simp only [isSpace, Bool.or_eq_false_iff, Bool.and_eq_false_iff, decide_eq_false_iff_not,
    UInt8.le_iff_toNat_le]
  refine ⟨.inr fun hle => ?_, fun heq => ?_⟩
  · exact absurd (Nat.le_trans hrange.1 hle) (by decide)
  · rw [heq] at hrange
    exact absurd hrange.1 (by decide)

end Texts

/-! ## The address that is sent -/

/-- The last of the entries between commas. -/
def lastEntry (raw : Bytes) : Bytes := trim isSpace (raw.rtakeWhile fun b => !isComma b)

theorem lastEntry_of_not_comma {raw : Bytes} (h : ∀ b ∈ raw, isComma b = false) :
    lastEntry raw = trim isSpace raw := by
  have hall : raw.rtakeWhile (fun b => !isComma b) = raw :=
    List.rtakeWhile_eq_self_iff.mpr fun b hb => by rw [h b hb]; rfl
  rw [lastEntry, hall]

theorem lastEntry_append_comma {entry : Bytes} (h : ∀ b ∈ entry, isComma b = false)
    (chain : Bytes) {comma : UInt8} (hcomma : isComma comma = true) :
    lastEntry (chain ++ comma :: entry) = trim isSpace entry := by
  have hpos : ∀ b ∈ entry.reverse, (!isComma b) = true := fun b hb => by
    rw [h b (List.mem_reverse.mp hb)]
    rfl
  have htake : (chain ++ comma :: entry).rtakeWhile (fun b => !isComma b) = entry := by
    rw [List.rtakeWhile, List.reverse_append, List.reverse_cons, List.append_assoc,
      List.takeWhile_append_of_pos hpos, List.singleton_append,
      List.takeWhile_cons_of_neg (by simp [hcomma]), List.append_nil, List.reverse_reverse]
  rw [lastEntry, htake]

def forwardedForName : Bytes := bytes "x-forwarded-for"

/-- The one `X-Forwarded-For` header ends in this address. -/
def EndsIn (headers : HeaderMap) (ip : IpAddr) : Prop :=
  ∃ value, headers.getAll forwardedForName = [value] ∧ lastEntry value.raw = utf8 ip.text

/-- The visitor's `Connection` line lists a name among its hop-by-hop headers. -/
def ListedByConnection (headers : HeaderMap) (name : Bytes) : Prop :=
  ∃ line ∈ headers.get (bytes "connection"), line.isVisible = true ∧
    ∃ token ∈ line.raw.splitOnP isComma, (trim isSpace token).map toLowerByte = name

theorem mem_connectionNames {headers : HeaderMap} {name : Bytes} :
    name ∈ connectionNames headers ↔ ListedByConnection headers name := by
  unfold connectionNames ListedByConnection
  cases headers.get (bytes "connection") with
  | none => simp
  | some line =>
    simp only [Option.bind_some, Option.mem_some_iff, exists_eq_left', HeaderValue.toStr]
    cases line.isVisible with
    | false => simp
    | true => simp

section Sent

variable {portal : Portal} {v : Visit} {ip : IpAddr}

theorem getAll_setHeader_of_ne {headers : HeaderMap} {name : String} {value : Str} {other : Bytes}
    (h : other ≠ bytes name) :
    (setHeader headers name value).getAll other = headers.getAll other := by
  unfold setHeader
  cases HeaderValue.fromStr (utf8 value) with
  | none => rfl
  | some v => rw [Option.elim_some, getAll_insert, if_neg h]

/-- The peer's address stands last, behind a trusted chain or alone. -/
theorem forwardedFor_eq_some (hpeer : v.peer = some ip.text) :
    ∃ s, forwardedFor portal v = some s ∧ (utf8 s).all isVisibleAscii = true ∧
      lastEntry (utf8 s) = utf8 ip.text := by
  unfold forwardedFor
  rw [hpeer]
  dsimp only
  split
  · next ip' chain hip hchain =>
    obtain rfl := Option.some.inj hip
    refine ⟨_, rfl, ?_, ?_⟩
    · obtain ⟨line, -, hline⟩ := Option.bind_eq_some_iff.mp (Option.filter_eq_some_iff.mp hchain).1
      obtain ⟨hvisible, hraw⟩ := headerText_eq_some hline
      have heq : utf8 (chain ++ ", ".toList ++ ip.text) =
          line.raw ++ bytes ", " ++ utf8 ip.text := by
        rw [← hraw, utf8, List.flatMap_append, List.flatMap_append]
        rfl
      rw [heq, List.all_append, List.all_append, visible_utf8_text]
      rw [show line.raw.all isVisibleAscii = true from hvisible]
      rfl
    · have heq : utf8 (chain ++ ", ".toList ++ ip.text) =
          utf8 chain ++ 44 :: (32 :: utf8 ip.text) := by
        rw [utf8, List.flatMap_append, List.flatMap_append, List.append_assoc]
        rfl
      rw [heq, lastEntry_append_comma ?_ _ rfl, trim_cons_of_blank rfl, trim_utf8_text]
      intro b hb
      rcases List.mem_cons.mp hb with rfl | hb
      · rfl
      · exact not_isComma_of_mem_utf8_text hb
  · next ip' hip hchain =>
    obtain rfl := Option.some.inj hip
    refine ⟨_, rfl, visible_utf8_text, ?_⟩
    rw [lastEntry_of_not_comma fun b => not_isComma_of_mem_utf8_text, trim_utf8_text]
  · next hip => cases hip

variable [Floats]

theorem forwardHeaders_of_peer (portal : Portal) (spec : Spec Settings)
    (hpeer : v.peer = some ip.text) :
    EndsIn (forwardHeaders portal spec v) ip ∧
      connectionNames (forwardHeaders portal spec v) = connectionNames v.headers := by
  obtain ⟨s, hs, hvisible, hlast⟩ := @forwardedFor_eq_some portal _ _ hpeer
  obtain ⟨value, hvalue, hraw⟩ := HeaderValue.fromStr_of_visible hvisible
  unfold forwardHeaders
  rw [hs, Option.bind_some, hvalue]
  constructor
  · refine ⟨value, ?_, hraw ▸ hlast⟩
    exact (getAll_insert _ _ _ _).trans (if_pos rfl)
  · have hne : bytes "connection" ≠ bytes "x-forwarded-for" := by decide
    unfold connectionNames HeaderMap.get
    rw [getAll_insert, if_neg hne]
    split
    · rw [getAll_setHeader_of_ne (by decide)]
    · rfl

/-- Between `forward` and the container, the address is lost to the visitor's own list only. -/
theorem getAll_outboundHeaders (portal : Portal) (spec : Spec Settings) (v : Visit) (r : Resolved) :
    (outboundHeaders (target portal spec v r) (inbound portal spec v)).getAll forwardedForName =
      if forwardedForName ∈ connectionNames (forwardHeaders portal spec v) then []
      else (forwardHeaders portal spec v).getAll forwardedForName := by
  have hidentity : ∀ line ∈ (identityBytes portal spec v).filterMap encodeHeader,
      decide (line.1 = forwardedForName) = false := by
    intro line hline
    rw [filterMap_identityBytes] at hline
    have hreserved := isReservedIdentity_of_mem_sessionLines hline
    refine decide_eq_false fun heq => ?_
    rw [heq] at hreserved
    exact absurd hreserved (by decide)
  have hreserved : ∀ name, isReservedIdentity name = true →
      decide (name = forwardedForName) = false := by
    refine fun name h => decide_eq_false fun heq => ?_
    rw [heq] at h
    exact absurd h (by decide)
  rw [← getAll_removeAll, getAll_eq_under, getAll_eq_under, under_removeAll]
  unfold outboundHeaders
  rw [under_applySmartRoutingHeaders rfl rfl rfl rfl rfl, target,
    under_foldl_insertIdentity hidentity, under_stripRusckerCookies rfl,
    under_stripReservedIdentityHeaders hreserved, under_stripHopHeaders (by decide) rfl rfl rfl]
  rfl

/-- **The peer's address reaches the container unless the visitor has it removed.** -/
theorem endsIn_outboundHeaders_iff (portal : Portal) (spec : Spec Settings) (r : Resolved)
    (hpeer : v.peer = some ip.text) :
    EndsIn (outbound (target portal spec v r) (inbound portal spec v)).headers ip ↔
      ¬ ListedByConnection v.headers forwardedForName := by
  obtain ⟨hends, hnames⟩ := forwardHeaders_of_peer portal spec hpeer
  have hsent := getAll_outboundHeaders portal spec v r
  rw [hnames] at hsent
  rw [← mem_connectionNames]
  constructor
  · rintro ⟨value, hvalue, -⟩ hlisted
    rw [if_pos hlisted] at hsent
    cases hsent.symm.trans hvalue
  · intro hlisted
    rw [if_neg hlisted] at hsent
    obtain ⟨value, hvalue, hlast⟩ := hends
    exact ⟨value, hsent.trans hvalue, hlast⟩

end Sent

/-! ## The address that is read -/

section Read

/-- Where the proxy in front writes: behind the last line's entries, or on a line of its own. -/
inductive Appending where
  | sameLine
  | furtherLine
  deriving DecidableEq

theorem HeaderValue.join_valid (a b : HeaderValue) :
    (a.raw ++ bytes ", " ++ b.raw).all isHeaderByte = true := by
  rw [List.all_append, List.all_append, a.valid, b.valid]
  rfl

def HeaderValue.join (a b : HeaderValue) : HeaderValue :=
  ⟨a.raw ++ bytes ", " ++ b.raw, join_valid a b⟩

/-- The `X-Forwarded-For` lines of a client, with the entry of the proxy in front. -/
def appendEntry (way : Appending) (entry : HeaderValue) : List HeaderValue → List HeaderValue
  | [] => [entry]
  | [last] =>
    match way with
    | .sameLine => [last.join entry]
    | .furtherLine => [last, entry]
  | line :: next :: lines => line :: appendEntry way entry (next :: lines)

/-- A request with these `X-Forwarded-For` lines. -/
def Visit.forwarded (v : Visit) (lines : List HeaderValue) : Visit :=
  { v with headers := v.headers.remove forwardedForName ++ lines.map (forwardedForName, ·) }

/-- `IpAddr` as it is read and written. -/
def readIp (s : Str) : Option Str := (parse s).map IpAddr.text

def NamesAddress (entry : HeaderValue) (ip : IpAddr) : Prop :=
  (headerText entry).bind parse = some ip

/-- The proxy's entry is on the only line, and what the client sent on that line is readable. -/
def Attributable (way : Appending) : List HeaderValue → Prop
  | [] => True
  | [line] => way = .sameLine ∧ line.isVisible = true
  | _ => False

theorem getAll_forwarded (v : Visit) (lines : List HeaderValue) :
    (v.forwarded lines).headers.getAll forwardedForName = lines := by
  have hold : (v.headers.remove forwardedForName).getAll forwardedForName = [] := by
    rw [getAll_remove, if_pos rfl]
  rw [getAll, List.map_eq_nil_iff] at hold
  have hall : ∀ line ∈ lines.map (forwardedForName, ·),
      decide (line.1 = forwardedForName) = true := by
    intro line hline
    obtain ⟨value, -, rfl⟩ := List.mem_map.mp hline
    exact decide_eq_true rfl
  rw [Visit.forwarded, getAll, List.filter_append, hold, List.nil_append,
    List.filter_eq_self.mpr hall, List.map_map]
  exact List.map_id' lines

theorem header_forwarded (v : Visit) (lines : List HeaderValue) :
    (v.forwarded lines).header "x-forwarded-for" = lines.head?.bind headerText :=
  congrArg (fun lines => lines.head?.bind headerText) (getAll_forwarded v lines)

theorem headerText_join {a b : HeaderValue} {s : Str} (ha : a.isVisible = true)
    (hb : headerText b = some s) :
    ∃ chain, headerText (a.join b) = some (chain ++ ',' :: ' ' :: s) := by
  have hvisible : (a.join b).isVisible = true := by
    refine (List.all_append).trans ?_
    rw [List.all_append, show a.raw.all isVisibleAscii = true from ha,
      show b.raw.all isVisibleAscii = true from (headerText_eq_some hb).1]
    rfl
  rw [headerText_of_visible (headerText_eq_some hb).1] at hb
  rw [headerText_of_visible hvisible, HeaderValue.join, List.map_append, List.map_append,
    Option.some.inj hb, List.append_assoc]
  exact ⟨_, rfl⟩

theorem headerText_join_of_not_visible {a b : HeaderValue} (ha : a.isVisible = false) :
    headerText (a.join b) = none := by
  have hnot : (a.join b).isVisible = false := by
    refine (List.all_append).trans ?_
    rw [List.all_append, show a.raw.all isVisibleAscii = false from ha]
    rfl
  rw [headerText, HeaderValue.toStr, hnot]
  rfl

variable {portal : Portal} {v : Visit} {entry : HeaderValue} {ip : IpAddr} {way : Appending}
  {lines : List HeaderValue}

/-- The last entry of a line is the one that is read. -/
theorem rightmostForwardedIp_eq {s chain : Str} (hparse : portal.parseIp = readIp)
    (hs : parse s = some ip) :
    rightmostForwardedIp portal s = some ip.text ∧
      rightmostForwardedIp portal (chain ++ ',' :: ' ' :: s) = some ip.text := by
  have hrange : ∀ c ∈ s, 46 ≤ c.toNat ∧ c.toNat ≤ 102 := fun c hc =>
    range_of_isReadChar (isReadChar_of_parse hs hc)
  have hcomma : ∀ c ∈ s, decide (c = ',') = false := by
    refine fun c hc => decide_eq_false fun heq => ?_
    have hc := hrange c hc
    rw [heq] at hc
    exact absurd hc.1 (by decide)
  have htrim : Str.trim s = s := by
    refine trim_eq_self fun c hc => ?_
    have hc := hrange c hc
    rw [← Bool.not_eq_true, isWhitespace]
    simp only [Bool.or_eq_true, Bool.and_eq_true, decide_eq_true_eq]
    omega
  have hne : s.isEmpty = false := by
    cases s with
    | nil => cases hs
    | cons c s => rfl
  have hpad : Str.trim (' ' :: s) = s := (trim_cons_of_blank rfl s).trans htrim
  have hread : portal.parseIp s = some ip.text := by rw [hparse, readIp, hs]; rfl
  constructor
  · rw [rightmostForwardedIp, List.splitOnP_eq_singleton hcomma]
    simp [htrim, hne, hread]
  · have hcomma' : ∀ c ∈ ' ' :: s, decide (c = ',') = false := by
      intro c hc
      rcases List.mem_cons.mp hc with rfl | hc
      · rfl
      · exact hcomma c hc
    rw [rightmostForwardedIp, List.splitOnP_append_cons _ _ (by decide),
      List.splitOnP_eq_singleton hcomma']
    simp [hpad, hne, hread]

theorem clientKey_forwarded (htrusted : portal.forwardHeadersTrusted = true) (v : Visit)
    (lines : List HeaderValue) :
    clientKey portal (v.forwarded lines) =
      (((lines.head?.bind headerText).bind (rightmostForwardedIp portal)).or v.peer).getD
        "unknown".toList := by
  rw [clientKey, htrusted, if_pos rfl, header_forwarded]
  rfl

theorem clientKey_of_attributable (htrusted : portal.forwardHeadersTrusted = true)
    (hparse : portal.parseIp = readIp) (v : Visit) (h : Attributable way lines)
    (hentry : NamesAddress entry ip) :
    clientKey portal (v.forwarded (appendEntry way entry lines)) = ip.text := by
  obtain ⟨s, htext, hs⟩ := Option.bind_eq_some_iff.mp hentry
  rw [clientKey_forwarded htrusted]
  match lines, h with
  | [], _ =>
    rw [appendEntry, List.head?_cons, Option.bind_some, htext, Option.bind_some,
      (@rightmostForwardedIp_eq _ _ _ [] hparse hs).1]
    rfl
  | [line], hline =>
    obtain ⟨rfl, hvisible⟩ := hline
    obtain ⟨chain, hjoin⟩ := headerText_join hvisible htext
    rw [appendEntry, List.head?_cons, Option.bind_some, hjoin, Option.bind_some,
      (rightmostForwardedIp_eq hparse hs).2]
    rfl

/-- Elsewhere the proxy's entry is not read at all. -/
theorem clientKey_of_not_attributable (htrusted : portal.forwardHeadersTrusted = true) (v : Visit)
    (h : ¬ Attributable way lines) (entry entry' : HeaderValue) :
    clientKey portal (v.forwarded (appendEntry way entry lines)) =
      clientKey portal (v.forwarded (appendEntry way entry' lines)) := by
  have hhead : (appendEntry way entry lines).head?.bind headerText =
      (appendEntry way entry' lines).head?.bind headerText := by
    match lines, h with
    | [], h => exact absurd trivial h
    | [line], h =>
      cases hway : way with
      | furtherLine => rfl
      | sameLine =>
        have hnot : line.isVisible = false := eq_false_of_ne_true fun hv => h ⟨hway, hv⟩
        refine (headerText_join_of_not_visible hnot).trans ?_
        exact (headerText_join_of_not_visible hnot).symm
    | line :: next :: lines, _ => rfl
  rw [clientKey_forwarded htrusted, clientKey_forwarded htrusted, hhead]

def addressOne : HeaderValue := ⟨bytes "198.51.100.7", by decide⟩

def addressTwo : HeaderValue := ⟨bytes "203.0.113.9", by decide⟩

/-- **A client decides on its own key unless the proxy's entry is on the only line.** -/
theorem clientKey_appended_iff (htrusted : portal.forwardHeadersTrusted = true)
    (hparse : portal.parseIp = readIp) (v : Visit) (way : Appending)
    (lines lines' : List HeaderValue) :
    (∀ entry ip, NamesAddress entry ip →
      clientKey portal (v.forwarded (appendEntry way entry lines)) = ip.text ∧
      clientKey portal (v.forwarded (appendEntry way entry lines')) = ip.text ∧
      clientKey portal (v.forwarded (appendEntry way entry lines)) =
        clientKey portal (v.forwarded (appendEntry way entry lines'))) ↔
      Attributable way lines ∧ Attributable way lines' := by
  have hneeds : ∀ lines, (∀ entry ip, NamesAddress entry ip →
      clientKey portal (v.forwarded (appendEntry way entry lines)) = ip.text) →
      Attributable way lines := by
    intro lines hall
    by_contra hnot
    have hone := hall addressOne (.v4 198 51 100 7) (by unfold NamesAddress; decide)
    have htwo := hall addressTwo (.v4 203 0 113 9) (by unfold NamesAddress; decide)
    have hsame := clientKey_of_not_attributable htrusted v hnot addressOne addressTwo
    rw [hone, htwo] at hsame
    exact absurd hsame (by decide)
  constructor
  · intro hall
    exact ⟨hneeds lines fun entry ip h => (hall entry ip h).1,
      hneeds lines' fun entry ip h => (hall entry ip h).2.1⟩
  · rintro ⟨hlines, hlines'⟩ entry ip hentry
    have hkey := clientKey_of_attributable htrusted hparse v hlines hentry
    have hkey' := clientKey_of_attributable htrusted hparse v hlines' hentry
    exact ⟨hkey, hkey', hkey.trans hkey'.symm⟩

end Read

/-! ### A removed and a misread address -/

section Example

attribute [local instance] wholeFloats

def peerAddress : IpAddr := .v4 192 0 2 7

def directVisit : Visit := { anonymousVisit with peer := some peerAddress.text }

theorem direct_peer_reaches_container :
    EndsIn (outbound (target quietPortal staffWiki directVisit anyReplica)
      (inbound quietPortal staffWiki directVisit)).headers peerAddress := by
  have hnames : ¬ ListedByConnection directVisit.headers forwardedForName := by
    rintro ⟨line, hline, -⟩
    cases hline
  exact (endsIn_outboundHeaders_iff quietPortal staffWiki anyReplica rfl).mpr hnames

/-- A visitor who has the header removed on the way. -/
def hidingVisit : Visit :=
  { directVisit with
    headers := [(bytes "connection", ⟨bytes "close, X-Forwarded-For", by decide⟩)] }

theorem hiding_visit_removes_peer :
    hidingVisit.peer = some peerAddress.text ∧
      ¬ EndsIn (outbound (target quietPortal staffWiki hidingVisit anyReplica)
        (inbound quietPortal staffWiki hidingVisit)).headers peerAddress := by
  refine ⟨rfl, ?_⟩
  rintro ⟨value, hvalue, -⟩
  have hnone : (outbound (target quietPortal staffWiki hidingVisit anyReplica)
      (inbound quietPortal staffWiki hidingVisit)).headers.getAll forwardedForName = [] := by
    decide
  cases hnone.symm.trans hvalue

/-- Behind a proxy that is trusted. -/
def trustingPortal : Portal :=
  { quietPortal with forwardHeadersTrusted := true, parseIp := readIp }

def spoofedLine : HeaderValue := ⟨bytes "10.9.8.7", by decide⟩

theorem same_line_is_attributed :
    clientKey trustingPortal
      (directVisit.forwarded (appendEntry .sameLine addressOne [spoofedLine])) =
      "198.51.100.7".toList := by
  have hread := (@clientKey_appended_iff trustingPortal rfl rfl directVisit .sameLine
    [spoofedLine] []).mpr ⟨⟨rfl, by decide⟩, trivial⟩
  exact (hread addressOne (.v4 198 51 100 7) (by unfold NamesAddress; decide)).1

/-- The proxy adds a line, and the client's own stays in front of it. -/
theorem further_line_is_spoofed :
    NamesAddress addressOne (.v4 198 51 100 7) ∧
      clientKey trustingPortal
        (directVisit.forwarded (appendEntry .furtherLine addressOne [spoofedLine])) =
        "10.9.8.7".toList ∧
      clientKey trustingPortal
        (directVisit.forwarded (appendEntry .furtherLine addressOne [])) =
        "198.51.100.7".toList := by
  unfold NamesAddress
  decide

end Example

end Ruscker.Proxy
