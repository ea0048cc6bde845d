import Ruscker.Proxy.ForwardedFor
import Ruscker.Proxy.UpstreamHeaders

/-!
# The headers of one hop

`strip_hop_headers` takes away the headers that are meant for one connection, with those that its
`Connection` lines name.  It reads the first of these lines only, and that only where it is visible
ASCII, so that what another line names goes on to the container.
-/

namespace Ruscker.Proxy

open Tokens HeaderMap

/-! ## What a hop takes away -/

/-- The header names a `Connection` line lists. -/
def lineNames (v : HeaderValue) : List Bytes :=
  (v.raw.splitOnP isComma).map fun t => (trim isSpace t).map toLowerByte

/-- The names all `Connection` lines list. -/
def hopNames (h : HeaderMap) : List Bytes := (h.getAll (bytes "connection")).flatMap lineNames

/-- The names under which a container reads what the proxy says itself. -/
def forwardedNames : List Bytes := [bytes "x-forwarded-proto", bytes "x-forwarded-port"]

/-- The values under a name, with the `via` of the proxy where there is none. -/
def defaulted (name : Bytes) (values : List HeaderValue) : List HeaderValue :=
  if name = bytes "via" ∧ values = [] then [viaRuscker] else values

/-- Nothing is left under a name of the hop, but for the `via` of the proxy, and the values under
the other names stay. -/
structure HopStripped (h h' : HeaderMap) : Prop where
  named : ∀ name ∈ hopNames h, h'.getAll name = defaulted name []
  fixed : ∀ name ∈ hopByHop, h'.getAll name = []
  others : ∀ name, name ∉ hopNames h → name ∉ hopByHop → name ∉ forwardedNames →
    h'.getAll name = defaulted name (h.getAll name)

/-- What the lines name is not there, or goes by its own name, or the first line names it. -/
def Honoured (h : HeaderMap) : Prop :=
  ∀ name ∈ hopNames h, defaulted name (h.getAll name) = defaulted name [] ∨
    name ∈ hopByHop ∨ name ∈ forwardedNames ∨ ListedByConnection h name

/-! ## The values of each name -/

section Names

variable {h : HeaderMap} {name : Bytes}

theorem getAll_orInsert (h : HeaderMap) (name other : Bytes) (v : HeaderValue) :
    (h.orInsert name v).getAll other =
      if other = name ∧ h.getAll name = [] then [v] else h.getAll other := by
  unfold orInsert
  split
  · next hnone =>
    rw [List.isEmpty_iff] at hnone
    rw [append, getAll, List.filter_append, List.map_append]
    by_cases heq : other = name
    · subst heq
      rw [if_pos ⟨rfl, hnone⟩, show (h.filter _).map Prod.snd = [] from hnone]
      simp
    · rw [if_neg fun hboth => heq hboth.1]
      simp [getAll, Ne.symm heq]
  · next hsome =>
    rw [List.isEmpty_iff] at hsome
    rw [if_neg fun hboth => hsome hboth.2]

theorem hopNames_of_connectionNames (hname : name ∈ connectionNames h) : name ∈ hopNames h := by
  obtain ⟨line, hline, -, hlists⟩ := mem_connectionNames.mp hname
  exact List.mem_flatMap.mpr ⟨line, List.mem_of_head? hline, List.mem_map.mpr hlists⟩

theorem getAll_orInsert_via (h : HeaderMap) (name : Bytes) :
    (h.orInsert (bytes "via") viaRuscker).getAll name = defaulted name (h.getAll name) := by
  rw [getAll_orInsert, defaulted]
  by_cases hvia : name = bytes "via"
  · subst hvia
    rfl
  · rw [if_neg fun hboth => hvia hboth.1, if_neg fun hboth => hvia hboth.1]

/-- What `strip_hop_headers` leaves under a name. -/
theorem getAll_stripHopHeaders (h : HeaderMap) (name : Bytes) :
    (stripHopHeaders h).getAll name =
      if name ∈ forwardedNames then []
      else defaulted name
        (if name ∈ hopByHop ++ connectionNames h then [] else h.getAll name) := by
  have hmem : name ∈ forwardedNames ↔
      name = bytes "x-forwarded-proto" ∨ name = bytes "x-forwarded-port" := by
    simp [forwardedNames]
  rw [stripHopHeaders, getAll_remove, getAll_remove, getAll_orInsert_via, getAll_removeAll]
  by_cases hport : name = bytes "x-forwarded-port"
  · rw [if_pos hport, if_pos (hmem.mpr (.inr hport))]
  by_cases hproto : name = bytes "x-forwarded-proto"
  · rw [if_neg hport, if_pos hproto, if_pos (hmem.mpr (.inl hproto))]
  rw [if_neg hport, if_neg hproto, if_neg fun hforwarded => (hmem.mp hforwarded).elim hproto hport]

theorem defaulted_of_ne {values : List HeaderValue} (h : name ≠ bytes "via") :
    defaulted name values = values :=
  if_neg fun hboth => h hboth.1

theorem ne_via_of_hopByHop (hname : name ∈ hopByHop) : name ≠ bytes "via" := by
  rintro rfl
  revert hname
  decide +kernel

theorem ne_via_of_forwardedNames (hname : name ∈ forwardedNames) : name ≠ bytes "via" := by
  rintro rfl
  revert hname
  decide

/-- A name is cleared when it goes by itself, when the first line names it, or with nothing
there. -/
theorem getAll_eq_defaulted_nil : (stripHopHeaders h).getAll name = defaulted name [] ↔
    defaulted name (h.getAll name) = defaulted name [] ∨
      name ∈ hopByHop ∨ name ∈ forwardedNames ∨ ListedByConnection h name := by
  rw [getAll_stripHopHeaders, ← mem_connectionNames]
  by_cases hforwarded : name ∈ forwardedNames
  · rw [if_pos hforwarded, defaulted_of_ne (ne_via_of_forwardedNames hforwarded)]
    simp [hforwarded]
  · rw [if_neg hforwarded]
    by_cases hmem : name ∈ hopByHop ++ connectionNames h
    · rw [if_pos hmem]
      rcases List.mem_append.mp hmem with hhop | hlisted
      · simp [hhop]
      · simp [hlisted]
    · rw [if_neg hmem]
      rw [List.mem_append, not_or] at hmem
      simp [hmem.1, hmem.2, hforwarded]

/-- **Headers of the hop.** Exactly these go, just when the first `Connection` line honours what all
of them name. -/
theorem hopStripped_iff : HopStripped h (stripHopHeaders h) ↔ Honoured h := by
  constructor
  · intro hstripped name hname
    exact getAll_eq_defaulted_nil.mp (hstripped.named name hname)
  · intro hhonoured
    constructor
    · intro name hname
      exact getAll_eq_defaulted_nil.mpr (hhonoured name hname)
    · intro name hname
      rw [getAll_eq_defaulted_nil.mpr (.inr (.inl hname)),
        defaulted_of_ne (ne_via_of_hopByHop hname)]
    · intro name hnamed hhop hforwarded
      rw [getAll_stripHopHeaders, if_neg hforwarded, if_neg]
      intro hmem
      rcases List.mem_append.mp hmem with hmem | hmem
      · exact hhop hmem
      · exact hnamed (hopNames_of_connectionNames hmem)

end Names

section Example

/-- Two `Connection` lines, and a header that the second one names. -/
def twoConnectionLines : HeaderMap :=
  [(bytes "connection", ⟨bytes "close", by decide⟩),
    (bytes "connection", ⟨bytes "x-custom", by decide⟩),
    (bytes "x-custom", ⟨bytes "1", by decide⟩)]

theorem second_line_is_ignored : bytes "x-custom" ∈ hopNames twoConnectionLines ∧
    (stripHopHeaders twoConnectionLines).getAll (bytes "x-custom") = [⟨bytes "1", by decide +kernel⟩] ∧
    ¬ HopStripped twoConnectionLines (stripHopHeaders twoConnectionLines) := by
  have hnamed : bytes "x-custom" ∈ hopNames twoConnectionLines := by decide +kernel
  have hstays : (stripHopHeaders twoConnectionLines).getAll (bytes "x-custom") =
      [⟨bytes "1", by decide +kernel⟩] := by decide +kernel
  refine ⟨hnamed, hstays, fun hstripped => ?_⟩
  have hgone := hstripped.named (bytes "x-custom") hnamed
  rw [hstays] at hgone
  revert hgone
  decide +kernel

end Example

end Ruscker.Proxy
