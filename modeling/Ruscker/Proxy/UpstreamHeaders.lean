import Ruscker.Proxy.Guard

/-!
# Headers a container gets

`do_forward` takes some of a visitor's headers away and writes others.  Each stage leaves the
lines alone whose names it does not write, so what a container gets under a set of names is
decided by the stages that do.  The names of an identity are written last, from the session.
-/

namespace Ruscker.Proxy

/-! ## Lines under a set of names -/

namespace HeaderMap

/-- The lines under the names that meet `p`. -/
def under (h : HeaderMap) (p : Bytes → Bool) : HeaderMap := h.filter fun line => p line.1

variable {h : HeaderMap} {p : Bytes → Bool} {name : Bytes} {v : HeaderValue}

theorem getAll_eq_under (h : HeaderMap) (name : Bytes) :
    h.getAll name = (h.under fun n => n = name).map Prod.snd := rfl

theorem under_remove (h : HeaderMap) (p : Bytes → Bool) (name : Bytes) :
    (h.remove name).under p = (h.under p).remove name := by
  unfold under remove
  rw [List.filter_filter, List.filter_filter]
  exact List.filter_congr fun line _ => Bool.and_comm _ _

theorem remove_of_not_mem (hname : ∀ line ∈ h, line.1 ≠ name) : h.remove name = h :=
  List.filter_eq_self.mpr fun line hline => decide_eq_true (hname line hline)

theorem under_remove_of_not (hp : p name = false) : (h.remove name).under p = h.under p := by
  rw [under_remove]
  refine remove_of_not_mem fun line hline heq => ?_
  have hmeets := (List.mem_filter.mp hline).2
  rw [heq, hp] at hmeets
  cases hmeets

theorem under_removeAll (h : HeaderMap) (p : Bytes → Bool) (names : List Bytes) :
    (h.removeAll names).under p = (h.under p).removeAll names := by
  induction names generalizing h with
  | nil => rfl
  | cons name names ih =>
    exact (ih (h.remove name)).trans (congrArg (removeAll · names) (under_remove h p name))

theorem under_removeAll_of_not {names : List Bytes} (hp : ∀ name ∈ names, p name = false) :
    (h.removeAll names).under p = h.under p := by
  induction names generalizing h with
  | nil => rfl
  | cons name names ih =>
    refine (ih fun n hn => hp n (List.mem_cons_of_mem name hn)).trans ?_
    exact under_remove_of_not (hp name List.mem_cons_self)

theorem under_append (h : HeaderMap) (p : Bytes → Bool) (name : Bytes) (v : HeaderValue) :
    (h.append name v).under p = h.under p ++ if p name then [(name, v)] else [] := by
  rw [append, under, List.filter_append]
  cases hp : p name with
  | true => simp [under, hp]
  | false => simp [under, hp]

theorem under_orInsert_of_not (hp : p name = false) :
    (h.orInsert name v).under p = h.under p := by
  unfold orInsert
  split
  · rw [under_append, hp]
    exact List.append_nil _
  · rfl

theorem under_insert_of_not (hp : p name = false) : (h.insert name v).under p = h.under p := by
  induction h with
  | nil => simp [insert, under, hp]
  | cons line h ih =>
    unfold insert
    split
    · next heq =>
      have hrest : under (remove h name) p = under h p := under_remove_of_not hp
      subst heq
      simpa [under, hp] using hrest
    · rw [under, List.filter_cons, under, List.filter_cons]
      exact congrArg (fun l => if p line.1 then line :: l else l) ih

theorem insert_of_not_mem (hname : ∀ line ∈ h, line.1 ≠ name) :
    h.insert name v = h ++ [(name, v)] := by
  induction h with
  | nil => rfl
  | cons line h ih =>
    rw [insert, if_neg (hname line List.mem_cons_self),
      ih fun l hl => hname l (List.mem_cons_of_mem line hl)]
    rfl

theorem under_insert (hp : p name = true) (hname : ∀ line ∈ h.under p, line.1 ≠ name) :
    (h.insert name v).under p = h.under p ++ [(name, v)] := by
  have hnot : ∀ line ∈ h, line.1 ≠ name := fun line hline heq =>
    hname line (List.mem_filter.mpr ⟨hline, heq ▸ hp⟩) heq
  rw [insert_of_not_mem hnot]
  exact (under_append h p name v).trans (by rw [hp, if_pos rfl])

theorem getAll_removeAll (h : HeaderMap) (names : List Bytes) (name : Bytes) :
    (h.removeAll names).getAll name = if name ∈ names then [] else h.getAll name := by
  induction names generalizing h with
  | nil => simp [removeAll]
  | cons other names ih =>
    refine (ih (h.remove other)).trans ?_
    rw [getAll_remove]
    by_cases hname : name ∈ names
    · rw [if_pos hname, if_pos (List.mem_cons_of_mem other hname)]
    · rw [if_neg hname]
      by_cases heq : name = other
      · rw [if_pos heq, if_pos (heq ▸ List.mem_cons_self)]
      · rw [if_neg heq, if_neg fun hmem => (List.mem_cons.mp hmem).elim heq hname]

end HeaderMap

open HeaderMap

/-! ## The stages of `do_forward` -/

section Stages

variable {h : HeaderMap} {p : Bytes → Bool}

/-- But for the names of the hop, only those go that the visitor's `Connection` lists. -/
theorem under_stripHopHeaders (hhop : ∀ name ∈ hopByHop, p name = false)
    (hvia : p (bytes "via") = false) (hproto : p (bytes "x-forwarded-proto") = false)
    (hport : p (bytes "x-forwarded-port") = false) :
    (stripHopHeaders h).under p = (h.under p).removeAll (connectionNames h) := by
  have hsplit : h.removeAll (hopByHop ++ connectionNames h) =
      (h.removeAll hopByHop).removeAll (connectionNames h) := List.foldl_append
  unfold stripHopHeaders
  rw [under_remove_of_not hport, under_remove_of_not hproto, under_orInsert_of_not hvia, hsplit,
    under_removeAll, under_removeAll_of_not hhop]

theorem under_stripReservedIdentityHeaders
    (hp : ∀ name, isReservedIdentity name = true → p name = false) :
    (stripReservedIdentityHeaders h).under p = h.under p := by
  unfold stripReservedIdentityHeaders under
  rw [List.filter_filter]
  refine List.filter_congr fun line _ => ?_
  cases hline : p line.1 with
  | false => rfl
  | true =>
    cases hreserved : isReservedIdentity line.1 with
    | false => rfl
    | true =>
      rw [hp line.1 hreserved] at hline
      cases hline

theorem under_stripReservedIdentityHeaders_self :
    (stripReservedIdentityHeaders h).under isReservedIdentity = [] := by
  unfold stripReservedIdentityHeaders under
  rw [List.filter_filter, List.filter_eq_nil_iff]
  intro line _
  simp

theorem under_stripRusckerCookies (hp : p cookieHeader = false) :
    (stripRusckerCookies h).under p = h.under p := by
  unfold stripRusckerCookies
  split
  · rfl
  · split
    · exact under_remove_of_not hp
    · split
      · rfl
      · exact under_insert_of_not hp

theorem under_applySmartRoutingHeaders {forwardedPrefix : Bytes} {isHttps : Bool}
    {fwdHost : Option HeaderValue} (hbase : p (bytes "x-forwarded-prefix") = false)
    (hscript : p (bytes "x-script-name") = false)
    (hrstudio : p (bytes "x-rstudio-root-path") = false)
    (hproto : p (bytes "x-forwarded-proto") = false)
    (hhost : p (bytes "x-forwarded-host") = false) :
    (applySmartRoutingHeaders h forwardedPrefix isHttps fwdHost).under p = h.under p := by
  unfold applySmartRoutingHeaders
  dsimp only
  have hrouted : ∀ h : HeaderMap, ((HeaderValue.fromBytes forwardedPrefix).elim h fun v =>
      ((h.insert (bytes "x-forwarded-prefix") v).insert (bytes "x-script-name") v).insert
        (bytes "x-rstudio-root-path") v).under p = h.under p := by
    intro h
    cases HeaderValue.fromBytes forwardedPrefix with
    | none => rfl
    | some v =>
      rw [Option.elim_some, under_insert_of_not hrstudio, under_insert_of_not hscript,
        under_insert_of_not hbase]
  cases fwdHost with
  | none => rw [Option.elim_none, under_insert_of_not hproto, hrouted]
  | some host =>
    rw [Option.elim_some, under_insert_of_not hhost, under_insert_of_not hproto, hrouted]

/-! ### Identity headers -/

/-- A header as it is sent, if it can be. -/
def encodeHeader (pair : Bytes × Bytes) : Option (Bytes × HeaderValue) :=
  (headerName pair.1).bind fun name => (HeaderValue.fromBytes pair.2).map (name, ·)

theorem insertIdentity_eq (h : HeaderMap) (pair : Bytes × Bytes) :
    insertIdentity h pair = (encodeHeader pair).elim h fun line => h.insert line.1 line.2 := by
  unfold insertIdentity encodeHeader
  cases headerName pair.1 with
  | none => rfl
  | some name => cases HeaderValue.fromBytes pair.2 <;> rfl

theorem under_foldl_insertIdentity {pairs : List (Bytes × Bytes)}
    (hp : ∀ line ∈ pairs.filterMap encodeHeader, p line.1 = false) :
    (pairs.foldl insertIdentity h).under p = h.under p := by
  induction pairs generalizing h with
  | nil => rfl
  | cons pair pairs ih =>
    rw [List.foldl_cons, insertIdentity_eq]
    cases hpair : encodeHeader pair with
    | none =>
      rw [List.filterMap_cons_none hpair] at hp
      exact ih hp
    | some line =>
      rw [List.filterMap_cons_some hpair] at hp
      refine (ih fun l hl => hp l (List.mem_cons_of_mem line hl)).trans ?_
      exact under_insert_of_not (hp line List.mem_cons_self)

/-- Headers of distinct names are all inserted, in their order. -/
theorem under_foldl_insertIdentity_own {pairs : List (Bytes × Bytes)}
    (hp : ∀ line ∈ pairs.filterMap encodeHeader, p line.1 = true)
    (hnodup : ((h.under p ++ pairs.filterMap encodeHeader).map Prod.fst).Nodup) :
    (pairs.foldl insertIdentity h).under p = h.under p ++ pairs.filterMap encodeHeader := by
  induction pairs generalizing h with
  | nil => exact (List.append_nil _).symm
  | cons pair pairs ih =>
    rw [List.foldl_cons, insertIdentity_eq]
    cases hpair : encodeHeader pair with
    | none =>
      rw [List.filterMap_cons_none hpair] at hp hnodup ⊢
      exact ih hp hnodup
    | some line =>
      rw [List.filterMap_cons_some hpair] at hp hnodup ⊢
      have hnew : ∀ l ∈ h.under p, l.1 ≠ line.1 := by
        intro l hl heq
        rw [List.map_append, List.nodup_append] at hnodup
        exact hnodup.2.2 l.1 (List.mem_map_of_mem hl) line.1
          (List.mem_map_of_mem List.mem_cons_self) heq
      have hinsert := under_insert (v := line.2) (hp line List.mem_cons_self) hnew
      have hsplit : h.under p ++ line :: pairs.filterMap encodeHeader =
          (h.insert line.1 line.2).under p ++ pairs.filterMap encodeHeader := by
        rw [hinsert, List.append_assoc]
        rfl
      rw [hsplit] at hnodup ⊢
      exact ih (fun l hl => hp l (List.mem_cons_of_mem line hl)) hnodup

end Stages

end Ruscker.Proxy
