import Ruscker.Routes.Redirects

/-!
# Redirects under a base path

Under a base path the router is nested: it sees the rest of the path behind the base.
A handler answers with a path of the router, and the response layer puts the base in front;
a preference switch goes back to the page its referer names, where the base already stands.
The layer has only the text to tell the two apart.
-/

namespace Ruscker.Routes

open UrlReferences

/-! ## Pages -/

/-- A path of the router and what follows it. -/
structure Page where
  path : Str
  suffix : Str
  deriving DecidableEq

/-- The page a path of the router names, with its query and fragment. -/
def page (p : Str) : Page := ⟨pathOf p, suffixOf p⟩

/-- The router's part of a path: `nest` maps the base to the root, and a route of its own
redirects the base with a slash there. -/
def routed (base path : Str) : Option Str :=
  if path = base then some ['/']
  else if (base ++ ['/']).isPrefixOf path then some (path.drop base.length) else none

/-- The page under the base that a text on the portal's origin leads to. -/
def pageUnder (base loc : Str) : Option Page :=
  if isNetworkPath loc then none
  else (routed base (pathOf loc)).map fun path => ⟨path, suffixOf loc⟩

/-- Paths of the router have one slash in front. -/
def IsRouterPath (p : Str) : Prop := ['/'] <+: p ∧ ¬ ['/', '/'] <+: p

/-! ## Handlers -/

/-- A handler's `Redirect::to` behind the response layer. -/
def redirectTo (base p : Str) : Option Str :=
  if p.all isHeaderChar then some (prefixBasePath base p) else none

/-- A preference switch: the referer is the raw header. -/
def redirectBack (base referer : Str) : Option Str :=
  redirectTo base (sameOriginPath (toStr referer) ['/'])

theorem location_setPreference (base referer : Str) :
    location base (.setPreference (some referer)) = redirectBack base referer := rfl

/-- The referer of a page, as browsers send it. -/
def refererOf (scheme authority target : Str) : Str :=
  scheme ++ "://".toList ++ authority ++ target

/-! ## When the layer is right -/

/-- A base path that a location can name. -/
def Mountable (base : Str) : Prop := Rooted base ∧ base.all (fun c => !isPathEnd c) = true

/-- The layer reads the path, and does not take it for one that has the base. -/
def Prefixable (base p : Str) : Prop :=
  Mountable base ∧ p.all isVisibleAscii = true ∧ ¬ (p = base ∨ base ++ ['/'] <+: p)

/-- A referer that is read must not have its query or fragment right behind the base; one
that is not read leads to the landing page. -/
def ReadsBack (base referer target : Str) : Prop :=
  if referer.all isVisibleAscii then ¬ (pathOf target = base ∧ suffixOf target ≠ [])
  else pageUnder base target = some (page ['/']) ∧ Rooted base

section Mounted

variable {base p target : Str} {pg : Page}

theorem routed_self (base : Str) : routed base base = some ['/'] := if_pos rfl

theorem routed_append {rest : Str} (h : rest.head? = some '/') :
    routed base (base ++ rest) = some rest := by
  obtain ⟨r, rfl⟩ := List.head?_eq_some_iff.mp h
  have hne : base ++ '/' :: r ≠ base := by simp
  have hprefix : (base ++ ['/']).isPrefixOf (base ++ '/' :: r) = true :=
    List.isPrefixOf_iff_prefix.mpr ⟨r, by simp⟩
  rw [routed, if_neg hne, if_pos hprefix, List.drop_left]

/-- A routed path is the base, or longer by the path routed to. -/
theorem routed_eq_some {path rest : Str} (h : routed base path = some rest) :
    (path = base ∧ rest = ['/']) ∨ (path = base ++ rest ∧ rest.head? = some '/') := by
  unfold routed at h
  split at h
  · next heq => exact .inl ⟨heq, (Option.some.inj h).symm⟩
  · split at h
    · next hprefix =>
      obtain ⟨r, rfl⟩ := List.isPrefixOf_iff_prefix.mp hprefix
      cases h
      refine .inr ⟨?_, ?_⟩
      · rw [List.append_assoc, List.drop_left]
      · rw [List.append_assoc, List.drop_left]
        rfl
    · cases h

theorem pageUnder_eq_some (h : pageUnder base p = some pg) :
    isNetworkPath p = false ∧ routed base (pathOf p) = some pg.path ∧ suffixOf p = pg.suffix := by
  unfold pageUnder at h
  split at h
  · cases h
  · next hnetwork =>
    obtain ⟨path, hpath, rfl⟩ := Option.map_eq_some_iff.mp h
    exact ⟨Bool.eq_false_iff.mpr hnetwork, hpath, rfl⟩

/-- Under a base path no page has its own path for an address. -/
theorem pageUnder_ne_page (hlong : 1 < base.length) : pageUnder base p ≠ some (page p) := by
  intro h
  obtain ⟨-, hrouted, -⟩ := pageUnder_eq_some h
  rcases routed_eq_some hrouted with ⟨heq, hslash⟩ | ⟨heq, -⟩
  · have hpath : pathOf p = ['/'] := hslash
    rw [← heq, hpath] at hlong
    exact absurd hlong (by decide)
  · have hlength := congrArg List.length heq
    rw [List.length_append] at hlength
    have hpath : (page p).path = pathOf p := rfl
    rw [hpath] at hlength
    omega

/-- Behind a base path that locations can name stands the page itself. -/
theorem pageUnder_append (hmount : Mountable base) (hbase : base.head? = some '/')
    (hp : p.head? = some '/') : pageUnder base (base ++ p) = some (page p) := by
  obtain ⟨rest, rfl⟩ := List.head?_eq_some_iff.mp hp
  have hnetwork : isNetworkPath (base ++ '/' :: rest) = false := by
    rw [isNetworkPath_append hbase]
    exact hmount.1.2
  have hpath : pathOf ('/' :: rest) = '/' :: pathOf rest := rfl
  rw [pageUnder, hnetwork, pathOf_append hmount.2, suffixOf_append hmount.2, hpath,
    routed_append rfl]
  rfl

/-- And no other base path has any page behind it. -/
theorem mountable_of_pageUnder_append (hheader : base.all isHeaderChar = true)
    (hbase : base.head? = some '/') (hp : p.head? = some '/')
    (h : pageUnder base (base ++ p) = some pg) : Mountable base := by
  obtain ⟨rest, rfl⟩ := List.head?_eq_some_iff.mp hp
  obtain ⟨hnetwork, hrouted, -⟩ := pageUnder_eq_some h
  rw [isNetworkPath_append hbase] at hnetwork
  refine ⟨⟨hheader, hnetwork⟩, ?_⟩
  by_contra hends
  have hlt := length_pathOf_append_lt hends ('/' :: rest)
  rcases routed_eq_some hrouted with ⟨heq, -⟩ | ⟨heq, -⟩
  · rw [heq] at hlt
    exact absurd hlt (Nat.lt_irrefl _)
  · rw [heq, List.length_append] at hlt
    omega

/-! ## The response layer -/

theorem IsRouterPath.head? (hp : IsRouterPath p) : p.head? = some '/' := by
  obtain ⟨rest, rfl⟩ := hp.1
  rfl

theorem isRouterPath_root : IsRouterPath ['/'] := ⟨List.prefix_refl _, by decide⟩

/-- The layer changes a path of the router exactly when it reads it and the base stays a
header value. -/
theorem prefixBasePath_router (hbase : base ≠ []) (hp : IsRouterPath p) :
    prefixBasePath base p =
      if p.all isVisibleAscii = true ∧ ¬ (p = base ∨ base ++ ['/'] <+: p) ∧
        (base ++ p).all isHeaderChar = true then base ++ p else p := by
  by_cases hvisible : p.all isVisibleAscii = true
  · have hhead : ['/'].isPrefixOf p = true ∧ ['/', '/'].isPrefixOf p = false := by
      refine ⟨List.isPrefixOf_iff_prefix.mpr hp.1, Bool.eq_false_iff.mpr fun hdouble => ?_⟩
      exact hp.2 (List.isPrefixOf_iff_prefix.mp hdouble)
    rw [prefixBasePath_rooted hbase hvisible hhead]
    by_cases hunder : p = base ∨ base ++ ['/'] <+: p
    · rw [if_pos hunder, if_neg fun h => h.2.1 hunder]
    · rw [if_neg hunder]
      simp only [hvisible, hunder, not_false_eq_true, true_and]
  · have hread : toStr p = none := if_neg hvisible
    rw [if_neg fun h => hvisible h.1, prefixBasePath, if_neg hbase, hread]
    rfl

/-- **A handler's redirect** to a path of the router leads to that page exactly when the
layer reads the path, does not take it for one under the base, and can mount it. -/
theorem redirectTo_iff (hbase : ∃ c t, base = '/' :: c :: t) (hp : IsRouterPath p) :
    (redirectTo base p).bind (pageUnder base) = some (page p) ↔ Prefixable base p := by
  obtain ⟨c, t, heq⟩ := hbase
  have hne : base ≠ [] := by simp [heq]
  have hhead : base.head? = some '/' := by simp [heq]
  have hlong : 1 < base.length := by simp [heq]
  rw [redirectTo, prefixBasePath_router hne hp]
  constructor
  · intro hleads
    split at hleads
    · split at hleads
      · next hprefixed =>
        rw [Option.bind_some] at hleads
        have hheader := hprefixed.2.2
        rw [List.all_append, Bool.and_eq_true] at hheader
        exact ⟨mountable_of_pageUnder_append hheader.1 hhead hp.head? hleads, hprefixed.1,
          hprefixed.2.1⟩
      · exact absurd hleads (pageUnder_ne_page hlong)
    · cases hleads
  · rintro ⟨hmount, hvisible, hunder⟩
    have hheader : (base ++ p).all isHeaderChar = true := by
      rw [List.all_append, hmount.1.1, header_of_visible hvisible]
      rfl
    rw [if_pos (header_of_visible hvisible), if_pos ⟨hvisible, hunder, hheader⟩,
      Option.bind_some]
    exact pageUnder_append hmount hhead hp.head?

/-! ## Back to a page -/

theorem splitScheme_append {scheme rest : Str} (hscheme : ':' ∉ scheme) :
    splitScheme (scheme ++ "://".toList ++ rest) = some rest := by
  induction scheme with
  | nil => rfl
  | cons c scheme ih =>
    have hc : ':' ≠ c := fun h => hscheme (h ▸ List.mem_cons_self)
    have hnot : [':', '/', '/'].isPrefixOf (c :: (scheme ++ "://".toList ++ rest)) = false := by
      simp [List.isPrefixOf, hc]
    rw [List.cons_append, List.cons_append, splitScheme, hnot]
    exact ih fun h => hscheme (List.mem_cons_of_mem c h)

/-- A referer is cut down to the page it names. -/
theorem afterAuthority_refererOf {scheme authority : Str} (hscheme : ':' ∉ scheme)
    (hauthority : '/' ∉ authority) (htarget : target.head? = some '/') :
    afterAuthority (refererOf scheme authority target) = some target := by
  obtain ⟨rest, rfl⟩ := List.head?_eq_some_iff.mp htarget
  have hdrop : (authority ++ '/' :: rest).dropWhile (fun c => decide (c ≠ '/')) = '/' :: rest := by
    rw [List.dropWhile_append_of_pos fun c hc => ?_]
    · rfl
    · exact decide_eq_true fun h : c = '/' => hauthority (h ▸ hc)
  rw [afterAuthority, refererOf, List.append_assoc, splitScheme_append hscheme]
  simp only [hdrop]

/-- A page under the base has the base in front of its path. -/
theorem prefix_pathOf (h : pageUnder base target = some pg) : base <+: pathOf target := by
  rcases routed_eq_some (pageUnder_eq_some h).2.1 with ⟨heq, -⟩ | ⟨heq, -⟩
  · exact ⟨[], (List.append_nil base).trans heq.symm⟩
  · rw [heq]
    exact List.prefix_append ..

theorem no_end_of_pageUnder (h : pageUnder base target = some pg) :
    base.all (fun c => !isPathEnd c) = true := by
  refine List.all_eq_true.mpr fun c hc => ?_
  have hpath : c ∈ target.takeWhile fun c => !isPathEnd c := (prefix_pathOf h).subset hc
  exact List.mem_takeWhile_imp (p := fun c => !isPathEnd c) hpath

/-- Its text passes the check, and is a path the layer can read. -/
theorem rooted_of_pageUnder (hbase : ∃ c t, base = '/' :: c :: t ∧ c ≠ '/')
    (h : pageUnder base target = some pg) :
    looksCrossOrigin target = false ∧ IsRouterPath target := by
  obtain ⟨c, t, heq, hc⟩ := hbase
  obtain ⟨more, hmore⟩ := (prefix_pathOf h).trans (List.takeWhile_prefix _)
  have hnetwork := (pageUnder_eq_some h).1
  rw [← hmore, heq] at hnetwork ⊢
  have hback : c ≠ '\\' := by
    rintro rfl
    cases hnetwork
  constructor
  · simp [looksCrossOrigin, List.isPrefixOf, hc.symm, hback.symm]
  · refine ⟨⟨_, rfl⟩, ?_⟩
    rintro ⟨rest, hrest⟩
    simp only [List.cons_append, List.nil_append, List.cons.injEq, true_and] at hrest
    exact hc hrest.1.symm

/-- What stands right behind the base is a slash, a query or a fragment. -/
theorem under_iff (h : pageUnder base target = some pg) :
    (target = base ∨ base ++ ['/'] <+: target) ↔ ¬ (pathOf target = base ∧ suffixOf target ≠ []) := by
  have hparts := pathOf_append_suffixOf target
  constructor
  · rintro hunder ⟨hpath, hsuffix⟩
    rw [hpath] at hparts
    rcases hunder with heq | ⟨rest, hrest⟩
    · rw [heq] at hparts hsuffix
      exact hsuffix (by simpa using hparts)
    · rw [← hrest, List.append_assoc] at hparts
      have hslash : suffixOf target = '/' :: rest := by
        rw [← hrest, List.append_assoc]
        exact List.append_cancel_left hparts
      have hend := List.head?_dropWhile_not (fun c => !isPathEnd c) target
      rw [show target.dropWhile (fun c => !isPathEnd c) = '/' :: rest from hslash] at hend
      cases hend
  · intro hnot
    rcases routed_eq_some (pageUnder_eq_some h).2.1 with ⟨heq, -⟩ | ⟨heq, hslash⟩
    · refine .inl ?_
      have hempty : suffixOf target = [] := by
        by_contra hsuffix
        exact hnot ⟨heq, hsuffix⟩
      rw [← hparts, hempty, heq, List.append_nil]
    · obtain ⟨rest, hrest⟩ := List.head?_eq_some_iff.mp hslash
      refine .inr ⟨rest ++ suffixOf target, ?_⟩
      rw [heq, hrest] at hparts
      simpa only [List.append_assoc, List.cons_append, List.nil_append] using hparts

/-- A page whose query stands right behind the base gets the base a second time. -/
theorem not_leads_twice (hlong : 1 < base.length) (hbase : base.head? = some '/')
    (h : pageUnder base target = some pg) (hpath : pathOf target = base) :
    pageUnder base (base ++ target) ≠ some pg := by
  intro htwice
  have hrouted := (pageUnder_eq_some htwice).2.1
  rw [pathOf_append (no_end_of_pageUnder h), hpath, routed_append hbase] at hrouted
  have hroot := (pageUnder_eq_some h).2.1
  rw [hpath, routed_self, ← hrouted] at hroot
  rw [← Option.some.inj hroot] at hlong
  exact absurd hlong (by decide)

/-- A redirect to the landing page leads nowhere else. -/
theorem leads_landing (hlong : 1 < base.length) (hbase : base.head? = some '/')
    (h : (redirectTo base ['/']).bind (pageUnder base) = some pg) : pg = page ['/'] := by
  have hne : base ≠ [] := List.ne_nil_of_length_pos (Nat.lt_of_succ_lt hlong)
  have hheader : (['/'] : Str).all isHeaderChar = true := rfl
  rw [redirectTo, if_pos hheader, Option.bind_some, prefixBasePath_router hne isRouterPath_root] at h
  split at h
  · next hprefixed =>
    have hboth := hprefixed.2.2
    rw [List.all_append, Bool.and_eq_true] at hboth
    have hmount := mountable_of_pageUnder_append hboth.1 hbase rfl h
    rw [pageUnder_append hmount hbase rfl] at h
    exact (Option.some.inj h).symm
  · have hle := (prefix_pathOf h).length_le
    have hroot : (pathOf ['/']).length = 1 := rfl
    omega

/-- **The way back.** A referer of a page under the base leads back to that page exactly
when it is read and has no query or fragment right behind the base, or cannot be read and
is that of the landing page. -/
theorem redirectBack_iff {scheme authority : Str} (hbase : ∃ c t, base = '/' :: c :: t ∧ c ≠ '/')
    (hscheme : ':' ∉ scheme) (hauthority : '/' ∉ authority)
    (hpage : pageUnder base target = some pg) :
    (redirectBack base (refererOf scheme authority target)).bind (pageUnder base) = some pg ↔
      ReadsBack base (refererOf scheme authority target) target := by
  obtain ⟨hlooks, hrouter⟩ := rooted_of_pageUnder hbase hpage
  obtain ⟨c, t, heq, -⟩ := hbase
  have hne : base ≠ [] := by simp [heq]
  have hhead : base.head? = some '/' := by simp [heq]
  have hlong : 1 < base.length := by simp [heq]
  unfold ReadsBack
  by_cases hvisible : (refererOf scheme authority target).all isVisibleAscii = true
  · have hread : toStr (refererOf scheme authority target) =
        some (refererOf scheme authority target) := if_pos hvisible
    have hback : sameOriginPath (toStr (refererOf scheme authority target)) ['/'] = target := by
      rw [sameOriginPath, hread, Option.bind_some,
        afterAuthority_refererOf hscheme hauthority hrouter.head?]
      simp [hlooks]
    have htarget : target.all isVisibleAscii = true := by
      rw [refererOf, List.all_append, Bool.and_eq_true] at hvisible
      exact hvisible.2
    have hheader : base.all isHeaderChar = true := by
      refine List.all_eq_true.mpr fun d hd => ?_
      exact List.all_eq_true.mp (header_of_visible htarget) d
        (((prefix_pathOf hpage).trans (List.takeWhile_prefix _)).subset hd)
    rw [if_pos hvisible, redirectBack, hback, redirectTo, if_pos (header_of_visible htarget),
      Option.bind_some, prefixBasePath_router hne hrouter, ← under_iff hpage]
    by_cases hunder : target = base ∨ base ++ ['/'] <+: target
    · rw [if_neg fun h => h.2.1 hunder]
      exact iff_of_true hpage hunder
    · have hboth : (base ++ target).all isHeaderChar = true := by
        rw [List.all_append, hheader, header_of_visible htarget]
        rfl
      rw [if_pos ⟨htarget, hunder, hboth⟩]
      have hpath : pathOf target = base := by
        by_contra hother
        exact hunder ((under_iff hpage).mpr fun h => hother h.1)
      exact iff_of_false (not_leads_twice hlong hhead hpage hpath) hunder
  · have hread : toStr (refererOf scheme authority target) = none := if_neg hvisible
    have hback : sameOriginPath (toStr (refererOf scheme authority target)) ['/'] = ['/'] := by
      rw [hread]
      rfl
    have hmounted := redirectTo_iff ⟨c, t, heq⟩ isRouterPath_root
    have hprefixable : Prefixable base ['/'] ↔ Rooted base := by
      refine ⟨fun h => h.1.1, fun h => ⟨⟨h, no_end_of_pageUnder hpage⟩, rfl, ?_⟩⟩
      rintro (hsame | hprefix)
      · rw [← hsame] at hlong
        exact absurd hlong (by decide)
      · have hle := hprefix.length_le
        rw [List.length_append] at hle
        simp only [List.length_cons, List.length_nil] at hle
        omega
    rw [if_neg hvisible, redirectBack, hback, hpage, ← hprefixable, ← hmounted]
    constructor
    · intro hleads
      obtain rfl := leads_landing hlong hhead hleads
      exact ⟨rfl, hleads⟩
    · rintro ⟨hpg, hleads⟩
      rw [hpg]
      exact hleads

end Mounted

/-! ## Every redirect -/

end Ruscker.Routes
