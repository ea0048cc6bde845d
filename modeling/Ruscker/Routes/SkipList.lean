import Ruscker.Routes.RuntimeShim

/-!
# The routes that `rewrite_url` skips

An app's URL stays as it is when it is one of Ruscker's own routes.  The routes are meant as first
segments, and the list of them is matched against the text.
-/

namespace Ruscker.Routes.Rewrite

open UrlReferences

/-- The path of an app below the portal. -/
def mountBase (portal spec : Str) : Str := portal ++ (appPrefix ++ (spec ++ ['/']))

theorem appBase_eq (contextPath specId : Str) :
    appBase contextPath specId = mountBase (normalizeBasePath contextPath) specId := by
  simp only [appBase, mountPrefix, mountBase, List.append_assoc]

/-- The URL of an attribute, behind the white space. -/
def urlOf (value : Str) : Str := value.dropWhile isWhitespace

/-- The routes whose entry has a slash behind. -/
def slashedRoutes : List Str :=
  ["assets".toList, "app".toList, "__set".toList, "__assets__".toList]

def ownRoutes : List Str := "admin".toList :: slashedRoutes

/-- The first segment is one of Ruscker's. -/
def IsOwn (u : Str) : Prop := firstSegment u ∈ ownRoutes

/-- What `rewrite_url` is for. -/
structure RewritesRightly (base value : Str) : Prop where
  alone : rewriteUrl value base = none ↔
    ¬ ['/'] <+: urlOf value ∨ ['/', '/'] <+: urlOf value ∨ base <+: urlOf value ∨
      IsOwn (urlOf value)
  mounted : ∀ r, rewriteUrl value base = some r →
    r = base ++ (urlOf value).tail ∧ base.dropLast ++ urlOf value = r
  again : ∀ r, rewriteUrl value base = some r → rewriteUrl r base = none

/-- The first segment only begins like `admin`. -/
def BeginsLikeAdmin (u : Str) : Prop :=
  '/' :: "admin".toList <+: u ∧ firstSegment u ≠ "admin".toList

/-- Nothing stands behind a route whose entry has a slash. -/
def IsBareRoute (u : Str) : Prop :=
  ∃ w ∈ slashedRoutes, firstSegment u = w ∧ ¬ '/' :: (w ++ ['/']) <+: u

instance (u : Str) : Decidable (IsOwn u) := inferInstanceAs (Decidable (_ ∈ _))
instance (u : Str) : Decidable (BeginsLikeAdmin u) := inferInstanceAs (Decidable (_ ∧ _))
instance (u : Str) : Decidable (IsBareRoute u) := inferInstanceAs (Decidable (∃ _ ∈ _, _))

/-! ## The list against the segments -/

section Skips

variable {u w : Str}

theorem ownRoute_plain (hw : w ∈ ownRoutes) : w.all (fun c => !isSegmentEnd c) = true := by
  have hall : ∀ w ∈ ownRoutes, w.all (fun c => !isSegmentEnd c) = true := by decide
  exact hall w hw

theorem slashed_own (hw : w ∈ slashedRoutes) : w ∈ ownRoutes := List.mem_cons_of_mem _ hw

theorem admin_own : "admin".toList ∈ ownRoutes := List.mem_cons_self

theorem IsOwn.of_eq (h : firstSegment u = w) (hw : w ∈ ownRoutes) : IsOwn u := by
  rw [IsOwn, h]
  exact hw

/-- Two of the entries start alike. -/
theorem skips_iff : (∃ p ∈ skipPrefixes, p <+: u) ↔
    '/' :: "admin".toList <+: u ∨ ∃ w ∈ slashedRoutes, '/' :: (w ++ ['/']) <+: u := by
  have hadmin : "/admin/".toList <+: u → '/' :: "admin".toList <+: u :=
    fun h => List.IsPrefix.trans (by decide) h
  simp only [skipPrefixes, slashedRoutes, List.mem_cons, List.not_mem_nil, or_false,
    exists_eq_or_imp, exists_eq_left]
  constructor
  · rintro (h | h | h | h | h | h)
    · exact .inl (hadmin h)
    · exact .inl h
    · exact .inr (.inl h)
    · exact .inr (.inr (.inl h))
    · exact .inr (.inr (.inr (.inl h)))
    · exact .inr (.inr (.inr (.inr h)))
  · rintro (h | h | h | h | h)
    · exact .inr (.inl h)
    · exact .inr (.inr (.inl h))
    · exact .inr (.inr (.inr (.inl h)))
    · exact .inr (.inr (.inr (.inr (.inl h))))
    · exact .inr (.inr (.inr (.inr (.inr h))))

/-- A first segment that begins like `admin` is none of the others. -/
theorem not_slashed_of_admin (h : '/' :: "admin".toList <+: u) :
    firstSegment u ∉ slashedRoutes := by
  have hprefix := prefix_firstSegment (ownRoute_plain admin_own) h
  have hnone : ∀ w ∈ slashedRoutes, ¬ "admin".toList <+: w := by decide
  exact fun hmem => hnone _ hmem hprefix

theorem rooted_of_firstSegment (h : firstSegment u ≠ []) : ['/'] <+: u ∧ ¬ ['/', '/'] <+: u := by
  match u with
  | [] => exact absurd rfl h
  | c :: s =>
    by_cases hc : c = '/'
    · subst hc
      refine ⟨⟨s, rfl⟩, ?_⟩
      rintro ⟨t, ht⟩
      obtain rfl : '/' :: t = s := (List.cons.inj ht).2
      exact h rfl
    · exact absurd (by simp [firstSegment, hc]) h

/-- The list has every own route except a bare one, and beside them what begins like `admin`. -/
theorem skips_iff_own : (∃ p ∈ skipPrefixes, p <+: u) ↔
    (IsOwn u ∧ ¬ IsBareRoute u) ∨ BeginsLikeAdmin u := by
  rw [skips_iff]
  constructor
  · rintro (hadmin | ⟨w, hw, hprefix⟩)
    · by_cases heq : firstSegment u = "admin".toList
      · refine .inl ⟨.of_eq heq admin_own, ?_⟩
        rintro ⟨w, hw, hsegment, -⟩
        exact not_slashed_of_admin hadmin (hsegment ▸ hw)
      · exact .inr ⟨hadmin, heq⟩
    · have hsegment := firstSegment_of_slash (ownRoute_plain (slashed_own hw)) hprefix
      refine .inl ⟨.of_eq hsegment (slashed_own hw), ?_⟩
      rintro ⟨w', -, hsegment', hnot⟩
      rw [hsegment] at hsegment'
      exact hnot (hsegment' ▸ hprefix)
  · rintro (⟨hown, hbare⟩ | hadmin)
    · rcases List.mem_cons.mp hown with heq | hslashed
      · exact .inl (prefix_of_firstSegment (by decide) (heq ▸ List.prefix_rfl))
      · refine .inr ⟨firstSegment u, hslashed, ?_⟩
        by_contra hnot
        exact hbare ⟨_, hslashed, rfl, hnot⟩
    · exact .inl hadmin.1

theorem IsOwn.rooted (h : IsOwn u) : ['/'] <+: u ∧ ¬ ['/', '/'] <+: u := by
  refine rooted_of_firstSegment fun hnil => ?_
  rw [IsOwn, hnil] at h
  revert h
  decide

theorem BeginsLikeAdmin.rooted (h : BeginsLikeAdmin u) : ['/'] <+: u ∧ ¬ ['/', '/'] <+: u := by
  refine rooted_of_firstSegment fun hnil => ?_
  have hprefix := prefix_firstSegment (ownRoute_plain admin_own) h.1
  rw [hnil] at hprefix
  exact absurd (List.prefix_nil.mp hprefix) (by decide)

theorem BeginsLikeAdmin.not_own (h : BeginsLikeAdmin u) : ¬ IsOwn u := by
  intro hown
  rcases List.mem_cons.mp hown with heq | hslashed
  · exact h.2 heq
  · exact not_slashed_of_admin h.1 hslashed

theorem IsBareRoute.own (h : IsBareRoute u) : IsOwn u := by
  obtain ⟨w, hw, hsegment, -⟩ := h
  exact .of_eq hsegment (slashed_own hw)

end Skips

/-! ## The rewritten URL -/

section Rewritten

variable {portal spec value r : Str}

theorem mountBase_eq (portal spec : Str) :
    mountBase portal spec = (portal ++ (appPrefix ++ spec)) ++ ['/'] := by
  simp only [mountBase, List.append_assoc]

/-- One slash is in front. -/
theorem Mounts.dropWhile {base u : Str} (h : Mounts base u) :
    (u.dropWhile fun c => c = '/') = u.tail := by
  obtain ⟨⟨s, rfl⟩, hprotocol, -⟩ := h
  cases s with
  | nil => rfl
  | cons c s =>
    have hc : c ≠ '/' := by
      rintro rfl
      exact hprotocol ⟨s, rfl⟩
    simp [hc]

theorem rewriteUrl_eq_none_iff {base : Str} :
    rewriteUrl value base = none ↔ ¬ Mounts base (urlOf value) := by
  rw [rewriteUrl_eq, urlOf]
  split
  · next h => simp [h]
  · next h => simp [h]

theorem rewriteUrl_eq_some {base : Str} (h : rewriteUrl value base = some r) :
    Mounts base (urlOf value) ∧ r = base ++ (urlOf value).tail := by
  rw [rewriteUrl_eq] at h
  split at h
  · next hmounts => exact ⟨hmounts, by rw [← Option.some.inj h, hmounts.dropWhile, urlOf]⟩
  · cases h

theorem mounted_of_rewriteUrl (h : rewriteUrl value (mountBase portal spec) = some r) :
    r = mountBase portal spec ++ (urlOf value).tail ∧
      (mountBase portal spec).dropLast ++ urlOf value = r := by
  obtain ⟨⟨⟨s, hs⟩, -⟩, heq⟩ := rewriteUrl_eq_some h
  refine ⟨heq, ?_⟩
  rw [heq, ← hs, mountBase_eq, List.dropLast_concat, List.append_assoc _ ['/']]
  rfl

theorem rewriteUrl_again (hroot : ['/'] <+: mountBase portal spec)
    (h : rewriteUrl value (mountBase portal spec) = some r) :
    rewriteUrl r (mountBase portal spec) = none := by
  obtain ⟨-, heq⟩ := rewriteUrl_eq_some h
  obtain ⟨s, hs⟩ := hroot
  have htrim : urlOf r = r := by
    rw [heq, ← hs]
    rfl
  rw [rewriteUrl_eq_none_iff, htrim, heq]
  exact fun hmounts => hmounts.2.2.2 (List.prefix_append _ _)

/-- What is put in place of a URL is always right, so only what is left alone counts. -/
theorem rewritesRightly_iff_alone (hroot : ['/'] <+: mountBase portal spec) :
    RewritesRightly (mountBase portal spec) value ↔
      (¬ Mounts (mountBase portal spec) (urlOf value) ↔
        ¬ ['/'] <+: urlOf value ∨ ['/', '/'] <+: urlOf value ∨
          mountBase portal spec <+: urlOf value ∨ IsOwn (urlOf value)) := by
  rw [← rewriteUrl_eq_none_iff]
  exact ⟨fun h => h.alone, fun h => ⟨h, fun r => mounted_of_rewriteUrl,
    fun r => rewriteUrl_again hroot⟩⟩

theorem mounts_iff {base u : Str} (hbase : ¬ base <+: u) :
    Mounts base u ↔ ['/'] <+: u ∧ ¬ ['/', '/'] <+: u ∧
      ¬ ((IsOwn u ∧ ¬ IsBareRoute u) ∨ BeginsLikeAdmin u) := by
  have hskip : (∀ p ∈ skipPrefixes, ¬ p <+: u) ↔
      ¬ ((IsOwn u ∧ ¬ IsBareRoute u) ∨ BeginsLikeAdmin u) := by
    rw [← skips_iff_own]
    push Not
    rfl
  simp only [Mounts, hskip, hbase, not_false_eq_true, and_true]

/-- **Exactly when** a URL is rewritten as meant: it is under the base, or its first segment neither
only begins like `admin` nor is a bare route whose entry has a slash. -/
theorem rewritesRightly_iff (portal spec value : Str) (hroot : ['/'] <+: mountBase portal spec) :
    RewritesRightly (mountBase portal spec) value ↔
      mountBase portal spec <+: urlOf value ∨
        (¬ BeginsLikeAdmin (urlOf value) ∧ ¬ IsBareRoute (urlOf value)) := by
  rw [rewritesRightly_iff_alone hroot]
  by_cases hbase : mountBase portal spec <+: urlOf value
  · have hnot : ¬ Mounts (mountBase portal spec) (urlOf value) := fun h => h.2.2.2 hbase
    simp [hbase, hnot]
  · rw [mounts_iff hbase]
    simp only [hbase, false_or]
    constructor
    · intro hiff
      constructor
      · intro hadmin
        rcases hiff.mp fun hmounts => hmounts.2.2 (.inr hadmin) with h | h | hown
        · exact h hadmin.rooted.1
        · exact hadmin.rooted.2 h
        · exact hadmin.not_own hown
      · intro hbare
        have ⟨hrooted, hprotocol⟩ := hbare.own.rooted
        refine hiff.mpr (.inr (.inr hbare.own)) ⟨hrooted, hprotocol, ?_⟩
        rintro (⟨-, hnot⟩ | hadmin)
        · exact hnot hbare
        · exact hadmin.not_own hbare.own
    · rintro ⟨hadmin, hbare⟩
      constructor
      · intro hnot
        by_contra hleft
        rw [not_or, not_or, not_not] at hleft
        refine hnot ⟨hleft.1, hleft.2.1, ?_⟩
        rintro (⟨hown, -⟩ | h)
        · exact hleft.2.2 hown
        · exact hadmin h
      · rintro (h | h | hown) ⟨hrooted, hprotocol, hnot⟩
        · exact h hrooted
        · exact hprotocol h
        · exact hnot (.inl ⟨hown, hbare⟩)

/-- An app's own path is taken for the admin pages. -/
theorem administration_stays : ¬ ∀ portal spec value : Str, ['/'] <+: mountBase portal spec →
    RewritesRightly (mountBase portal spec) value := by
  intro hclaim
  have halone := (hclaim [] "x".toList "/administration/users".toList (by decide +kernel)).alone
  revert halone
  decide +kernel

theorem rewritesRightly_lib :
    RewritesRightly (appBase "portal/".toList "x".toList) " /lib/a.js".toList := by
  rw [appBase_eq]
  exact (rewritesRightly_iff _ _ _ (by decide)).mpr (by decide)

end Rewritten

end Ruscker.Routes.Rewrite
