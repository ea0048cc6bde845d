import Ruscker.Admin.SettingsFields
import Ruscker.Lib.Grouping
import Ruscker.Proxy.Guard
import Ruscker.Scope

/-!
# The cards of the landing page

The page has a card for every spec its visitor may reach, the newest first.  Chips count them by
type, the catalog shows them whole or in sections, and the visitor's favorites come before the
featured ones in a row of their own.
-/

namespace Ruscker.Routes.Landing

open Admin.SpecRoutes Proxy

section Model

variable [Floats] (parseDmy : Str → Option Nat) (basePath : Str)

/-! ## Cards -/

/-- What a card is sorted, filtered and grouped by. -/
structure CardCtx where
  id : Str
  displayName : Str
  displayType : DisplayType
  accessOpen : Bool
  active : Bool
  subject : Option Str
  featured : Bool
  favorited : Bool
  updatedRaw : Option Str
  updatedDate : Option Nat
  href : Str
  deriving DecidableEq

/-- Every card links to the proxy, so that its guard decides. -/
def CardCtx.fromSpec (spec : Spec Settings) : CardCtx :=
  let properties := spec.settings.templateProperties
  let updatedRaw := properties.getStr "updated".toList
  { id := spec.id
    displayName := spec.settings.displayName.getD spec.id
    displayType := DisplayType.fromSpec spec.settings
    accessOpen := spec.isOpen
    active := properties.isActive
    subject := properties.getStr "subject".toList
    featured := spec.settings.isFeatured
    favorited := false
    updatedRaw
    updatedDate := updatedRaw.bind parseDmy
    href := basePath ++ ['/', 'a', 'p', 'p', '/'] ++ spec.id ++ ['/'] }

/-- The key of the order: a card without a date comes last. -/
def CardCtx.recency (c : CardCtx) : Nat := c.updatedDate.elim 0 (· + 1)

def sortByRecent (cards : List CardCtx) : List CardCtx :=
  cards.mergeSort fun a b => decide (b.recency ≤ a.recency)

def uniqueSubjects (cards : List CardCtx) : List Str := btreeSet (cards.filterMap CardCtx.subject)

/-! ## Types -/

/-- The order of the chips and of the sections. -/
def typeOrder : List DisplayType := [.app, .talk, .report, .package, .api, .link]

structure TypeChip where
  displayType : DisplayType
  count : Nat

def buildTypeChips (cards : List CardCtx) : List TypeChip :=
  typeOrder.filterMap fun dt =>
    let count := cards.countP fun c => c.displayType = dt
    if count = 0 then none else some ⟨dt, count⟩

/-- A group of cards; the only group of the other layouts has no type. -/
structure CatalogGroup where
  type : Option DisplayType
  cards : List CardCtx

def catalogGroups (layout : Str) (cards : List CardCtx) : List CatalogGroup :=
  if layout ≠ "sections".toList then [⟨none, cards⟩]
  else typeOrder.filterMap fun dt =>
    let cards := cards.filter fun c => c.displayType = dt
    if cards.isEmpty then none else some ⟨some dt, cards⟩

/-! ## Favorites -/

/-- The rows of the favorites, a user and a spec id, each once. -/
structure Favorites where
  rows : List (Str × Str)
  nodup : rows.Nodup

/-- Delete, and insert where there was nothing to delete; the new state. -/
def Favorites.toggle (db : Favorites) (username specId : Str) : Favorites × Bool :=
  if h : (username, specId) ∈ db.rows then
    (⟨db.rows.erase (username, specId), db.nodup.erase _⟩, false)
  else (⟨(username, specId) :: db.rows, List.nodup_cons.mpr ⟨h, db.nodup⟩⟩, true)

/-- Ordered by spec id. -/
def Favorites.list (db : Favorites) (username : Str) : List Str :=
  btreeSet ((db.rows.filter fun r => r.1 = username).map Prod.snd)

omit [Floats] in
theorem Favorites.mem_list {db : Favorites} {username specId : Str} :
    specId ∈ db.list username ↔ (username, specId) ∈ db.rows := by
  rw [Favorites.list, mem_btreeSet, List.mem_map]
  constructor
  · rintro ⟨⟨name, id⟩, hrow, rfl⟩
    obtain ⟨hmem, hname⟩ := List.mem_filter.mp hrow
    cases of_decide_eq_true hname
    exact hmem
  · exact fun h => ⟨(username, specId), List.mem_filter.mpr ⟨h, by simp⟩, rfl⟩

omit [Floats] in
/-- A toggle answers the new state, changes it, and leaves every other favorite alone. -/
theorem Favorites.mem_list_toggle (db : Favorites) (username specId : Str) :
    ((db.toggle username specId).2 = true ↔ specId ∉ db.list username) ∧
    ∀ name id, id ∈ (db.toggle username specId).1.list name ↔
      if name = username ∧ id = specId then (db.toggle username specId).2 = true
      else id ∈ db.list name := by
  simp only [mem_list, toggle]
  split
  · next hmem =>
    refine ⟨by simp [hmem], fun name id => ?_⟩
    rw [db.nodup.mem_erase_iff]
    split
    · next heq => simp [heq]
    · next hne => simp [hne, Prod.ext_iff]
  · next hnot =>
    refine ⟨by simp [hnot], fun name id => ?_⟩
    rw [List.mem_cons]
    split
    · next heq => simp [heq]
    · next hne => simp [hne, Prod.ext_iff]

/-- The visitor's favorites in their order, then the featured cards that are none. -/
def buildHighlights (favorites : List Str) (cards : List CardCtx) : List CardCtx :=
  (favorites.filterMap fun id => cards.find? fun c => c.id = id) ++
    cards.filter fun c => c.featured && !c.favorited

/-! ## The page -/

structure LandingPage where
  cards : List CardCtx
  typeChips : List TypeChip
  subjects : List Str
  groups : List CatalogGroup
  highlights : List CardCtx
  signedInUser : Bool

def isAdmin (session : Option AdminSession) : Bool := session.any fun s => s.role = .admin

def username (session : Option AdminSession) : Option Str := session.bind AdminSession.actor

def index [Unicode] (session : Option AdminSession) (users : Users) (favorites : Favorites)
    (layout : Str) (catalog : List (Spec Settings)) : LandingPage :=
  let groups := ((username session).bind users.fetch).elim [] UserRow.groups
  let cards := sortByRecent ((catalog.filter fun spec =>
    spec.accessAllows (isAdmin session) (username session) groups).map
      (CardCtx.fromSpec parseDmy basePath))
  let starred := (username session).elim [] favorites.list
  let cards := cards.map fun c => { c with favorited := starred.contains c.id }
  { cards
    typeChips := buildTypeChips cards
    subjects := uniqueSubjects cards
    groups := catalogGroups layout cards
    highlights := buildHighlights starred cards
    signedInUser := (username session).isSome }

end Model

/-! ## Sections and chips -/

section Sections

variable {cards : List CardCtx} {layout : Str}

theorem nodup_typeOrder : typeOrder.Nodup := by decide

theorem mem_typeOrder (dt : DisplayType) : dt ∈ typeOrder := by cases dt <;> decide

theorem filterMap_occupied {β : Type} (f : DisplayType → β) (ks : List DisplayType) :
    (ks.filterMap fun dt => if (Grouping.group CardCtx.displayType cards dt).isEmpty then none
      else some (f dt)) = (Grouping.occupied CardCtx.displayType cards ks).map f := by
  induction ks with
  | nil => rfl
  | cons dt ks ih =>
    rw [List.filterMap_cons, Grouping.occupied, List.filter_cons]
    cases hempty : (Grouping.group CardCtx.displayType cards dt).isEmpty with
    | true => simpa [Grouping.occupied] using ih
    | false => simpa [Grouping.occupied] using ih

theorem buildTypeChips_eq : buildTypeChips cards =
    (Grouping.occupied CardCtx.displayType cards typeOrder).map fun dt =>
      ⟨dt, (Grouping.group CardCtx.displayType cards dt).length⟩ := by
  rw [← filterMap_occupied, buildTypeChips]
  refine List.filterMap_congr fun dt _ => ?_
  rw [List.countP_eq_length_filter]
  show (if (Grouping.group CardCtx.displayType cards dt).length = 0 then none
    else some (⟨dt, (Grouping.group CardCtx.displayType cards dt).length⟩ : TypeChip)) = _
  cases Grouping.group CardCtx.displayType cards dt <;> rfl

theorem catalogGroups_sections : catalogGroups "sections".toList cards =
    (Grouping.occupied CardCtx.displayType cards typeOrder).map fun dt =>
      ⟨some dt, Grouping.group CardCtx.displayType cards dt⟩ := by
  rw [← filterMap_occupied, catalogGroups, if_neg (not_not.mpr rfl)]
  rfl

/-- **The catalog.** In every layout the groups hold every card once and in the order of the
page; the chips stand for the sections, in their order and with their sizes, and count every
card. -/
theorem catalog_whole (layout : Str) (cards : List CardCtx) :
    ((catalogGroups layout cards).flatMap CatalogGroup.cards).Perm cards ∧
    (∀ g ∈ catalogGroups layout cards, g.cards.Sublist cards) ∧
    ((catalogGroups "sections".toList cards).map fun g => (g.type, g.cards.length)) =
      (buildTypeChips cards).map (fun chip => (some chip.displayType, chip.count)) ∧
    (∀ g ∈ catalogGroups "sections".toList cards, g.cards ≠ [] ∧
      ∀ c ∈ g.cards, some c.displayType = g.type) ∧
    ((buildTypeChips cards).map TypeChip.count).sum = cards.length := by
  have hall : ∀ c ∈ cards, c.displayType ∈ typeOrder := fun c _ => mem_typeOrder c.displayType
  have hoccupied : ((Grouping.occupied CardCtx.displayType cards typeOrder).flatMap
      (Grouping.group CardCtx.displayType cards)).Perm cards := by
    rw [Grouping.flatMap_group_occupied]
    exact Grouping.flatMap_group_perm nodup_typeOrder hall
  refine ⟨?_, fun g hg => ?_, ?_, fun g hg => ?_, ?_⟩
  · by_cases hlayout : layout = "sections".toList
    · rw [hlayout, catalogGroups_sections, List.flatMap_map]
      exact hoccupied
    · rw [catalogGroups, if_pos hlayout, List.flatMap_singleton]
  · by_cases hlayout : layout = "sections".toList
    · rw [hlayout, catalogGroups_sections] at hg
      obtain ⟨dt, -, rfl⟩ := List.mem_map.mp hg
      exact Grouping.group_sublist
    · rw [catalogGroups, if_pos hlayout] at hg
      rw [List.mem_singleton.mp hg]
  · rw [catalogGroups_sections, buildTypeChips_eq, List.map_map, List.map_map]
    rfl
  · rw [catalogGroups_sections] at hg
    obtain ⟨dt, hdt, rfl⟩ := List.mem_map.mp hg
    exact ⟨Grouping.group_ne_nil_of_occupied hdt,
      fun c hc => congrArg some (Grouping.mem_group.mp hc).2⟩
  · rw [buildTypeChips_eq, List.map_map]
    have hlength := hoccupied.length_eq
    rwa [List.length_flatMap] at hlength

end Sections

/-! ## The order of the cards -/

section Order

variable {cards : List CardCtx}

theorem sortByRecent_perm : (sortByRecent cards).Perm cards := List.mergeSort_perm _ _

theorem sortByRecent_pairwise :
    (sortByRecent cards).Pairwise fun a b => b.recency ≤ a.recency := by
  have hsorted := @List.pairwise_mergeSort CardCtx (fun a b => decide (b.recency ≤ a.recency))
    (fun a b c hab hbc => by simp only [decide_eq_true_eq] at *; omega)
    (fun a b => by simp only [Bool.or_eq_true, decide_eq_true_eq]; omega) cards
  exact hsorted.imp fun h => of_decide_eq_true h

end Order

/-! ## The page and the guard of the proxy -/

section Guard

variable [Floats] [Unicode] {users : Users} {portal : Portal} {spec : Spec Settings} {v : Visit}

/-- The groups the page reads for its visitor. -/
def viewerGroups (users : Users) (session : Option AdminSession) : List Str :=
  ((username session).bind users.fetch).elim [] UserRow.groups

/-- The portal discloses the stored groups of every account, none of an unknown one. -/
def Discloses (portal : Portal) (users : Users) : Prop :=
  ∀ name, (portal.resolveIdentity name).groups = (users.fetch name).elim [] UserRow.groups

omit [Unicode] in
theorem isOk_checkAccess : (checkAccess portal spec v).isOk = allows portal spec v := by
  cases hallows : allows portal spec v with
  | true =>
    rw [checkAccess, hallows, if_neg (by simp)]
    rfl
  | false =>
    have hopen : spec.isOpen = false := by
      by_contra hopen
      have hyes : allows portal spec v = true :=
        Spec.accessAllows_iff.mpr (.inr (.inl (by simpa using hopen)))
      rw [hyes] at hallows
      cases hallows
    rw [checkAccess, hallows, hopen, if_pos (by simp)]
    rfl

/-- The guard lets in exactly the visitors the page filters for. -/
theorem allows_eq (hdiscloses : Discloses portal users) :
    allows portal spec v =
      spec.accessAllows (isAdmin v.session) (username v.session)
        (viewerGroups users v.session) := by
  have hadmin : v.isAdmin = isAdmin v.session := by
    cases hsession : v.session <;> simp [Visit.isAdmin, isAdmin, hsession]
  rw [allows, hadmin]
  cases hopen : spec.isOpen with
  | true => simp [Spec.accessAllows, hopen]
  | false =>
    have hgroups : groups portal spec v = viewerGroups users v.session := by
      rw [groups, identity, viewerGroups]
      show _ = ((v.actor).bind users.fetch).elim [] UserRow.groups
      cases hactor : v.actor with
      | none => rfl
      | some name =>
        simp only [hopen, Bool.not_false, Bool.true_or]
        exact hdiscloses name
    rw [hgroups]
    rfl

/-- **One rule.** The page has a card for each spec whose guard lets its visitor in, and for no
other, whatever the visitor asks for there; the newest cards come first and link to the proxy. -/
theorem cards_admitted (parseDmy : Str → Option Nat) (basePath : Str)
    (hdiscloses : Discloses portal users) (favorites : Favorites) (layout : Str)
    (catalog : List (Spec Settings)) (v : Visit) :
    let page := index parseDmy basePath v.session users favorites layout catalog
    (page.cards.map CardCtx.id).Perm
        ((catalog.filter fun spec => (checkAccess portal spec v).isOk).map Spec.id) ∧
      page.cards.Pairwise (fun a b => b.recency ≤ a.recency) ∧
      ∀ c ∈ page.cards, c.href = basePath ++ ['/', 'a', 'p', 'p', '/'] ++ c.id ++ ['/'] := by
  intro page
  have hshown : (catalog.filter fun spec => (checkAccess portal spec v).isOk) =
      catalog.filter fun spec => spec.accessAllows (isAdmin v.session) (username v.session)
        (viewerGroups users v.session) :=
    List.filter_congr fun spec _ => isOk_checkAccess.trans (allows_eq hdiscloses)
  have hcards : page.cards = (sortByRecent ((catalog.filter fun spec =>
      (checkAccess portal spec v).isOk).map (CardCtx.fromSpec parseDmy basePath))).map
        fun c => { c with favorited :=
          ((username v.session).elim [] favorites.list).contains c.id } := by
    rw [hshown]
    rfl
  rw [hcards]
  refine ⟨?_, ?_, fun c hc => ?_⟩
  · rw [List.map_map]
    refine (sortByRecent_perm.map _).trans ?_
    rw [List.map_map]
    exact List.Perm.refl _
  · rw [List.pairwise_map]
    exact sortByRecent_pairwise
  · obtain ⟨c', hc', rfl⟩ := List.mem_map.mp hc
    obtain ⟨spec, -, rfl⟩ := List.mem_map.mp (sortByRecent_perm.mem_iff.mp hc')
    rfl

end Guard

/-! ## Highlights -/

section Highlights

variable {cards : List CardCtx} {favorites : List Str}

/-- The favorites that have a card, in the order of the favorites. -/
theorem map_id_starred (hids : (cards.map CardCtx.id).Nodup) (favorites : List Str) :
    (favorites.filterMap fun id => cards.find? fun c => c.id = id).map CardCtx.id =
      favorites.filter fun id => id ∈ cards.map CardCtx.id := by
  induction favorites with
  | nil => rfl
  | cons id favorites ih =>
    rw [List.filterMap_cons, List.filter_cons]
    cases hfound : cards.find? (fun c => c.id = id) with
    | none =>
      have hnot : id ∉ cards.map CardCtx.id := by
        intro hmem
        obtain ⟨c, hc, hid⟩ := List.mem_map.mp hmem
        rw [(Grouping.find?_key_eq_some_iff hids).mpr ⟨hc, hid⟩] at hfound
        cases hfound
      rw [if_neg (by simpa using hnot)]
      exact ih
    | some c =>
      obtain ⟨hc, rfl⟩ := (Grouping.find?_key_eq_some_iff hids).mp hfound
      rw [if_pos (decide_eq_true (List.mem_map_of_mem hc)), List.map_cons, ih]

theorem mem_buildHighlights (hids : (cards.map CardCtx.id).Nodup)
    (hmarked : ∀ c ∈ cards, c.favorited = favorites.contains c.id) {c : CardCtx} :
    c ∈ buildHighlights favorites cards ↔
      c ∈ cards ∧ (c.favorited = true ∨ c.featured = true) := by
  rw [buildHighlights, List.mem_append, List.mem_filterMap, List.mem_filter]
  simp only [Grouping.find?_key_eq_some_iff hids, Bool.and_eq_true, Bool.not_eq_true']
  constructor
  · rintro (⟨id, hid, hc, rfl⟩ | ⟨hc, hfeatured, -⟩)
    · refine ⟨hc, .inl ?_⟩
      rw [hmarked c hc]
      exact List.contains_iff_mem.mpr hid
    · exact ⟨hc, .inr hfeatured⟩
  · rintro ⟨hc, hwhy⟩
    cases hfavorited : c.favorited with
    | true =>
      rw [hmarked c hc] at hfavorited
      exact .inl ⟨c.id, List.contains_iff_mem.mp hfavorited, hc, rfl⟩
    | false =>
      rw [hfavorited] at hwhy
      exact .inr ⟨hc, hwhy.resolve_left Bool.false_ne_true, rfl⟩

theorem nodup_buildHighlights (hids : (cards.map CardCtx.id).Nodup) (hfavorites : favorites.Nodup)
    (hmarked : ∀ c ∈ cards, c.favorited = favorites.contains c.id) :
    ((buildHighlights favorites cards).map CardCtx.id).Nodup := by
  rw [buildHighlights, List.map_append, map_id_starred hids]
  refine List.Nodup.append (hfavorites.filter _) (hids.sublist (List.filter_sublist.map _)) ?_
  intro id hstarred hfeatured
  obtain ⟨c, hc, rfl⟩ := List.mem_map.mp hfeatured
  obtain ⟨hcard, hwhy⟩ := List.mem_filter.mp hc
  simp only [Bool.and_eq_true, Bool.not_eq_true'] at hwhy
  rw [hmarked c hcard] at hwhy
  have hmem := List.contains_iff_mem.mpr (List.mem_of_mem_filter hstarred)
  rw [hwhy.2] at hmem
  cases hmem

theorem nodup_btreeSet {l : List Str} : (btreeSet l).Nodup :=
  (List.perm_insertionSort _ _).nodup_iff.mpr (List.nodup_dedup l)

variable [Floats] [Unicode]

/-- **The highlights.** The visitor's favorites that they may still reach come first, in their
order, and then the other featured cards in the order of the page; no card stands there twice,
and none that the page does not show. -/
theorem highlights_ordered (parseDmy : Str → Option Nat) (basePath : Str)
    (session : Option AdminSession) (users : Users) (favorites : Favorites) (layout : Str)
    (catalog : List (Spec Settings)) (hids : (catalog.map Spec.id).Nodup) :
    let page := index parseDmy basePath session users favorites layout catalog
    let starred := (username session).elim [] favorites.list
    page.highlights.map CardCtx.id =
        (starred.filter fun id => id ∈ page.cards.map CardCtx.id) ++
          (page.cards.filter fun c => c.featured && !c.favorited).map CardCtx.id ∧
      (page.highlights.map CardCtx.id).Nodup ∧
      ∀ c, c ∈ page.highlights ↔ c ∈ page.cards ∧ (c.id ∈ starred ∨ c.featured = true) := by
  intro page starred
  have hstarred : starred.Nodup := by
    show ((username session).elim [] favorites.list).Nodup
    cases username session with
    | none => exact List.nodup_nil
    | some name => exact nodup_btreeSet
  have hmarked : ∀ c ∈ page.cards, c.favorited = starred.contains c.id := by
    intro c hc
    obtain ⟨c', -, rfl⟩ := List.mem_map.mp hc
    rfl
  have hunique : (page.cards.map CardCtx.id).Nodup := by
    show (List.map CardCtx.id (List.map _ (sortByRecent _))).Nodup
    rw [List.map_map]
    refine ((sortByRecent_perm.map _).nodup_iff).mpr ?_
    rw [List.map_map]
    exact hids.sublist (List.filter_sublist.map _)
  refine ⟨?_, nodup_buildHighlights hunique hstarred hmarked, fun c => ?_⟩
  · show (buildHighlights starred page.cards).map CardCtx.id = _
    rw [buildHighlights, List.map_append, map_id_starred hunique]
  · show c ∈ buildHighlights starred page.cards ↔ _
    rw [mem_buildHighlights hunique hmarked]
    refine and_congr_right fun hc => or_congr_left ?_
    rw [hmarked c hc, List.contains_iff_mem]

end Highlights

section Example

attribute [local instance] wholeFloats asciiUnicode

/-- One account, a member of one group. -/
def oneMember : Users where
  entries := [⟨Username.of ['a'], ⟨[], ['v', 'i', 'e', 'w', 'e', 'r'], false, ['t'], none, none,
    none⟩⟩]
  nodupKeys := by
    rw [List.NodupKeys]
    decide

def membersPortal : Portal :=
  { quietPortal with
    resolveIdentity := fun name => ⟨(oneMember.fetch name).elim [] UserRow.groups, none, none⟩ }

def memberVisit : Visit := { anonymousVisit with session := some ⟨some ['a'], .viewer⟩ }

/-- An open spec, one of the member's group and one of another. -/
def threeSpecs : List (Spec Settings) :=
  [⟨['x'], none, none, bareSettings "X" .empty⟩,
    ⟨['y'], some [['t']], none, bareSettings "Y" .empty⟩,
    ⟨['z'], some [['u']], none, bareSettings "Z" .empty⟩]

theorem cards_admitted_member :
    ((index (fun _ => none) [] memberVisit.session oneMember ⟨[], List.nodup_nil⟩ []
      threeSpecs).cards.map CardCtx.id).Perm [['x'], ['y']] := by
  have hdiscloses : Discloses membersPortal oneMember := fun _ => rfl
  have hcards := (cards_admitted (fun _ => none) [] hdiscloses ⟨[], List.nodup_nil⟩ [] threeSpecs
    memberVisit).1
  exact hcards.trans (List.Perm.of_eq (by decide +kernel))

/-- A favorite of which the card is gone, and one that comes first. -/
def twoFavorites : Favorites where
  rows := [(['a'], ['z']), (['a'], ['y'])]
  nodup := by decide

theorem highlights_ordered_member :
    ((index (fun _ => none) [] memberVisit.session oneMember twoFavorites []
      threeSpecs).highlights.map CardCtx.id).Nodup :=
  (highlights_ordered _ _ memberVisit.session oneMember twoFavorites [] threeSpecs
    (by decide)).2.1

end Example

end Ruscker.Routes.Landing
