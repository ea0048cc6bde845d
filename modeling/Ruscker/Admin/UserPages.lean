import Ruscker.Scope

/-!
# The paged user list

The page of an Editor is cut from the result of one query: the visibility rule is a
condition on the stored group text, the rows are ordered, and a page is a slice of them.
The rule is written a second time as `mayTouchUser`, over the parsed groups.
-/

namespace Ruscker.Admin.UserPages

open Tables

/-! ## The query -/

/-- `instr` and `strpos`: the position of the first occurrence, from 1 on. -/
def instr (needle : Str) : Str → Nat
  | [] => if needle.isEmpty then 1 else 0
  | c :: hay =>
    if needle.isPrefixOf (c :: hay) then 1
    else if instr needle hay = 0 then 0 else instr needle hay + 1

/-- How a database orders texts. -/
structure Collation where
  le : Str → Str → Bool
  total : ∀ s t, le s t || le t s
  trans : ∀ s t u, le s t → le t u → le s u
  antisymm : ∀ s t, le s t → le t s → s = t

/-- What the two databases do differently; `matchesTerm` is the search in one column. -/
structure Dialect where
  lower : Str → Str
  matchesTerm : (term column : Str) → Bool
  collation : Collation

structure UserFilter where
  search : Str
  visibleGroups : Option (List Str)

def userFilter (scope : EditorScope) (search : Str) : UserFilter where
  search
  visibleGroups := if scope.unscoped then none else some scope.groups

variable (d : Dialect)

/-- The columns the search looks at; the profile columns through `COALESCE`. -/
def pushSearch [Unicode] (search : Str) (username : Username) (row : StoredUser) : Bool :=
  search.isEmpty ||
    [username.name, row.groups, row.setor.getD [], row.email.getD [], row.celular.getD []].any
      (d.matchesTerm search)

/-- The visibility condition; an empty group list is `1=0`. -/
def pushVisibility (visibleGroups : Option (List Str)) (row : StoredUser) : Bool :=
  match visibleGroups with
  | none => true
  | some groups => d.lower row.role ≠ "admin".toList && groups.any fun group =>
      0 < instr (',' :: (group ++ [','])) (',' :: (row.groups ++ [',']))

inductive UserOrder where
  | createdDesc
  | createdAsc
  | usernameAsc
  | usernameDesc
  | roleAsc
  | roleDesc

/-- Ordered by one key and then by another. -/
def thenBy {α : Type*} (key next : α → α → Bool) (a b : α) : Bool :=
  key a b && (!key b a || next a b)

section Query

variable [Unicode]

abbrev Entry : Type := Sigma fun _ : Username => StoredUser

/-- `ORDER BY`; the username decides between equal keys. -/
def UserOrder.le (created : Username → Nat) (order : UserOrder) : Entry → Entry → Bool :=
  let byName (a b : Entry) := d.collation.le a.1.name b.1.name
  let byCreated (a b : Entry) : Bool := created a.1 ≤ created b.1
  let byRole (a b : Entry) := d.collation.le a.2.role b.2.role
  match order with
  | .createdDesc => thenBy (fun a b => byCreated b a) byName
  | .createdAsc => thenBy byCreated byName
  | .usernameAsc => byName
  | .usernameDesc => fun a b => byName b a
  | .roleAsc => thenBy byRole byName
  | .roleDesc => thenBy (fun a b => byRole b a) byName

variable (db : Users) (created : Username → Nat)

/-- The rows the `WHERE` clause keeps. -/
def selected (filter : UserFilter) : List Entry :=
  db.entries.filter fun e =>
    pushSearch d filter.search.trim e.1 e.2 && pushVisibility d filter.visibleGroups e.2

def countFiltered (filter : UserFilter) : Nat := (selected d db filter).length

/-- The select behind `list_page_ordered` and `list_filtered`; a page is a limit and an
offset. -/
def listWith (filter : UserFilter) (order : UserOrder) (page : Option (Nat × Nat)) :
    List UserRow :=
  let rows := (selected d db filter).mergeSort (order.le d created)
  let rows := match page with
    | some (limit, offset) => (rows.drop offset).take limit
    | none => rows
  rows.map fun e => rowFrom e.1 e.2

def usersPerPage : Nat := 50

def pageCount (filter : UserFilter) : Nat :=
  max ((countFiltered d db filter + usersPerPage - 1) / usersPerPage) 1

/-- The rows of a page of the admin panel; a row outside the scope fails the page. -/
def index (scope : EditorScope) (search : Str) (order : UserOrder) (page : Option Int) :
    Option (List UserRow) :=
  let filter := userFilter scope search.trim
  let page := (max 1 (min (page.getD 1) (pageCount d db filter))).toNat
  let users := listWith d db created filter order (some (usersPerPage, (page - 1) * usersPerPage))
  if users.all scope.mayTouchUser then some users else none

end Query

/-! ## The order is total -/

section Order

variable {α : Type*} {key next : α → α → Bool}

theorem thenBy_total (hkey : ∀ a b, key a b || key b a) (hnext : ∀ a b, next a b || next b a)
    (a b : α) : thenBy key next a b || thenBy key next b a := by
  have hab := hkey a b
  have hn := hnext a b
  unfold thenBy
  cases hk : key a b with
  | false => simp_all
  | true =>
    cases hk' : key b a with
    | false => rfl
    | true => simpa using hn

theorem thenBy_trans (hkey : ∀ a b c, key a b → key b c → key a c)
    (hnext : ∀ a b c, next a b → next b c → next a c) (a b c : α)
    (hab : thenBy key next a b) (hbc : thenBy key next b c) : thenBy key next a c := by
  simp only [thenBy, Bool.and_eq_true, Bool.or_eq_true, Bool.not_eq_true'] at *
  refine ⟨hkey a b c hab.1 hbc.1, ?_⟩
  by_cases hca : key c a = true
  · right
    have hba : key b a = true := hkey b c a hbc.1 hca
    have hcb : key c b = true := hkey c a b hca hab.1
    rcases hab.2 with hno | hab
    · rw [hba] at hno
      cases hno
    · rcases hbc.2 with hno | hbc
      · rw [hcb] at hno
        cases hno
      · exact hnext a b c hab hbc
  · exact .inl (Bool.eq_false_iff.mpr hca)

variable (key next) in
theorem thenBy_antisymm {a b : α} (hab : thenBy key next a b) (hba : thenBy key next b a) :
    next a b ∧ next b a := by
  simp only [thenBy, Bool.and_eq_true, Bool.or_eq_true, Bool.not_eq_true'] at *
  refine ⟨hab.2.resolve_left fun hno => ?_, hba.2.resolve_left fun hno => ?_⟩
  · rw [hba.1] at hno
    cases hno
  · rw [hab.1] at hno
    cases hno

variable [Unicode] {d : Dialect} {created : Username → Nat}

theorem UserOrder.le_total (order : UserOrder) (a b : Entry) :
    order.le d created a b || order.le d created b a := by
  have hname : ∀ a b : Entry, d.collation.le a.1.name b.1.name || d.collation.le b.1.name a.1.name :=
    fun a b => d.collation.total a.1.name b.1.name
  have hrole : ∀ a b : Entry, d.collation.le a.2.role b.2.role || d.collation.le b.2.role a.2.role :=
    fun a b => d.collation.total a.2.role b.2.role
  have hcreated : ∀ a b : Entry,
      (decide (created a.1 ≤ created b.1) || decide (created b.1 ≤ created a.1)) = true := by
    intro a b
    simpa using Nat.le_total (created a.1) (created b.1)
  cases order with
  | createdDesc => exact thenBy_total (fun a b => hcreated b a) hname a b
  | createdAsc => exact thenBy_total hcreated hname a b
  | usernameAsc => exact hname a b
  | usernameDesc => exact hname b a
  | roleAsc => exact thenBy_total hrole hname a b
  | roleDesc => exact thenBy_total (fun a b => hrole b a) hname a b

theorem UserOrder.le_trans (order : UserOrder) (a b c : Entry)
    (hab : order.le d created a b) (hbc : order.le d created b c) :
    order.le d created a c := by
  have hname : ∀ a b c : Entry, d.collation.le a.1.name b.1.name →
      d.collation.le b.1.name c.1.name → d.collation.le a.1.name c.1.name :=
    fun a b c => d.collation.trans a.1.name b.1.name c.1.name
  have hrole : ∀ a b c : Entry, d.collation.le a.2.role b.2.role →
      d.collation.le b.2.role c.2.role → d.collation.le a.2.role c.2.role :=
    fun a b c => d.collation.trans a.2.role b.2.role c.2.role
  have hcreated : ∀ a b c : Entry, decide (created a.1 ≤ created b.1) = true →
      decide (created b.1 ≤ created c.1) = true → decide (created a.1 ≤ created c.1) = true := by
    intro a b c hab hbc
    simp only [decide_eq_true_eq] at *
    omega
  cases order with
  | createdDesc => exact thenBy_trans (fun a b c h h' => hcreated c b a h' h) hname a b c hab hbc
  | createdAsc => exact thenBy_trans hcreated hname a b c hab hbc
  | usernameAsc => exact hname a b c hab hbc
  | usernameDesc => exact hname c b a hbc hab
  | roleAsc => exact thenBy_trans hrole hname a b c hab hbc
  | roleDesc => exact thenBy_trans (fun a b c h h' => hrole c b a h' h) hname a b c hab hbc

/-- Rows that stand in both orders have one username. -/
theorem UserOrder.le_antisymm (order : UserOrder) {a b : Entry}
    (hab : order.le d created a b) (hba : order.le d created b a) : a.1 = b.1 := by
  have hthen : ∀ key : Entry → Entry → Bool,
      thenBy key (fun a b => d.collation.le a.1.name b.1.name) a b →
      thenBy key (fun a b => d.collation.le a.1.name b.1.name) b a →
      d.collation.le a.1.name b.1.name ∧ d.collation.le b.1.name a.1.name :=
    fun key h h' => thenBy_antisymm key (fun a b => d.collation.le a.1.name b.1.name) h h'
  have hname : d.collation.le a.1.name b.1.name ∧ d.collation.le b.1.name a.1.name := by
    cases order with
    | usernameAsc => exact ⟨hab, hba⟩
    | usernameDesc => exact ⟨hba, hab⟩
    | createdDesc => exact hthen (fun a b => decide (created b.1 ≤ created a.1)) hab hba
    | createdAsc => exact hthen (fun a b => decide (created a.1 ≤ created b.1)) hab hba
    | roleAsc => exact hthen (fun a b => d.collation.le a.2.role b.2.role) hab hba
    | roleDesc => exact hthen (fun a b => d.collation.le b.2.role a.2.role) hab hba
  have heq := d.collation.antisymm _ _ hname.1 hname.2
  rw [← Username.of_name a.1, ← Username.of_name b.1, heq]

/-- **One order.** However the database sorts, two requests see the rows in the same order. -/
theorem mergeSort_eq_of_ordered {db : Users} {filter : UserFilter} {order : UserOrder}
    {rows : List Entry} (hperm : rows.Perm (selected d db filter))
    (hordered : rows.Pairwise fun a b => order.le d created a b) :
    rows = (selected d db filter).mergeSort (order.le d created) := by
  refine List.Perm.eq_of_pairwise (fun a b ha hb hab hba => ?_) hordered
    (List.pairwise_mergeSort order.le_trans order.le_total _)
    (hperm.trans (List.mergeSort_perm _ _).symm)
  have hmem : ∀ e ∈ selected d db filter, e ∈ db.entries := fun e he => List.mem_of_mem_filter he
  exact List.NodupKeys.eq_of_fst_eq db.nodupKeys (hmem a (hperm.subset ha))
    (hmem b (List.mem_mergeSort.mp hb)) (order.le_antisymm hab hba)

end Order

/-! ## The rule in SQL and in Rust -/

theorem instr_pos_iff {needle hay : Str} : 0 < instr needle hay ↔ needle <:+: hay := by
  induction hay with
  | nil =>
    rw [instr, List.infix_nil]
    cases needle with
    | nil => simp
    | cons c needle => simp
  | cons c hay ih =>
    rw [instr, List.infix_cons_iff]
    split
    · next h => simp [List.isPrefixOf_iff_prefix.mp h]
    · next h =>
      have hno : ¬ needle <+: c :: hay := fun hp => h (List.isPrefixOf_iff_prefix.mpr hp)
      split
      · next hzero => simp [hno, ← ih, hzero]
      · next hpos =>
        simp only [hno, false_or, ← ih]
        omega

/-- The two databases. Postgres lowers texts by the rules of its locale. -/
inductive Backend where
  | sqlite (matchesTerm : Str → Str → Bool) (binary : Collation)
  | postgres (lower : Str → Str) (matchesTerm : Str → Str → Bool) (collation : Collation)
      (lower_lowercase : ∀ s : Str, s.all Char.isLower = true → lower s = s)

def Backend.dialect : Backend → Dialect
  | .sqlite matchesTerm binary => ⟨List.map Char.toLower, matchesTerm, binary⟩
  | .postgres lower matchesTerm collation _ => ⟨lower, matchesTerm, collation⟩

/-- A row as the code stores it; SQLite reads any role text the way `Role::parse` does. -/
structure Backend.Stored (b : Backend) (row : StoredUser) : Prop where
  groups : ∃ gs, row.groups = joinGroups gs
  role : match b with
    | .sqlite .. => True
    | .postgres .. => ∃ r : Role, row.role = r.asStr

theorem lower_eq_admin_iff {b : Backend} {row : StoredUser} (h : b.Stored row) :
    b.dialect.lower row.role = "admin".toList ↔ (Role.parse row.role).getD .viewer = .admin := by
  obtain ⟨-, hrole⟩ := h
  cases b with
  | sqlite =>
    have hviewer : Role.viewer.asStr.map Char.toLower = "viewer".toList := by decide
    have heditor : Role.editor.asStr.map Char.toLower = "editor".toList := by decide
    have hadmin : Role.admin.asStr.map Char.toLower = "admin".toList := by decide
    simp only [Backend.dialect, Role.parse, Str.eqIgnoreAsciiCase, hviewer, heditor, hadmin,
      decide_eq_true_eq]
    split
    · next heq =>
      rw [heq]
      decide
    · split
      · next heq =>
        rw [heq]
        decide
      · split
        · next heq => simp [heq]
        · next hne => exact ⟨fun heq => absurd heq hne, fun heq => by cases heq⟩
  | postgres lower _ _ hlower =>
    obtain ⟨r, hr⟩ := hrole
    have hfix : lower r.asStr = r.asStr := hlower r.asStr (by cases r <;> decide)
    show lower row.role = _ ↔ _
    rw [hr, hfix, Role.parse_asStr, Option.getD_some]
    cases r <;> decide

/-- One group's condition holds exactly for the members. -/
theorem instr_groups_iff {row : StoredUser} (hrow : ∃ gs, row.groups = joinGroups gs) {g : Str}
    (hg : CleanGroup g) :
    0 < instr (',' :: (g ++ [','])) (',' :: (row.groups ++ [','])) ↔
      g ∈ parseGroups row.groups := by
  obtain ⟨gs, hgs⟩ := hrow
  rw [instr_pos_iff, hgs, parseGroups_joinGroups, joinGroups]
  have hcomma : isComma ',' = true := rfl
  exact Tokens.infix_delimited_iff hcomma hg.ne_nil hg.noSep
    fun t ht => (clean_of_mem_parseGroups ht).noSep

section Visibility

variable [Unicode]

theorem clean_of_fromEditor {role : Role} {actor : Option Str} {db : Users} {g : Str}
    (h : g ∈ (EditorScope.fromEditor role actor db).groups) : CleanGroup g := by
  unfold EditorScope.fromEditor at h
  split at h
  · cases h
  · cases hfetch : actor.bind db.fetch with
    | none => simp [hfetch] at h
    | some user =>
      rw [hfetch] at h
      obtain ⟨name, -, huser⟩ := Option.bind_eq_some_iff.mp hfetch
      obtain ⟨stored, -, rfl⟩ := Users.fetch_eq_some.mp huser
      exact clean_of_mem_parseGroups h

/-- **One rule.** The condition of the query is the predicate of the handlers. -/
theorem pushVisibility_eq {b : Backend} {role : Role} {actor : Option Str} {db : Users}
    {search : Str} {username : Username} {row : StoredUser} (hrow : b.Stored row) :
    pushVisibility b.dialect
        (userFilter (EditorScope.fromEditor role actor db) search).visibleGroups row =
      (EditorScope.fromEditor role actor db).mayTouchUser (rowFrom username row) := by
  have hclean : ∀ g ∈ (EditorScope.fromEditor role actor db).groups, CleanGroup g :=
    fun _ => clean_of_fromEditor
  generalize EditorScope.fromEditor role actor db = scope at hclean
  cases hscoped : scope.unscoped with
  | true => simp [userFilter, hscoped, pushVisibility, EditorScope.mayTouchUser]
  | false =>
    rw [Bool.eq_iff_iff, EditorScope.mayTouchUser_iff hscoped]
    simp only [userFilter, hscoped, pushVisibility, Bool.false_eq_true, if_false,
      Bool.and_eq_true, decide_eq_true_eq, List.any_eq_true]
    refine and_congr (not_congr (lower_eq_admin_iff hrow)) ⟨?_, ?_⟩
    · rintro ⟨g, hg, hfound⟩
      exact ⟨g, (instr_groups_iff hrow.groups (hclean g hg)).mp hfound, hg⟩
    · rintro ⟨g, hmember, hg⟩
      exact ⟨g, hg, (instr_groups_iff hrow.groups (hclean g hg)).mpr hmember⟩

end Visibility

/-! ## All pages -/

theorem flatMap_pages {α : Type*} (l : List α) (n k : Nat) :
    (List.range k).flatMap (fun p => (l.drop (p * n)).take n) = l.take (k * n) := by
  induction k with
  | zero => simp
  | succ k ih =>
    rw [List.range_succ, List.flatMap_append, ih, List.flatMap_singleton, Nat.succ_mul,
      List.take_add]

section Pages

variable [Unicode] {d : Dialect} {db : Users} {created : Username → Nat} {order : UserOrder}

theorem listWith_perm (filter : UserFilter) :
    (listWith d db created filter order none).Perm
      ((selected d db filter).map fun e => rowFrom e.1 e.2) :=
  (List.mergeSort_perm _ _).map _

/-- The pages make up the whole list. -/
theorem flatMap_listWith (filter : UserFilter) :
    (List.range (pageCount d db filter)).flatMap (fun p =>
        listWith d db created filter order (some (usersPerPage, p * usersPerPage))) =
      listWith d db created filter order none := by
  have hcut := flatMap_pages ((selected d db filter).mergeSort (order.le d created))
    usersPerPage (pageCount d db filter)
  have hall : ((selected d db filter).mergeSort (order.le d created)).length ≤
      pageCount d db filter * usersPerPage := by
    rw [List.length_mergeSort, pageCount, countFiltered, usersPerPage]
    omega
  rw [List.take_of_length_le hall] at hcut
  simp only [listWith]
  rw [← List.map_flatMap, hcut]

theorem mem_listWith {filter : UserFilter} {page : Option (Nat × Nat)} {user : UserRow}
    (h : user ∈ listWith d db created filter order page) :
    ∃ e ∈ selected d db filter, rowFrom e.1 e.2 = user := by
  obtain ⟨e, he, rfl⟩ := List.mem_map.mp h
  refine ⟨e, ?_, rfl⟩
  cases page with
  | none => exact List.mem_mergeSort.mp he
  | some page => exact List.mem_mergeSort.mp (List.mem_of_mem_drop (List.mem_of_mem_take he))

variable {b : Backend} {role : Role} {actor : Option Str} {sessionDb : Users}

/-- The panel never fails on a row outside the scope: it shows the page it was asked for. -/
theorem index_eq (hstored : ∀ e ∈ db.entries, b.Stored e.2) (search : Str) {p : Nat}
    (hp : p < pageCount b.dialect db
      (userFilter (EditorScope.fromEditor role actor sessionDb) search.trim)) :
    index b.dialect db created (EditorScope.fromEditor role actor sessionDb) search order
        (some (p + 1 : Nat)) =
      some (listWith b.dialect db created
        (userFilter (EditorScope.fromEditor role actor sessionDb) search.trim) order
        (some (usersPerPage, p * usersPerPage))) := by
  have hpage : (max 1 (min ((p + 1 : Nat) : Int) (pageCount b.dialect db
      (userFilter (EditorScope.fromEditor role actor sessionDb) search.trim) : Nat))).toNat - 1 =
        p := by
    omega
  unfold index
  dsimp only
  rw [Option.getD_some, hpage, if_pos]
  refine List.all_eq_true.mpr fun user huser => ?_
  obtain ⟨e, he, rfl⟩ := mem_listWith huser
  obtain ⟨hentry, hkept⟩ := List.mem_filter.mp he
  rw [← pushVisibility_eq (hstored e hentry)]
  exact (Bool.and_eq_true_iff.mp hkept).2

/-- **The scoped list.** With no search text the pages together hold the accounts the caller
may touch, each once. -/
theorem pages_perm_mayTouch (b : Backend) (order : UserOrder) (created : Username → Nat)
    (role : Role) (actor : Option Str) (sessionDb db : Users)
    (hstored : ∀ e ∈ db.entries, b.Stored e.2) :
    let scope := EditorScope.fromEditor role actor sessionDb
    let filter := userFilter scope []
    let rows := (List.range (pageCount b.dialect db filter)).flatMap fun p =>
      listWith b.dialect db created filter order (some (usersPerPage, p * usersPerPage))
    rows.Perm (db.listAll.filter scope.mayTouchUser) ∧ (rows.map UserRow.username).Nodup := by
  intro scope filter rows
  have hkept : selected b.dialect db filter =
      db.entries.filter fun e => scope.mayTouchUser (rowFrom e.1 e.2) := by
    refine List.filter_congr fun e he => ?_
    have hsearch : pushSearch b.dialect filter.search.trim e.1 e.2 = true := rfl
    rw [hsearch, Bool.true_and]
    exact pushVisibility_eq (hstored e he)
  have hrows : rows.Perm ((selected b.dialect db filter).map fun e => rowFrom e.1 e.2) := by
    rw [show rows = _ from flatMap_listWith filter]
    exact listWith_perm filter
  constructor
  · refine hrows.trans ?_
    rw [hkept, Users.listAll, List.filter_map]
    exact ((List.reverse_perm _).symm.filter _).map _
  · have hkeys : ((selected b.dialect db filter).map fun e => e.1).Nodup :=
      List.NodupKeys.sublist List.filter_sublist db.nodupKeys
    have hmap := (hrows.map UserRow.username).nodup_iff
    rw [hmap, List.map_map]
    exact hkeys

end Pages

/-! ## An Editor's list -/

section Example

attribute [local instance] asciiUnicode

/-- Three accounts; the groups of one contain the name of the Editor's group. -/
def teams : Users where
  entries := [⟨Username.of "cleo".toList, ⟨[], "viewer".toList, false, "blue-ish".toList,
      none, none, none⟩⟩,
    ⟨Username.of "bob".toList, ⟨[], "viewer".toList, false, "red,blue".toList, none, none, none⟩⟩,
    ⟨Username.of "ada".toList, ⟨[], "editor".toList, false, "blue".toList, none, none, none⟩⟩]
  nodupKeys := by
    rw [List.NodupKeys]
    decide

/-- Code-point order. -/
def binary : Collation where
  le s t := decide (s ≤ t)
  total s t := by simpa using le_total s t
  trans s t u hst htu := by
    simp only [decide_eq_true_eq] at *
    exact le_trans hst htu
  antisymm s t hst hts := by
    simp only [decide_eq_true_eq] at *
    exact le_antisymm hst hts

def plainSqlite : Backend := .sqlite (fun term column => instr term column ≠ 0) binary

theorem stored_teams : ∀ e ∈ teams.entries, plainSqlite.Stored e.2 := by
  intro e he
  simp only [teams, List.mem_cons, List.not_mem_nil, or_false] at he
  rcases he with rfl | rfl | rfl
  · exact ⟨⟨["blue-ish".toList], by decide⟩, trivial⟩
  · exact ⟨⟨["red".toList, "blue".toList], by decide⟩, trivial⟩
  · exact ⟨⟨["blue".toList], by decide⟩, trivial⟩

theorem pages_perm_mayTouch_ada :
    ((List.range (pageCount plainSqlite.dialect teams (userFilter
        (EditorScope.fromEditor .editor (some "ada".toList) teams) []))).flatMap fun p =>
      listWith plainSqlite.dialect teams (fun _ => 0)
        (userFilter (EditorScope.fromEditor .editor (some "ada".toList) teams) [])
        .createdDesc (some (usersPerPage, p * usersPerPage))).Perm
      (teams.listAll.filter
        (EditorScope.fromEditor .editor (some "ada".toList) teams).mayTouchUser) :=
  (pages_perm_mayTouch plainSqlite .createdDesc (fun _ => 0) .editor (some "ada".toList) teams
    teams stored_teams).1

end Example

end Ruscker.Admin.UserPages
