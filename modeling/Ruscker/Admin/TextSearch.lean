import Ruscker.Admin.UserPages
import Ruscker.Lib.Journal
import Ruscker.Lib.Like

/-!
# Searches by `LIKE`

The user list is searched for a text that is escaped before it becomes a pattern.  The audit
log puts its text into a pattern as it is.  The two databases fold case in ways of their own.
-/

namespace Ruscker.Admin.TextSearch

open Like UserPages

/-! ## `LIKE` of the databases -/

def sqlSymbols (escape : Option Char) : Symbols Char := ⟨'%', '_', escape⟩

/-- `column LIKE pattern` for characters that are equal when folded; an error is no match. -/
def like (escape : Option Char) (fold : Char → Char) (column pattern : Str) : Bool :=
  (items (sqlSymbols escape) false pattern).elim false fun pattern =>
    matchesBy (fun a b => decide (fold a = fold b)) pattern column

/-- `column ILIKE pattern` on Postgres: both texts are folded by the rules of the locale. -/
def ilike (fold : Char → Char) (column pattern : Str) : Bool :=
  like (some '\\') id (column.map fold) (pattern.map fold)

/-- A text occurs in another when both are folded. -/
def Within (fold : Char → Char) (text column : Str) : Prop := text.map fold <:+: column.map fold

instance (fold : Char → Char) (text column : Str) : Decidable (Within fold text column) :=
  inferInstanceAs (Decidable (_ <:+: _))

theorem like_of_items {escape : Option Char} {fold : Char → Char} {text column pattern : Str}
    (h : items (sqlSymbols escape) false pattern = some (.any :: (text.map .lit ++ [.any]))) :
    like escape fold column pattern = true ↔ Within fold text column := by
  rw [like, h, Option.elim_some, matchesBy_around, Within, ← exists_infix_fold]
  simp only [forall₂_fold]

/-! ## The user search -/

def likePattern (term : Str) : Str :=
  '%' :: ((term.flatMap fun c =>
    if c = '%' || c = '_' || c = '\\' then ['\\', c] else [c]) ++ ['%'])

/-- The term in lower case and in upper case, on SQLite, which folds ASCII letters. -/
def sqliteMatches [Unicode] (toUppercase : Str → Str) (term column : Str) : Bool :=
  like (some '\\') Char.toLower column (likePattern (Unicode.toLowercase term)) ||
    like (some '\\') Char.toLower column (likePattern (toUppercase term))

def postgresMatches (fold : Char → Char) (term column : Str) : Bool :=
  ilike fold column (likePattern term)

theorem special_sqlSymbols (c : Char) :
    special (sqlSymbols (some '\\')) c = (c = '%' || c = '_' || c = '\\') := by
  show (decide (c = '%') || decide (c = '_') || decide (some '\\' = some c)) = _
  congr 1
  exact decide_eq_decide.mpr ⟨fun h => (Option.some.inj h).symm, fun h => by rw [h]⟩

/-- The pattern of a term is the term between two wildcards, whatever stands in it. -/
theorem items_likePattern (term : Str) :
    items (sqlSymbols (some '\\')) false (likePattern term) =
      some (.any :: (term.map .lit ++ [.any])) := by
  have hend : items (sqlSymbols (some '\\')) false ['%'] = some [.any] := rfl
  have hescape : (sqlSymbols (some '\\')).escape = some '\\' := rfl
  have hterm := items_escaped hescape term ['%']
  simp only [special_sqlSymbols] at hterm
  rw [likePattern, items, if_neg (by decide), hterm, hend]
  rfl

theorem sqliteMatches_iff [Unicode] (toUppercase : Str → Str) (term column : Str) :
    sqliteMatches toUppercase term column = true ↔
      Within Char.toLower (Unicode.toLowercase term) column ∨
        Within Char.toLower (toUppercase term) column := by
  rw [sqliteMatches, Bool.or_eq_true, like_of_items (items_likePattern _),
    like_of_items (items_likePattern _)]

/-- A folding that leaves the symbols of patterns alone. -/
def KeepsSymbols (fold : Char → Char) : Prop :=
  ∀ c, (fold c = '%' ↔ c = '%') ∧ (fold c = '_' ↔ c = '_') ∧ (fold c = '\\' ↔ c = '\\')

theorem map_likePattern {fold : Char → Char} (h : KeepsSymbols fold) (term : Str) :
    (likePattern term).map fold = likePattern (term.map fold) := by
  have hpercent : fold '%' = '%' := (h '%').1.mpr rfl
  have hslash : fold '\\' = '\\' := (h '\\').2.2.mpr rfl
  have hchar : ∀ c, (if c = '%' || c = '_' || c = '\\' then ['\\', c] else [c]).map fold =
      if fold c = '%' || fold c = '_' || fold c = '\\' then ['\\', fold c] else [fold c] := by
    intro c
    simp only [(h c).1, (h c).2.1, (h c).2.2]
    split <;> simp [hslash]
  simp only [likePattern, List.map_cons, List.map_append, List.map_nil, hpercent,
    List.map_flatMap, List.flatMap_map, hchar]

theorem postgresMatches_iff {fold : Char → Char} (h : KeepsSymbols fold) (term column : Str) :
    postgresMatches fold term column = true ↔ Within fold term column := by
  rw [postgresMatches, ilike, map_likePattern h, like_of_items (items_likePattern _), Within,
    Within, List.map_id, List.map_id]

/-! ## ASCII texts -/

def isAscii (s : Str) : Bool := s.all fun c => c.toNat < 128

/-- What a database is known to do with ASCII texts. -/
inductive Searches [Unicode] : Backend → Prop
  | sqlite (toUppercase : Str → Str) (binary : Collation)
      (hupper : ∀ s, isAscii s = true → toUppercase s = s.map Char.toUpper) :
      Searches (.sqlite (sqliteMatches toUppercase) binary)
  | postgres (lower : Str → Str) (fold : Char → Char) (collation : Collation)
      (hlower : ∀ s : Str, s.all Char.isLower = true → lower s = s) (hkeeps : KeepsSymbols fold)
      (hfold : ∀ c : Char, c.toNat < 128 → fold c = c.toLower) :
      Searches (.postgres lower (postgresMatches fold) collation hlower)

theorem toNat_toUpper (c : Char) :
    c.toUpper.toNat = if 97 ≤ c.toNat ∧ c.toNat ≤ 122 then c.toNat - 32 else c.toNat := by
  unfold Char.toUpper
  split
  · next h =>
    have hlow : 97 ≤ c.toNat := h.1
    have hhigh : c.toNat ≤ 122 := h.2
    rw [if_pos ⟨hlow, hhigh⟩]
    have hval : c.val.toNat = c.toNat := rfl
    show (c.val + ('A'.val - 'a'.val)).toNat = c.toNat - 32
    rw [UInt32.toNat_add]
    simp
    omega
  · next h =>
    rw [if_neg]
    exact fun hrange => h hrange

theorem toLower_toUpper (c : Char) : c.toUpper.toLower = c.toLower := by
  apply Char.toNat_inj.mp
  rw [toNat_toLower, toNat_toLower, toNat_toUpper]
  split_ifs <;> omega

theorem map_fold_of_isAscii {fold : Char → Char}
    (hfold : ∀ c : Char, c.toNat < 128 → fold c = c.toLower) {s : Str} (h : isAscii s = true) :
    s.map fold = s.map Char.toLower :=
  List.map_congr_left fun c hc => hfold c (Str.forall_mem_of_all h c hc)

/-- **One search.** On ASCII texts both databases look for the term up to case. -/
theorem matchesTerm_iff [UnicodeAscii] {b : Backend} (hb : Searches b) {term column : Str}
    (hterm : isAscii term = true) (hcolumn : isAscii column = true) :
    b.dialect.matchesTerm term column = true ↔ Within Char.toLower term column := by
  cases hb with
  | sqlite toUppercase binary hupper =>
    have hlow : Within Char.toLower (Unicode.toLowercase term) column ↔
        Within Char.toLower term column := by
      rw [UnicodeAscii.toLowercase_ascii term hterm, Within, List.map_map]
      simp only [Function.comp_def, toLower_toLower, Within]
    have hup : Within Char.toLower (toUppercase term) column ↔
        Within Char.toLower term column := by
      rw [hupper term hterm, Within, List.map_map]
      simp only [Function.comp_def, toLower_toUpper, Within]
    show sqliteMatches toUppercase term column = true ↔ _
    rw [sqliteMatches_iff, hlow, hup, or_self]
  | postgres lower fold collation hlower hkeeps hfold =>
    show postgresMatches fold term column = true ↔ _
    rw [postgresMatches_iff hkeeps, Within, map_fold_of_isAscii hfold hterm,
      map_fold_of_isAscii hfold hcolumn, Within]

section Found

variable [Unicode]

/-- The columns of an account that are searched. -/
def columns (e : Entry) : List Str :=
  [e.1.name, e.2.groups, e.2.setor.getD [], e.2.email.getD [], e.2.celular.getD []]

/-- The accounts a search is meant to find: a blank text asks for all of them. -/
def Found (search : Str) (e : Entry) : Prop :=
  search.trim = [] ∨ ∃ column ∈ columns e, Within Char.toLower search.trim column

instance (search : Str) (e : Entry) : Decidable (Found search e) :=
  inferInstanceAs (Decidable (_ ∨ _))

end Found

theorem isAscii_trim {s : Str} (h : isAscii s = true) : isAscii s.trim = true := by
  have hsub : ∀ c ∈ s.trim, c ∈ s := by
    intro c hc
    unfold Str.trim Tokens.trim at hc
    exact (List.dropWhile_suffix _).mem ((List.rdropWhile_prefix _ _).mem hc)
  exact List.all_eq_true.mpr fun c hc => List.all_eq_true.mp h c (hsub c hc)

theorem pushSearch_iff [UnicodeAscii] {b : Backend} (hb : Searches b) {search : Str}
    (hsearch : isAscii search = true) {e : Entry}
    (hcolumns : ∀ column ∈ columns e, isAscii column = true) :
    pushSearch b.dialect search.trim e.1 e.2 = true ↔ Found search e := by
  rw [pushSearch, Bool.or_eq_true, List.isEmpty_iff, List.any_eq_true, Found]
  refine or_congr_right (exists_congr fun column => and_congr_right fun hmem => ?_)
  exact matchesTerm_iff hb (isAscii_trim hsearch) (hcolumns column hmem)

section Pages

variable [UnicodeAscii]

end Pages

section Example

attribute [local instance] asciiUnicodeAscii

def stocked : Users where
  entries := [⟨Username.of ['a'], ⟨[], ['v', 'i', 'e', 'w', 'e', 'r'], false, [],
      some ['5', '%', '_', 'B'], none, none⟩⟩,
    ⟨Username.of ['b'], ⟨[], ['v', 'i', 'e', 'w', 'e', 'r'], false, [],
      some ['5', 'x', 'y', 'B'], none, none⟩⟩]
  nodupKeys := by
    rw [List.NodupKeys]
    decide

def foldingSqlite : Backend := .sqlite (sqliteMatches (List.map Char.toUpper)) binary

theorem searches_foldingSqlite : Searches foldingSqlite := .sqlite _ _ fun _ _ => rfl

theorem stored_stocked : ∀ e ∈ stocked.entries, foldingSqlite.Stored e.2 := by
  intro e he
  simp only [stocked, List.mem_cons, List.not_mem_nil, or_false] at he
  rcases he with rfl | rfl
  · exact ⟨⟨[], rfl⟩, trivial⟩
  · exact ⟨⟨[], rfl⟩, trivial⟩

theorem isAscii_stocked : ∀ e ∈ stocked.entries, ∀ column ∈ columns e, isAscii column = true := by
  intro e he
  simp only [stocked, List.mem_cons, List.not_mem_nil, or_false] at he
  rcases he with rfl | rfl
  · exact List.all_eq_true.mp (by decide)
  · exact List.all_eq_true.mp (by decide)

end Example

/-! ## The audit log -/

inductive ActionFamily where
  | spec
  | image
  | credential
  | landing

def ActionFamily.parse (s : Str) : Option ActionFamily :=
  if s = ['s', 'p', 'e', 'c'] then some .spec
  else if s = ['i', 'm', 'a', 'g', 'e'] then some .image
  else if s = ['c', 'r', 'e', 'd', 'e', 'n', 't', 'i', 'a', 'l'] then some .credential
  else if s = ['l', 'a', 'n', 'd', 'i', 'n', 'g'] then some .landing
  else none

def ActionFamily.asPrefix : ActionFamily → Str
  | .spec => ['s', 'p', 'e', 'c', '.']
  | .image => ['i', 'm', 'a', 'g', 'e', '.']
  | .credential => ['c', 'r', 'e', 'd', 'e', 'n', 't', 'i', 'a', 'l', '.']
  | .landing => ['l', 'a', 'n', 'd', 'i', 'n', 'g', '.']

structure AuditFilter where
  family : Option ActionFamily
  targetContains : Option Str
  actor : Option Str
  limit : Int

structure AuditRow where
  id : Nat
  actor : Option Str
  action : Str
  target : Option Str
  diffJson : Option Str
  occurredAt : Nat

/-- A row as the page shows it, its diff parsed. -/
structure AuditEntry (β : Type) where
  id : Nat
  actor : Option Str
  action : Str
  target : Option Str
  diff : Option β
  occurredAt : Nat
  deriving DecidableEq

/-- The table, whose ids are a key; nothing deletes from it. -/
structure AuditLog where
  rows : List AuditRow
  nodup : (rows.map AuditRow.id).Nodup

inductive Database where
  | sqlite
  | postgres

/-- Without an `ESCAPE` a pattern has one on Postgres only. -/
def Database.escape : Database → Option Char
  | .sqlite => none
  | .postgres => some '\\'

def Database.fold : Database → Char → Char
  | .sqlite => Char.toLower
  | .postgres => id

variable (d : Database)

def Database.like (column pattern : Str) : Bool := TextSearch.like d.escape d.fold column pattern

/-- The conditions of `push_filters`; a row without a target is like no pattern. -/
def pushFilters (filter : AuditFilter) (row : AuditRow) : Bool :=
  (filter.family.all fun family => d.like row.action (family.asPrefix ++ ['%'])) &&
  (filter.targetContains.all fun text =>
    row.target.any fun target => d.like target ('%' :: (text ++ ['%']))) &&
  (filter.actor.all fun actor => decide (row.actor = some actor))

section List

variable {β : Type} (fromStr : Str → Option β)

def AuditRow.entry (row : AuditRow) : AuditEntry β where
  id := row.id
  actor := row.actor
  action := row.action
  target := row.target
  diff := row.diffJson.bind fromStr
  occurredAt := row.occurredAt

/-- `ORDER BY id DESC`. -/
def newestFirst (rows : List AuditRow) : List AuditRow :=
  rows.mergeSort fun a b => decide (b.id ≤ a.id)

def AuditFilter.rowLimit (filter : AuditFilter) : Nat := (max 1 (min filter.limit 1000)).toNat

def list (log : AuditLog) (filter : AuditFilter) : List (AuditEntry β) :=
  ((newestFirst (log.rows.filter (pushFilters d filter))).take filter.rowLimit).map
    (AuditRow.entry fromStr)

def emptyToNone (s : Str) : Option Str := if s.trim.isEmpty then none else some s.trim

/-- The filter of the page: the three fields of its form, and a hundred rows. -/
def auditFilter (family target actor : Str) : AuditFilter :=
  ⟨ActionFamily.parse family, emptyToNone target, emptyToNone actor, 100⟩

end List

/-- What the filter is meant to keep: a family, a text in the target and an actor. -/
structure Keeps (filter : AuditFilter) (row : AuditRow) : Prop where
  family : ∀ family ∈ filter.family, family.asPrefix.map d.fold <+: row.action.map d.fold
  target : ∀ text ∈ filter.targetContains, ∃ target ∈ row.target, Within d.fold text target
  actor : ∀ actor ∈ filter.actor, row.actor = some actor

instance (filter : AuditFilter) (row : AuditRow) : Decidable (Keeps d filter row) :=
  decidable_of_iff (_ ∧ _ ∧ _) ⟨fun h => ⟨h.1, h.2.1, h.2.2⟩, fun h => ⟨h.1, h.2, h.3⟩⟩

/-- A text without symbols of patterns. -/
def Database.Plain (text : Str) : Prop := ∀ c ∈ text, special (sqlSymbols d.escape) c = false

variable {d}

theorem items_percent : items (sqlSymbols d.escape) false ['%'] = some [.any] := by
  cases d <;> rfl

theorem like_beginning {text column : Str} (h : d.Plain text) :
    d.like column (text ++ ['%']) = true ↔ text.map d.fold <+: column.map d.fold := by
  rw [Database.like, TextSearch.like, items_plain h, items_percent, Option.map_some,
    Option.elim_some, matchesBy_beginning, ← exists_prefix_fold]
  simp only [forall₂_fold]

theorem like_within {text column : Str} (h : d.Plain text) :
    d.like column ('%' :: (text ++ ['%'])) = true ↔ Within d.fold text column := by
  apply like_of_items
  have hpercent := @items_plain Char _ (sqlSymbols d.escape) text h ['%']
  have hescape : (sqlSymbols d.escape).escape ≠ some '%' := by cases d <;> decide
  rw [items, if_neg hescape, hpercent, items_percent]
  rfl

theorem plain_asPrefix (family : ActionFamily) : d.Plain family.asPrefix := by
  have hall : (family.asPrefix.all fun c =>
      decide (special (sqlSymbols d.escape) c = false)) = true := by
    cases d <;> cases family <;> decide
  exact Str.forall_mem_of_all hall

theorem pushFilters_iff {filter : AuditFilter}
    (hplain : ∀ text ∈ filter.targetContains, d.Plain text) {row : AuditRow} :
    pushFilters d filter row = true ↔ Keeps d filter row := by
  rw [pushFilters, Bool.and_eq_true, Bool.and_eq_true, Option.all_eq_true, Option.all_eq_true,
    Option.all_eq_true]
  simp only [Option.any_eq_true, like_beginning (plain_asPrefix _), decide_eq_true_eq]
  constructor
  · rintro ⟨⟨hfamily, htarget⟩, hactor⟩
    refine ⟨hfamily, fun text htext => ?_, hactor⟩
    obtain ⟨target, heq, hlike⟩ := htarget text htext
    exact ⟨target, heq, (like_within (hplain text htext)).mp hlike⟩
  · rintro ⟨hfamily, htarget, hactor⟩
    refine ⟨⟨hfamily, fun text htext => ?_⟩, hactor⟩
    obtain ⟨target, heq, hwithin⟩ := htarget text htext
    exact ⟨target, heq, (like_within (hplain text htext)).mpr hwithin⟩

theorem newestFirst_pairwise (log : AuditLog) (p : AuditRow → Bool) :
    (newestFirst (log.rows.filter p)).Pairwise fun a b => b.id < a.id := by
  have hle : (newestFirst (log.rows.filter p)).Pairwise
      fun a b => decide (b.id ≤ a.id) = true :=
    List.pairwise_mergeSort (fun a b c hab hbc => by simp at *; omega)
      (fun a b => by simp; omega) _
  have hne : (newestFirst (log.rows.filter p)).Pairwise fun a b => a.id ≠ b.id := by
    have hkept : ((log.rows.filter p).map AuditRow.id).Nodup :=
      log.nodup.sublist (List.filter_sublist.map _)
    rw [← List.pairwise_map (f := AuditRow.id) (R := (· ≠ ·))]
    exact ((List.mergeSort_perm _ _).map AuditRow.id).nodup_iff.mpr hkept
  refine (hle.and hne).imp fun {a b} h => ?_
  have hidle : b.id ≤ a.id := of_decide_eq_true h.1
  have hidne := h.2
  omega

def auditedSales : AuditLog where
  rows := [⟨1, none, ['s', 'p', 'e', 'c', '.', 'a'], some ['s', ':', 'Q', '1'], none, 5⟩,
    ⟨2, none, ['s', 'p', 'e', 'c', '.', 'b'], some ['s', ':', 'q', '1'], none, 6⟩,
    ⟨3, none, ['i', 'm', 'a', 'g', 'e', '.', 'a'], some ['i', ':', 'q', '1'], none, 7⟩]
  nodup := by decide

end Ruscker.Admin.TextSearch
