import Ruscker.Admin.Groups

/-!
# Group rewrites and app access

Renaming or deleting a group rewrites users and specs one row at a time.  Row by row
the loops below amount to one map over each table, and from it follows what the
rewrite does to the access rule of every spec of the effective catalog.
-/

namespace Ruscker.Admin

open Guards Tables

variable {σ : Type} {old : Str} {new : Option Str}

/-! ## The rewrite as a map -/

theorem mem_rewriteList {groups : List Str} {g : Str} :
    g ∈ rewriteList old new groups ↔ (g ∈ groups ∧ g ≠ old) ∨ new = some g := by
  cases new with
  | none => simp [rewriteList]
  | some n => simp [rewriteList, mem_pushNew, eq_comm (a := g)]

def rewriteStored (old : Str) (new : Option Str) (row : StoredUser) : StoredUser :=
  if (parseGroups row.groups).contains old then
    { row with groups := joinGroups (rewriteList old new (parseGroups row.groups)) }
  else row

theorem rewriteUsers_eq [Unicode] (db : Users) (old : Str) (new : Option Str) :
    rewriteUsers db old new = Table.mapRows db fun _ row => rewriteStored old new row := by
  have hpass : ∀ (db' : Users) (e : Sigma fun _ : Username => StoredUser),
      (if (rowFrom e.1 e.2).groups.contains old then
        (db'.setGroups (rowFrom e.1 e.2).username.name
          (rewriteList old new (rowFrom e.1 e.2).groups)).getD db'
      else db') =
      Table.update db' e.1 fun row =>
        if (parseGroups e.2.groups).contains old then
          { row with groups := joinGroups (rewriteList old new (parseGroups e.2.groups)) }
        else row := by
    intro db' e
    unfold rowFrom
    dsimp only
    split
    · rw [Users.setGroups, Username.of_name, Table.updateWhere_getD]
    · exact (Table.update_self db' e.1).symm
  unfold rewriteUsers Users.listAll
  rw [List.foldl_map]
  simp only [hpass]
  exact Table.foldl_update_entries
    (fun _ (row current : StoredUser) => if (parseGroups row.groups).contains old then
      { current with groups := joinGroups (rewriteList old new (parseGroups row.groups)) }
      else current) (List.reverse_perm _)

@[simp] theorem rewriteSpec_id (spec : Spec σ) : (rewriteSpec old new spec).id = spec.id := by
  unfold rewriteSpec
  cases spec.accessGroups with
  | none => rfl
  | some groups =>
    dsimp only
    split <;> rfl

theorem rewriteSpec_of_not_contains {spec : Spec σ}
    (h : (spec.accessGroups.getD []).contains old = false) : rewriteSpec old new spec = spec := by
  unfold rewriteSpec
  split
  · rfl
  · next groups hgroups =>
    rw [hgroups] at h
    simp only [Option.getD_some] at h
    rw [if_neg (by simpa using h)]

theorem rewriteSpecs_table (db : Specs σ) (old : Str) (new : Option Str) :
    (rewriteSpecs db old new).table = Table.mapRows db.table fun _ => rewriteSpec old new := by
  let gated (spec : Spec σ) : Bool := (spec.accessGroups.getD []).contains old
  have hkeyed : ∀ e ∈ db.table.entries.reverse, e.2.id = e.1 := by
    rintro ⟨id, spec⟩ he
    exact db.keyed id spec (Table.mem_entries_iff.mp (List.mem_reverse.mp he))
  let pass (t : Table Str (Spec σ)) (spec : Spec σ) : Table Str (Spec σ) :=
    if gated spec then t.upsert spec.id (rewriteSpec old new spec) else t
  have hhom : db.listAll.foldl pass db.table = (rewriteSpecs db old new).table := by
    refine List.foldl_hom Specs.table fun db' spec => ?_
    simp only [pass, gated]
    split
    · simp [Specs.upsertOne]
    · rfl
  have hfold : db.listAll.foldl pass db.table =
      db.table.entries.reverse.foldl (fun t e =>
        if gated e.2 then Table.upsert t e.1 (rewriteSpec old new e.2) else t) db.table := by
    unfold Specs.listAll Table.rows
    rw [List.foldl_map]
    apply List.foldl_ext
    intro t e he
    simp only [pass]
    rw [hkeyed e he]
  rw [← hhom, hfold, Table.foldl_upsert (fun _ => gated) (fun _ => rewriteSpec old new),
    Table.foldl_update_entries (fun _ spec current =>
      if gated spec then rewriteSpec old new spec else current) (List.reverse_perm _)]
  · congr 1
    funext _ spec
    split
    · rfl
    · next h => exact (rewriteSpec_of_not_contains (by simpa [gated] using h)).symm
  · rintro ⟨id, spec⟩ he
    rw [Table.mem_entries_iff.mp (List.mem_reverse.mp he)]
    rfl

/-- The catalog keeps its order; the specs of the table are rewritten. -/
theorem effectiveSpecs_rewrite (db : Specs σ) (yaml : List (Spec σ)) :
    effectiveSpecs (rewriteSpecs db old new) yaml =
      (effectiveSpecs db yaml).map fun spec =>
        if (db.fetchOne spec.id).isSome then rewriteSpec old new spec else spec := by
  have hrows : (rewriteSpecs db old new).listAll = db.listAll.map (rewriteSpec old new) := by
    unfold Specs.listAll
    rw [rewriteSpecs_table, Table.rows_mapRows]
  have hids : (db.listAll.map (rewriteSpec old new)).map Spec.id = db.listAll.map Spec.id := by
    simp [Function.comp_def]
  unfold effectiveSpecs
  rw [hrows, hids, List.map_append]
  congr 1
  · apply List.map_congr_left
    intro spec hspec
    rw [Specs.mem_listAll.mp hspec]
    rfl
  · refine ((List.map_congr_left ?_).trans (List.map_id _)).symm
    intro spec hspec
    have hmem : spec ∈ effectiveSpecs db yaml := List.mem_append_right _ hspec
    have hshadow := (List.mem_filter.mp hspec).2
    rcases mem_effectiveSpecs.mp hmem with hrow | ⟨-, hnone⟩
    · have hin : spec.id ∈ db.listAll.map Spec.id :=
        List.mem_map_of_mem (Specs.mem_listAll.mpr hrow)
      simp [hin] at hshadow
    · simp [hnone]

/-- What the rewrite does to the names an access list holds. -/
theorem mem_accessGroups_rewriteSpec {spec : Spec σ} {g : Str} :
    g ∈ (rewriteSpec old new spec).accessGroups.getD [] ↔
      (g ∈ spec.accessGroups.getD [] ∧ g ≠ old) ∨
        (old ∈ spec.accessGroups.getD [] ∧ new = some g) := by
  by_cases hold : old ∈ spec.accessGroups.getD []
  · obtain ⟨groups, hgroups⟩ : ∃ groups, spec.accessGroups = some groups := by
      cases h : spec.accessGroups with
      | none => simp [h] at hold
      | some groups => exact ⟨groups, rfl⟩
    have hin : old ∈ groups := by simpa [hgroups] using hold
    have hlist : (rewriteSpec old new spec).accessGroups.getD [] =
        rewriteList old new groups := by
      simp only [rewriteSpec, hgroups, List.contains_iff_mem, hin, if_true]
      split
      · next hempty => simp [List.isEmpty_iff.mp hempty]
      · rfl
    rw [hlist, mem_rewriteList, hgroups]
    simp [hin]
  · rw [rewriteSpec_of_not_contains (by simpa using hold)]
    constructor
    · intro hg
      exact .inl ⟨hg, fun heq => hold (heq ▸ hg)⟩
    · rintro (⟨hg, -⟩ | ⟨hin, -⟩)
      · exact hg
      · exact absurd hin hold

@[simp] theorem rewriteSpec_accessUsers (spec : Spec σ) :
    (rewriteSpec old new spec).accessUsers = spec.accessUsers := by
  unfold rewriteSpec
  cases spec.accessGroups with
  | none => rfl
  | some groups =>
    dsimp only
    split <;> rfl

theorem mem_groups_rewriteStored (hclean : ∀ n, new = some n → CleanGroup n)
    {row : StoredUser} {g : Str} :
    g ∈ parseGroups (rewriteStored old new row).groups ↔
      (g ∈ parseGroups row.groups ∧ g ≠ old) ∨
        (old ∈ parseGroups row.groups ∧ new = some g) := by
  unfold rewriteStored
  split
  · next hin =>
    have hin : old ∈ parseGroups row.groups := by simpa using hin
    have hall : ∀ g ∈ rewriteList old new (parseGroups row.groups), CleanGroup g := by
      intro g hg
      rcases mem_rewriteList.mp hg with ⟨hg, -⟩ | hnew
      · exact clean_of_mem_parseGroups hg
      · exact hclean g hnew
    rw [mem_parseGroups_joinGroups hall, mem_rewriteList]
    simp [hin]
  · next hout =>
    have hout : old ∉ parseGroups row.groups := by simpa using hout
    constructor
    · intro hg
      exact .inl ⟨hg, fun heq => hout (heq ▸ hg)⟩
    · rintro (⟨hg, -⟩ | ⟨hin, -⟩)
      · exact hg
      · exact absurd hin hout

/-- The group is all that gates the spec. -/
def OnlyGate (group : Str) (spec : Spec σ) : Prop :=
  spec.accessUsers.getD [] = [] ∧ spec.accessGroups.getD [] ≠ [] ∧
    ∀ g ∈ spec.accessGroups.getD [], g = group

theorem isOpen_of_onlyGate {spec : Spec σ} (h : OnlyGate old spec) :
    (rewriteSpec old none spec).isOpen = true := by
  obtain ⟨husers, -, hall⟩ := h
  rw [Spec.isOpen_iff, rewriteSpec_accessUsers]
  refine ⟨List.eq_nil_iff_forall_not_mem.mpr fun g hg => ?_, husers⟩
  rcases mem_accessGroups_rewriteSpec.mp hg with ⟨hin, hne⟩ | ⟨-, hn⟩
  · exact hne (hall g hin)
  · cases hn

/-! ## Access before and after -/

section Access

variable [Unicode]

/-- Who asks for an app; anonymous viewers have no username. -/
structure Viewer where
  isAdmin : Bool
  username : Option Str

def Viewer.groups (viewer : Viewer) (db : Users) : List Str :=
  (viewer.username.bind db.fetch).elim [] UserRow.groups

/-- The access rule on the tables as they stand. -/
def mayAccess (store : Store σ) (viewer : Viewer) (spec : Spec σ) : Bool :=
  spec.accessAllows viewer.isAdmin viewer.username (viewer.groups store.users)

def SameAccess (store store' : Store σ) (before after : Spec σ) : Prop :=
  ∀ viewer, mayAccess store' viewer after = mayAccess store viewer before

def NoNewAccess (store store' : Store σ) (before after : Spec σ) : Prop :=
  ∀ viewer, mayAccess store' viewer after = true → mayAccess store viewer before = true

/-- Some user or some spec of the catalog carries the name. -/
def Carried (store : Store σ) (yaml : List (Spec σ)) (group : Str) : Prop :=
  (∃ user ∈ store.users.listAll, group ∈ user.groups) ∨
    ∃ spec ∈ effectiveSpecs store.specs yaml, group ∈ spec.accessGroups.getD []

/-- Does the spec come from the table? -/
def Stored (store : Store σ) (spec : Spec σ) : Prop := (store.specs.fetchOne spec.id).isSome

variable {store : Store σ} {yaml : List (Spec σ)} {viewer : Viewer} {spec : Spec σ}

theorem mem_groups_rewriteGroup (hclean : ∀ n, new = some n → CleanGroup n) {g : Str} :
    g ∈ viewer.groups (rewriteGroup store old new).users ↔
      (g ∈ viewer.groups store.users ∧ g ≠ old) ∨
        (old ∈ viewer.groups store.users ∧ new = some g) := by
  simp only [Viewer.groups, rewriteGroup, rewriteUsers_eq]
  cases viewer.username with
  | none => simp
  | some name =>
    simp only [Option.bind_some, Users.fetch, Table.lookup_mapRows]
    cases store.users.lookup (Username.of name) with
    | none => simp
    | some row => exact mem_groups_rewriteStored hclean

theorem not_mem_groups_of_not_carried {group : Str} (hfresh : ¬ Carried store yaml group) :
    group ∉ viewer.groups store.users := by
  unfold Viewer.groups
  cases huser : viewer.username.bind store.users.fetch with
  | none => simp
  | some user =>
    obtain ⟨name, -, hfetch⟩ := Option.bind_eq_some_iff.mp huser
    exact fun hin => hfresh (.inl ⟨user, Users.mem_listAll_of_fetch hfetch, hin⟩)

/-- A fresh name takes the place of the old one in lists and memberships alike. -/
theorem sameAccess_of_fresh {n : Str} (hclean : CleanGroup n) (hfresh : ¬ Carried store yaml n)
    (hspec : spec ∈ effectiveSpecs store.specs yaml) :
    SameAccess store (rewriteGroup store old (some n)) spec (rewriteSpec old (some n) spec) := by
  intro viewer
  have hgate : n ∉ spec.accessGroups.getD [] := fun hin => hfresh (.inr ⟨spec, hspec, hin⟩)
  have huser : n ∉ viewer.groups store.users := not_mem_groups_of_not_carried hfresh
  have hmember : ∀ g, g ∈ viewer.groups (rewriteGroup store old (some n)).users ↔
      (g ∈ viewer.groups store.users ∧ g ≠ old) ∨
        (old ∈ viewer.groups store.users ∧ some n = some g) :=
    fun g => mem_groups_rewriteGroup (by rintro m ⟨⟩; exact hclean)
  have hopen : (rewriteSpec old (some n) spec).isOpen = spec.isOpen := by
    rw [Bool.eq_iff_iff, Spec.isOpen_iff, Spec.isOpen_iff, rewriteSpec_accessUsers]
    simp only [List.eq_nil_iff_forall_not_mem, mem_accessGroups_rewriteSpec]
    refine and_congr_left fun _ => ⟨fun h g hg => ?_, fun h g hg => ?_⟩
    · by_cases heq : g = old
      · exact h n (.inr ⟨heq ▸ hg, rfl⟩)
      · exact h g (.inl ⟨hg, heq⟩)
    · rcases hg with ⟨hg, -⟩ | ⟨hin, -⟩
      · exact h g hg
      · exact h old hin
  have hshare : (∃ g ∈ (rewriteSpec old (some n) spec).accessGroups.getD [],
        g ∈ viewer.groups (rewriteGroup store old (some n)).users) ↔
      ∃ g ∈ spec.accessGroups.getD [], g ∈ viewer.groups store.users := by
    simp only [mem_accessGroups_rewriteSpec, hmember]
    constructor
    · rintro ⟨g, ⟨hg, hne⟩ | ⟨hold, ⟨⟩⟩, ⟨hg', -⟩ | ⟨hold', hnew⟩⟩
      · exact ⟨g, hg, hg'⟩
      · exact absurd (Option.some.inj hnew ▸ hg) hgate
      · exact absurd hg' huser
      · exact ⟨old, hold, hold'⟩
    · rintro ⟨g, hg, hg'⟩
      by_cases heq : g = old
      · subst heq
        exact ⟨n, .inr ⟨hg, rfl⟩, .inr ⟨hg', rfl⟩⟩
      · exact ⟨g, .inl ⟨hg, heq⟩, .inl ⟨hg', heq⟩⟩
  rw [Bool.eq_iff_iff, mayAccess, mayAccess, Spec.accessAllows_iff, Spec.accessAllows_iff, hopen,
    hshare, rewriteSpec_accessUsers]

/-- A spec that stays as it is loses members, and gains none of a name it does not list. -/
theorem noNewAccess_of_unchanged (hclean : ∀ n, new = some n → CleanGroup n)
    (hnew : ∀ n, new = some n → n ∉ spec.accessGroups.getD []) :
    NoNewAccess store (rewriteGroup store old new) spec spec := by
  intro viewer hafter
  rw [mayAccess, Spec.accessAllows_iff] at hafter ⊢
  refine hafter.imp_right (Or.imp_right (Or.imp_right ?_))
  rintro ⟨g, hg, hmember⟩
  rcases (mem_groups_rewriteGroup hclean).mp hmember with ⟨hin, -⟩ | ⟨-, hn⟩
  · exact ⟨g, hg, hin⟩
  · exact absurd hg (hnew g hn)

/-- Dropping a group from a list only opens the spec it was the only gate of. -/
theorem noNewAccess_of_dropped (h : ¬ OnlyGate old spec) :
    NoNewAccess store (rewriteGroup store old none) spec (rewriteSpec old none spec) := by
  intro viewer hafter
  rw [mayAccess, Spec.accessAllows_iff] at hafter ⊢
  rw [rewriteSpec_accessUsers] at hafter
  rcases hafter with hadmin | hopen | huser | ⟨g, hg, hmember⟩
  · exact .inl hadmin
  · right
    left
    rw [Spec.isOpen_iff, rewriteSpec_accessUsers] at hopen
    refine Spec.isOpen_iff.mpr ⟨by_contra fun hne => h ⟨hopen.2, hne, fun g hg => ?_⟩, hopen.2⟩
    by_contra hother
    have hkept : g ∈ (rewriteSpec old none spec).accessGroups.getD [] :=
      mem_accessGroups_rewriteSpec.mpr (.inl ⟨hg, hother⟩)
    rw [hopen.1] at hkept
    cases hkept
  · exact .inr (.inr (.inl huser))
  · rcases mem_accessGroups_rewriteSpec.mp hg with ⟨hg, -⟩ | ⟨-, hn⟩
    · rcases (mem_groups_rewriteGroup (by rintro n ⟨⟩)).mp hmember with ⟨hin, -⟩ | ⟨-, hn⟩
      · exact .inr (.inr (.inr ⟨g, hg, hin⟩))
      · cases hn
    · cases hn

theorem forall₂_rewrite {R : Spec σ → Spec σ → Prop}
    (hrewritten : ∀ spec ∈ effectiveSpecs store.specs yaml, Stored store spec →
      R spec (rewriteSpec old new spec))
    (hkept : ∀ spec ∈ effectiveSpecs store.specs yaml, ¬ Stored store spec → R spec spec) :
    List.Forall₂ R (effectiveSpecs store.specs yaml)
      (effectiveSpecs (rewriteGroup store old new).specs yaml) := by
  rw [rewriteGroup, effectiveSpecs_rewrite, List.forall₂_map_right_iff, List.forall₂_same]
  intro spec hspec
  split
  · next h => exact hrewritten spec hspec h
  · next h => exact hkept spec hspec h

/-- A rename to a fresh name rewrites the table along with its members; a YAML spec that
lists the old name is not rewritten and loses them. -/
theorem renameGroup_access {scope : EditorScope} {form : RenameForm} {store' : Store σ}
    (hrename : renameGroup scope store form = .ok store')
    (hfresh : ¬ Carried store yaml form.new.trim) :
    List.Forall₂
      (fun before after => after.id = before.id ∧ NoNewAccess store store' before after ∧
        (Stored store before ∨ form.old.trim ∉ before.accessGroups.getD [] →
          SameAccess store store' before after))
      (effectiveSpecs store.specs yaml) (effectiveSpecs store'.specs yaml) := by
  simp only [renameGroup, accepted_bind, accepted_ensure, accepted_getOr, accepted_pure]
    at hrename
  obtain ⟨-, -, old, hold, n, hn, rfl⟩ := hrename
  obtain ⟨rfl, -⟩ := cleanGroup_eq_some hold
  obtain ⟨rfl, hclean⟩ := cleanGroup_eq_some hn
  split
  · exact List.forall₂_same.mpr fun spec _ => ⟨rfl, fun _ h => h, fun _ _ => rfl⟩
  have hsame : ∀ spec ∈ effectiveSpecs store.specs yaml,
      SameAccess store (rewriteGroup store form.old.trim (some form.new.trim)) spec
        (rewriteSpec form.old.trim (some form.new.trim) spec) :=
    fun spec hspec => sameAccess_of_fresh hclean hfresh hspec
  refine forall₂_rewrite ?_ ?_
  · intro spec hspec _
    have hspecSame := hsame spec hspec
    exact ⟨rewriteSpec_id spec, fun viewer h => (hspecSame viewer).symm.trans h,
      fun _ => hspecSame⟩
  · intro spec hspec hyaml
    have hgate : form.new.trim ∉ spec.accessGroups.getD [] :=
      fun hin => hfresh (.inr ⟨spec, hspec, hin⟩)
    refine ⟨rfl, noNewAccess_of_unchanged (by rintro m ⟨⟩; exact hclean)
      (by rintro m ⟨⟩; exact hgate), ?_⟩
    rintro (hstored | hunlisted)
    · exact absurd hstored hyaml
    · have hspecSame := hsame spec hspec
      rwa [rewriteSpec_of_not_contains (by simpa using hunlisted)] at hspecSame

theorem deleteGroup_access {scope : EditorScope} {name : Str} {store' : Store σ}
    (hdelete : deleteGroup scope store name = .ok store') :
    List.Forall₂
      (fun before after => after.id = before.id ∧
        (¬ (Stored store before ∧ OnlyGate name.trim before) →
          NoNewAccess store store' before after) ∧
        (Stored store before ∧ OnlyGate name.trim before → after.isOpen = true))
      (effectiveSpecs store.specs yaml) (effectiveSpecs store'.specs yaml) := by
  simp only [deleteGroup, accepted_bind, accepted_ensure, accepted_getOr, accepted_pure]
    at hdelete
  obtain ⟨-, -, group, hgroup, rfl⟩ := hdelete
  obtain ⟨rfl, -⟩ := cleanGroup_eq_some hgroup
  refine forall₂_rewrite ?_ ?_
  · intro spec _ hstored
    refine ⟨rewriteSpec_id spec, fun hother => ?_, fun h => isOpen_of_onlyGate h.2⟩
    exact noNewAccess_of_dropped fun honly => hother ⟨hstored, honly⟩
  · intro spec _ hyaml
    refine ⟨rfl, fun _ => ?_, fun h => absurd h.1 hyaml⟩
    exact noNewAccess_of_unchanged (by rintro m ⟨⟩) (by rintro m ⟨⟩)

/-- **Group routes and app access.** A rename to a fresh name keeps the access to every
spec of the table and to every YAML spec that does not list the old name; the other
YAML specs are not rewritten and lose its members.  A deletion grants nothing, except
that a stored spec gated by nothing else is left open. -/
theorem groupRoutes_access (scope : EditorScope) (store : Store σ) (yaml : List (Spec σ)) :
    (∀ form store', renameGroup scope store form = .ok store' →
      ¬ Carried store yaml form.new.trim →
      List.Forall₂
        (fun before after => after.id = before.id ∧ NoNewAccess store store' before after ∧
          (Stored store before ∨ form.old.trim ∉ before.accessGroups.getD [] →
            SameAccess store store' before after))
        (effectiveSpecs store.specs yaml) (effectiveSpecs store'.specs yaml)) ∧
    (∀ name store', deleteGroup scope store name = .ok store' →
      List.Forall₂
        (fun before after => after.id = before.id ∧
          (¬ (Stored store before ∧ OnlyGate name.trim before) →
            NoNewAccess store store' before after) ∧
          (Stored store before ∧ OnlyGate name.trim before → after.isOpen = true))
        (effectiveSpecs store.specs yaml) (effectiveSpecs store'.specs yaml)) := by
  constructor
  · intro form store' hrename hfresh
    exact renameGroup_access hrename hfresh
  · intro name store' hdelete
    exact deleteGroup_access hdelete

end Access

/-! ## One gate, and one spec outside the table -/

section Green

attribute [local instance] asciiUnicode

def report : Spec Unit := ⟨"report".toList, some ["green".toList], none, ()⟩

def wiki : Spec Unit := ⟨"wiki".toList, some ["green".toList], none, ()⟩

/-- One member of `green`; the group gates one app of the table and one of the YAML. -/
def greenStore : Store Unit where
  users := AList.insert (Username.of "gil".toList)
    ⟨"hash".toList, "viewer".toList, false, "green".toList, none, none, none⟩ ∅
  specs := Specs.empty.upsertOne report

def anAdmin : EditorScope := ⟨.admin, some "ada".toList, [], true⟩

def toTeal : RenameForm := ⟨"green".toList, "teal".toList⟩

theorem greenStore_after (new : Option Str) :
    effectiveSpecs greenStore.specs [wiki] = [report, wiki] ∧
      effectiveSpecs (rewriteGroup greenStore "green".toList new).specs [wiki] =
        [rewriteSpec "green".toList new report, wiki] := by
  rw [rewriteGroup, effectiveSpecs_rewrite]
  exact ⟨by decide, rfl⟩

theorem toTeal_fresh : ¬ Carried greenStore [wiki] toTeal.new.trim := by
  rintro (h | h) <;> revert h <;> decide

/-- Neither half holds without its exception. -/
theorem green_rewritten :
    (¬ ∀ form store', renameGroup anAdmin greenStore form = .ok store' →
        ¬ Carried greenStore [wiki] form.new.trim →
        List.Forall₂ (SameAccess greenStore store') (effectiveSpecs greenStore.specs [wiki])
          (effectiveSpecs store'.specs [wiki])) ∧
      ¬ ∀ name store', deleteGroup anAdmin greenStore name = .ok store' →
        List.Forall₂ (NoNewAccess greenStore store') (effectiveSpecs greenStore.specs [wiki])
          (effectiveSpecs store'.specs [wiki]) := by
  constructor
  · intro hclaim
    have h := hclaim toTeal (rewriteGroup greenStore "green".toList (some "teal".toList)) rfl
      toTeal_fresh
    rw [(greenStore_after (some "teal".toList)).1, (greenStore_after _).2] at h
    cases h with
    | cons _ h =>
      cases h with
      | cons hwiki _ => exact absurd (hwiki ⟨false, some "gil".toList⟩) (by decide)
  · intro hclaim
    have h := hclaim "green".toList (rewriteGroup greenStore "green".toList none) rfl
    rw [(greenStore_after none).1, (greenStore_after _).2] at h
    cases h with
    | cons hreport _ => exact absurd (hreport ⟨false, none⟩) (by decide)

theorem groupRoutes_access_green :
    SameAccess greenStore (rewriteGroup greenStore "green".toList (some "teal".toList)) report
        (rewriteSpec "green".toList (some "teal".toList) report) ∧
      (rewriteSpec "green".toList none report).isOpen = true ∧
      NoNewAccess greenStore (rewriteGroup greenStore "green".toList none) wiki wiki := by
  have hrename := (groupRoutes_access anAdmin greenStore [wiki]).1 toTeal
    (rewriteGroup greenStore "green".toList (some "teal".toList)) rfl toTeal_fresh
  have hdelete := (groupRoutes_access anAdmin greenStore [wiki]).2 "green".toList
    (rewriteGroup greenStore "green".toList none) rfl
  rw [(greenStore_after (some "teal".toList)).1, (greenStore_after _).2] at hrename
  rw [(greenStore_after none).1, (greenStore_after _).2] at hdelete
  cases hrename with
  | cons hreport _ =>
    cases hdelete with
    | cons hopen hrest =>
      cases hrest with
      | cons hwiki _ =>
        have hyaml : ¬ Stored greenStore wiki := by
          unfold Stored
          decide
        refine ⟨hreport.2.2 (.inl (by unfold Stored; decide)), hopen.2.2 ⟨?_, ?_⟩,
          hwiki.2.1 fun h => hyaml h.1⟩
        · unfold Stored
          decide
        · exact ⟨rfl, by decide, by decide⟩

end Green

end Ruscker.Admin
