import Ruscker.Admin.Users
import Ruscker.Lib.Csv

/-!
# The user table as CSV

The export writes one record a line with the groups joined by semicolons inside a field,
and leaves the password column empty.  The import reads the file line by line, finds the
columns by their header, and splits the groups at semicolons and commas.
-/

namespace Ruscker.Admin.UserCsv

/-! ## The export -/

/-- A UTC time by its calendar fields. -/
structure DateTime where
  year : Nat
  month : Nat
  day : Nat
  hour : Nat
  minute : Nat
  second : Nat

def padded (width n : Nat) : Str :=
  List.replicate (width - (Nat.toDigits 10 n).length) '0' ++ Nat.toDigits 10 n

/-- `%Y-%m-%dT%H:%M:%SZ`; a year of more than four digits carries a sign. -/
def DateTime.format (t : DateTime) : Str :=
  (if 9999 < t.year then ['+'] else []) ++ padded 4 t.year ++ '-' :: padded 2 t.month ++
    '-' :: padded 2 t.day ++ 'T' :: padded 2 t.hour ++ ':' :: padded 2 t.minute ++
    ':' :: padded 2 t.second ++ ['Z']

def exportColumns : List Str :=
  ["username".toList, "role".toList, "password".toList, "groups".toList, "setor".toList,
    "email".toList, "celular".toList, "created_at".toList]

/-- What a spreadsheet would take for a formula, or for the guard itself. -/
def csvNeedsGuard (value : Str) : Bool :=
  value.head?.any fun c =>
    c = '=' || c = '+' || c = '-' || c = '@' || c = '\t' || c = '\r' || c = '\''

def csvUnguard : Str → Str
  | '\'' :: rest => if csvNeedsGuard rest then rest else '\'' :: rest
  | value => value

def needsQuotes (c : Char) : Bool := c = ',' || c = '"' || c = '\n' || c = '\r'

def guarded (value : Str) : Str := if csvNeedsGuard value then '\'' :: value else value

def csvField (value : Str) (guardFormula : Bool) : Str :=
  Csv.field needsQuotes '"' (if guardFormula then guarded value else value)

section

variable [Unicode]

/-- A row of the export: the account and its creation time. -/
structure ExportRow where
  user : UserRow
  createdAt : DateTime

/-- One record, with the given text in the password column. -/
def csvRecord (u : ExportRow) (password : Str) : Str :=
  [','].intercalate [csvField u.user.username.name false, csvField u.user.role.asStr false,
    password, csvField ([';'].intercalate u.user.groups) true,
    csvField (u.user.setor.getD []) true, csvField (u.user.email.getD []) true,
    csvField (u.user.celular.getD []) true, csvField u.createdAt.format false]

def csvText (records : List (ExportRow × Str)) : Str :=
  [','].intercalate exportColumns ++ '\n' :: records.flatMap fun r => csvRecord r.1 r.2 ++ ['\n']

def usersCsv (rows : List ExportRow) : Str := csvText (rows.map fun u => (u, []))

/-! ## The import -/

/-- A parsed record and its validation; `none` for an importable one. -/
structure CsvRow where
  lineNo : Nat
  username : Str
  role : Role
  password : Str
  groups : List Str
  setor : Str
  email : Str
  celular : Str
  error : Option String

def splitCsvLine (line : Str) : List Str := (Csv.split ',' '"' false [] line).map Str.trim

/-- `str::lines`; a carriage return in front of the line break belongs to it. -/
def linesFrom (cur : Str) : Str → List Str
  | [] => if cur.isEmpty then [] else [cur]
  | c :: rest =>
    if c = '\n' then
      (if cur.getLast? = some '\r' then cur.dropLast else cur) :: linesFrom [] rest
    else linesFrom (cur ++ [c]) rest

/-- Neither blank nor a comment. -/
def isRecord (line : Str) : Bool :=
  !line.trim.isEmpty && (line.dropWhile isWhitespace).head? ≠ some '#'

/-- Where the header has the columns. -/
structure Columns where
  user : Nat
  role : Option Nat
  pass : Option Nat
  groups : Option Nat
  setor : Option Nat
  email : Option Nat
  celular : Option Nat
  deriving DecidableEq

def columns (header : List Str) : Option Columns :=
  let col (name : String) := header.findIdx? fun h => h = name.toList
  (col "username").map fun user =>
    ⟨user, col "role", col "password", col "groups", col "setor", col "email", col "celular"⟩

def getField (fields : List Str) (i : Option Nat) : Str := (i.bind fun i => fields[i]?).getD []

def csvRow (cols : Columns) (lineNo : Nat) (line : Str) : CsvRow :=
  let fields := splitCsvLine line
  let username := normalizeUsername (getField fields (some cols.user))
  let password := getField fields cols.pass
  let roleRaw := getField fields cols.role
  let role := Role.parse (Unicode.toLowercase roleRaw)
  { lineNo := lineNo + 1
    username
    role := role.getD .viewer
    password
    -- the comma is the delimiter, so groups inside a field are separated by semicolons
    groups := parseGroups ((csvUnguard (getField fields cols.groups)).map fun c =>
      if c = ';' then ',' else c)
    setor := csvUnguard (getField fields cols.setor)
    email := csvUnguard (getField fields cols.email)
    celular := csvUnguard (getField fields cols.celular)
    error :=
      if !isValidUsername username then some "bad-username"
      else if !passwordMeetsPolicy password then some "bad-password"
      else if !roleRaw.isEmpty && role.isNone then some "bad-role"
      else none }

def parseCsvUsers (body : Str) : Except String (List CsvRow) :=
  match (linesFrom [] body).zipIdx.filter fun l => isRecord l.1 with
  | [] => .error "empty-csv"
  | header :: rest =>
    match columns ((splitCsvLine header.1).map Unicode.toLowercase) with
    | none => .error "no-username-column"
    | some cols => .ok (rest.map fun l => csvRow cols l.2 l.1)

end

/-! ## Lines -/

theorem linesFrom_line {line : Str} (hline : '\n' ∉ line) (cur rest : Str) :
    linesFrom cur (line ++ '\n' :: rest) =
      (if (cur ++ line).getLast? = some '\r' then (cur ++ line).dropLast else cur ++ line) ::
        linesFrom [] rest := by
  induction line generalizing cur with
  | nil => simp [linesFrom]
  | cons c line ih =>
    have hc : c ≠ '\n' := fun heq => hline (heq ▸ List.mem_cons_self)
    rw [List.cons_append, linesFrom, if_neg hc, ih fun hin => hline (List.mem_cons_of_mem c hin)]
    simp

/-- A line that storage can keep apart from the next. -/
structure OneRecord (line : Str) : Prop where
  noBreak : '\n' ∉ line
  noReturn : line.getLast? ≠ some '\r'
  record : isRecord line = true

theorem linesFrom_flatMap {lines : List Str} (h : ∀ l ∈ lines, OneRecord l) :
    linesFrom [] (lines.flatMap fun l => l ++ ['\n']) = lines := by
  induction lines with
  | nil => rfl
  | cons l lines ih =>
    have hl := h l List.mem_cons_self
    rw [List.flatMap_cons, List.append_assoc, List.singleton_append, linesFrom_line hl.noBreak,
      List.nil_append, if_neg hl.noReturn, ih fun l' hl' => h l' (List.mem_cons_of_mem l hl')]

theorem not_mem_linesFrom {cur s line : Str} (hcur : '\n' ∉ cur) (h : line ∈ linesFrom cur s) :
    '\n' ∉ line := by
  induction s generalizing cur with
  | nil =>
    rw [linesFrom] at h
    split at h
    · cases h
    · rw [List.mem_singleton.mp h]
      exact hcur
  | cons c s ih =>
    rw [linesFrom] at h
    split at h
    · rcases List.mem_cons.mp h with rfl | h
      · split
        · exact fun hin => hcur (List.dropLast_subset _ hin)
        · exact hcur
      · exact ih List.not_mem_nil h
    · next hc =>
      refine ih ?_ h
      rw [List.mem_append, List.mem_singleton]
      rintro (hin | heq)
      · exact hcur hin
      · exact hc heq.symm

/-! ## The guard -/

theorem csvUnguard_guarded (v : Str) : csvUnguard (guarded v) = v := by
  unfold guarded
  split
  · next h => simp [csvUnguard, h]
  · next h =>
    unfold csvUnguard
    split
    · next rest =>
      exact absurd rfl h
    · rfl

theorem trim_guarded {v : Str} (h : v.trim = v) : (guarded v).trim = guarded v := by
  unfold guarded
  split
  · next hguard =>
    obtain ⟨hhead, hlast⟩ := Tokens.trim_eq_self_iff.mp h
    refine Tokens.trim_eq_self_iff.mpr ⟨fun c hc => ?_, fun c hc => ?_⟩
    · cases hc
      rfl
    · cases v with
      | nil => cases hguard
      | cons d v =>
        rw [List.getLast?_cons_cons] at hc
        exact hlast c hc
  · exact h

theorem mem_csvUnguard {v : Str} {c : Char} (h : c ∈ csvUnguard v) : c ∈ v := by
  unfold csvUnguard at h
  split at h
  · split at h
    · exact List.mem_cons_of_mem _ h
    · exact h
  · exact h

theorem mem_guarded {v : Str} {c : Char} (h : c ∈ guarded v) : c = '\'' ∨ c ∈ v := by
  unfold guarded at h
  split at h
  · exact List.mem_cons.mp h
  · exact .inr h

/-! ## One record -/

theorem isDigit_of_mem_padded {width n : Nat} {c : Char} (h : c ∈ padded width n) :
    c.isDigit = true := by
  rcases List.mem_append.mp h with hzero | hdigit
  · rw [List.eq_of_mem_replicate hzero]
    rfl
  · exact Nat.isDigit_of_mem_toDigits (by decide) (by decide) hdigit

theorem newline_not_mem_padded (width n : Nat) : '\n' ∉ padded width n := by
  intro h
  cases isDigit_of_mem_padded h

theorem newline_not_mem_format (t : DateTime) : '\n' ∉ t.format := by
  have hsign : '\n' ∉ (if 9999 < t.year then ['+'] else []) := by
    split
    · decide
    · exact List.not_mem_nil
  simp [DateTime.format, newline_not_mem_padded, hsign]

theorem getLast?_format (t : DateTime) : t.format.getLast? = some 'Z' := by
  rw [DateTime.format, List.getLast?_append]
  rfl

/-- Usernames lie between the hyphen and the lower-case letters. -/
theorem range_of_valid {name : Str} (h : isValidUsername name = true) {c : Char}
    (hc : c ∈ name) : 45 ≤ c.toNat ∧ c.toNat ≤ 122 := by
  have hchar := List.all_eq_true.mp (Bool.and_eq_true_iff.mp h).2 c hc
  simp only [Bool.or_eq_true, decide_eq_true_eq] at hchar
  rcases hchar with (((h | h) | h) | h) | h
  · have hrange := range_of_isAlphanum h
    omega
  all_goals
    rw [h]
    decide

/-- A valid username stands in a record as it is. -/
theorem csvField_of_valid {name : Str} (h : isValidUsername name = true) :
    csvField name false = name := by
  rw [csvField, if_neg Bool.false_ne_true, Csv.field, if_neg]
  intro hany
  obtain ⟨c, hc, hneeds⟩ := List.any_eq_true.mp hany
  have hrange := range_of_valid h hc
  simp only [needsQuotes, Bool.or_eq_true, decide_eq_true_eq] at hneeds
  rcases hneeds with ((rfl | rfl) | rfl) | rfl
  all_goals exact absurd hrange (by decide)

theorem oneRecord_header : OneRecord ([','].intercalate exportColumns) :=
  ⟨by decide +kernel, by decide +kernel, by decide +kernel⟩

section Records

variable [Unicode]

/-- The fields of a record, before quoting. -/
def ExportRow.fields (u : ExportRow) (password : Str) : List Str :=
  [u.user.username.name, u.user.role.asStr, password, guarded ([';'].intercalate u.user.groups),
    guarded (u.user.setor.getD []), guarded (u.user.email.getD []),
    guarded (u.user.celular.getD []), u.createdAt.format]

theorem csvRecord_eq (u : ExportRow) (password : Str) :
    csvRecord u (csvField password false) =
      [','].intercalate ((u.fields password).map (Csv.field needsQuotes '"')) := rfl

theorem splitCsvLine_csvRecord (u : ExportRow) (password : Str) :
    splitCsvLine (csvRecord u (csvField password false)) =
      (u.fields password).map Str.trim := by
  have hne : u.fields password ≠ [] := List.cons_ne_nil _ _
  rw [csvRecord_eq, splitCsvLine, Csv.split_intercalate rfl rfl (by decide) hne]

theorem newline_not_mem_csvRecord {u : ExportRow} {password : Str}
    (h : ∀ f ∈ u.fields password, '\n' ∉ f) :
    '\n' ∉ csvRecord u (csvField password false) := by
  intro hin
  rw [csvRecord_eq] at hin
  rcases Tokens.mem_intercalate hin with hcomma | ⟨t, ht, hin⟩
  · cases List.mem_singleton.mp hcomma
  · obtain ⟨f, hf, rfl⟩ := List.mem_map.mp ht
    rcases Csv.mem_field hin with hquote | hin
    · cases hquote
    · exact h f hf hin

/-- A record ends with its creation time, or with the quote after it. -/
theorem getLast?_csvRecord (u : ExportRow) (password : Str) :
    (csvRecord u password).getLast? = some 'Z' ∨ (csvRecord u password).getLast? = some '"' := by
  simp only [csvRecord, List.intercalate_cons_cons, List.intercalate_singleton,
    List.getLast?_append]
  rw [csvField, if_neg Bool.false_ne_true, Csv.field]
  split
  · rw [List.getLast?_append]
    exact .inr rfl
  · rw [getLast?_format]
    exact .inl rfl

theorem oneRecord_csvRecord {u : ExportRow} {password : Str}
    (hname : isValidUsername u.user.username.name = true)
    (h : ∀ f ∈ u.fields password, '\n' ∉ f) :
    OneRecord (csvRecord u (csvField password false)) where
  noBreak := newline_not_mem_csvRecord h
  noReturn := by
    rcases getLast?_csvRecord u (csvField password false) with hlast | hlast
    · rw [hlast]
      decide
    · rw [hlast]
      decide
  record := by
    have hne : u.user.username.name ≠ [] := by
      intro hnil
      rw [hnil] at hname
      cases hname
    obtain ⟨c, name, heq⟩ := List.exists_cons_of_ne_nil hne
    have hrange := range_of_valid hname (heq ▸ List.mem_cons_self)
    have hblank : isWhitespace c = false := by
      rw [← Bool.not_eq_true, isWhitespace]
      simp only [Bool.or_eq_true, Bool.and_eq_true, decide_eq_true_eq]
      omega
    have hhash : c ≠ '#' := by
      rintro rfl
      exact absurd hrange (by decide)
    rw [csvRecord, csvField_of_valid hname, heq, List.intercalate_cons_cons]
    simp [isRecord, Str.trim, Tokens.trim_cons_of_not_blank hblank, hblank, hhash]

end Records

/-! ## There and back -/

/-- What an import makes of a record. -/
structure Imported where
  username : Str
  role : Role
  groups : List Str
  setor : Str
  email : Str
  celular : Str
  deriving DecidableEq

def CsvRow.imported (r : CsvRow) : Option Imported :=
  if r.error.isNone then some ⟨r.username, r.role, r.groups, r.setor, r.email, r.celular⟩
  else none

theorem cleanField_trimmed (v : Option Str) :
    Str.trim ((cleanField v).getD []) = (cleanField v).getD [] := by
  cases v with
  | none => rfl
  | some t =>
    by_cases hempty : t.trim = []
    · simp [cleanField, Option.filter, hempty]
      rfl
    · simp [cleanField, Option.filter, hempty]

theorem parseGroups_join {gs : List Str} (hclean : ∀ g ∈ gs, CleanGroup g) (hnodup : gs.Nodup) :
    parseGroups ([','].intercalate gs) = gs := by
  rw [parseGroups, tokens_join, Tokens.flatMap_tokens_of_clean hclean,
    foldl_pushNew_of_nodup (by simpa using hnodup)]
  rfl

theorem map_semicolons {gs : List Str} (h : ∀ g ∈ gs, ';' ∉ g) :
    ([';'].intercalate gs).map (fun c => if c = ';' then ',' else c) = [','].intercalate gs := by
  have hplain : ∀ g ∈ gs, g.map (fun c => if c = ';' then ',' else c) = g := by
    intro g hg
    conv_rhs => rw [← List.map_id g]
    refine List.map_congr_left fun c hc => if_neg ?_
    rintro rfl
    exact h g hg hc
  induction gs with
  | nil => rfl
  | cons g gs ih =>
    cases gs with
    | nil =>
      rw [List.intercalate_singleton, List.intercalate_singleton]
      exact hplain g List.mem_cons_self
    | cons g' gs =>
      rw [List.intercalate_cons_cons, List.intercalate_cons_cons, List.map_append,
        List.map_append, hplain g List.mem_cons_self,
        ih (fun a ha => h a (List.mem_cons_of_mem g ha))
          fun a ha => hplain a (List.mem_cons_of_mem g ha)]
      rfl

section Accounts

variable [Unicode]

/-- An account as the forms leave it in the table, and its creation time. -/
structure StoredAccount where
  username : Username
  valid : isValidUsername username.name = true
  stored : StoredUser
  createdAt : DateTime

def StoredAccount.row (a : StoredAccount) : ExportRow := ⟨rowFrom a.username a.stored, a.createdAt⟩

/-- What the import has to give back; an absent profile field is an empty one. -/
def StoredAccount.imported (a : StoredAccount) : Imported :=
  let u := a.row.user
  ⟨u.username.name, u.role, u.groups, u.setor.getD [], u.email.getD [], u.celular.getD []⟩

theorem valid_of_create [PasswordHashing] {scope : EditorScope} {form : CreateForm}
    {salt : Str} {w : UserWrite} (h : create scope form salt = .ok w) :
    isValidUsername (Username.of w.target).name = true := by
  simp only [create, Guards.accepted_bind, Guards.accepted_ensure, Guards.accepted_pure] at h
  obtain ⟨-, hvalid, -, -, -, -, -, -, -, -, rfl⟩ := h
  have hname : (Username.of (normalizeUsername form.username)).name =
      normalizeUsername form.username := normalizeUsername_idem form.username
  rw [UserWrite.target, hname]
  exact hvalid

/-- A password typed into the empty column. -/
structure NewPassword where
  text : Str
  oneLine : '\n' ∉ text
  policy : passwordMeetsPolicy text.trim = true

/-- The export with the passwords filled in. -/
def filledCsv (accounts : List (StoredAccount × NewPassword)) : Str :=
  csvText (accounts.map fun a => (a.1.row, csvField a.2.text false))

/-- What the file format has room for. -/
structure Portable (i : Imported) : Prop where
  groups : ∀ g ∈ i.groups, '\n' ∉ g ∧ ';' ∉ g
  setor : '\n' ∉ i.setor
  email : '\n' ∉ i.email
  celular : '\n' ∉ i.celular

theorem clean_groups (a : StoredAccount) : ∀ g ∈ a.imported.groups, CleanGroup g :=
  fun _ hg => clean_of_mem_parseGroups hg

/-- A portable account fits in one line. -/
theorem newline_not_mem_fields {a : StoredAccount} (h : Portable a.imported) {password : Str}
    (hpassword : '\n' ∉ password) : ∀ f ∈ a.row.fields password, '\n' ∉ f := by
  have hguard : ∀ v : Str, '\n' ∉ v → '\n' ∉ guarded v := by
    intro v hv hin
    rcases mem_guarded hin with hquote | hin
    · cases hquote
    · exact hv hin
  have hgroups : '\n' ∉ [';'].intercalate a.row.user.groups := by
    intro hin
    rcases Tokens.mem_intercalate hin with hsemicolon | ⟨g, hg, hin⟩
    · cases List.mem_singleton.mp hsemicolon
    · exact (h.groups g hg).1 hin
  intro f hf
  simp only [ExportRow.fields, List.mem_cons, List.not_mem_nil, or_false] at hf
  rcases hf with rfl | rfl | rfl | rfl | rfl | rfl | rfl | rfl
  · intro hin
    exact absurd (range_of_valid a.valid hin) (by decide)
  · cases a.row.user.role <;> decide
  · exact hpassword
  · exact hguard _ hgroups
  · exact hguard _ h.setor
  · exact hguard _ h.email
  · exact hguard _ h.celular
  · exact newline_not_mem_format a.createdAt

end Accounts

section RoundTrip

variable [UnicodeAscii]

def exportedColumns : Columns := ⟨0, some 1, some 2, some 3, some 4, some 5, some 6⟩

theorem columns_header :
    columns ((splitCsvLine ([','].intercalate exportColumns)).map Unicode.toLowercase) =
      some exportedColumns := by
  have hsplit : splitCsvLine ([','].intercalate exportColumns) = exportColumns := by decide +kernel
  have hlower : exportColumns.map Unicode.toLowercase = exportColumns := by
    conv_rhs => rw [← List.map_id exportColumns]
    refine List.map_congr_left fun h hh => ?_
    simp only [exportColumns, List.mem_cons, List.not_mem_nil, or_false] at hh
    rcases hh with rfl | rfl | rfl | rfl | rfl | rfl | rfl | rfl
    all_goals
      rw [UnicodeAscii.toLowercase_ascii _ (by decide +kernel)]
      decide +kernel
  rw [hsplit, hlower]
  decide +kernel

theorem parse_role (r : Role) : Role.parse (Unicode.toLowercase r.asStr.trim) = some r := by
  cases r
  all_goals
    rw [UnicodeAscii.toLowercase_ascii _ (by decide)]
    decide

/-- A record of a portable account reads back. -/
theorem imported_csvRecord {a : StoredAccount} (h : Portable a.imported) (p : NewPassword)
    (n : Nat) :
    (csvRow exportedColumns n (csvRecord a.row (csvField p.text false))).imported =
      some a.imported := by
  have hname : normalizeUsername a.row.user.username.name.trim = a.row.user.username.name := by
    rw [normalizeUsername, Str.trim_trim]
    exact a.username.normalized
  have hprofile : ∀ v : Option Str, csvUnguard (guarded ((cleanField v).getD [])).trim =
      (cleanField v).getD [] := by
    intro v
    rw [trim_guarded (cleanField_trimmed v), csvUnguard_guarded]
  have hgroups : csvUnguard (guarded ([';'].intercalate a.row.user.groups)).trim =
      [';'].intercalate a.row.user.groups := by
    have htrim : Str.trim ([';'].intercalate a.row.user.groups) =
        [';'].intercalate a.row.user.groups :=
      Tokens.trim_intercalate fun g hg =>
        ⟨(clean_groups a g hg).ne_nil, (clean_groups a g hg).trimmed⟩
    rw [trim_guarded htrim, csvUnguard_guarded]
  have hlist : parseGroups ((csvUnguard (guarded ([';'].intercalate a.row.user.groups)).trim).map
      fun c => if c = ';' then ',' else c) = a.row.user.groups := by
    have hmap : ([';'].intercalate a.row.user.groups).map (fun c => if c = ';' then ',' else c) =
        [','].intercalate a.row.user.groups := map_semicolons fun g hg => (h.groups g hg).2
    rw [hgroups, hmap]
    exact parseGroups_join (clean_groups a) (nodup_foldl_pushNew List.nodup_nil)
  have hfields : splitCsvLine (csvRecord a.row (csvField p.text false)) =
      (a.row.fields p.text).map Str.trim := splitCsvLine_csvRecord a.row p.text
  simp only [CsvRow.imported, csvRow, hfields, exportedColumns, ExportRow.fields, getField,
    List.map_cons, List.map_nil, Option.bind_some, List.getElem?_cons_zero,
    List.getElem?_cons_succ, Option.getD_some, hlist, parse_role]
  have hsetor : csvUnguard (guarded (a.row.user.setor.getD [])).trim = a.row.user.setor.getD [] :=
    hprofile a.stored.setor
  have hemail : csvUnguard (guarded (a.row.user.email.getD [])).trim = a.row.user.email.getD [] :=
    hprofile a.stored.email
  have hcelular : csvUnguard (guarded (a.row.user.celular.getD [])).trim =
      a.row.user.celular.getD [] := hprofile a.stored.celular
  have hvalid : isValidUsername a.row.user.username.name = true := a.valid
  rw [hname, hvalid, p.policy, hsetor, hemail, hcelular]
  simp [StoredAccount.imported]

/-- What the import reads from one line fits in one line, and its groups hold no separator. -/
theorem portable_csvRow {cols : Columns} {n : Nat} {line : Str} (hline : '\n' ∉ line)
    {i : Imported} (h : (csvRow cols n line).imported = some i) : Portable i := by
  have hfield : ∀ k, '\n' ∉ getField (splitCsvLine line) k := by
    intro k hin
    unfold getField at hin
    cases hk : k.bind fun i => (splitCsvLine line)[i]? with
    | none => simp [hk] at hin
    | some f =>
      rw [hk, Option.getD_some] at hin
      obtain ⟨j, -, hj⟩ := Option.bind_eq_some_iff.mp hk
      obtain ⟨piece, hpiece, rfl⟩ := List.mem_map.mp (List.mem_of_getElem? hj)
      rcases Csv.mem_of_mem_split hpiece (Tokens.mem_of_mem_trim hin) with hnil | hsource
      · cases hnil
      · exact hline hsource
  have hunguard : ∀ k, '\n' ∉ csvUnguard (getField (splitCsvLine line) k) :=
    fun k hin => hfield k (mem_csvUnguard hin)
  unfold CsvRow.imported at h
  split at h
  · cases h
    refine ⟨fun g hg => ?_, hunguard cols.setor, hunguard cols.email, hunguard cols.celular⟩
    have hsource : ∀ c ∈ g, c ∈ (csvUnguard (getField (splitCsvLine line) cols.groups)).map
        fun c => if c = ';' then ',' else c :=
      fun c hc => Tokens.mem_of_mem_tokens (mem_parseGroups.mp hg) hc
    constructor
    · intro hin
      obtain ⟨c, hc, heq⟩ := List.mem_map.mp (hsource _ hin)
      split at heq
      · cases heq
      · exact hunguard cols.groups (heq ▸ hc)
    · intro hin
      obtain ⟨c, hc, heq⟩ := List.mem_map.mp (hsource _ hin)
      split at heq
      · cases heq
      · next hne => exact hne heq
  · cases h

theorem mem_parseCsvUsers {body : Str} {rows : List CsvRow} (h : parseCsvUsers body = .ok rows)
    {r : CsvRow} (hr : r ∈ rows) : ∃ cols n line, '\n' ∉ line ∧ r = csvRow cols n line := by
  unfold parseCsvUsers at h
  split at h
  · cases h
  · next header rest heq =>
    split at h
    · cases h
    · next cols hcols =>
      cases h
      obtain ⟨l, hl, rfl⟩ := List.mem_map.mp hr
      have hmem : l ∈ (linesFrom [] body).zipIdx := by
        have hin : l ∈ header :: rest := List.mem_cons_of_mem header hl
        rw [← heq] at hin
        exact List.mem_of_mem_filter hin
      exact ⟨cols, l.2, l.1, not_mem_linesFrom List.not_mem_nil (List.fst_mem_of_mem_zipIdx hmem), rfl⟩

theorem linesFrom_csvText {records : List (ExportRow × Str)}
    (h : ∀ r ∈ records, OneRecord (csvRecord r.1 r.2)) :
    linesFrom [] (csvText records) =
      [','].intercalate exportColumns :: records.map fun r => csvRecord r.1 r.2 := by
  have htext : csvText records = ([','].intercalate exportColumns ::
      records.map fun r => csvRecord r.1 r.2).flatMap fun l => l ++ ['\n'] := by
    rw [csvText, List.flatMap_cons, List.flatMap_map, List.append_assoc, List.singleton_append]
  rw [htext]
  refine linesFrom_flatMap fun l hl => ?_
  rcases List.mem_cons.mp hl with rfl | hl
  · exact oneRecord_header
  · obtain ⟨r, hr, rfl⟩ := List.mem_map.mp hl
    exact h r hr

/-- The import reads one row from each record of the export. -/
theorem parse_csvText {records : List (ExportRow × Str)}
    (h : ∀ r ∈ records, OneRecord (csvRecord r.1 r.2)) :
    (parseCsvUsers (csvText records)).map (List.map CsvRow.imported) =
      .ok (records.map fun r => (csvRow exportedColumns 0 (csvRecord r.1 r.2)).imported) := by
  have hlines := linesFrom_csvText h
  have hkept : (linesFrom [] (csvText records)).zipIdx.filter (fun l => isRecord l.1) =
      (linesFrom [] (csvText records)).zipIdx := by
    refine List.filter_eq_self.mpr fun l hl => ?_
    have hmem := List.fst_mem_of_mem_zipIdx hl
    rw [hlines] at hmem
    rcases List.mem_cons.mp hmem with heq | hmem
    · rw [heq]
      exact oneRecord_header.record
    · obtain ⟨r, hr, heq⟩ := List.mem_map.mp hmem
      rw [← heq]
      exact (h r hr).record
  have hrows : ∀ (lines : List Str) k, ((lines.zipIdx k).map fun l =>
      csvRow exportedColumns l.2 l.1).map CsvRow.imported =
        lines.map fun l => (csvRow exportedColumns 0 l).imported := by
    intro lines k
    rw [List.map_map]
    calc (lines.zipIdx k).map (CsvRow.imported ∘ fun l => csvRow exportedColumns l.2 l.1)
        = (lines.zipIdx k).map fun l => (csvRow exportedColumns 0 l.1).imported := rfl
      _ = ((lines.zipIdx k).map Prod.fst).map fun l => (csvRow exportedColumns 0 l).imported :=
          by
            rw [List.map_map]
            rfl
      _ = _ := by rw [List.zipIdx_map_fst]
  rw [parseCsvUsers, hkept, hlines, List.zipIdx_cons]
  simp only [columns_header]
  rw [Except.map, hrows, List.map_map]
  rfl

/-- **Export and import.** The filled-in export gives every account back exactly when no
group holds a semicolon or a line break and no profile field a line break. -/
theorem parse_filledCsv_iff (accounts : List (StoredAccount × NewPassword)) :
    (parseCsvUsers (filledCsv accounts)).map (List.map CsvRow.imported) =
        .ok (accounts.map fun a => some a.1.imported) ↔
      ∀ a ∈ accounts, Portable a.1.imported := by
  constructor
  · intro h a ha
    cases hparse : parseCsvUsers (filledCsv accounts) with
    | error e =>
      rw [hparse] at h
      cases h
    | ok rows =>
      rw [hparse, Except.map, Except.ok.injEq] at h
      have hmem : some a.1.imported ∈ rows.map CsvRow.imported := by
        rw [h]
        exact List.mem_map.mpr ⟨a, ha, rfl⟩
      obtain ⟨r, hr, hi⟩ := List.mem_map.mp hmem
      obtain ⟨cols, n, line, hline, rfl⟩ := mem_parseCsvUsers hparse hr
      exact portable_csvRow hline hi
  · intro h
    have hrecords : ∀ r ∈ accounts.map (fun a => (a.1.row, csvField a.2.text false)),
        OneRecord (csvRecord r.1 r.2) := by
      intro r hr
      obtain ⟨a, ha, rfl⟩ := List.mem_map.mp hr
      exact oneRecord_csvRecord a.1.valid (newline_not_mem_fields (h a ha) a.2.oneLine)
    rw [filledCsv, parse_csvText hrecords, List.map_map]
    refine congrArg Except.ok (List.map_congr_left fun a ha => ?_)
    exact imported_csvRecord (h a ha) a.2 0

end RoundTrip

/-! ## A group name with a semicolon -/

section Example

attribute [local instance] asciiUnicodeAscii

/-- A viewer in the one group `lab;guests`. -/
def adaLab : StoredAccount where
  username := Username.of "ada".toList
  valid := by decide
  stored := ⟨[], "viewer".toList, false, joinGroups ["lab;guests".toList], none, none, none⟩
  createdAt := ⟨2026, 1, 2, 3, 4, 5⟩

def adaPassword : NewPassword where
  text := "Abcdef1!".toList
  oneLine := by decide
  policy := by decide

/-- The name comes back as two groups. -/
theorem semicolon_splits :
    (parseCsvUsers (filledCsv [(adaLab, adaPassword)])).map (List.map CsvRow.imported) ≠
      .ok [some adaLab.imported] := by
  decide +kernel

end Example

end Ruscker.Admin.UserCsv
