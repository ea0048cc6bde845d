import Ruscker.Config.EnvRefs

/-!
# Interpolation of a configuration text

Before a configuration is parsed, the environment references of its raw text are resolved
line by line.  Comments, the lines of a `container-env` block and the lines of the secret
keys are copied.  The text comes out as it went in where every reference of the remaining
code resolves to itself.
-/

namespace Ruscker

open Matching

/-! ## Lines -/

/-- `str::split_inclusive('\n')`. -/
def splitInclusive : Str → List Str
  | [] => []
  | c :: s =>
    if c = '\n' then [c] :: splitInclusive s
    else
      match splitInclusive s with
      | [] => [[c]]
      | line :: lines => (c :: line) :: lines

/-- The length of a text in bytes. -/
def byteLen : Str → Nat
  | [] => 0
  | c :: s => c.utf8Size + byteLen s

def trimStart (s : Str) : Str := s.dropWhile isWhitespace

def stripNewline (line : Str) : Str := if line.getLast? = some '\n' then line.dropLast else line

/-- The key of a line, without the dash of a list item. -/
def lineKey (trimmed : Str) : Str :=
  Str.trim ((trimmed.takeWhile fun c => c ≠ ':').dropWhile fun c => c = '-')

/-- The code of a line and its trailing comment: a `#` outside quotes behind white space. -/
def splitInlineComment : (inSingle inDouble prevWs : Bool) → Str → Str × Str
  | _, _, _, [] => ([], [])
  | inSingle, inDouble, prevWs, c :: rest =>
    if c = '#' && !inSingle && !inDouble && prevWs then ([], c :: rest)
    else
      let inSingle' := if c = '\x27' && !inDouble then !inSingle else inSingle
      let inDouble' := if c = '\x22' && !inSingle then !inDouble else inDouble
      let (code, comment) := splitInlineComment inSingle' inDouble' (c = ' ' || c = '\t') rest
      (c :: code, comment)

def secretKeys : List Str := ["docker-registry-password".toList]

/-- The open `container-env` block behind a line, the code of the line that is interpolated
and the rest of the line that is copied. -/
def scanLine (block : Option Nat) (line : Str) : Option Nat × Str × Str :=
  let content := stripNewline line
  let trimmed := trimStart content
  let indent := byteLen content - byteLen trimmed
  if trimmed.isEmpty || trimmed.head? = some '#' then (block, [], line)
  else
    match block.filter fun blockIndent => blockIndent < indent with
    | some blockIndent => (some blockIndent, [], line)
    | none =>
      let key := lineKey trimmed
      if key = "container-env".toList then
        -- the column of the key: two behind the dash that opens a list item
        let dashPrefix :=
          byteLen trimmed - byteLen (trimStart (trimmed.dropWhile fun c => c = '-'))
        (some (indent + dashPrefix), [], line)
      else if secretKeys.contains key then (none, [], line)
      else (none, splitInlineComment false false true line)

def interpolateLines (env : Environment) : Option Nat → List Str → Except EnvError Str
  | _, [] => .ok []
  | block, line :: lines =>
    let (block', code, copied) := scanLine block line
    match interpolateLine env code with
    | .error e => .error e
    | .ok out => (interpolateLines env block' lines).map fun rest => out ++ copied ++ rest

/-- `env::interpolate` -/
def interpolate (env : Environment) (input : Str) : Except EnvError Str :=
  interpolateLines env none (splitInclusive input)

/-! ## Texts that come out as they went in -/

/-- The code the scan interpolates. -/
def scannedCode : Option Nat → List Str → List Str
  | _, [] => []
  | block, line :: lines =>
    let (block', code, _) := scanLine block line
    code :: scannedCode block' lines

/-- Every reference the scan resolves is resolved to itself. -/
def Inert (env : Environment) (input : Str) : Prop :=
  ∀ code ∈ scannedCode none (splitInclusive input), ∀ r ∈ EnvRef.pattern.hits code,
    r.resolve env = .ok r.text

theorem flatten_splitInclusive (s : Str) : (splitInclusive s).flatten = s := by
  induction s with
  | nil => rfl
  | cons c s ih =>
    unfold splitInclusive
    split
    · rw [List.flatten_cons, ih]
      rfl
    · split
      · next hnil =>
        rw [hnil] at ih
        rw [← ih]
        rfl
      · next line lines hcons =>
        rw [hcons] at ih
        rw [← ih]
        rfl

theorem splitInlineComment_append (inSingle inDouble prevWs : Bool) (line : Str) :
    (splitInlineComment inSingle inDouble prevWs line).1 ++
      (splitInlineComment inSingle inDouble prevWs line).2 = line := by
  induction line generalizing inSingle inDouble prevWs with
  | nil => rfl
  | cons c rest ih =>
    unfold splitInlineComment
    split
    · rfl
    · exact congrArg (List.cons c) (ih _ _ _)

/-- The parts of a line spell it. -/
theorem scanLine_append (block : Option Nat) (line : Str) :
    (scanLine block line).2.1 ++ (scanLine block line).2.2 = line := by
  unfold scanLine
  dsimp only
  split
  · rfl
  · split
    · rfl
    · split
      · rfl
      · split
        · rfl
        · exact splitInlineComment_append _ _ _ line

theorem scannedCode_cons (block : Option Nat) (line : Str) (lines : List Str) :
    scannedCode block (line :: lines) =
      (scanLine block line).2.1 :: scannedCode (scanLine block line).1 lines := rfl

theorem interpolateLines_cons {env : Environment} {block : Option Nat} {line out : Str}
    {lines : List Str} (h : interpolateLine env (scanLine block line).2.1 = .ok out) :
    interpolateLines env block (line :: lines) =
      (interpolateLines env (scanLine block line).1 lines).map fun rest =>
        out ++ (scanLine block line).2.2 ++ rest := by
  rw [interpolateLines]
  dsimp only
  rw [h]

theorem interpolateLine_self {env : Environment} {line : Str}
    (h : ∀ r ∈ EnvRef.pattern.hits line, r.resolve env = .ok r.text) :
    interpolateLine env line = .ok line := by
  have hsegments : (EnvRef.pattern.scan 0 line).mapM (resolveSegment env) =
      .ok ((EnvRef.pattern.scan 0 line).map (Segment.render EnvRef.text)) := by
    induction line using EnvRef.pattern.scanInduction with
    | nil => rfl
    | literal c line hc ih =>
      rw [EnvRef.pattern.hits_cons hc] at h
      rw [EnvRef.pattern.scan_cons hc, List.mapM_cons, ih h]
      rfl
    | hit r line hr ih =>
      rw [EnvRef.pattern.hits_text_append hr] at h
      rw [EnvRef.pattern.scan_text_append hr, List.mapM_cons, resolveSegment,
        h r List.mem_cons_self, ih fun r' hr' => h r' (List.mem_cons_of_mem r hr')]
      rfl
  rw [interpolateLine, hsegments]
  refine congrArg Except.ok ?_
  exact (List.flatMap_def ..).symm.trans (EnvRef.pattern.replaceWith_text line)

theorem interpolateLines_self {env : Environment} {lines : List Str} (block : Option Nat)
    (h : ∀ code ∈ scannedCode block lines, ∀ r ∈ EnvRef.pattern.hits code,
      r.resolve env = .ok r.text) :
    interpolateLines env block lines = .ok lines.flatten := by
  induction lines generalizing block with
  | nil => rfl
  | cons line lines ih =>
    rw [scannedCode_cons] at h
    have hcode := interpolateLine_self (h _ List.mem_cons_self)
    have hrest := ih _ fun code hmem => h code (List.mem_cons_of_mem _ hmem)
    rw [interpolateLines_cons hcode, hrest, Except.map, scanLine_append, List.flatten_cons]

theorem interpolate_of_inert {env : Environment} {input : Str} (h : Inert env input) :
    interpolate env input = .ok input := by
  rw [interpolate, interpolateLines_self none h, flatten_splitInclusive]

/-! ## Texts without references -/

theorem mem_of_mem_scannedCode {lines : List Str} {block : Option Nat} {code : Str} {c : Char}
    (hcode : code ∈ scannedCode block lines) (hc : c ∈ code) : c ∈ lines.flatten := by
  induction lines generalizing block with
  | nil => cases hcode
  | cons line lines ih =>
    rw [scannedCode_cons] at hcode
    rw [List.flatten_cons, List.mem_append]
    rcases List.mem_cons.mp hcode with rfl | hmem
    · left
      rw [← scanLine_append block line]
      exact List.mem_append_left _ hc
    · exact .inr (ih hmem)

theorem hits_of_no_dollar {code : Str} (h : '$' ∉ code) : EnvRef.pattern.hits code = [] := by
  rw [EnvRef.pattern.hits_eq_nil_iff]
  intro c s hsuffix
  have hne : c ≠ '$' := by
    rintro rfl
    exact h (hsuffix.mem List.mem_cons_self)
  cases hhead : EnvRef.pattern.head (c :: s) with
  | none => rfl
  | some r =>
    obtain ⟨rest, hrest⟩ := EnvRef.pattern.text_prefix hhead
    exact absurd (List.cons.inj hrest).1.symm hne

theorem inert_of_no_dollar {env : Environment} {input : Str} (h : '$' ∉ input) :
    Inert env input := by
  intro code hcode r hr
  have hnone : '$' ∉ code := by
    intro hmem
    apply h
    rw [← flatten_splitInclusive input]
    exact mem_of_mem_scannedCode hcode hmem
  rw [hits_of_no_dollar hnone] at hr
  cases hr

end Ruscker
