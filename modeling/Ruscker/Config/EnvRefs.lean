import Ruscker.Lib.Matching
import Ruscker.Text

/-!
# Environment references

`${VAR}` and `${VAR:-default}` inside a text.  They are matched from the left to the right
without overlaps, and what is between the matches stays as it is.
-/

namespace Ruscker

open Matching

/-- `std::env::var`. -/
inductive EnvVar where
  | present (value : Str)
  | notPresent
  | notUnicode
  deriving DecidableEq

/-- The process environment. -/
abbrev Environment := Str → EnvVar

inductive EnvError where
  | missingEnvVar (name : Str)
  | invalidEnvRef (literal : Str)
  deriving DecidableEq

/-- A match of the pattern. -/
structure EnvRef where
  name : Str
  default : Option Str
  deriving DecidableEq

namespace EnvRef

def text (r : EnvRef) : Str :=
  '$' :: '{' :: (r.name ++ ((r.default.elim [] fun d => ':' :: '-' :: d) ++ ['}']))

def isNameStart (c : Char) : Bool := c.isAlpha || c = '_'

def isNameChar (c : Char) : Bool := c.isAlphanum || c = '_'

def notBrace (c : Char) : Bool := c ≠ '}'

/-- What follows the name: the closing brace, or a default up to the first one. -/
def matchDefault : Str → Option (Option Str)
  | '}' :: _ => some none
  | ':' :: '-' :: rest => if '}' ∈ rest then some (some (rest.takeWhile notBrace)) else none
  | _ => none

/-- A reference at the start of the text. -/
def matchHead : Str → Option EnvRef
  | '$' :: '{' :: s =>
    if s.head?.any isNameStart then
      (matchDefault (s.dropWhile isNameChar)).map fun default =>
        { name := s.takeWhile isNameChar, default }
    else none
  | _ => none

theorem closed_starts {rest : Str} (h : '}' ∈ rest) :
    rest.takeWhile notBrace ++ ['}'] <+: rest := by
  induction rest with
  | nil => cases h
  | cons c rest ih =>
    by_cases hc : c = '}'
    · simp [hc, notBrace]
    · have hmem : '}' ∈ rest := (List.mem_cons.mp h).resolve_left fun heq => hc heq.symm
      rw [List.takeWhile_cons_of_pos (by simp [notBrace, hc]), List.cons_append]
      exact (List.prefix_cons_inj c).mpr (ih hmem)

theorem matchDefault_starts {s : Str} {default : Option Str}
    (h : matchDefault s = some default) :
    (default.elim [] fun d => ':' :: '-' :: d) ++ ['}'] <+: s := by
  unfold matchDefault at h
  split at h
  · cases h
    simp
  · split at h
    · rename_i rest hmem
      cases h
      exact (List.prefix_cons_inj ':').mpr ((List.prefix_cons_inj '-').mpr (closed_starts hmem))
    · cases h
  · cases h

theorem matchHead_prefix {s : Str} {r : EnvRef} (h : matchHead s = some r) : r.text <+: s := by
  unfold matchHead at h
  split at h
  · rename_i s
    split at h
    · obtain ⟨default, hd, rfl⟩ := Option.map_eq_some_iff.mp h
      refine (List.prefix_cons_inj '$').mpr ((List.prefix_cons_inj '{').mpr ?_)
      conv_rhs => rw [← List.takeWhile_append_dropWhile (p := isNameChar) (l := s)]
      exact (List.prefix_append_right_inj _).mpr (matchDefault_starts hd)
    · cases h
  · cases h

/-- The regular expression `\$\{([A-Za-z_][A-Za-z0-9_]*)(?::-([^}]*))?\}`. -/
def pattern : Pattern Char EnvRef where
  head := matchHead
  text := text
  text_ne_nil _ := List.cons_ne_nil _ _
  text_prefix := matchHead_prefix

/-- A nested reference is refused before any lookup. -/
def resolve (env : Environment) (r : EnvRef) : Except EnvError Str :=
  if r.default.any fun d => decide (['$', '{'] <:+: d) then
    .error (.invalidEnvRef (r.text ++
      "\x7d — a nested reference in a `:-` default is not supported".toList))
  else
    match env r.name with
    | .present value => .ok value
    | .notPresent => r.default.elim (.error (.missingEnvVar r.name)) .ok
    | .notUnicode => .error (.invalidEnvRef r.name)

end EnvRef

def resolveSegment (env : Environment) : Segment Char EnvRef → Except EnvError Str
  | .literal c => .ok [c]
  | .hit r => r.resolve env

/-- The first reference that fails decides the error. -/
def interpolateLine (env : Environment) (line : Str) : Except EnvError Str :=
  ((EnvRef.pattern.scan 0 line).mapM (resolveSegment env)).map List.flatten

def interpolateValue (env : Environment) (value : Str) : Except EnvError Str :=
  interpolateLine env value

/-- Only references and white space. -/
def isPureEnvRef (value : Str) : Bool :=
  let t := value.trim
  !t.isEmpty && (Str.trim (EnvRef.pattern.replaceWith (fun _ => []) t)).isEmpty

example : isPureEnvRef " ${A} ${b_1:-x}".toList = true := by decide

example : isPureEnvRef "abc$\x7bdef".toList = false := by decide

end Ruscker
