import Ruscker.Text
import Mathlib.Order.Basic

/-!
# Roles

The three roles in ascending order, their stored text, and the two readings of that
text: the lenient one of the user table and the strict one of the session table.
-/

namespace Ruscker

inductive Role where
  | viewer
  | editor
  | admin
  deriving DecidableEq

namespace Role

def rank : Role → Nat
  | viewer => 0
  | editor => 1
  | admin => 2

instance : LE Role := ⟨fun r r' => r.rank ≤ r'.rank⟩

instance (r r' : Role) : Decidable (r ≤ r') := inferInstanceAs (Decidable (r.rank ≤ r'.rank))

def asStr : Role → Str
  | viewer => "viewer".toList
  | editor => "editor".toList
  | admin => "admin".toList

/-- `Role::parse`: any ASCII casing of a role's text. -/
def parse (s : Str) : Option Role :=
  if Str.eqIgnoreAsciiCase s viewer.asStr then some viewer
  else if Str.eqIgnoreAsciiCase s editor.asStr then some editor
  else if Str.eqIgnoreAsciiCase s admin.asStr then some admin
  else none

/-- `role_from_str` of the session table: the exact text only. -/
def fromStr (s : Str) : Option Role :=
  if s = admin.asStr then some admin
  else if s = editor.asStr then some editor
  else if s = viewer.asStr then some viewer
  else none

/-- Where a role lands after signing in. -/
def home : Role → Str
  | viewer => "/".toList
  | _ => "/admin/specs".toList

def canAccessSection (r : Role) (section' : Str) : Bool :=
  if ["dashboard".toList, "specs".toList, "images".toList, "users".toList,
    "groups".toList].contains section' then editor ≤ r
  else r = admin

@[simp] theorem parse_asStr (r : Role) : parse r.asStr = some r := by
  cases r <;> decide

@[simp] theorem fromStr_asStr (r : Role) : fromStr r.asStr = some r := by
  cases r <;> decide

@[simp] theorem asStr_inj {r r' : Role} : r.asStr = r'.asStr ↔ r = r' := by
  cases r <;> cases r' <;> decide

@[refl] protected theorem le_refl (r : Role) : r ≤ r := Nat.le_refl r.rank

protected theorem le_trans {a b c : Role} (hab : a ≤ b) (hbc : b ≤ c) : a ≤ c :=
  Nat.le_trans hab hbc

end Role

end Ruscker
