import Abacus.Json.Basic
import Abacus.Number.Decimal

/-!
# Names as keys

Two names are the same variable if they are equal as values: equal texts, or equal numbers, whether
they are written as integers, doubles or truth values. Not-a-number is the same as itself. Lists and
objects cannot be variables.
-/

namespace Abacus

namespace Json

/-- Whether a value can be the name of a variable. -/
def isKey : Json → Bool
  | arr _ => false
  | obj _ => false
  | _ => true

/-- Whether a double is exactly this integer. -/
def floatIsInt (x : Float) (n : Int) : Bool :=
  x.isFinite && Decimal.truncate x == n && Float.ofInt n == x

/-- Whether two values name the same variable. -/
def sameKey : Json → Json → Bool
  | null, null => true
  | str s, str t => s == t
  | float x, float y => x == y || (x.isNaN && y.isNaN)
  | float x, int n => floatIsInt x n
  | int n, float x => floatIsInt x n
  | float x, bool b => floatIsInt x b.toInt
  | bool b, float x => floatIsInt x b.toInt
  | int m, int n => m == n
  | int m, bool b => m == b.toInt
  | bool b, int n => b.toInt == n
  | bool b, bool c => b == c
  | _, _ => false

end Json

end Abacus
