import Abacus.Tree.Encode

/-!
# Trees that are the same

Two trees are the same if they have the same JSON. Doubles are compared as numbers.
-/

namespace Abacus

namespace Json

mutual

/-- Whether two values agree part for part. -/
def same : Json → Json → Bool
  | null, null => true
  | bool a, bool b => a == b
  | int a, int b => a == b
  | float a, float b => a == b
  | str a, str b => a == b
  | arr a, arr b => sameItems a b
  | obj a, obj b => sameMembers a b
  | _, _ => false

def sameItems : List Json → List Json → Bool
  | [], [] => true
  | a :: as, b :: bs => same a b && sameItems as bs
  | _, _ => false

def sameMembers : List (Text × Json) → List (Text × Json) → Bool
  | [], [] => true
  | (k, a) :: as, (l, b) :: bs => k == l && same a b && sameMembers as bs
  | _, _ => false

end

end Json

namespace Node

/-- Whether two trees agree node for node. -/
def same (a b : Node) : Bool := a.encode.same b.encode

end Node

end Abacus
