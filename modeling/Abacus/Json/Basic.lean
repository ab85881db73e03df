import Abacus.Text.Basic

/-!
# JSON values

A JSON value with integers and doubles apart, and with the members of an object in the order in which
their keys first came. `Json.object` builds an object from members in which a key may come twice: the
key stays where it first stood, and the last value wins.
-/

namespace Abacus

/-- A JSON value. -/
inductive Json where
  | null
  | bool (b : Bool)
  | int (n : Int)
  | float (x : Float)
  | str (s : Text)
  | arr (items : List Json)
  | obj (members : List (Text × Json))

namespace Json

instance : Inhabited Json := ⟨null⟩

/-- The value of a key. -/
def lookup? (key : Text) : List (Text × Json) → Option Json
  | [] => none
  | (k, v) :: members => if k = key then some v else lookup? key members

/-- Gives a key its value: in its place if it is there, else at the end. -/
def insertMember (key : Text) (value : Json) : List (Text × Json) → List (Text × Json)
  | [] => [(key, value)]
  | (k, v) :: members =>
    if k = key then (k, value) :: members else (k, v) :: insertMember key value members

/-- The object with these members, in the order they were written. -/
def object (members : List (Text × Json)) : Json :=
  obj (members.foldl (fun known (k, v) => insertMember k v known) [])

/-- The name of a value's kind, as messages call it. -/
def kindName : Json → String
  | null => "NoneType"
  | bool _ => "bool"
  | int _ => "int"
  | float _ => "float"
  | str _ => "str"
  | arr _ => "list"
  | obj _ => "dict"

/-- Null, false, zero and whatever is empty are false; all else is true. -/
def isTrue : Json → Bool
  | null => false
  | bool b => b
  | int n => n != 0
  | float x => x != 0
  | str s => !s.isEmpty
  | arr items => !items.isEmpty
  | obj members => !members.isEmpty

end Json

end Abacus
