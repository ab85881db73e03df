import Abacus.Json.Basic
import Abacus.Number.Layout
import Abacus.Text.Quoted

/-!
# JSON values in messages

How a message shows a JSON value. A text on its own is shown as it is; inside a list or an object, and
as a key, it is quoted.
-/

namespace Abacus

namespace Json

mutual

/-- A value with its texts quoted. -/
def shown : Json → String
  | null => "None"
  | bool b => if b then "True" else "False"
  | int n => toString n
  | float x => Layout.exact.write x
  | str s => quoted s
  | arr items => "[" ++ String.intercalate ", " (shownItems items) ++ "]"
  | obj members => "\x7b" ++ String.intercalate ", " (shownMembers members) ++ "\x7d"

def shownItems : List Json → List String
  | [] => []
  | item :: items => shown item :: shownItems items

def shownMembers : List (Text × Json) → List String
  | [] => []
  | (key, value) :: members => (quoted key ++ ": " ++ shown value) :: shownMembers members

end

/-- A value as the text of a message. -/
def display : Json → Text
  | str s => s
  | value => value.shown

end Json

end Abacus
