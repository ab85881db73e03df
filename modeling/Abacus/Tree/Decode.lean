import Abacus.Number.Numeral
import Abacus.Report
import Abacus.Tree.Basic

/-!
# Trees from JSON

`Node.decode` reads a tree. It looks at the tag first and then at the fields in the order in which they
are written, each one to the end, and stops at the first fault. Where a list is due, a text stands for
its characters and an object for its keys. The value of a literal may be anything that can be made a
number. A name can be any value.
-/

namespace Abacus

/-- Why a JSON value is no tree. -/
inductive DecodeFault where
  | notObject
  | unknownTag (tag : Json)
  | missing (field : String)
  | notList (kind : String)
  | unpairedArms
  | notInteger (text : Text)
  | tooLong (digits : Nat)
  | integerKind (kind : String)
  | integerOfNaN
  | integerOfInfinity
  | notDouble (text : Text)
  | doubleKind (kind : String)
  | doubleRange

namespace DecodeFault

/-- What is told of a fault. A text that is no integer is cut after two hundred characters. -/
def report : DecodeFault → Report
  | notObject => .host "TypeError" "Invalid AST object"
  | unknownTag tag => .host "ValueError" ("Unknown AST node type: " ++ tag.display)
  | missing field => .host "KeyError" (quoted field)
  | notList kind => .host "TypeError" ("'" ++ kind ++ "' object is not iterable")
  | unpairedArms => .host "ValueError" "If requires one branch per condition"
  | notInteger text =>
    .host "ValueError" ("invalid literal for int() with base 10: " ++
      String.ofList ((quoted text).toList.take 200))
  | tooLong digits => tooManyDigits digitLimit digits
  | integerKind kind =>
    .host "TypeError"
      ("int() argument must be a string, a bytes-like object or a real number, not '" ++ kind ++ "'")
  | integerOfNaN => .host "ValueError" "cannot convert float NaN to integer"
  | integerOfInfinity => .host "OverflowError" "cannot convert float infinity to integer"
  | notDouble text => .host "ValueError" ("could not convert string to float: " ++ quoted text)
  | doubleKind kind =>
    .host "TypeError" ("float() argument must be a string or a real number, not '" ++ kind ++ "'")
  | doubleRange => .host "OverflowError" "int too large to convert to float"

end DecodeFault

namespace Json

/-- The value as an integer: a double loses its fraction. -/
def toInteger : Json → Except DecodeFault Int
  | int n => .ok n
  | bool b => .ok (if b then 1 else 0)
  | float x =>
    if x.isNaN then .error .integerOfNaN
    else if x.isInf then .error .integerOfInfinity
    else .ok (Decimal.truncate x)
  | str s =>
    match Numeral.readInt s with
    | .ok n => .ok n
    | .error .malformed => .error (.notInteger s)
    | .error (.tooLong digits) => .error (.tooLong digits)
  | value => .error (.integerKind value.kindName)

/-- The value as a double. -/
def toDouble : Json → Except DecodeFault Float
  | float x => .ok x
  | int n =>
    match Numeral.floatOfInt? n with
    | some x => .ok x
    | none => .error .doubleRange
  | bool b => .ok (if b then 1 else 0)
  | str s =>
    match Numeral.readFloat? s with
    | some x => .ok x
    | none => .error (.notDouble s)
  | value => .error (.doubleKind value.kindName)

/-- The value as a string, if it is one. -/
def word? : Json → Option String
  | str s => s.toString?
  | _ => none

/-- The items of a list, the characters of a text or the keys of an object. -/
def toList : Json → Except DecodeFault (List Json)
  | arr items => .ok items
  | str s => .ok (s.points.map fun p => str ⟨[p]⟩)
  | obj members => .ok (members.map fun (key, _) => str key)
  | value => .error (.notList value.kindName)

theorem sizeOf_lookup? {key : Text} {members : List (Text × Json)} {value : Json}
    (h : lookup? key members = some value) : sizeOf value < sizeOf members := by
  induction members with
  | nil => simp [lookup?] at h
  | cons member members ih =>
    obtain ⟨k, v⟩ := member
    simp only [lookup?] at h
    split at h
    · cases h
      simp only [List.cons.sizeOf_spec, Prod.mk.sizeOf_spec]
      omega
    · have := ih h
      simp only [List.cons.sizeOf_spec]
      omega

/-- A field of an object, smaller than the object. -/
def field (members : List (Text × Json)) (key : String) :
    Except DecodeFault { value : Json // sizeOf value < sizeOf members } :=
  match h : lookup? key members with
  | some value => .ok ⟨value, sizeOf_lookup? h⟩
  | none => .error (.missing key)

end Json

namespace Node

mutual

/-- Reads a tree. -/
def decode (json : Json) : Except DecodeFault Node :=
  match json with
  | .obj members =>
    let tag := (Json.lookup? "type" members).getD .null
    match tag.word? with
    | some "Block" => do
      let ⟨statements, _⟩ ← Json.field members "statements"
      return block (← decodeList statements)
    | some "Assignment" => do
      let ⟨target, _⟩ ← Json.field members "id"
      let ⟨value, _⟩ ← Json.field members "value"
      return assignment target (← decode value)
    | some "Return" => do
      let ⟨value, _⟩ ← Json.field members "value"
      return returns (← decode value)
    | some "ExpressionStatement" => do
      let ⟨value, _⟩ ← Json.field members "value"
      return expression (← decode value)
    | some "FunctionDecl" => do
      let ⟨name, _⟩ ← Json.field members "name"
      let ⟨paramsField, _⟩ ← Json.field members "params"
      let params ← paramsField.toList
      let ⟨body, _⟩ ← Json.field members "body"
      return function name params (← decode body)
    | some "If" => do
      let ⟨conditionsField, _⟩ ← Json.field members "conditions"
      let conditions ← decodeList conditionsField
      let ⟨branchesField, _⟩ ← Json.field members "branches"
      let branches ← decodeList branchesField
      if conditions.length = branches.length then
        return branch (conditions.zip branches)
      else
        throw .unpairedArms
    | some "While" => do
      let ⟨conditionField, _⟩ ← Json.field members "condition"
      let condition ← decode conditionField
      let ⟨body, _⟩ ← Json.field members "body"
      return loop condition (← decode body)
    | some "Empty" => return empty
    | some "Variable" => do
      let ⟨name, _⟩ ← Json.field members "name"
      return reference name
    | some "FloatLiteral" => do
      let ⟨value, _⟩ ← Json.field members "value"
      return float (← value.toDouble)
    | some "IntLiteral" => do
      let ⟨value, _⟩ ← Json.field members "value"
      return int (← value.toInteger)
    | some "BoolLiteral" => do
      let ⟨value, _⟩ ← Json.field members "value"
      return bool value.isTrue
    | some "FunctionCall" => do
      let ⟨callee, _⟩ ← Json.field members "callee"
      let ⟨arguments, _⟩ ← Json.field members "arguments"
      return call callee (← decodeList arguments)
    | _ => throw (.unknownTag tag)
  | _ => throw .notObject
termination_by sizeOf json

/-- Reads a list of trees. The characters of a text and the keys of an object are no trees. -/
def decodeList (json : Json) : Except DecodeFault (List Node) :=
  match json with
  | .arr items => decodeItems items
  | .str s => if s.isEmpty then return [] else throw .notObject
  | .obj members => if members.isEmpty then return [] else throw .notObject
  | value => throw (.notList value.kindName)
termination_by sizeOf json

def decodeItems (items : List Json) : Except DecodeFault (List Node) :=
  match items with
  | [] => return []
  | item :: items => do
    let node ← decode item
    return node :: (← decodeItems items)
termination_by sizeOf items

end

end Node

end Abacus
