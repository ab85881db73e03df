import Abacus.Report
import Abacus.Tree.Basic

/-!
# Values

What a script computes with: integers, doubles, functions, built-in operations, and `void` where there
is nothing. A function is its declaration and keeps no variables of its own. Three more kinds never
come up in a script, but a host can hand them in: truth values, errors and the marks of a `return`.
-/

namespace Abacus

/-- The built-in operations. -/
inductive NativeOp where
  | add
  | sub
  | mul
  | div
  | print
deriving DecidableEq

namespace NativeOp

/-- The name a built-in operation is bound to. -/
def symbol : NativeOp → String
  | add => "+"
  | sub => "-"
  | mul => "*"
  | div => "/"
  | print => "print"

/-- All built-in operations, in the order in which they are bound. -/
def all : List NativeOp := [add, sub, mul, div, print]

/-- The built-in operation of a name. -/
def ofName (name : Json) : Except Report NativeOp :=
  let found :=
    match name with
    | .str s => all.find? fun op => op.symbol = s
    | _ => none
  match found with
  | some op => .ok op
  | none => .error (.host "ValueError" (name.shown ++ " is not a valid NativeOp"))

end NativeOp

/-- A value. -/
inductive Value where
  | int (n : Int)
  | bool (b : Bool)
  | float (x : Float)
  | void
  | function (name : Name) (params : List Name) (body : Node)
  | builtin (op : NativeOp)
  | error (name message : String)
  | returned (value : Value)

namespace Value

instance : Inhabited Value := ⟨void⟩

/-- The name of a value's kind. A truth value counts as an integer. -/
def kind : Value → String
  | int _ => "Int"
  | bool _ => "Int"
  | float _ => "Float"
  | void => "Void"
  | function _ _ _ => "Function"
  | builtin _ => "Builtin"
  | error _ _ => "ErrorVal"
  | returned _ => "ReturnSignal"

/-- The name of a value's representation, for what can only hold trees. -/
def representation : Value → String
  | int _ => "int"
  | bool _ => "bool"
  | float _ => "float"
  | void => "VoidVal"
  | function _ _ _ => "FunctionValue"
  | builtin _ => "BuiltinFunction"
  | error _ _ => "ErrorVal"
  | returned _ => "ReturnSignal"

/-- A value inside another one. -/
def shown : Value → Text
  | int n => toString n
  | bool b => if b then "True" else "False"
  | float x => Layout.exact.write x
  | void => "Void"
  | function name _ _ => "<fn " ++ name.display ++ ">"
  | builtin op => "<builtin " ++ op.symbol ++ ">"
  | error name message => "Error(name=" ++ quoted name ++ ", message=" ++ quoted message ++ ")"
  | returned value => "ReturnSignal(" ++ value.shown ++ ")"

/-- The text that `print` writes for a value. A double is written without an exponent. -/
def text : Value → Text
  | int n => toString n
  | bool b => if b then "1" else "0"
  | float x => Layout.plain.write x
  | void => "void"
  | value => value.shown

/-- Whether a value counts as true: `void` and the zeros do not. -/
def isTrue : Value → Bool
  | int n => n != 0
  | bool b => b
  | float x => x != 0
  | void => false
  | _ => true

/-- What is told when a value is to be written as a tree. -/
def notATree (value : Value) : Report :=
  .host "TypeError" ("Unsupported node for serialization: " ++ value.representation)

end Value

end Abacus
