import Abacus.Json.Display

/-!
# Program trees

The tree of a program. There is no node for `a + b`: it is a call of `+`, so operators and functions
are found in the same way. The conditions of a branch node are paired with their blocks; an `else`
block has the condition `true`.

Trees are also read from files, and nothing there says that a statement stands where a statement is
due or that a name is a text. So a node can stand anywhere, and a name can be any JSON value; running
such a tree ends in a fault.
-/

namespace Abacus

/-- What a tree has for a name: a text, in every tree that comes from a program. -/
abbrev Name := Json

/-- A node of a program tree. -/
inductive Node where
  | block (statements : List Node)
  | assignment (target : Name) (value : Node)
  | returns (value : Node)
  | expression (value : Node)
  | function (name : Name) (params : List Name) (body : Node)
  | branch (arms : List (Node × Node))
  | loop (condition body : Node)
  | empty
  | reference (name : Name)
  | float (value : Float)
  | int (value : Int)
  | bool (value : Bool)
  | call (callee : Name) (arguments : List Node)

namespace Node

instance : Inhabited Node := ⟨empty⟩

/-- The word for a node's kind, in files and in messages. -/
def tag : Node → String
  | block _ => "Block"
  | assignment _ _ => "Assignment"
  | returns _ => "Return"
  | expression _ => "ExpressionStatement"
  | function _ _ _ => "FunctionDecl"
  | branch _ => "If"
  | loop _ _ => "While"
  | empty => "Empty"
  | reference _ => "Variable"
  | float _ => "FloatLiteral"
  | int _ => "IntLiteral"
  | bool _ => "BoolLiteral"
  | call _ _ => "FunctionCall"

end Node

end Abacus
