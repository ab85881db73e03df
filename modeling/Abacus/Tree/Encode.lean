import Abacus.Tree.Basic

/-!
# Trees as JSON

A node is an object with its tag under `type` and a field for each part. The arms of a branch are two
lists, the conditions and the blocks.
-/

namespace Abacus

namespace Node

section

variable (literal : Float → Json)

mutual

/-- A tree as JSON; `literal` says how a double is written. -/
def encodeWith (node : Node) : Json :=
  let fields : List (Text × Json) :=
    match node with
    | block statements => [("statements", .arr (encodeItems statements))]
    | assignment target value => [("id", target), ("value", encodeWith value)]
    | returns value => [("value", encodeWith value)]
    | expression value => [("value", encodeWith value)]
    | function name params body =>
      [("name", name), ("params", .arr params), ("body", encodeWith body)]
    | branch arms =>
      [("conditions", .arr (encodeConditions arms)), ("branches", .arr (encodeBodies arms))]
    | loop condition body => [("condition", encodeWith condition), ("body", encodeWith body)]
    | empty => []
    | reference name => [("name", name)]
    | float value => [("value", literal value)]
    | int value => [("value", .int value)]
    | bool value => [("value", .bool value)]
    | call callee arguments => [("callee", callee), ("arguments", .arr (encodeItems arguments))]
  .obj (("type", .str node.tag) :: fields)

def encodeItems : List Node → List Json
  | [] => []
  | node :: nodes => encodeWith node :: encodeItems nodes

def encodeConditions : List (Node × Node) → List Json
  | [] => []
  | (condition, _) :: arms => encodeWith condition :: encodeConditions arms

def encodeBodies : List (Node × Node) → List Json
  | [] => []
  | (_, body) :: arms => encodeWith body :: encodeBodies arms

end

end

/-- A tree as JSON. -/
def encode (node : Node) : Json := node.encodeWith .float

end Node

end Abacus
