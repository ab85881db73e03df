import Abacus.Scope.Name
import Abacus.Value.Basic

/-!
# Scopes

A scope holds variables and may hang off another scope. A variable is looked up in a scope, then in
the one it hangs off, and so on; it is always set in the scope itself. The store keeps every scope
under a number. A scope is made after the one it hangs off, so it has the larger number, and a walk
along the scopes ends.
-/

namespace Abacus

/-- Variables, and the scope they hang off. -/
structure Scope where
  parent : Option Nat
  bindings : List (Name × Value)

namespace Scope

/-- The value of a variable of this scope. -/
def get? (scope : Scope) (name : Name) : Option Value :=
  (scope.bindings.find? fun (key, _) => key.sameKey name).map (·.2)

/-- Sets a variable in a list: in its place if it is there, else at the end. -/
def putIn (name : Name) (value : Value) : List (Name × Value) → List (Name × Value)
  | [] => [(name, value)]
  | (key, old) :: bindings =>
    if key.sameKey name then (key, value) :: bindings
    else (key, old) :: putIn name value bindings

/-- Sets a variable of this scope. -/
def put (scope : Scope) (name : Name) (value : Value) : Scope :=
  { scope with bindings := putIn name value scope.bindings }

/-- The variables in the order of their names. -/
def listing (scope : Scope) : List (Name × Value) :=
  scope.bindings.mergeSort fun (a, _) (b, _) => a.display.notAfter b.display

end Scope

/-- All scopes, by number. -/
structure Store where
  scopes : Array Scope

namespace Store

/-- The number of the scope of the built-in operations. -/
def rootId : Nat := 0

/-- The number of the scope in which programs run. -/
def globalId : Nat := 1

/-- A fresh store: the built-in operations, and the scope of programs above them. -/
def initial : Store where
  scopes := #[
    { parent := none, bindings := NativeOp.all.map fun op => (.str op.symbol, .builtin op) },
    { parent := some rootId, bindings := [] }]

/-- The value of a variable, as seen from a scope. -/
def lookup? (store : Store) (id : Nat) (name : Name) : Option Value :=
  match store.scopes[id]? with
  | none => none
  | some scope =>
    match scope.get? name with
    | some value => some value
    | none =>
      match scope.parent with
      | some parent => if parent < id then lookup? store parent name else none
      | none => none
termination_by id

/-- Sets a variable of a scope. -/
def set (store : Store) (id : Nat) (name : Name) (value : Value) : Store :=
  ⟨store.scopes.modify id fun scope => scope.put name value⟩

/-- A new scope that hangs off `parent`, and its number. -/
def push (store : Store) (parent : Nat) : Nat × Store :=
  (store.scopes.size, ⟨store.scopes.push { parent := some parent, bindings := [] }⟩)

/-- Drops the scope that was made last. -/
def pop (store : Store) : Store := ⟨store.scopes.pop⟩

/-- Whether a scope itself has the variable. -/
def has (store : Store) (id : Nat) (name : Name) : Bool :=
  match store.scopes[id]? with
  | some scope => (scope.get? name).isSome
  | none => false

/-- The scope that a scope hangs off. -/
def parent? (store : Store) (id : Nat) : Option Nat :=
  store.scopes[id]?.bind Scope.parent

/-- The scopes from `id` up to the one in which programs run. -/
def chain (store : Store) (id : Nat) : List Scope :=
  match store.scopes[id]? with
  | none => []
  | some scope =>
    if id = globalId then [scope]
    else
      match scope.parent with
      | some parent => if parent < id then scope :: chain store parent else [scope]
      | none => [scope]
termination_by id

end Store

end Abacus
