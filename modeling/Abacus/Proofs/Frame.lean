import Mathlib.Order.Defs.Unbundled
import Abacus.Proofs.EvalSteps

/-!
# Writes stay in their scope

Evaluating an expression leaves the store as it was, and running a statement changes the variables of
the scope it runs in and nothing else (`Store.ChangesOnly`). Calls make the difference: the body of a
function runs in a new scope and changes that one only, and the new scope is dropped at the end, so of
a call nothing is left. All of this holds however the evaluation ends.

`Eval.Moves R` says that a computation moves the store along `R`. For a preorder it is passed on by
everything the evaluator is made of, so `evaluate` and `execute` need one induction on the levels.
-/

namespace Abacus

/-- Nothing but the variables of one scope has changed. -/
structure Store.ChangesOnly (scope : Nat) (s s' : Store) : Prop where
  size : s'.scopes.size = s.scopes.size
  others : ∀ id, id ≠ scope → s'.scopes[id]? = s.scopes[id]?
  parent : s'.parent? scope = s.parent? scope

namespace Store

instance (scope : Nat) : IsPreorder Store (ChangesOnly scope) where
  refl _ := ⟨rfl, fun _ _ => rfl, rfl⟩
  trans _ _ _ h₁ h₂ :=
    ⟨h₂.size.trans h₁.size, fun id ne => (h₂.others id ne).trans (h₁.others id ne),
      h₂.parent.trans h₁.parent⟩

@[simp] theorem getElem?_set (s : Store) (id : Nat) (name : Name) (value : Value) (other : Nat) :
    (s.set id name value).scopes[other]?
      = if id = other then s.scopes[other]?.map fun scope => scope.put name value
        else s.scopes[other]? :=
  Array.getElem?_modify

theorem set_changesOnly (s : Store) (id : Nat) (name : Name) (value : Value) :
    ChangesOnly id s (s.set id name value) where
  size := Array.size_modify
  others other ne := by rw [getElem?_set, if_neg ne.symm]
  parent := by
    simp only [parent?, getElem?_set, if_true]
    cases s.scopes[id]? <;> rfl

/-- A new scope, and whatever happens in it, is gone once it is dropped. -/
theorem ChangesOnly.pop_push {s s' : Store} {parent : Nat}
    (h : ChangesOnly (s.push parent).1 (s.push parent).2 s') : s'.pop = s := by
  have size : s'.scopes.size = s.scopes.size + 1 := h.size.trans (Array.size_push _)
  have same : s'.scopes.pop = s.scopes := by
    refine Array.ext_getElem? fun id => ?_
    rw [Array.getElem?_pop, size, Nat.add_sub_cancel]
    by_cases lt : id < s.scopes.size
    · rw [if_pos lt, h.others id (Nat.ne_of_lt lt)]
      exact (Array.getElem?_push_lt lt).trans (Array.getElem?_eq_getElem lt).symm
    · rw [if_neg lt, Array.getElem?_eq_none (Nat.not_lt.1 lt)]
  exact congrArg Store.mk same

end Store

namespace Eval

variable {α β : Type} {R : Store → Store → Prop} {scope : Nat}

/-- A computation moves the store along `R`, however it ends. -/
def Moves (R : Store → Store → Prop) (p : Eval α) : Prop :=
  ∀ m, R m.store (p m).2.store

/-- A computation leaves the store as it is. -/
abbrev Keeps (p : Eval α) : Prop := Moves (fun s s' => s' = s) p

/-- A computation changes nothing but the variables of one scope. -/
abbrev Confined (scope : Nat) (p : Eval α) : Prop := Moves (Store.ChangesOnly scope) p

instance : IsPreorder Store (fun s s' => s' = s) where
  refl _ := rfl
  trans _ _ _ h h' := h'.trans h

/-! ## Steps -/

section Steps

variable [IsPreorder Store R]

theorem Keeps.moves {p : Eval α} (h : Keeps p) : Moves R p := by
  intro m
  rw [h m]
  exact refl m.store

theorem moves_pure (a : α) : Moves R (pure a : Eval α) := fun m => refl m.store

theorem moves_fail (fault : EvalFault) : Moves R (fail fault : Eval α) := fun m => refl m.store

theorem Moves.bind {p : Eval α} {f : α → Eval β} (hp : Moves R p) (hf : ∀ a, Moves R (f a)) :
    Moves R (p >>= f) := by
  intro m
  have first := hp m
  show R m.store (Eval.bind p f m).2.store
  unfold Eval.bind
  generalize p m = outcome at first ⊢
  obtain ⟨_ | a, m'⟩ := outcome
  · exact first
  · exact Trans.trans first (hf a m')

end Steps

theorem putting_keeps {text : Option Text} {put : Machine → Machine}
    (h : ∀ m, (put m).store = m.store) : Keeps (putting text put) := by
  intro m
  unfold putting
  cases text.bind Text.surrogates? with
  | none => exact h m
  | some run => rfl

theorem tell_keeps (line : TraceLine) : Keeps (tell line) := by
  intro m
  exact putting_keeps (fun _ => by rfl) m

theorem write_keeps (text : Option Text) : Keeps (write text) := by
  intro m
  exact putting_keeps (fun _ => by rfl) m

theorem tells_keeps (threshold : Nat) : Keeps (tells threshold) := fun _ => rfl

theorem lookup_keeps (scope : Nat) (name : Name) : Keeps (lookup scope name) := by
  intro m
  unfold lookup
  split
  · split <;> rfl
  · rfl

theorem native_keeps (op : NativeOp) (arguments : List Value) : Keeps (native op arguments) := by
  unfold native
  split
  · exact (write_keeps _).bind fun _ => moves_pure _
  · exact moves_fail _

theorem assign_confined (scope : Nat) (name : Name) (value : Value) :
    Confined scope (assign scope name value) := by
  intro m
  unfold assign
  split
  · exact m.store.set_changesOnly scope name value
  · exact refl m.store

/-- What is confined to a new scope leaves nothing behind. -/
theorem inNewScope_keeps {parent : Nat} {body : Nat → Eval α}
    (h : ∀ scope, Confined scope (body scope)) : Keeps (inNewScope parent body) :=
  fun m => (h (m.store.push parent).1 { m with store := (m.store.push parent).2 }).pop_push

/-! ## What the evaluator is made of -/

section Parts

variable [IsPreorder Store R] {evaluate : Node → Eval Value} {execute : Node → Eval (Option Value)}

theorem evaluateAll_moves (he : ∀ node, Moves R (evaluate node)) (nodes : List Node) :
    Moves R (evaluateAll evaluate nodes) := by
  induction nodes with
  | nil => exact moves_pure []
  | cons node nodes ih =>
    exact (he node).bind fun value => ih.bind fun values => moves_pure (value :: values)

theorem unlessReturned_moves {next : Eval (Option Value)} (h : Moves R next)
    (returned : Option Value) : Moves R (unlessReturned next returned) := by
  cases returned with
  | none => exact h
  | some value => exact moves_pure _

theorem runStatements_moves (hx : ∀ node, Moves R (execute node)) (nodes : List Node) :
    Moves R (runStatements execute nodes) := by
  induction nodes with
  | nil => exact fun m => refl m.store
  | cons node nodes ih =>
    rw [runStatements_cons]
    exact (hx node).bind (unlessReturned_moves ih)

theorem runBlock_moves (hx : ∀ node, Moves R (execute node)) (node : Node) :
    Moves R (runBlock execute node) := by
  cases node with
  | block statements => exact runStatements_moves hx statements
  | _ => exact moves_fail _

theorem runArms_moves (he : ∀ node, Moves R (evaluate node)) (hx : ∀ node, Moves R (execute node))
    (arms : List (Node × Node)) : Moves R (runArms evaluate execute arms) := by
  induction arms with
  | nil => exact moves_pure none
  | cons arm arms ih =>
    obtain ⟨condition, body⟩ := arm
    refine (he condition).bind fun value => (tell_keeps _).moves.bind fun _ => ?_
    split
    · exact runBlock_moves hx body
    · exact ih

theorem runLoop_moves {condition : Eval Value} {body : Eval (Option Value)} (hc : Moves R condition)
    (hb : Moves R body) (rounds : Nat) : Moves R (runLoop condition body rounds) := by
  induction rounds with
  | zero => exact fun m => refl m.store
  | succ rounds ih =>
    rw [runLoop_succ]
    refine hc.bind fun value => (tell_keeps _).moves.bind fun _ => ?_
    split
    · exact hb.bind (unlessReturned_moves ih)
    · exact moves_pure none

end Parts

theorem bindAll_confined (scope : Nat) (bindings : List (Name × Value)) :
    Confined scope (bindAll scope bindings) := by
  induction bindings with
  | nil => exact moves_pure ()
  | cons binding bindings ih => exact (assign_confined scope binding.1 binding.2).bind fun _ => ih

theorem checkKeys_keeps (names : List Name) : Keeps (checkKeys names) := by
  induction names with
  | nil => exact moves_pure ()
  | cons name names ih =>
    unfold checkKeys
    split
    · exact ih
    · exact moves_fail _

theorem checkTexts_keeps (index : Nat) (names : List Name) : Keeps (checkTexts index names) := by
  induction names generalizing index with
  | nil => exact moves_pure ()
  | cons name names ih =>
    cases name with
    | str s => exact ih (index + 1)
    | _ => exact moves_fail _

theorem declare_confined (scope : Nat) (name : Name) (params : List Name) (body : Node) :
    Confined scope (declare scope name params body) := by
  refine (assign_confined scope name _).bind fun _ => ?_
  refine (tells_keeps _).moves.bind fun told => ?_
  split
  · exact (checkTexts_keeps 0 params).moves.bind fun _ => (tell_keeps _).moves
  · exact (tell_keeps _).moves

/-- Setting variables in a scope and running a block there. -/
theorem body_confined {execute : Node → Nat → Eval (Option Value)}
    (hx : ∀ node scope, Confined scope (execute node scope)) (bindings : List (Name × Value))
    (body : Node) (scope : Nat) :
    Confined scope (do
      bindAll scope bindings
      let returned ← runBlock (execute · scope) body
      return returned.getD .void : Eval Value) :=
  (bindAll_confined scope bindings).bind fun _ =>
    (runBlock_moves (fun node => hx node scope) body).bind fun _ => moves_pure _

theorem callFunction_keeps {execute : Node → Nat → Eval (Option Value)}
    (hx : ∀ node scope, Confined scope (execute node scope)) (name : Name) (params : List Name)
    (body : Node) (arguments : List Value) (caller : Nat) :
    Keeps (callFunction execute name params body arguments caller) := by
  unfold callFunction
  split
  · exact (checkKeys_keeps params).bind fun _ => inNewScope_keeps (body_confined hx _ body)
  · exact moves_fail _

/-! ## Evaluation -/

/-- Expressions leave the store as it is, and statements change their scope only. -/
theorem evaluate_keeps_execute_confined (rounds levels : Nat) :
    (∀ node scope, Keeps (evaluate rounds levels node scope)) ∧
      ∀ node scope, Confined scope (execute rounds levels node scope) := by
  induction levels with
  | zero =>
    refine ⟨fun node scope => ?_, fun node scope => ?_⟩
    · rw [evaluate]
      exact moves_fail _
    · rw [execute]
      exact moves_fail _
  | succ levels ih =>
    obtain ⟨keeps, confined⟩ := ih
    refine ⟨fun node scope => ?_, fun node scope => ?_⟩
    · cases node with
      | int n =>
        rw [evaluate]
        exact moves_pure _
      | float x =>
        rw [evaluate]
        exact moves_pure _
      | bool b =>
        rw [evaluate]
        exact moves_pure _
      | reference name =>
        rw [evaluate]
        exact (lookup_keeps scope name).bind fun _ => (tell_keeps _).bind fun _ => moves_pure _
      | call callee arguments =>
        rw [evaluate]
        refine (lookup_keeps scope callee).bind fun function => (tell_keeps _).bind fun _ => ?_
        refine (evaluateAll_moves (fun node => keeps node scope) arguments).bind fun values => ?_
        cases function with
        | builtin op => exact native_keeps op values
        | function name params body => exact callFunction_keeps confined name params body values scope
        | _ => exact moves_fail _
      | _ =>
        rw [evaluate] <;> first | exact moves_fail _ | exact nofun
    · cases node with
      | assignment target value =>
        rw [execute]
        refine (keeps value scope).moves.bind fun value => ?_
        refine (assign_confined scope target value).bind fun _ => ?_
        exact (tell_keeps _).moves.bind fun _ => moves_pure _
      | expression value =>
        rw [execute]
        exact (keeps value scope).moves.bind fun _ => moves_pure _
      | returns value =>
        rw [execute]
        exact (keeps value scope).moves.bind fun _ => moves_pure _
      | function name params body =>
        rw [execute]
        exact (declare_confined scope name params body).bind fun _ => moves_pure _
      | branch arms =>
        rw [execute]
        exact runArms_moves (fun node => (keeps node scope).moves) (fun node => confined node scope) arms
      | loop condition body =>
        rw [execute]
        exact runLoop_moves (keeps condition scope).moves
          (runBlock_moves (fun node => confined node scope) body) rounds
      | empty =>
        rw [execute]
        exact moves_pure _
      | _ =>
        rw [execute] <;> first | exact moves_fail _ | exact nofun

theorem evaluate_keeps (rounds levels : Nat) (node : Node) (scope : Nat) :
    Keeps (evaluate rounds levels node scope) :=
  (evaluate_keeps_execute_confined rounds levels).1 node scope

theorem execute_confined (rounds levels : Nat) (node : Node) (scope : Nat) :
    Confined scope (execute rounds levels node scope) :=
  (evaluate_keeps_execute_confined rounds levels).2 node scope

end Eval

namespace Machine

open Eval

theorem runBlock_newScope_keeps (limits : Limits) (program : Node) (scope : Nat)
    (bindings : List (Name × Value)) : Keeps (runBlock limits program scope true bindings) :=
  inNewScope_keeps (body_confined (execute_confined limits.rounds limits.levels) bindings program)

theorem runBlock_confined (limits : Limits) (program : Node) (scope : Nat)
    (bindings : List (Name × Value)) : Confined scope (runBlock limits program scope false bindings) :=
  body_confined (execute_confined limits.rounds limits.levels) bindings program scope

theorem run_confined (limits : Limits) (program : Node) (scope : Nat) :
    Confined scope (run limits program scope) :=
  fun m => runBlock_confined limits program scope [] m

theorem call_keeps (limits : Limits) (name : Name) (arguments : List Value) (scope : Nat) :
    Keeps (call limits name arguments scope) := by
  refine (lookup_keeps scope name).bind fun function => ?_
  cases function with
  | builtin op => exact native_keeps op arguments
  | function name params body =>
    exact callFunction_keeps (execute_confined limits.rounds limits.levels) name params body arguments
      scope
  | _ => exact moves_fail _

/-- Writes never leak out of the scope they run in. An expression and a call leave every scope as it
was; a statement and a block change no variables but those of their own scope; and a block with a scope
of its own changes nothing at all. -/
theorem writes_stay_in_scope (limits : Limits) (scope : Nat) (m : Machine) :
    (∀ node, (evaluate limits.rounds limits.levels node scope m).2.store = m.store) ∧
    (∀ name arguments, (call limits name arguments scope m).2.store = m.store) ∧
    (∀ name params body arguments,
      (callFunction (execute limits.rounds limits.levels) name params body arguments scope m).2.store
        = m.store) ∧
    (∀ node, m.store.ChangesOnly scope (execute limits.rounds limits.levels node scope m).2.store) ∧
    (∀ block, m.store.ChangesOnly scope
      (Eval.runBlock (execute limits.rounds limits.levels · scope) block m).2.store) ∧
    (∀ program, m.store.ChangesOnly scope (run limits program scope m).2.store) ∧
    ∀ program bindings, (runBlock limits program scope true bindings m).2.store = m.store := by
  refine ⟨fun node => ?_, fun name arguments => ?_, fun name params body arguments => ?_,
    fun node => ?_, fun block => ?_, fun program => ?_, fun program bindings => ?_⟩
  · exact evaluate_keeps limits.rounds limits.levels node scope m
  · exact call_keeps limits name arguments scope m
  · exact callFunction_keeps (execute_confined limits.rounds limits.levels) name params body arguments
      scope m
  · exact execute_confined limits.rounds limits.levels node scope m
  · exact runBlock_moves (fun node => execute_confined limits.rounds limits.levels node scope) block m
  · exact run_confined limits program scope m
  · exact runBlock_newScope_keeps limits program scope bindings m

end Machine

end Abacus
