import Abacus.Proofs.Canonical
import Abacus.Proofs.FlatView
import Abacus.Proofs.Frame
import Abacus.Proofs.TreeRoundTrip
import Abacus.Proofs.Upholds

/-!
# Scopes that programs leave

Operators are looked up like any function. But no text can name one: what a program sets, declares and
passes has a name that begins with a letter. So the scope at the root keeps the operations that it began
with, no other scope has one under the symbol of an operator, and of the operations a program can get
hold of `print` alone. Such a store is `Store.Lawful`. A canonical program that runs in it, in any scope
but the one at the root, leaves it so (`Eval.evaluate_execute_lawful`).
-/

namespace Abacus

open Node (IsCanonicalExpression IsCanonicalStatement IsCanonicalBlock AreCanonicalArms)

/-- The values that programs get hold of. -/
inductive Value.Held : Value → Prop
  | int {n} : Held (.int n)
  | float {x} : Held (.float x)
  | void : Held .void
  | print : Held (.builtin .print)
  | function {name params body} (canonical : IsCanonicalStatement (.function name params body)) :
      Held (.function name params body)

/-! ## Names and symbols -/

namespace NativeOp

/-- The symbol of an operator is no name. -/
theorem symbol_not_isName {op : NativeOp} (operator : op ≠ .print) : ¬ IsName op.symbol := by
  rintro ⟨-, c, cs, spelling, start, -⟩
  cases op with
  | print => exact operator rfl
  | _ =>
    cases spelling
    exact absurd start (by decide)

theorem symbol_not_sameKey {op : NativeOp} (operator : op ≠ .print) {name : String}
    (isName : IsName name) : (Json.str op.symbol).sameKey (.str name) = false := by
  rw [Bool.eq_false_iff]
  intro same
  have eq := Json.sameKey_str_iff.1 same
  rw [Json.str.injEq, Text.ofString_inj] at eq
  exact symbol_not_isName operator (eq ▸ isName)

end NativeOp

/-! ## Scopes -/

namespace Scope

/-- The scope of the built-in operations. -/
def native : Scope where
  parent := none
  bindings := NativeOp.all.map fun op => (.str op.symbol, .builtin op)

theorem native_get?_symbol (op : NativeOp) : native.get? (.str op.symbol) = some (.builtin op) := by
  cases op <;> rfl

/-- Of the operations, names find `print` alone. -/
theorem native_get?_name {name : String} (isName : IsName name) {v : Value}
    (found : native.get? (.str name) = some v) : v = .builtin .print := by
  obtain ⟨b, first, rfl⟩ := Option.map_eq_some_iff.1 found
  obtain ⟨op, -, rfl⟩ := List.mem_map.1 (List.mem_of_find?_eq_some first)
  by_cases print : op = .print
  · rw [print]
  · have same := List.find?_some first
    dsimp only at same
    rw [NativeOp.symbol_not_sameKey print isName] at same
    cases same

/-- A scope of programs with this number: it hangs off an earlier one, no operator is bound in it, and
it binds values that programs get hold of. -/
structure Ordinary (id : Nat) (scope : Scope) : Prop where
  parent : ∃ parent < id, scope.parent = some parent
  plain : ∀ op : NativeOp, op ≠ .print → scope.get? (.str op.symbol) = none
  held : ∀ name v, scope.get? name = some v → v.Held

theorem Ordinary.put {id : Nat} {scope : Scope} (h : scope.Ordinary id) {name : String}
    (isName : IsName name) {v : Value} (held : v.Held) : (scope.put (.str name) v).Ordinary id where
  parent := h.parent
  plain op operator := by
    rw [get?_put, NativeOp.symbol_not_sameKey operator isName]
    exact h.plain op operator
  held other w found := by
    rw [get?_put] at found
    split at found
    · cases found
      exact held
    · exact h.held other w found

end Scope

/-! ## Stores -/

namespace Store

/-- The scope at the root is as it was at first, and all others are ordinary. -/
structure Lawful (s : Store) : Prop where
  root : s.scopes[rootId]? = some .native
  others : ∀ id scope, s.scopes[id]? = some scope → id ≠ rootId → scope.Ordinary id

theorem lawful_initial : initial.Lawful where
  root := rfl
  others := by
    intro id scope here ne
    match id, here with
    | 0, _ => exact absurd rfl ne
    | 1, here =>
      cases here
      exact ⟨⟨rootId, Nat.one_pos, rfl⟩, fun _ _ => rfl, nofun⟩

namespace Lawful

variable {s : Store} (h : s.Lawful)
include h

theorem root_lt : rootId < s.scopes.size := (Array.getElem?_eq_some_iff.1 h.root).1

/-- An operator is found from everywhere. -/
theorem lookup_operator {op : NativeOp} (operator : op ≠ .print) {id : Nat}
    (known : id < s.scopes.size) : s.lookup? id (.str op.symbol) = some (.builtin op) := by
  induction id using Nat.strong_induction_on with
  | _ id ih =>
    have here := Array.getElem?_eq_getElem known
    rw [lookup?, here]
    dsimp only
    by_cases root : id = rootId
    · subst root
      have native : s.scopes[rootId] = .native := Option.some.inj (here.symm.trans h.root)
      rw [native, Scope.native_get?_symbol]
    · have ordinary := h.others id _ here root
      obtain ⟨parent, lt, hangs⟩ := ordinary.parent
      rw [ordinary.plain op operator, hangs]
      dsimp only
      rw [if_pos lt]
      exact ih parent lt (lt.trans known)

/-- A name finds nothing but values that programs get hold of. -/
theorem lookup_name {name : String} (isName : IsName name) {id : Nat} {v : Value}
    (found : s.lookup? id (.str name) = some v) : v.Held := by
  fun_induction Store.lookup? s id (.str name) with
  | case1 => cases found
  | case2 id scope here value bound =>
    cases found
    by_cases root : id = rootId
    · subst root
      cases h.root.symm.trans here
      rw [Scope.native_get?_name isName bound]
      exact .print
    · exact (h.others id scope here root).held _ v bound
  | case3 _ _ _ _ _ _ _ ih => exact ih found
  | case4 => cases found
  | case5 => cases found

theorem set {id : Nat} (ne : id ≠ rootId) {name : String} (isName : IsName name) {v : Value}
    (held : v.Held) : (s.set id (.str name) v).Lawful where
  root := by rw [getElem?_set, if_neg ne, h.root]
  others other scope here root := by
    rw [getElem?_set] at here
    split at here
    · obtain ⟨old, found, rfl⟩ := Option.map_eq_some_iff.1 here
      exact (h.others other old found root).put isName held
    · exact h.others other scope here root

theorem push {parent : Nat} (known : parent < s.scopes.size) : (s.push parent).2.Lawful where
  root := (Array.getElem?_push_lt h.root_lt).trans ((Array.getElem?_eq_getElem _).symm.trans h.root)
  others id scope here root := by
    have here : (s.scopes.push ⟨some parent, []⟩)[id]? = some scope := here
    rw [Array.getElem?_push] at here
    split at here
    · next last =>
      cases here
      exact ⟨⟨parent, last ▸ known, rfl⟩, fun _ _ => rfl, nofun⟩
    · exact h.others id scope here root

end Lawful

end Store

/-- A machine with a lawful store, and a scope of it in which programs can run. -/
structure Machine.LawfulAt (scope : Nat) (m : Machine) : Prop where
  store : m.store.Lawful
  ordinary : scope ≠ Store.rootId
  known : scope < m.store.scopes.size

namespace Machine.LawfulAt

variable {scope : Nat} {m m' : Machine}

theorem of_store_eq (h : m.LawfulAt scope) (same : m'.store = m.store) : m'.LawfulAt scope :=
  ⟨same ▸ h.store, h.ordinary, same ▸ h.known⟩

theorem set (h : m.LawfulAt scope) {name : String} (isName : IsName name) {v : Value} (held : v.Held) :
    LawfulAt scope { m with store := m.store.set scope (.str name) v } :=
  ⟨h.store.set h.ordinary isName held, h.ordinary, by
    rw [(m.store.set_changesOnly scope (.str name) v).size]
    exact h.known⟩

/-- A new scope can be entered. -/
theorem push (h : m.LawfulAt scope) :
    LawfulAt (m.store.push scope).1 { m with store := (m.store.push scope).2 } :=
  ⟨h.store.push h.known, Nat.ne_of_gt h.store.root_lt, by
    show m.store.scopes.size < (m.store.scopes.push _).size
    rw [Array.size_push]
    exact Nat.lt_succ_self _⟩

end Machine.LawfulAt

/-! ## Nodes -/

/-- What stands for a condition: an expression, or the truth that an `else` has. -/
def Node.IsCanonicalCondition (node : Node) : Prop :=
  node.IsCanonicalExpression ∨ node = .bool true

/-- The name of a parameter. -/
def Json.IsNameKey (name : Json) : Prop := ∃ text : String, IsName text ∧ name = .str text

namespace Node

theorem AreCanonicalArms.each {arms : List (Node × Node)} (h : AreCanonicalArms arms) :
    ∀ arm ∈ arms, arm.1.IsCanonicalCondition ∧ arm.2.IsCanonicalBlock := by
  cases h with
  | last condition body => exact List.forall_mem_singleton.2 ⟨.inl condition, body⟩
  | otherwise condition body other =>
    exact List.forall_mem_cons.2
      ⟨⟨.inl condition, body⟩, List.forall_mem_singleton.2 ⟨.inr rfl, other⟩⟩
  | elif condition body rest =>
    exact List.forall_mem_cons.2 ⟨⟨.inl condition, body⟩, rest.each⟩

/-- What a declaration consists of. -/
theorem IsCanonicalStatement.declared {name : Name} {params : List Name} {body : Node}
    (h : IsCanonicalStatement (.function name params body)) :
    name.IsNameKey ∧ (∀ p ∈ params, p.IsNameKey) ∧ body.IsCanonicalBlock := by
  cases h with
  | @function text texts _ isName areNames body =>
    refine ⟨⟨text, isName, rfl⟩, fun p mem => ?_, body⟩
    obtain ⟨param, named, rfl⟩ := List.mem_map.1 mem
    exact ⟨param, areNames param named, rfl⟩

end Node

/-! ## Arithmetic -/

namespace NativeOp

/-- What an operator can make of two operands. Integers are computed exactly; the result is checked. -/
inductive Makes (op : NativeOp) : Value → Value → Except OperandFault Value → Prop
  | float {x y} : Makes op (.float x) (.float y) (.ok (.float (op.onFloats x y)))
  | int {a b r} (exact : op.onInts a b = .ok r) (fits : fitsInt32 r = true) :
      Makes op (.int a) (.int b) (.ok (.int r))
  | overflow {a b r} (exact : op.onInts a b = .ok r) (large : fitsInt32 r = false) :
      Makes op (.int a) (.int b) (.error (.overflow op))
  | divisionByZero {a} (division : op = .div) :
      Makes op (.int a) (.int 0) (.error .divisionByZero)
  | mismatch {x y} (ints : ∀ a b, ¬ (x = .int a ∧ y = .int b))
      (floats : ∀ a b, ¬ (x = .float a ∧ y = .float b)) : Makes op x y (.error (.unsupported op x y))

/-- Two integers or two doubles are combined, and any other operands are refused. -/
theorem apply_makes {op : NativeOp} (operator : op ≠ .print) (x y : Value) :
    op.Makes x y (op.apply x y) := by
  unfold apply
  split
  · exact .float
  · next a b =>
    cases exact : op.onInts a b with
    | ok r =>
      show op.Makes _ _ (op.checked r)
      unfold checked
      by_cases fits : fitsInt32 r = true
      · rw [if_pos fits]
        exact .int exact fits
      · rw [if_neg fits]
        exact .overflow exact (Bool.eq_false_iff.2 fits)
    | error f =>
      show op.Makes _ _ (.error f)
      cases op with
      | div =>
        simp only [onInts] at exact
        split at exact
        · next zero =>
          cases exact
          subst zero
          exact .divisionByZero rfl
        · cases exact
      | print => exact absurd rfl operator
      | _ => cases exact
  · next floats ints =>
    refine .mismatch ?_ ?_
    · rintro a b ⟨rfl, rfl⟩
      exact ints a b rfl rfl
    · rintro a b ⟨rfl, rfl⟩
      exact floats a b rfl rfl

/-- The operators of the grammar are operations. -/
theorem exists_operator {symbol : String} (known : symbol ∈ ["+", "-", "*", "/"]) :
    ∃ op : NativeOp, op ≠ .print ∧ symbol = op.symbol := by
  simp only [List.mem_cons, List.not_mem_nil, or_false] at known
  rcases known with rfl | rfl | rfl | rfl
  · exact ⟨.add, by decide, rfl⟩
  · exact ⟨.sub, by decide, rfl⟩
  · exact ⟨.mul, by decide, rfl⟩
  · exact ⟨.div, by decide, rfl⟩

/-- An operator combines two values and prints nothing. -/
theorem call_pair {op : NativeOp} (operator : op ≠ .print) (x y : Value) :
    op.call [x, y] = (op.apply x y).map fun v => (v, none) := by
  cases op with
  | print => exact absurd rfl operator
  | _ =>
    unfold call
    dsimp only
    cases apply _ x y <;> rfl

/-- Operations give numbers, or nothing. -/
theorem call_held {op : NativeOp} {arguments : List Value} {value : Value} {text : Option Text}
    (computed : op.call arguments = .ok (value, text)) : value.Held := by
  by_cases print : op = .print
  · subst print
    cases computed
    exact .void
  · match arguments with
    | [x, y] =>
      have makes := apply_makes print x y
      rw [call_pair print] at computed
      generalize op.apply x y = outcome at makes computed
      cases makes with
      | float =>
        cases computed
        exact .float
      | int _ _ =>
        cases computed
        exact .int
      | _ => cases computed
    | [] | [_] | _ :: _ :: _ :: _ =>
      cases op with
      | print => exact absurd rfl print
      | _ => cases computed

end NativeOp

/-! ## Evaluation -/

namespace Eval

open Machine (LawfulAt)

variable {scope : Nat}

theorem tell_lawful (line : TraceLine) : Upholds (LawfulAt scope) (fun _ => True) (tell line) :=
  tell_upholds fun _ hm => hm.of_store_eq rfl

theorem native_lawful (op : NativeOp) (arguments : List Value) :
    Upholds (LawfulAt scope) Value.Held (native op arguments) :=
  native_upholds (fun _ => write_upholds fun _ hm => hm.of_store_eq rfl) fun _ _ => NativeOp.call_held

theorem lookup_name_lawful {name : String} (isName : IsName name) :
    Upholds (LawfulAt scope) Value.Held (lookup scope (.str name)) :=
  lookup_upholds fun _ _ hm found => hm.store.lookup_name isName found

theorem lookup_operator_lawful {op : NativeOp} (operator : op ≠ .print) :
    Upholds (LawfulAt scope) (· = .builtin op) (lookup scope (.str op.symbol)) := by
  refine lookup_upholds fun m v hm found => ?_
  rw [hm.store.lookup_operator operator hm.known] at found
  exact (Option.some.inj found).symm

theorem assign_lawful {name : Name} (named : name.IsNameKey) {v : Value} (held : v.Held) :
    Upholds (LawfulAt scope) (fun _ => True) (assign scope name v) := by
  obtain ⟨text, isName, rfl⟩ := named
  exact assign_upholds fun _ hm => hm.set isName held

theorem runBlock_lawful {execute : Node → Eval (Option Value)}
    (hx : ∀ node, node.IsCanonicalStatement → Upholds (LawfulAt scope) (Gives Value.Held) (execute node))
    {body : Node} (block : body.IsCanonicalBlock) :
    Upholds (LawfulAt scope) (Gives Value.Held) (runBlock execute body) := by
  refine runBlock_upholds ?_
  rintro statements rfl s mem
  cases block with
  | block canonical => exact hx s (canonical s mem)

/-- What runs in a new scope leaves the store as it was, so it is enough to look at what it gives. -/
theorem inNewScope_lawful {α : Type} {Q : α → Prop} {body : Nat → Eval α}
    (confined : ∀ inner, Confined inner (body inner))
    (hb : ∀ inner, Upholds (LawfulAt inner) Q (body inner)) :
    Upholds (LawfulAt scope) Q (inNewScope scope body) := by
  intro m hm
  exact ⟨hm.of_store_eq (inNewScope_keeps confined m), (hb _ _ hm.push).2⟩

/-- A call runs the body in a scope of its own, which is lawful since its arguments are. -/
theorem callFunction_lawful {rounds levels : Nat} {name : Name} {params : List Name} {body : Node}
    (hx : ∀ node inner, node.IsCanonicalStatement →
      Upholds (LawfulAt inner) (Gives Value.Held) (execute rounds levels node inner))
    (canonical : IsCanonicalStatement (.function name params body)) {arguments : List Value}
    (held : ∀ v ∈ arguments, v.Held) :
    Upholds (LawfulAt scope) Value.Held
      (callFunction (execute rounds levels) name params body arguments scope) := by
  obtain ⟨-, named, block⟩ := canonical.declared
  have bindings := forall_mem_zip named held
  unfold callFunction
  split
  · refine (checkKeys_upholds params).bind fun _ _ => ?_
    refine inNewScope_lawful (body_confined (execute_confined rounds levels) _ body) fun inner => ?_
    exact body_upholds .void (fun b mem => assign_lawful (bindings b mem).1 (bindings b mem).2)
      (runBlock_lawful (fun node => hx node inner) block)
  · exact upholds_fail _

/-- By induction on the levels, expressions and statements together. Nothing in a canonical program binds
the symbol of an operator, since that is no name. -/
theorem evaluate_execute_lawful (rounds levels : Nat) :
    (∀ node scope, node.IsCanonicalCondition →
      Upholds (LawfulAt scope) Value.Held (evaluate rounds levels node scope)) ∧
    ∀ node scope, node.IsCanonicalStatement →
      Upholds (LawfulAt scope) (Gives Value.Held) (execute rounds levels node scope) := by
  induction levels with
  | zero =>
    refine ⟨fun node scope _ => ?_, fun node scope _ => ?_⟩
    · rw [evaluate]
      exact upholds_fail _
    · rw [execute]
      exact upholds_fail _
  | succ levels ih =>
    obtain ⟨he, hx⟩ := ih
    refine ⟨fun node scope canonical => ?_, fun node scope canonical => ?_⟩
    · rcases canonical with canonical | rfl
      · cases canonical with
        | int _ _ =>
          rw [evaluate]
          exact upholds_pure .int
        | float _ _ =>
          rw [evaluate]
          exact upholds_pure .float
        | reference isName =>
          rw [evaluate]
          refine (lookup_name_lawful isName).bind fun value held => ?_
          exact (tell_lawful _).bind fun _ _ => upholds_pure held
        | call isName canonical =>
          rw [evaluate]
          refine (lookup_name_lawful isName).bind fun function held => ?_
          refine (tell_lawful _).bind fun _ _ => ?_
          refine (evaluateAll_upholds fun node mem => he node scope (.inl (canonical node mem))).bind
            fun values held' => ?_
          cases held with
          | print => exact native_lawful _ _
          | function canonical => exact callFunction_lawful hx canonical held'
          | _ => exact upholds_fail _
        | operator known left right =>
          rw [evaluate]
          obtain ⟨op, operator, rfl⟩ := NativeOp.exists_operator known
          refine (lookup_operator_lawful operator).bind fun function found => ?_
          refine (tell_lawful _).bind fun _ _ => ?_
          have operands : ∀ node ∈ [_, _], Upholds (LawfulAt scope) Value.Held
              (evaluate rounds levels node scope) :=
            List.forall_mem_cons.2
              ⟨he _ scope (.inl left), List.forall_mem_singleton.2 (he _ scope (.inl right))⟩
          refine (evaluateAll_upholds operands).bind fun values _ => ?_
          subst found
          exact native_lawful _ _
      · rw [evaluate]
        exact upholds_pure .int
    · cases canonical with
      | assignment isName value =>
        rw [execute]
        refine (he _ scope (.inl value)).bind fun value held => ?_
        refine (assign_lawful ⟨_, isName, rfl⟩ held).bind fun _ _ => ?_
        exact (tell_lawful _).bind fun _ _ => upholds_pure gives_none
      | expression value =>
        rw [execute]
        exact (he _ scope (.inl value)).bind fun _ _ => upholds_pure gives_none
      | returns value =>
        rw [execute]
        refine (he _ scope (.inl value)).bind fun value held => upholds_pure ?_
        rintro _ ⟨⟩
        exact held
      | function isName areNames body =>
        rw [execute]
        have declared : IsCanonicalStatement (.function _ _ _) := .function isName areNames body
        refine (declare_upholds tell_lawful ?_).bind fun _ _ => upholds_pure gives_none
        exact assign_lawful ⟨_, isName, rfl⟩ (.function declared)
      | branch canonical =>
        rw [execute]
        refine runArms_upholds tell_lawful (fun arm mem => ?_) fun arm mem => ?_
        · exact he _ scope (canonical.each arm mem).1
        · exact runBlock_lawful (fun node => hx node scope) (canonical.each arm mem).2
      | loop condition body =>
        rw [execute]
        exact runLoop_upholds tell_lawful (he _ scope (.inl condition))
          (runBlock_lawful (fun node => hx node scope) body) rounds

end Eval

end Abacus
