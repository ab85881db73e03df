import Mathlib
import Abacus.Proofs.Activity
import Abacus.Proofs.Lawful

/-!
# Operators are native

An operator means the built-in operation at every point of every run. The points of a run are activities
(`Activity.Within`); that what they are about is canonical, and that the store is lawful, is handed down
from each to those that it begins (`Activity.Begins.lawful`). So a look-up of an operator finds the
operation from every scope, and the operation is given two values. What can go wrong then is what an
operand does, or what the arithmetic of two values does (`Combines`).
-/

namespace Abacus

open Node (IsCanonicalExpression IsCanonicalStatement IsCanonicalBlock)

variable {rounds levels scope : Nat} {m m₁ m₂ m₃ : Machine}

/-! ## Operator calls -/

/-- What can come of an operator between two operands: a fault of the left operand, or one of the right,
or what the operator makes of the two values. -/
inductive Combines (rounds levels : Nat) (op : NativeOp) (left right : Node) (scope : Nat)
    (m : Machine) : Except EvalFault Value × Machine → Prop
  | left {f m₁} (fails : Eval.evaluate rounds levels left scope m = (.error f, m₁)) :
      Combines rounds levels op left right scope m (.error f, m₁)
  | right {x f m₁ m₂} (value : Eval.evaluate rounds levels left scope m = (.ok x, m₁))
      (fails : Eval.evaluate rounds levels right scope m₁ = (.error f, m₂)) :
      Combines rounds levels op left right scope m (.error f, m₂)
  | applied {x y m₁ m₂} (value : Eval.evaluate rounds levels left scope m = (.ok x, m₁))
      (value' : Eval.evaluate rounds levels right scope m₁ = (.ok y, m₂))
      (makes : op.Makes x y (op.apply x y)) :
      Combines rounds levels op left right scope m ((op.apply x y).mapError .operand, m₂)

namespace Eval

variable {op : NativeOp}

/-- A call of an operator can always be told: its symbol goes into any file. -/
theorem tell_operator (op : NativeOp) (count : Nat) (m : Machine) :
    tell (.call (.str op.symbol) count) m = (.ok (), m.told (.call (.str op.symbol) count)) := by
  have words := Text.plain_ofString
  have plain : (TraceLine.call (.str op.symbol) count).text.Plain :=
    ((((words _).append (words _)).append (words _)).append (words _)).append (words _)
  refine putting_eq (fun _ t ht => ?_) fun m => m.told _
  cases ht
  exact plain

theorem native_operator (operator : op ≠ .print) (x y : Value) (m : Machine) :
    native op [x, y] m = ((op.apply x y).mapError .operand, m) := by
  rw [native, NativeOp.call_pair operator]
  cases op.apply x y with
  | error f => rfl
  | ok v =>
    -- nothing is printed, which no file refuses
    exact bind_of_ok (putting_eq (fun _ t nothing => absurd nothing (Option.not_mem_none t)) id) _

theorem lookup_operator (hm : m.LawfulAt scope) (operator : op ≠ .print) :
    lookup scope (.str op.symbol) m = (.ok (.builtin op), m) := by
  rw [lookup, if_pos (by rfl), hm.store.lookup_operator operator hm.known]

/-- Two operands, one after the other. -/
theorem evaluateAll_pair (evaluate : Node → Eval Value) (left right : Node) (m : Machine) :
    (∃ f m₁, evaluate left m = (.error f, m₁) ∧
      evaluateAll evaluate [left, right] m = (.error f, m₁)) ∨
    ∃ x m₁, evaluate left m = (.ok x, m₁) ∧
      ((∃ f m₂, evaluate right m₁ = (.error f, m₂) ∧
          evaluateAll evaluate [left, right] m = (.error f, m₂)) ∨
        ∃ y m₂, evaluate right m₁ = (.ok y, m₂) ∧
          evaluateAll evaluate [left, right] m = (.ok [x, y], m₂)) := by
  rcases first : evaluate left m with ⟨f | x, m₁⟩
  · exact .inl ⟨f, m₁, rfl, bind_of_error first _⟩
  · refine .inr ⟨x, m₁, rfl, ?_⟩
    rcases second : evaluate right m₁ with ⟨f | y, m₂⟩
    · have rest : evaluateAll evaluate [right] m₁ = (.error f, m₂) := bind_of_error second _
      exact .inl ⟨f, m₂, rfl, (bind_of_ok first _).trans (bind_of_error rest _)⟩
    · have rest : evaluateAll evaluate [right] m₁ = (.ok [y], m₂) := bind_of_ok second _
      exact .inr ⟨y, m₂, rfl, (bind_of_ok first _).trans (bind_of_ok rest _)⟩

/-- In a lawful machine the symbol finds its operator, so evaluating the call combines the operands. -/
theorem evaluate_operator (hm : m.LawfulAt scope) (operator : op ≠ .print) (rounds levels : Nat)
    (left right : Node) :
    Combines rounds levels op left right scope (m.told (.call (.str op.symbol) 2))
      (evaluate rounds (levels + 1) (.call (.str op.symbol) [left, right]) scope m) := by
  let told := m.told (.call (.str op.symbol) 2)
  have opened : evaluate rounds (levels + 1) (.call (.str op.symbol) [left, right]) scope m
      = (evaluateAll (fun node => evaluate rounds levels node scope) [left, right] >>=
          fun values => native op values) told := by
    rw [evaluate, bind_of_ok (lookup_operator hm operator)]
    exact bind_of_ok (tell_operator op 2 m) _
  rw [opened]
  rcases evaluateAll_pair (fun node => evaluate rounds levels node scope) left right told with
    ⟨f, m₁, fails, all⟩ | ⟨x, m₁, value, ⟨f, m₂, fails, all⟩ | ⟨y, m₂, value', all⟩⟩
  · rw [bind_of_error all]
    exact .left fails
  · rw [bind_of_error all]
    exact .right value fails
  · rw [bind_of_ok all, native_operator operator]
    exact .applied value value' (NativeOp.apply_makes operator x y)

theorem evaluateAll_length {evaluate : Node → Eval Value} {nodes : List Node} {values : List Value}
    (computed : evaluateAll evaluate nodes m = (.ok values, m₁)) : values.length = nodes.length := by
  induction nodes generalizing m values with
  | nil =>
    cases computed
    rfl
  | cons node nodes ih =>
    rcases first : evaluate node m with ⟨f | x, m₂⟩
    · cases (bind_of_error first _).symm.trans computed
    · have opened := (bind_of_ok first _).symm.trans computed
      rcases rest : evaluateAll evaluate nodes m₂ with ⟨f | others, m₃⟩
      · cases (bind_of_error rest _).symm.trans opened
      · cases (bind_of_ok rest _).symm.trans opened
        rw [List.length_cons, List.length_cons, ih rest]

end Eval

/-- An operator has two operands. -/
theorem Node.IsCanonicalCondition.operands {op : NativeOp} {operands : List Node}
    (canonical : IsCanonicalCondition (.call (.str op.symbol) operands)) (operator : op ≠ .print) :
    ∃ left right, operands = [left, right] := by
  rcases canonical with canonical | impossible
  · generalize symbol : Json.str op.symbol = callee at canonical
    cases canonical with
    | call isName _ =>
      rw [Json.str.injEq, Text.ofString_inj] at symbol
      exact absurd (symbol ▸ isName) (NativeOp.symbol_not_isName operator)
    | operator _ _ _ => exact ⟨_, _, rfl⟩
  · cases impossible

/-! ## The points of a run -/

namespace Activity

open Machine (LawfulAt)

/-- An activity about canonical nodes, names of programs and values that programs get hold of. An
operation other than `print` has two arguments. -/
def Canonical : Activity → Prop
  | run _ program _ => program.IsCanonicalBlock
  | evaluate _ node _ => node.IsCanonicalCondition
  | evaluateAll _ nodes _ => ∀ node ∈ nodes, node.IsCanonicalExpression
  | execute _ node _ => node.IsCanonicalStatement
  | runStatements _ nodes _ => ∀ node ∈ nodes, node.IsCanonicalStatement
  | runBlock _ node _ => node.IsCanonicalBlock
  | runArms _ arms _ => ∀ arm ∈ arms, arm.1.IsCanonicalCondition ∧ arm.2.IsCanonicalBlock
  | runLoop _ condition body _ _ => condition.IsCanonicalCondition ∧ body.IsCanonicalBlock
  | native op arguments => op = .print ∨ ∃ x y, arguments = [x, y]
  | callFunction _ name params body arguments _ =>
    IsCanonicalStatement (.function name params body) ∧ ∀ v ∈ arguments, v.Held
  | assign _ name value => name.IsNameKey ∧ value.Held
  | bindAll _ bindings => ∀ b ∈ bindings, b.1.IsNameKey ∧ b.2.Held

/-- The store is lawful, and programs can run in the scope that the activity is begun in. -/
def Placed (m : Machine) : Activity → Prop
  | run _ _ scope | evaluate _ _ scope | evaluateAll _ _ scope | execute _ _ scope
  | runStatements _ _ scope | runBlock _ _ scope | runArms _ _ scope | runLoop _ _ _ scope _
  | callFunction _ _ _ _ _ scope | assign scope _ _ | bindAll scope _ => m.LawfulAt scope
  | native _ _ => m.store.Lawful

theorem Placed.store {activity : Activity} (h : activity.Placed m) : m.store.Lawful := by
  cases activity with
  | native op arguments => exact h
  | _ => exact LawfulAt.store h

/-- A canonical activity, begun where it can be. -/
structure Lawful (m : Machine) (activity : Activity) : Prop where
  canonical : activity.Canonical
  placed : activity.Placed m

section Points

variable {callee : Name} {es : List Node} {vs : List Value} {f : Value}

theorem evaluate_lawful {node : Node} (canonical : node.IsCanonicalCondition)
    (rounds levels scope : Nat) :
    Eval.Upholds (LawfulAt scope) Value.Held (Eval.evaluate rounds levels node scope) :=
  (Eval.evaluate_execute_lawful rounds levels).1 node scope canonical

theorem execute_lawful {node : Node} (canonical : node.IsCanonicalStatement)
    (rounds levels scope : Nat) :
    Eval.Upholds (LawfulAt scope) (Eval.Gives Value.Held) (Eval.execute rounds levels node scope) :=
  (Eval.evaluate_execute_lawful rounds levels).2 node scope canonical

theorem block_lawful {body : Node} (canonical : body.IsCanonicalBlock) (rounds levels scope : Nat) :
    Eval.Upholds (LawfulAt scope) (Eval.Gives Value.Held)
      (Eval.runBlock (fun node => Eval.execute rounds levels node scope) body) :=
  Eval.runBlock_lawful (fun _ h => execute_lawful h rounds levels scope) canonical

theorem program_lawful {program : Node} (canonical : program.IsCanonicalBlock) (limits : Limits)
    (scope : Nat) :
    Eval.Upholds (LawfulAt scope) Value.Held (Machine.runBlock limits program scope false []) :=
  Eval.body_upholds .void (List.forall_mem_nil _)
    (block_lawful canonical limits.rounds limits.levels scope)

/-- What a call finds is held by programs, or it is an operator between two operands. -/
theorem called_lawful (canonical : Node.IsCanonicalCondition (.call callee es)) (hm : m.LawfulAt scope)
    (found : Eval.lookup scope callee m = (.ok f, m₁))
    (told : Eval.tell (.call callee es.length) m₁ = (.ok (), m₂)) :
    (∀ e ∈ es, e.IsCanonicalExpression) ∧
      (f.Held ∨ es.length = 2 ∧ ∃ op, f = .builtin op) ∧ m₂.LawfulAt scope := by
  rcases canonical with canonical | impossible
  · cases canonical with
    | call isName arguments =>
      obtain ⟨held, hm₁⟩ := (Eval.lookup_name_lawful isName).of_eq_ok hm found
      exact ⟨arguments, .inl held, ((Eval.tell_lawful _).of_eq_ok hm₁ told).2⟩
    | operator known left right =>
      obtain ⟨op, operator, rfl⟩ := NativeOp.exists_operator known
      obtain ⟨rfl, hm₁⟩ := (Eval.lookup_operator_lawful operator).of_eq_ok hm found
      refine ⟨?_, .inr ⟨rfl, op, rfl⟩, ((Eval.tell_lawful _).of_eq_ok hm₁ told).2⟩
      exact List.forall_mem_cons.2 ⟨left, List.forall_mem_singleton.2 right⟩
  · cases impossible

theorem arguments_lawful (canonical : Node.IsCanonicalCondition (.call callee es))
    (hm : m.LawfulAt scope) (found : Eval.lookup scope callee m = (.ok f, m₁))
    (told : Eval.tell (.call callee es.length) m₁ = (.ok (), m₂))
    (values : Eval.evaluateAll (fun e => Eval.evaluate rounds levels e scope) es m₂ = (.ok vs, m₃)) :
    (f.Held ∨ vs.length = 2 ∧ ∃ op, f = .builtin op) ∧ (∀ v ∈ vs, v.Held) ∧ m₃.LawfulAt scope := by
  obtain ⟨arguments, function, hm₂⟩ := called_lawful canonical hm found told
  rw [← Eval.evaluateAll_length values] at function
  refine ⟨function, (Eval.evaluateAll_upholds fun e mem => ?_).of_eq_ok hm₂ values⟩
  exact evaluate_lawful (.inl (arguments e mem)) rounds levels scope

theorem tested_lawful {c : Node} {v : Value} {line : TraceLine} (condition : c.IsCanonicalCondition)
    (hm : m.LawfulAt scope) (value : Eval.evaluate rounds levels c scope m = (.ok v, m₁))
    (told : Eval.tell line m₁ = (.ok (), m₂)) : m₂.LawfulAt scope := by
  have hm₁ := ((evaluate_lawful condition rounds levels scope).of_eq_ok hm value).2
  exact ((Eval.tell_lawful line).of_eq_ok hm₁ told).2

theorem entered_lawful {params : List Name} {caller : Nat} (hm : m.LawfulAt caller)
    (keys : Eval.checkKeys params m = (.ok (), m₁)) :
    LawfulAt (m₁.store.push caller).1 { m₁ with store := (m₁.store.push caller).2 } :=
  ((Eval.checkKeys_upholds params).of_eq_ok hm keys).2.push

theorem bindAll_lawful {bindings : List (Name × Value)}
    (lawful : ∀ b ∈ bindings, b.1.IsNameKey ∧ b.2.Held) :
    Eval.Upholds (LawfulAt scope) (fun _ => True) (Eval.bindAll scope bindings) :=
  Eval.bindAll_upholds fun b mem => Eval.assign_lawful (lawful b mem).1 (lawful b mem).2

end Points

/-- A lawful activity begins only lawful ones. -/
theorem Begins.lawful {activity next : Activity} (begins : Begins rounds (activity, m) (next, m₁))
    (h : activity.Lawful m) : next.Lawful m₁ := by
  obtain ⟨canonical, hm⟩ := h
  cases begins with
  | program => exact ⟨canonical, hm⟩
  -- calls
  | arguments found told =>
    obtain ⟨arguments, -, hm₂⟩ := called_lawful canonical hm found told
    exact ⟨arguments, hm₂⟩
  | operation found told values =>
    obtain ⟨function, -, hm₃⟩ := arguments_lawful canonical hm found told values
    refine ⟨?_, hm₃.store⟩
    rcases function with held | ⟨two, -⟩
    · cases held
      exact .inl rfl
    · exact .inr (List.length_eq_two.1 two)
  | function found told values =>
    obtain ⟨function, held, hm₃⟩ := arguments_lawful canonical hm found told values
    rcases function with function | ⟨-, _, impossible⟩
    · cases function with
      | function declared => exact ⟨⟨declared, held⟩, hm₃⟩
    · cases impossible
  | first => exact ⟨.inl (canonical _ List.mem_cons_self), hm⟩
  | others value =>
    obtain ⟨here, below⟩ := List.forall_mem_cons.1 canonical
    exact ⟨below, ((evaluate_lawful (.inl here) _ _ _).of_eq_ok hm value).2⟩
  | parameters count keys =>
    obtain ⟨declared, held⟩ := canonical
    exact ⟨Eval.forall_mem_zip declared.declared.2.1 held, entered_lawful hm keys⟩
  | body count keys bound =>
    obtain ⟨declared, held⟩ := canonical
    obtain ⟨-, named, block⟩ := declared.declared
    have bindings := Eval.forall_mem_zip named held
    exact ⟨block, ((bindAll_lawful bindings).of_eq_ok (entered_lawful hm keys) bound).2⟩
  | parameter => exact ⟨canonical _ List.mem_cons_self, hm⟩
  | otherParameters set =>
    obtain ⟨⟨named, held⟩, below⟩ := List.forall_mem_cons.1 canonical
    exact ⟨below, ((Eval.assign_lawful named held).of_eq_ok hm set).2⟩
  -- statements
  | assigned =>
    cases canonical with
    | assignment isName value => exact ⟨.inl value, hm⟩
  | assigns value =>
    cases canonical with
    | assignment isName expression =>
      obtain ⟨held, hm₁⟩ := (evaluate_lawful (.inl expression) _ _ _).of_eq_ok hm value
      exact ⟨⟨⟨_, isName, rfl⟩, held⟩, hm₁⟩
  | expression =>
    cases canonical with
    | expression value => exact ⟨.inl value, hm⟩
  | returned =>
    cases canonical with
    | returns value => exact ⟨.inl value, hm⟩
  | declares => exact ⟨⟨canonical.declared.1, .function canonical⟩, hm⟩
  | branch =>
    cases canonical with
    | branch arms => exact ⟨arms.each, hm⟩
  | loop =>
    cases canonical with
    | loop condition body => exact ⟨⟨.inl condition, body⟩, hm⟩
  | block =>
    cases canonical with
    | block each => exact ⟨each, hm⟩
  | statement => exact ⟨canonical _ List.mem_cons_self, hm⟩
  | statements done =>
    obtain ⟨here, below⟩ := List.forall_mem_cons.1 canonical
    exact ⟨below, ((execute_lawful here _ _ _).of_eq_ok hm done).2⟩
  -- arms and rounds
  | armCondition => exact ⟨(canonical _ List.mem_cons_self).1, hm⟩
  | armBody value told holds =>
    obtain ⟨condition, body⟩ := canonical _ List.mem_cons_self
    exact ⟨body, tested_lawful condition hm value told⟩
  | otherArms value told fails =>
    obtain ⟨⟨condition, -⟩, below⟩ := List.forall_mem_cons.1 canonical
    exact ⟨below, tested_lawful condition hm value told⟩
  | loopCondition => exact ⟨canonical.1, hm⟩
  | loopBody value told holds => exact ⟨canonical.2, tested_lawful canonical.1 hm value told⟩
  | nextRound value told holds done =>
    have hm₂ := tested_lawful canonical.1 hm value told
    exact ⟨canonical, ((block_lawful canonical.2 _ _ _).of_eq_ok hm₂ done).2⟩

theorem Within.lawful {start finish : Activity × Machine} (within : Within rounds start finish)
    (h : start.1.Lawful start.2) : finish.1.Lawful finish.2 := by
  induction within with
  | refl => exact h
  | tail _ begins ih => exact begins.lawful ih

/-- A lawful activity leaves a lawful store. -/
theorem perform_lawful (rounds : Nat) {activity : Activity} (h : activity.Lawful m) :
    (activity.perform rounds m).2.store.Lawful := by
  obtain ⟨canonical, hm⟩ := h
  cases activity with
  | run levels program scope =>
    exact (program_lawful canonical ⟨levels, rounds⟩ scope m hm).1.store
  | evaluate levels node scope => exact (evaluate_lawful canonical rounds levels scope m hm).1.store
  | evaluateAll levels nodes scope =>
    have all := Eval.evaluateAll_upholds fun node mem =>
      evaluate_lawful (.inl (canonical node mem)) rounds levels scope
    exact (all m hm).1.store
  | execute levels node scope => exact (execute_lawful canonical rounds levels scope m hm).1.store
  | runStatements levels nodes scope =>
    have all := Eval.runStatements_upholds fun node mem =>
      execute_lawful (canonical node mem) rounds levels scope
    exact (all m hm).1.store
  | runBlock levels node scope => exact (block_lawful canonical rounds levels scope m hm).1.store
  | runArms levels arms scope =>
    have conditions (arm) (mem : arm ∈ arms) :=
      evaluate_lawful (canonical arm mem).1 rounds levels scope
    have bodies (arm) (mem : arm ∈ arms) := block_lawful (canonical arm mem).2 rounds levels scope
    have all : Eval.Upholds (LawfulAt scope) (Eval.Gives Value.Held)
        (Eval.runArms (fun node => Eval.evaluate rounds levels node scope)
          (fun node => Eval.execute rounds levels node scope) arms) :=
      Eval.runArms_upholds Eval.tell_lawful conditions bodies
    exact (all m hm).1.store
  | runLoop levels condition body scope left =>
    have all := Eval.runLoop_upholds Eval.tell_lawful
      (evaluate_lawful canonical.1 rounds levels scope)
      (block_lawful canonical.2 rounds levels scope) left
    exact (all m hm).1.store
  | native op arguments => exact (Eval.native_keeps op arguments m) ▸ hm
  | callFunction levels name params body arguments caller =>
    have bodies (node : Node) (inner) (h : node.IsCanonicalStatement) :=
      execute_lawful h rounds levels inner
    exact (Eval.callFunction_lawful bodies canonical.1 canonical.2 m hm).1.store
  | assign scope name value => exact (Eval.assign_lawful canonical.1 canonical.2 m hm).1.store
  | bindAll scope bindings => exact (bindAll_lawful canonical m hm).1.store

end Activity

/-! ## Runs -/

/-- A store in which operators are the built-in operations: those are what the scope at the root has, no
other scope has one under the symbol of an operator, and from each scope an operator is found. -/
structure Store.Native (s : Store) : Prop where
  root : s.scopes[rootId]? = some .native
  free : ∀ id ≠ rootId, ∀ op : NativeOp, op ≠ .print → s.has id (.str op.symbol) = false
  found : ∀ id < s.scopes.size, ∀ op : NativeOp, op ≠ .print →
    s.lookup? id (.str op.symbol) = some (.builtin op)

theorem Store.Lawful.native {s : Store} (h : s.Lawful) : s.Native where
  root := h.root
  free id ne op operator := by
    rw [has]
    cases here : s.scopes[id]? with
    | none => rfl
    | some scope =>
      dsimp only
      rw [(h.others id scope here ne).plain op operator, Option.isSome_none]
  found _ known _ operator := h.lookup_operator operator known

namespace Machine

/-- A machine on which nothing has been done but to run programs that texts hold, one after the other,
and to make new scopes for them. A program runs in a scope that there is, but not in the one of the
built-in operations. The runs may have ended in any way. -/
inductive Hosted : Machine → Prop
  | start (level : Nat) (tracesToFile printsStrictly : Bool) :
      Hosted (start level tracesToFile printsStrictly)
  | child {m parent} (hosted : Hosted m) (known : parent < m.store.scopes.size) :
      Hosted { m with store := (m.store.push parent).2 }
  | run {m text offset program scope} (hosted : Hosted m)
      (read : (readProgram text offset).program = .ok program) (limits : Limits)
      (ordinary : scope ≠ Store.rootId) (known : scope < m.store.scopes.size) :
      Hosted (run limits program scope m).2

theorem Hosted.lawful (hosted : m.Hosted) : m.store.Lawful := by
  induction hosted with
  | start => exact Store.lawful_initial
  | child _ known ih => exact ih.push known
  | @run m _ _ program scope _ read limits ordinary known ih =>
    have lawful : (Activity.run limits.levels program scope).Lawful m :=
      ⟨isCanonicalBlock_of_readProgram read, ih, ordinary, known⟩
    exact Activity.perform_lawful limits.rounds lawful

/-- Operators mean the built-in operations at every point of every run of a program. What a text calls
by the symbol of an operator has two operands, and can fail only if one of them does, or as the
arithmetic of their values can; and whatever else is called, no operator is given other than two
values. -/
theorem operators_stay_native (hosted : m.Hosted) {text : List Char} {offset : Nat} {program : Node}
    (read : (readProgram text offset).program = .ok program) (limits : Limits)
    (ordinary : scope ≠ Store.rootId) (known : scope < m.store.scopes.size)
    {activity : Activity} {point : Machine}
    (within : Activity.Within limits.rounds (.run limits.levels program scope, m) (activity, point)) :
    point.store.Native ∧ (activity.perform limits.rounds point).2.store.Native ∧
    (∀ op arguments, activity = .native op arguments → op ≠ .print → ∃ x y, arguments = [x, y]) ∧
    ∀ (op : NativeOp) (levels : Nat) (operands : List Node) (inner : Nat),
      activity = .evaluate (levels + 1) (.call (.str op.symbol) operands) inner → op ≠ .print →
      ∃ left right, operands = [left, right] ∧
        Combines limits.rounds levels op left right inner
          (point.told (.call (.str op.symbol) 2))
          (Eval.evaluate limits.rounds (levels + 1) (.call (.str op.symbol) operands) inner point) := by
  have lawful : activity.Lawful point :=
    within.lawful ⟨isCanonicalBlock_of_readProgram read, hosted.lawful, ordinary, known⟩
  refine ⟨lawful.placed.store.native, (Activity.perform_lawful _ lawful).native, ?_, ?_⟩
  · rintro op arguments rfl operator
    exact lawful.canonical.resolve_left operator
  · rintro op levels operands inner rfl operator
    obtain ⟨left, right, rfl⟩ := Node.IsCanonicalCondition.operands lawful.canonical operator
    exact ⟨left, right, rfl, Eval.evaluate_operator lawful.placed operator _ _ left right⟩

/-- A program that sets the name of a built-in operation. -/
def redefining : Node := .block [.assignment (.str "print") (.call (.str "+") [.int 1, .int 2])]

/-- A program that uses what has become of it. -/
def doubling : Node :=
  .block [.assignment (.str "x") (.call (.str "*") [.reference (.str "print"), .int 2])]

/-- The machine on which the name has been set. -/
def redefined : Machine := (run ⟨9, 0⟩ redefining Store.globalId (start 0 false false)).2

set_option maxRecDepth 5000 in
theorem operators_stay_native_redefined :
    redefined.Hosted ∧ (readProgram "x=print*2;".toList 0).program = .ok doubling ∧
    Activity.Within 0 (.run 9 doubling Store.globalId, redefined)
      (.evaluate 8 (.call (.str "*") [.reference (.str "print"), .int 2]) Store.globalId, redefined) ∧
    redefined.store.Native ∧
    Combines 0 7 .mul (.reference (.str "print")) (.int 2) Store.globalId
      (redefined.told (.call (.str "*") 2))
      (Eval.evaluate 0 8 (.call (.str "*") [.reference (.str "print"), .int 2]) Store.globalId redefined) ∧
    (Eval.evaluate 0 8 (.call (.str "*") [.reference (.str "print"), .int 2]) Store.globalId redefined).1
      = .ok (.int 6) := by
  have first : (readProgram "print=1+2;".toList 0).program = .ok redefining := by cbv
  have second : (readProgram "x=print*2;".toList 0).program = .ok doubling := by cbv
  have hosted : redefined.Hosted := .run (.start 0 false false) first ⟨9, 0⟩ (by decide) (by decide)
  have within : Activity.Within 0 (.run 9 doubling Store.globalId, redefined)
      (.evaluate 8 (.call (.str "*") [.reference (.str "print"), .int 2]) Store.globalId, redefined) :=
    .head .program (.head .block (.head .statement (.single .assigned)))
  have known : Store.globalId < redefined.store.scopes.size := by cbv
  obtain ⟨native, -, -, operator⟩ :=
    operators_stay_native hosted second ⟨9, 0⟩ (by decide) known within
  obtain ⟨_, _, ⟨⟩, combines⟩ := operator .mul 7 _ _ rfl (by decide)
  exact ⟨hosted, second, within, native, combines, by cbv⟩

end Machine

end Abacus
