import Abacus.Proofs.FlatView

/-!
# Runs on scopes are runs on a map

A well-sorted program that runs on a chain of scopes and does not run into a limit ends as the semantics
without scopes says it does from the map that the chain shows: with the same value or fault, after the
same lines, and the chain then shows the map that the semantics leaves.
-/

namespace Abacus

/-- The faults that the limits of a run bring about. -/
def EvalFault.isLimit : EvalFault → Bool
  | tooDeep => true
  | unfinished => true
  | _ => false

namespace Eval

open Flat

variable {α : Type}

/-- A run from `m` hits a limit, or it ends with some lines more, and then `D` holds. -/
inductive Shows (D : Except EvalFault α → List Text → Machine → Prop) (m : Machine) :
    Except EvalFault α × Machine → Prop
  | limit {f m'} (reached : f.isLimit = true) : Shows D m (.error f, m')
  | ended {r m' lines} (printed : m'.printed = lines.reverse ++ m.printed) (means : D r lines m') :
      Shows D m (r, m')

/-- Lines after lines. -/
theorem printed_append {m m₁ m₂ : Machine} {lines lines' : List Text}
    (first : m₁.printed = lines.reverse ++ m.printed)
    (second : m₂.printed = lines'.reverse ++ m₁.printed) :
    m₂.printed = (lines ++ lines').reverse ++ m.printed := by
  rw [second, first, List.reverse_append, List.append_assoc]

/-- A run that prints nothing. -/
theorem Shows.silent {D : Except EvalFault α → List Text → Machine → Prop} {m m' : Machine}
    {r : Except EvalFault α} (printed : m'.printed = m.printed) (means : D r [] m') :
    Shows D m (r, m') :=
  .ended (show m'.printed = ([] : List Text).reverse ++ m.printed from printed) means

theorem Shows.mono {D E : Except EvalFault α → List Text → Machine → Prop} {m : Machine}
    {outcome : Except EvalFault α × Machine} (h : Shows D m outcome)
    (imp : ∀ r lines m', D r lines m' → E r lines m') : Shows E m outcome := by
  cases h with
  | limit reached => exact .limit reached
  | ended printed means => exact .ended printed (imp _ _ _ means)

/-- A run that goes on from where another one has left off. -/
theorem Shows.after {D : Except EvalFault α → List Text → Machine → Prop} {m m₁ : Machine}
    {lines : List Text} {outcome : Except EvalFault α × Machine}
    (printed : m₁.printed = lines.reverse ++ m.printed)
    (rest : Shows (fun r lines' m' => D r (lines ++ lines') m') m₁ outcome) : Shows D m outcome := by
  cases rest with
  | limit reached => exact .limit reached
  | @ended r m' lines' printed' means => exact .ended (printed_append printed printed') means

/-- Telling a line prints nothing. -/
theorem Shows.of_told {D : Except EvalFault α → List Text → Machine → Prop} {m : Machine}
    (line : TraceLine) {outcome : Except EvalFault α × Machine} (h : Shows D (m.told line) outcome) :
    Shows D m outcome := by
  cases h with
  | limit reached => exact .limit reached
  | ended printed means => exact .ended printed means

theorem Shows.map_pure {β : Type} {D : Except EvalFault β → List Text → Machine → Prop} {g : α → β}
    {p : Eval α} {m : Machine} (h : Shows (fun r => D (r.map g)) m (p m)) :
    Shows D m ((p >>= fun a => pure (g a)) m) := by
  show Shows D m (Eval.bind p _ m)
  unfold Eval.bind
  generalize p m = outcome at h ⊢
  cases h with
  | limit reached => exact .limit reached
  | @ended r m' lines printed means =>
    cases r with
    | error fault => exact .ended printed means
    | ok a => exact .ended printed means

/-- Something that leaves the store as it is, and then something with its value. -/
theorem Shows.bind {β : Type} {k : Vocabulary} {scope : Nat} {m : Machine} {p : Eval α}
    {f : α → Eval β} {Q : α → Prop} {C : Except EvalFault α → List Text → Prop}
    {D : Except EvalFault β → List Text → Machine → Prop}
    (first : Shows (fun r lines _ => C r lines) m (p m)) (ready : m.Ready k scope)
    (sound : Sound k m.strict Q p) (keeps : Keeps p)
    (fault : ∀ fault lines m', m'.store = m.store → C (.error fault) lines → D (.error fault) lines m')
    (value : ∀ a lines m', Q a → m'.Ready k scope → m'.store = m.store → C (.ok a) lines →
      Shows (fun r lines' m'' => D r (lines ++ lines') m'') m' (f a m')) :
    Shows D m ((p >>= f) m) := by
  have fine := sound m ready.sorted
  have ready' := ready.after sound keeps.moves
  have same := keeps m
  show Shows D m (Eval.bind p f m)
  unfold Eval.bind
  generalize p m = outcome at first fine same ready' ⊢
  cases first with
  | limit reached => exact .limit reached
  | @ended r m' lines printed means =>
    cases fine with
    | fault _ _ => exact .ended printed (fault _ lines m' same means)
    | value holds _ => exact .after printed (value _ lines m' holds ready' same means)

/-- A statement or a body, and then something if it has not returned. -/
theorem Shows.unlessReturned {D E : Except EvalFault (Option Value) → List Text → Machine → Prop}
    {p next : Eval (Option Value)} {m : Machine} (first : Shows D m (p m))
    (stop : ∀ r lines m', D r lines m' → r ≠ .ok none → E r lines m')
    (rest : ∀ lines, D (.ok none) lines (p m).2 →
      Shows (fun r lines' m' => E r (lines ++ lines') m') (p m).2 (next (p m).2)) :
    Shows E m ((p >>= Eval.unlessReturned next) m) := by
  show Shows E m (Eval.bind p _ m)
  unfold Eval.bind
  generalize p m = outcome at first rest ⊢
  cases first with
  | limit reached => exact .limit reached
  | @ended r m' lines printed means =>
    match r, means with
    | .error fault, means => exact .ended printed (stop _ lines m' means nofun)
    | .ok (some v), means => exact .ended printed (stop _ lines m' means nofun)
    | .ok none, means => exact .after printed (rest lines means)

section Levels

variable {k : Vocabulary} {rounds levels scope : Nat} {m : Machine}

/-- What the induction on the levels gives for expressions. -/
abbrev EvaluatesBelow (k : Vocabulary) (rounds levels : Nat) : Prop :=
  ∀ ⦃node : Node⦄, node.IsExpression k → ∀ ⦃scope : Nat⦄ ⦃m : Machine⦄, m.Ready k scope →
    Shows (fun r lines _ => Evaluates (m.store.view scope) node r lines) m
      (evaluate rounds levels node scope m)

/-- What the induction on the levels gives for statements. -/
abbrev ExecutesBelow (k : Vocabulary) (rounds levels : Nat) : Prop :=
  ∀ ⦃node : Node⦄, node.IsStatement k → ∀ ⦃scope : Nat⦄ ⦃m : Machine⦄, m.Ready k scope →
    Shows (fun r lines m' => Executes (m.store.view scope) node r lines (m'.store.view scope)) m
      (execute rounds levels node scope m)

section Expressions

variable (he : EvaluatesBelow k rounds levels)

include he

/-- An expression, and then something with its value. -/
theorem evaluate_bind_shows {β : Type} {node : Node} (sorted : node.IsExpression k)
    (ready : m.Ready k scope) {f : Value → Eval β}
    {D : Except EvalFault β → List Text → Machine → Prop}
    (fault : ∀ fault lines m', m'.store = m.store →
      Evaluates (m.store.view scope) node (.error fault) lines → D (.error fault) lines m')
    (value : ∀ v lines m', v.Sorted k → m'.Ready k scope → m'.store = m.store →
      Evaluates (m.store.view scope) node (.ok v) lines →
      Shows (fun r lines' m'' => D r (lines ++ lines') m'') m' (f v m')) :
    Shows D m ((evaluate rounds levels node scope >>= f) m) :=
  .bind (he sorted ready) ready (evaluate_sound sorted rounds levels scope)
    (evaluate_keeps rounds levels node scope) fault value

theorem evaluateAll_shows {nodes : List Node} (sorted : ∀ node ∈ nodes, node.IsExpression k)
    (ready : m.Ready k scope) :
    Shows (fun r lines _ => EvaluatesAll (m.store.view scope) nodes r lines) m
      (evaluateAll (fun node => evaluate rounds levels node scope) nodes m) := by
  induction nodes generalizing m with
  | nil => exact .silent rfl .nil
  | cons node nodes ih =>
    obtain ⟨first, rest⟩ := List.forall_mem_cons.1 sorted
    refine evaluate_bind_shows he first ready (fun _ _ _ _ means => .fault means) ?_
    intro v lines m' _ ready' store means
    refine .map_pure ((ih rest ready').mono fun r lines' _ means' => ?_)
    rw [store] at means'
    exact .cons means means'

end Expressions

section Statements

variable (hx : ExecutesBelow k rounds levels)

include hx

theorem runStatements_shows {nodes : List Node} (sorted : ∀ node ∈ nodes, node.IsStatement k)
    (ready : m.Ready k scope) :
    Shows (fun r lines m' => ExecutesAll (m.store.view scope) nodes r lines (m'.store.view scope)) m
      (runStatements (fun node => execute rounds levels node scope) nodes m) := by
  induction nodes generalizing m with
  | nil => exact .silent rfl .nil
  | cons node nodes ih =>
    obtain ⟨here, below⟩ := List.forall_mem_cons.1 sorted
    have ready' := ready.after (execute_sound here rounds levels scope)
      (execute_confined rounds levels node scope)
    rw [runStatements_cons]
    refine .unlessReturned (hx here ready) (fun _ _ _ => .stopped) fun lines means => ?_
    exact (ih below ready').mono fun _ _ _ => .next means

theorem runBlock_shows {node : Node} (block : node.IsBlock k) (ready : m.Ready k scope) :
    Shows (fun r lines m' => ExecutesBlock (m.store.view scope) node r lines (m'.store.view scope)) m
      (runBlock (fun node => execute rounds levels node scope) node m) := by
  cases block with
  | block each => exact (runStatements_shows hx each ready).mono fun _ _ _ => .block

omit hx in
theorem runBlock_ready {node : Node} (block : node.IsBlock k) (ready : m.Ready k scope) :
    (runBlock (fun node => execute rounds levels node scope) node m).2.Ready k scope :=
  ready.after (runBlock_sound block fun _ sorted => execute_sound sorted rounds levels scope)
    (runBlock_moves (fun node => execute_confined rounds levels node scope) node)

/-- A call runs the body on a copy of the map. -/
theorem callFunction_shows {function : Name} {params : List Name} {body : Node}
    {arguments : List Value} (hp : ∀ p ∈ params, k.Names p) (block : body.IsBlock k)
    (ha : ∀ v ∈ arguments, v.Sorted k) (count : arguments.length = params.length)
    (ready : m.Ready k scope) :
    Shows (fun r lines _ => ∃ ending env', r = bodyValue ending ∧
        ExecutesBlock ((m.store.view scope).overlay (params.zip arguments)) body ending lines env') m
      (callFunction (execute rounds levels) function params body arguments scope m) := by
  obtain ⟨inner, readyInner, same, view, eq⟩ := callFunction_eq ready hp ha count
  rw [eq]
  have run := runBlock_shows hx block readyInner
  rw [view] at run
  generalize runBlock _ body inner = outcome at run ⊢
  cases run with
  | @limit f m' reached => exact .limit reached
  | @ended ending m' lines printed means =>
    exact .ended (same ▸ printed) ⟨ending, m'.store.view _, rfl, means⟩

end Statements

section Both

variable (he : EvaluatesBelow k rounds levels) (hx : ExecutesBelow k rounds levels)

include he hx

/-- By recursion on the arms: the machine goes on exactly where the condition is false. -/
theorem runArms_shows {arms : List (Node × Node)} (conditions : ∀ arm ∈ arms, arm.1.IsExpression k)
    (bodies : ∀ arm ∈ arms, arm.2.IsBlock k) (ready : m.Ready k scope) :
    Shows (fun r lines m' => ExecutesArms (m.store.view scope) arms r lines (m'.store.view scope)) m
      (runArms (fun node => evaluate rounds levels node scope)
        (fun node => execute rounds levels node scope) arms m) := by
  induction arms generalizing m with
  | nil => exact .silent rfl .nil
  | cons arm arms ih =>
    obtain ⟨condition, body⟩ := arm
    obtain ⟨here, conditions⟩ := List.forall_mem_cons.1 conditions
    obtain ⟨block, bodies⟩ := List.forall_mem_cons.1 bodies
    refine evaluate_bind_shows he here ready (fun f lines m' store means => ?_) ?_
    · rw [store]
      exact .fault means
    · intro v lines m' hv ready' store means
      rw [bind_of_ok (tell_eq ready' (.ifCondition hv))]
      have told := ready'.told (.ifCondition v)
      have view : (m'.told (.ifCondition v)).store.view scope = m.store.view scope :=
        congrArg (Store.view · scope) store
      refine .of_told (.ifCondition v) ?_
      split
      · next holds =>
        refine (runBlock_shows hx block told).mono fun r lines' m'' means' => ?_
        rw [view] at means'
        exact .taken means holds means'
      · next fails =>
        refine (ih conditions bodies told).mono fun r lines' m'' means' => ?_
        rw [view] at means'
        exact .skipped means (Bool.eq_false_iff.2 fails) means'

/-- By induction on the rounds that are left. A loop that runs out of them is not shown to do anything. -/
theorem runLoop_shows {condition body : Node} (sorted : condition.IsExpression k)
    (block : body.IsBlock k) (count : Nat) (ready : m.Ready k scope) :
    Shows (fun r lines m' => ExecutesLoop (m.store.view scope) condition body r lines
        (m'.store.view scope)) m
      (runLoop (evaluate rounds levels condition scope)
        (runBlock (fun node => execute rounds levels node scope) body) count m) := by
  induction count generalizing m with
  | zero => exact .limit rfl
  | succ count ih =>
    rw [runLoop_succ]
    refine evaluate_bind_shows he sorted ready (fun f lines m' store means => ?_) ?_
    · rw [store]
      exact .fault means
    · intro v lines m₁ hv ready₁ store means
      rw [bind_of_ok (tell_eq ready₁ (.whileCondition hv))]
      have told := ready₁.told (.whileCondition v)
      have view : (m₁.told (.whileCondition v)).store.view scope = m.store.view scope :=
        congrArg (Store.view · scope) store
      refine .of_told (.whileCondition v) ?_
      split
      · next holds =>
        have round := runBlock_shows hx block told
        rw [view] at round
        refine .unlessReturned round (fun _ _ _ => .stopped means holds) fun lines' means' => ?_
        refine (ih (runBlock_ready block told)).mono fun _ _ _ rest => ?_
        exact .next means holds means' rest
      · next fails =>
        refine .silent rfl ?_
        rw [List.append_nil, view]
        exact .done means (Bool.eq_false_iff.2 fails)

end Both

/-! ## The levels -/

section Both

variable (he : EvaluatesBelow k rounds levels) (hx : ExecutesBelow k rounds levels)

include he hx

/-- A call, after the callee has been looked up. -/
theorem call_shows {callee : Name} {nodes : List Node} {function : Value}
    (bound : m.store.view scope callee = some function) (sorted : ∀ e ∈ nodes, e.IsExpression k)
    (ready : m.Ready k scope) :
    Shows (fun r lines _ => Evaluates (m.store.view scope) (.call callee nodes) r lines) m
      ((do
        let values ← evaluateAll (fun node => evaluate rounds levels node scope) nodes
        match function with
        | .builtin op => native op values
        | .function name params body =>
          callFunction (fun node scope => execute rounds levels node scope) name params body values scope
        | _ => fail (.notCallable callee) : Eval Value) m) := by
  refine .bind (evaluateAll_shows he sorted ready) ready
    (evaluateAll_sound fun e mem => evaluate_sound (sorted e mem) rounds levels scope)
    (evaluateAll_moves (fun e => evaluate_keeps rounds levels e scope) nodes)
    (fun f lines m' _ arguments => .argumentFault bound arguments) ?_
  intro values lines m' hvs ready' store arguments
  have sortedFunction : function.Sorted k := ready.store.lookup? bound
  cases sortedFunction with
  | @builtin op =>
    dsimp only
    cases computed : op.call values with
    | error f =>
      rw [native_error computed]
      refine .silent rfl ?_
      rw [List.append_nil]
      exact .nativeFault bound arguments computed
    | ok result =>
      obtain ⟨v, text⟩ := result
      rw [native_ok ready' hvs computed]
      refine .ended ?_ (.native bound arguments computed)
      cases text <;> rfl
  | @function name params body named hp block =>
    dsimp only
    by_cases count : values.length = params.length
    · refine (callFunction_shows hx hp block hvs count ready').mono fun r lines' _ means => ?_
      obtain ⟨ending, env', rfl, body⟩ := means
      rw [store] at body
      exact .call bound arguments count body
    · rw [callFunction, if_neg count]
      refine .silent rfl ?_
      rw [List.append_nil]
      exact .wrongCount bound arguments count
  | _ =>
    refine .silent rfl ?_
    rw [List.append_nil]
    exact .notCallable bound rfl arguments

/-- One level of an expression, by the rule of the flat semantics for its node. -/
theorem evaluate_succ_shows : EvaluatesBelow k rounds (levels + 1) := by
  intro node sorted scope m ready
  cases sorted with
  | int mem =>
    rw [evaluate]
    exact .silent rfl .int
  | float =>
    rw [evaluate]
    exact .silent rfl .float
  | bool =>
    rw [evaluate]
    exact .silent rfl .bool
  | @reference name named =>
    rw [evaluate]
    cases bound : m.store.view scope name with
    | none =>
      rw [bind_of_error (lookup_none named bound)]
      exact .silent rfl (.unbound bound)
    | some v =>
      have hv : v.Sorted k := ready.store.lookup? bound
      rw [bind_of_ok (lookup_some named bound), bind_of_ok (tell_eq ready (.lookup named hv))]
      exact .silent rfl (.reference bound)
  | @call callee es named arguments =>
    rw [evaluate]
    cases bound : m.store.view scope callee with
    | none =>
      rw [bind_of_error (lookup_none named bound)]
      exact .silent rfl (.noCallee bound)
    | some function =>
      rw [bind_of_ok (lookup_some named bound), bind_of_ok (tell_eq ready (.call named))]
      have told := ready.told (.call callee es.length)
      exact .of_told _ (call_shows he hx (m := m.told (.call callee es.length)) bound arguments told)

/-- One level of a statement, by the rule of the flat semantics for its node. -/
theorem execute_succ_shows : ExecutesBelow k rounds (levels + 1) := by
  intro node sorted scope m ready
  cases sorted with
  | @assignment target e named value =>
    rw [execute]
    refine evaluate_bind_shows he value ready (fun f lines m' store means => ?_) ?_
    · rw [store]
      exact .assignmentFault means
    · intro v lines m' hv ready' store means
      rw [bind_of_ok (assign_eq named v),
        bind_of_ok (tell_eq (ready'.set target hv) (.assign named hv))]
      refine .silent rfl ?_
      show Executes _ _ _ _ ((m'.store.set scope target v).view scope)
      rw [List.append_nil, Machine.Ready.view_set ready' named, store]
      exact .assignment means
  | expression value =>
    rw [execute]
    refine evaluate_bind_shows he value ready (fun f lines m' store means => ?_) ?_
    · rw [store]
      exact .expression means
    · intro v lines m' _ _ store means
      refine .silent rfl ?_
      rw [List.append_nil, store]
      exact .expression means
  | returns value =>
    rw [execute]
    refine evaluate_bind_shows he value ready (fun f lines m' store means => ?_) ?_
    · rw [store]
      exact .returns means
    · intro v lines m' _ _ store means
      refine .silent rfl ?_
      rw [List.append_nil, store]
      exact .returns means
  | @function name ps b named params body =>
    rw [execute, bind_of_ok (declare_eq ready named params body)]
    refine .silent rfl ?_
    show Executes _ _ _ _ ((m.store.set scope name (.function name ps b)).view scope)
    rw [Machine.Ready.view_set ready named]
    exact .function
  | branch conditions bodies =>
    rw [execute]
    exact (runArms_shows he hx conditions bodies ready).mono fun _ _ _ => .branch
  | loop condition body =>
    rw [execute]
    exact (runLoop_shows he hx condition body rounds ready).mono fun _ _ _ => .loop
  | empty =>
    rw [execute]
    exact .silent rfl .empty

end Both

theorem evaluate_execute_shows (k : Vocabulary) (rounds levels : Nat) :
    EvaluatesBelow k rounds levels ∧ ExecutesBelow k rounds levels := by
  induction levels with
  | zero =>
    refine ⟨fun node _ scope m _ => ?_, fun node _ scope m _ => ?_⟩
    · rw [evaluate]
      exact .limit rfl
    · rw [execute]
      exact .limit rfl
  | succ levels ih => exact ⟨evaluate_succ_shows ih.1 ih.2, execute_succ_shows ih.1 ih.2⟩

end Levels

end Eval

end Abacus
