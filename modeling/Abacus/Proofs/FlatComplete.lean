import Abacus.Proofs.FlatSound

/-!
# Runs on a map are runs on scopes

The converse: what the semantics without scopes says of a well-sorted program is what comes of running it
on a chain of scopes that shows the map, as soon as the limits are large enough (`Eval.Settles`).
-/

namespace Abacus

namespace Eval

open Flat

variable {α β : Type} {m m' m₁ : Machine}

/-- Under all limits from some point on, the run from `m` comes out like this. -/
def Settles (p : Limits → Eval α) (m : Machine) (outcome : Except EvalFault α × Machine) : Prop :=
  ∃ n, ∀ limits : Limits, n ≤ limits.levels → n ≤ limits.rounds → p limits m = outcome

theorem Settles.const {p : Limits → Eval α} {outcome : Except EvalFault α × Machine}
    (h : ∀ limits, p limits m = outcome) : Settles p m outcome :=
  ⟨0, fun limits _ _ => h limits⟩

theorem Settles.bind {p : Limits → Eval α} {f : Limits → α → Eval β} {a : α}
    {outcome : Except EvalFault β × Machine} (first : Settles p m (.ok a, m₁))
    (rest : Settles (fun limits => f limits a) m₁ outcome) :
    Settles (fun limits => p limits >>= f limits) m outcome := by
  obtain ⟨n₁, first⟩ := first
  obtain ⟨n₂, rest⟩ := rest
  refine ⟨n₁ + n₂, fun limits levels rounds => ?_⟩
  exact (bind_of_ok (first limits (by omega) (by omega)) _).trans (rest limits (by omega) (by omega))

theorem Settles.bind_error {p : Limits → Eval α} {fault : EvalFault}
    (first : Settles p m (.error fault, m₁)) (f : Limits → α → Eval β) :
    Settles (fun limits => p limits >>= f limits) m (.error fault, m₁) := by
  obtain ⟨n, first⟩ := first
  exact ⟨n, fun limits levels rounds => bind_of_error (first limits levels rounds) _⟩

theorem Settles.map_pure {p : Limits → Eval α} {r : Except EvalFault α} (h : Settles p m (r, m'))
    (g : α → β) : Settles (fun limits => p limits >>= fun a => pure (g a)) m (r.map g, m') := by
  cases r with
  | error fault => exact h.bind_error _
  | ok a => exact h.bind (.const fun _ => rfl)

/-- What returns or fails is not gone on from. -/
theorem Settles.stopped {p : Limits → Eval (Option Value)} {r : Except EvalFault (Option Value)}
    (h : Settles p m (r, m')) (stop : r ≠ .ok none) (next : Limits → Eval (Option Value)) :
    Settles (fun limits => p limits >>= unlessReturned (next limits)) m (r, m') := by
  match r, h with
  | .error fault, h => exact h.bind_error _
  | .ok (some v), h => exact h.bind (.const fun _ => rfl)
  | .ok none, _ => exact absurd rfl stop

/-- One level more, and some steps that no limits matter to. -/
theorem Settles.deeper {p q : Limits → Eval α} {outcome : Except EvalFault α × Machine}
    (h : Settles q m₁ outcome)
    (step : ∀ levels rounds, p ⟨levels + 1, rounds⟩ m = q ⟨levels, rounds⟩ m₁) :
    Settles p m outcome := by
  obtain ⟨n, h⟩ := h
  refine ⟨n + 1, fun limits levels rounds => ?_⟩
  obtain ⟨_ | l, r⟩ := limits
  · exact absurd levels (Nat.not_succ_le_zero n)
  · rw [step]
    exact h ⟨l, r⟩ (Nat.le_of_succ_le_succ levels) (Nat.le_of_succ_le rounds)

/-- One level is enough. -/
theorem Settles.at_once {p : Limits → Eval α} {outcome : Except EvalFault α × Machine}
    (step : ∀ levels rounds, p ⟨levels + 1, rounds⟩ m = outcome) : Settles p m outcome := by
  refine ⟨1, fun limits levels rounds => ?_⟩
  obtain ⟨_ | l, r⟩ := limits
  · exact absurd levels (Nat.not_succ_le_zero 0)
  · exact step l r

/-- A run that has settled is one of the runs. -/
theorem Settles.exists_limits {p : Limits → Eval α} {outcome : Except EvalFault α × Machine}
    (h : Settles p m outcome) : ∃ limits, p limits m = outcome := by
  obtain ⟨n, h⟩ := h
  exact ⟨⟨n, n⟩, h ⟨n, n⟩ (Nat.le_refl n) (Nat.le_refl n)⟩

section Sorted

variable {k : Vocabulary} {scope : Nat} {Q : α → Prop} {p : Limits → Eval α}
  {r : Except EvalFault α}

theorem Settles.store_eq (h : Settles p m (r, m')) (keeps : ∀ limits, Keeps (p limits)) :
    m'.store = m.store := by
  obtain ⟨limits, eq⟩ := h.exists_limits
  have same := keeps limits m
  rwa [eq] at same

theorem Settles.ready (h : Settles p m (r, m')) (ready : m.Ready k scope)
    (sound : ∀ limits, Sound k m.strict Q (p limits)) (confined : ∀ limits, Confined scope (p limits)) :
    m'.Ready k scope := by
  obtain ⟨limits, eq⟩ := h.exists_limits
  have ready' := ready.after (sound limits) (confined limits)
  rwa [eq] at ready'

theorem Settles.holds {a : α} (h : Settles p m (.ok a, m')) (ready : m.Ready k scope)
    (sound : ∀ limits, Sound k m.strict Q (p limits)) : Q a := by
  obtain ⟨limits, eq⟩ := h.exists_limits
  have fine := sound limits m ready.sorted
  rw [eq] at fine
  cases fine with
  | value holds _ => exact holds

end Sorted

/-- A run that has printed `lines` after `m`. -/
abbrev Printed (m : Machine) (lines : List Text) (m' : Machine) : Prop :=
  m'.printed = lines.reverse ++ m.printed

/-! ## Expressions and statements under limits -/

abbrev evaluateIn (scope : Nat) (node : Node) (limits : Limits) : Eval Value :=
  evaluate limits.rounds limits.levels node scope

abbrev executeIn (scope : Nat) (node : Node) (limits : Limits) : Eval (Option Value) :=
  execute limits.rounds limits.levels node scope

abbrev evaluateAllIn (scope : Nat) (nodes : List Node) (limits : Limits) : Eval (List Value) :=
  evaluateAll (fun node => evaluateIn scope node limits) nodes

abbrev runBlockIn (scope : Nat) (node : Node) (limits : Limits) : Eval (Option Value) :=
  runBlock (fun node => executeIn scope node limits) node

/-- A loop of which `done` rounds are over. -/
abbrev runLoopIn (scope : Nat) (condition body : Node) (done : Nat) (limits : Limits) :
    Eval (Option Value) :=
  runLoop (evaluateIn scope condition limits) (runBlockIn scope body limits) (limits.rounds - done)

section Steps

variable {k : Vocabulary} {scope : Nat}

theorem evaluateIn_sound {node : Node} (sorted : node.IsExpression k) {strict : Bool} (limits : Limits) :
    Sound k strict (Value.Sorted k) (evaluateIn scope node limits) :=
  evaluate_sound sorted limits.rounds limits.levels scope

/-- What an expression leaves: the store as it was, a machine that is ready, and a value. -/
theorem evaluateIn_after {node : Node} (sorted : node.IsExpression k) (ready : m.Ready k scope)
    {r : Except EvalFault Value} (h : Settles (evaluateIn scope node) m (r, m')) :
    m'.store = m.store ∧ m'.Ready k scope :=
  ⟨h.store_eq fun limits => evaluate_keeps limits.rounds limits.levels node scope,
    h.ready ready (evaluateIn_sound sorted)
      fun limits => (evaluate_keeps limits.rounds limits.levels node scope).moves⟩

/-- An expression that settles on a value leaves the map as it was. -/
theorem settled_value {node : Node} (sorted : node.IsExpression k) (ready : m.Ready k scope)
    {env : Env} (view : m.store.view scope = env) {lines : List Text} {v : Value}
    (h : ∃ m', Printed m lines m' ∧ Settles (evaluateIn scope node) m (.ok v, m')) :
    ∃ m', Printed m lines m' ∧ m'.Ready k scope ∧ m'.store.view scope = env ∧ v.Sorted k ∧
      Settles (evaluateIn scope node) m (.ok v, m') := by
  obtain ⟨m', printed, settles⟩ := h
  obtain ⟨store, ready'⟩ := evaluateIn_after sorted ready settles
  exact ⟨m', printed, ready', by rw [store, view], settles.holds ready (evaluateIn_sound sorted), settles⟩

/-- What the arguments of a call leave. -/
theorem evaluateAllIn_after {nodes : List Node} (sorted : ∀ e ∈ nodes, e.IsExpression k)
    (ready : m.Ready k scope) {values : List Value}
    (h : Settles (evaluateAllIn scope nodes) m (.ok values, m')) :
    m'.store = m.store ∧ m'.Ready k scope ∧ ∀ v ∈ values, v.Sorted k := by
  have keeps (limits : Limits) : Keeps (evaluateAllIn scope nodes limits) :=
    evaluateAll_moves (fun e => evaluate_keeps limits.rounds limits.levels e scope) nodes
  have sound (limits : Limits) :
      Sound k m.strict (fun values => ∀ v ∈ values, v.Sorted k) (evaluateAllIn scope nodes limits) :=
    evaluateAll_sound fun e mem => evaluateIn_sound (sorted e mem) limits
  exact ⟨h.store_eq keeps, h.ready ready sound fun limits => (keeps limits).moves, h.holds ready sound⟩

/-- The body of a function settles in the scope of the call. -/
theorem callFunction_settles {function : Name} {params : List Name} {body : Node}
    {arguments : List Value} (hp : ∀ p ∈ params, k.Names p) (ha : ∀ v ∈ arguments, v.Sorted k)
    (count : arguments.length = params.length) (ready : m.Ready k scope)
    {r : Except EvalFault (Option Value)} {lines : List Text}
    (run : ∀ inner : Machine, inner.Ready k m.store.scopes.size →
      inner.store.view m.store.scopes.size = (m.store.view scope).overlay (params.zip arguments) →
      ∃ m', Printed inner lines m' ∧ Settles (runBlockIn m.store.scopes.size body) inner (r, m')) :
    ∃ m', Printed m lines m' ∧
      Settles (fun limits => callFunction (fun node scope => executeIn scope node limits) function params
        body arguments scope) m (bodyValue r, m') := by
  obtain ⟨inner, readyInner, same, view, eq⟩ := callFunction_eq ready hp ha count
  obtain ⟨m', printed, n, settled⟩ := run inner readyInner view
  refine ⟨{ m' with store := m'.store.pop }, printed.trans (by rw [same]), n,
    fun limits levels rounds => ?_⟩
  dsimp only
  rw [eq]
  rw [show runBlock _ body inner = (r, m') from settled limits levels rounds]

/-- A call, up to the arguments. -/
theorem call_settles {callee : Name} {es : List Node} {function : Value} (named : k.Names callee)
    (bound : m.store.view scope callee = some function) (ready : m.Ready k scope)
    {outcome : Except EvalFault Value × Machine}
    (h : Settles (fun limits => do
      let values ← evaluateAllIn scope es limits
      match function with
      | .builtin op => native op values
      | .function name params body =>
        callFunction (fun node scope => executeIn scope node limits) name params body values scope
      | _ => fail (.notCallable callee)) (m.told (.call callee es.length)) outcome) :
    Settles (evaluateIn scope (.call callee es)) m outcome := by
  refine h.deeper fun levels rounds => ?_
  rw [evaluateIn, evaluate]
  exact (bind_of_ok (lookup_some named bound) _).trans (bind_of_ok (tell_eq ready (.call named)) _)

theorem assignment_settles {name : Name} {e : Node}
    {outcome : Except EvalFault (Option Value) × Machine}
    (h : Settles (fun limits => do
      let value ← evaluateIn scope e limits
      assign scope name value
      tell (.assign name value)
      return none) m outcome) :
    Settles (executeIn scope (.assignment name e)) m outcome :=
  h.deeper fun levels rounds => by rw [executeIn, execute]

abbrev runStatementsIn (scope : Nat) (nodes : List Node) (limits : Limits) : Eval (Option Value) :=
  runStatements (fun node => executeIn scope node limits) nodes

abbrev runArmsIn (scope : Nat) (arms : List (Node × Node)) (limits : Limits) : Eval (Option Value) :=
  runArms (fun node => evaluateIn scope node limits) (fun node => executeIn scope node limits) arms

theorem executeIn_ready {node : Node} (sorted : node.IsStatement k) (ready : m.Ready k scope)
    {r : Except EvalFault (Option Value)} (h : Settles (executeIn scope node) m (r, m')) :
    m'.Ready k scope :=
  h.ready ready (fun limits => execute_sound sorted limits.rounds limits.levels scope)
    fun limits => execute_confined limits.rounds limits.levels node scope

theorem runBlockIn_ready {node : Node} (block : node.IsBlock k) (ready : m.Ready k scope)
    {r : Except EvalFault (Option Value)} (h : Settles (runBlockIn scope node) m (r, m')) :
    m'.Ready k scope :=
  h.ready ready
    (fun limits => runBlock_sound block fun _ sorted =>
      execute_sound sorted limits.rounds limits.levels scope)
    fun limits => runBlock_moves
      (fun node => execute_confined limits.rounds limits.levels node scope) node

theorem runStatements_settles {node : Node} {nodes : List Node}
    {outcome : Except EvalFault (Option Value) × Machine}
    (h : Settles (fun limits => executeIn scope node limits >>=
      unlessReturned (runStatementsIn scope nodes limits)) m outcome) :
    Settles (runStatementsIn scope (node :: nodes)) m outcome := by
  obtain ⟨n, h⟩ := h
  refine ⟨n, fun limits levels rounds => ?_⟩
  rw [runStatementsIn, runStatements_cons]
  exact h limits levels rounds

/-- An arm whose condition has a value. -/
theorem runArms_settles {c b : Node} {arms : List (Node × Node)} {v : Value} (hv : v.Sorted k)
    (ready : m₁.Ready k scope) (condition : Settles (evaluateIn scope c) m (.ok v, m₁))
    {outcome : Except EvalFault (Option Value) × Machine}
    (rest : Settles (fun limits =>
      if v.isTrue then runBlockIn scope b limits else runArmsIn scope arms limits)
      (m₁.told (.ifCondition v)) outcome) :
    Settles (runArmsIn scope ((c, b) :: arms)) m outcome :=
  condition.bind ((Settles.const fun _ => tell_eq ready (.ifCondition hv)).bind rest)

/-- One round of a loop. -/
theorem runLoopIn_settles {condition body : Node} {done : Nat}
    {outcome : Except EvalFault (Option Value) × Machine}
    (h : Settles (fun limits => do
      let value ← evaluateIn scope condition limits
      tell (.whileCondition value)
      if value.isTrue then
        runBlockIn scope body limits >>= unlessReturned (runLoopIn scope condition body (done + 1) limits)
      else return none) m outcome) :
    Settles (runLoopIn scope condition body done) m outcome := by
  obtain ⟨n, h⟩ := h
  refine ⟨n + (done + 1), fun limits levels rounds => ?_⟩
  have left : limits.rounds - done = limits.rounds - (done + 1) + 1 := by omega
  rw [runLoopIn, left, runLoop_succ]
  exact h limits (by omega) (by omega)

/-- A round whose condition has a value. -/
theorem round_settles {c b : Node} {done : Nat} {v : Value} (hv : v.Sorted k)
    (ready : m₁.Ready k scope) (condition : Settles (evaluateIn scope c) m (.ok v, m₁))
    {outcome : Except EvalFault (Option Value) × Machine}
    (rest : Settles (fun limits =>
      if v.isTrue then
        runBlockIn scope b limits >>= unlessReturned (runLoopIn scope c b (done + 1) limits)
      else return none) (m₁.told (.whileCondition v)) outcome) :
    Settles (runLoopIn scope c b done) m outcome :=
  runLoopIn_settles
    (condition.bind ((Settles.const fun _ => tell_eq ready (.whileCondition hv)).bind rest))

end Steps

/-! ## Derivations -/

section Derivations

variable {k : Vocabulary}

mutual

/-- By induction on the evaluation: what the flat semantics gives, the machine gives with levels and
rounds enough. The bounds of the parts are added up, since a part that settles stays settled with more. -/
theorem evaluates_settles {env node r lines} : Evaluates env node r lines → node.IsExpression k →
    ∀ ⦃scope : Nat⦄ ⦃m : Machine⦄, m.Ready k scope → m.store.view scope = env →
    ∃ m', Printed m lines m' ∧ Settles (evaluateIn scope node) m (r, m')
  | .int, _ => by
    intro scope m _ _
    refine ⟨m, rfl, .at_once fun levels rounds => ?_⟩
    rw [evaluateIn, evaluate]
    rfl
  | .float, _ => by
    intro scope m _ _
    refine ⟨m, rfl, .at_once fun levels rounds => ?_⟩
    rw [evaluateIn, evaluate]
    rfl
  | .bool, _ => by
    intro scope m _ _
    refine ⟨m, rfl, .at_once fun levels rounds => ?_⟩
    rw [evaluateIn, evaluate]
    rfl
  | @Evaluates.reference _ name v bound, .reference named => by
    intro scope m ready view
    subst view
    have hv : v.Sorted k := ready.store.lookup? bound
    refine ⟨m.told (.lookup name v), rfl, .at_once fun levels rounds => ?_⟩
    rw [evaluateIn, evaluate, bind_of_ok (lookup_some named bound),
      bind_of_ok (tell_eq ready (.lookup named hv))]
    rfl
  | .unbound free, .reference named => by
    intro scope m ready view
    subst view
    refine ⟨m, rfl, .at_once fun levels rounds => ?_⟩
    rw [evaluateIn, evaluate, bind_of_error (lookup_none named free)]
  | .noCallee free, .call named arguments => by
    intro scope m ready view
    subst view
    refine ⟨m, rfl, .at_once fun levels rounds => ?_⟩
    rw [evaluateIn, evaluate, bind_of_error (lookup_none named free)]
  | @Evaluates.argumentFault _ name es _ _ _ callee arguments, .call named sorted => by
    intro scope m ready view
    have bound := (congrFun view name).trans callee
    have told := ready.told (.call name es.length)
    obtain ⟨m₁, printed, settles⟩ := evaluatesAll_settles arguments sorted told view
    exact ⟨m₁, printed, call_settles named bound ready (settles.bind_error _)⟩
  | @Evaluates.notCallable _ name es v _ _ callee other arguments, .call named sorted => by
    intro scope m ready view
    have bound := (congrFun view name).trans callee
    have told := ready.told (.call name es.length)
    obtain ⟨m₁, printed, settles⟩ := evaluatesAll_settles arguments sorted told view
    refine ⟨m₁, printed, call_settles named bound ready (settles.bind (.const fun _ => ?_))⟩
    cases v with
    | builtin op => cases other
    | function name params body => cases other
    | _ => rfl
  | @Evaluates.native _ name es op vs lines v text callee arguments computed, .call named sorted => by
    intro scope m ready view
    have bound := (congrFun view name).trans callee
    have told := ready.told (.call name es.length)
    obtain ⟨m₁, printed, settles⟩ := evaluatesAll_settles arguments sorted told view
    obtain ⟨-, ready₁, hvs⟩ := evaluateAllIn_after sorted told settles
    refine ⟨{ m₁ with printed := text.toList ++ m₁.printed }, ?_,
      call_settles named bound ready (settles.bind (.const fun _ => native_ok ready₁ hvs computed))⟩
    refine printed_append printed ?_
    cases text <;> rfl
  | @Evaluates.nativeFault _ name es _ _ _ _ callee arguments failed, .call named sorted => by
    intro scope m ready view
    have bound := (congrFun view name).trans callee
    have told := ready.told (.call name es.length)
    obtain ⟨m₁, printed, settles⟩ := evaluatesAll_settles arguments sorted told view
    exact ⟨m₁, printed,
      call_settles named bound ready (settles.bind (.const fun _ => native_error failed))⟩
  | @Evaluates.wrongCount _ name es _ _ _ _ _ callee arguments count, .call named sorted => by
    intro scope m ready view
    have bound := (congrFun view name).trans callee
    have told := ready.told (.call name es.length)
    obtain ⟨m₁, printed, settles⟩ := evaluatesAll_settles arguments sorted told view
    refine ⟨m₁, printed, call_settles named bound ready (settles.bind (.const fun _ => ?_))⟩
    dsimp only
    rw [callFunction, if_neg count]
    rfl
  | @Evaluates.call _ name es _ ps b vs _ r _ _ callee arguments count body, .call named sorted => by
    intro scope m ready view
    have bound := (congrFun view name).trans callee
    have told := ready.told (.call name es.length)
    obtain ⟨m₁, printed, settles⟩ := evaluatesAll_settles arguments sorted told view
    obtain ⟨store, ready₁, hvs⟩ := evaluateAllIn_after sorted told settles
    have function := ready.store.lookup? bound
    cases function with
    | function _ params block =>
      obtain ⟨m₂, printed₂, settles₂⟩ := callFunction_settles params hvs count ready₁
        fun inner readyInner inside => by
          have overlaid : m₁.store.view scope = m.store.view scope :=
            congrArg (Store.view · scope) store
          obtain ⟨m', printed, -, settles⟩ :=
            executesBlock_settles body block readyInner (by rw [inside, overlaid, view])
          exact ⟨m', printed, settles⟩
      exact ⟨m₂, printed_append printed printed₂, call_settles named bound ready (settles.bind settles₂)⟩

/-- Arguments from left to right; the first one that fails is the last one that is evaluated. -/
theorem evaluatesAll_settles {env nodes r lines} : EvaluatesAll env nodes r lines →
    (∀ node ∈ nodes, node.IsExpression k) →
    ∀ ⦃scope : Nat⦄ ⦃m : Machine⦄, m.Ready k scope → m.store.view scope = env →
    ∃ m', Printed m lines m' ∧ Settles (evaluateAllIn scope nodes) m (r, m')
  | .nil, _ => by
    intro scope m _ _
    exact ⟨m, rfl, .const fun _ => rfl⟩
  | .fault first, sorted => by
    intro scope m ready view
    obtain ⟨m₁, printed, settles⟩ := evaluates_settles first (sorted _ List.mem_cons_self) ready view
    exact ⟨m₁, printed, settles.bind_error _⟩
  | .cons first rest, sorted => by
    intro scope m ready view
    obtain ⟨here, below⟩ := List.forall_mem_cons.1 sorted
    obtain ⟨m₁, printed, settles⟩ := evaluates_settles first here ready view
    obtain ⟨store, ready₁⟩ := evaluateIn_after here ready settles
    obtain ⟨m₂, printed₂, settles₂⟩ := evaluatesAll_settles rest below ready₁ (by rw [store, view])
    exact ⟨m₂, printed_append printed printed₂, settles.bind (settles₂.map_pure _)⟩

/-- The same for statements, where the environment changes along with the scope that it is a view of. -/
theorem executes_settles {env node r lines env'} : Executes env node r lines env' →
    node.IsStatement k →
    ∀ ⦃scope : Nat⦄ ⦃m : Machine⦄, m.Ready k scope → m.store.view scope = env →
    ∃ m', Printed m lines m' ∧ m'.store.view scope = env' ∧ Settles (executeIn scope node) m (r, m')
  | @Executes.assignment _ name e v lines value, .assignment named sorted => by
    intro scope m ready view
    obtain ⟨m₁, printed, ready₁, view₁, hv, settles⟩ :=
      settled_value sorted ready view (evaluates_settles value sorted ready view)
    refine ⟨Machine.told { m₁ with store := m₁.store.set scope name v } (.assign name v), printed, ?_,
      assignment_settles (settles.bind (.const fun _ => ?_))⟩
    · show (m₁.store.set scope name v).view scope = _
      rw [ready₁.view_set named, view₁]
    · rw [bind_of_ok (assign_eq named v), bind_of_ok (tell_eq (ready₁.set name hv) (.assign named hv))]
      rfl
  | .assignmentFault value, .assignment named sorted => by
    intro scope m ready view
    obtain ⟨m₁, printed, settles⟩ := evaluates_settles value sorted ready view
    obtain ⟨store, -⟩ := evaluateIn_after sorted ready settles
    exact ⟨m₁, printed, by rw [store, view], assignment_settles (settles.bind_error _)⟩
  | .expression value, .expression sorted => by
    intro scope m ready view
    obtain ⟨m₁, printed, settles⟩ := evaluates_settles value sorted ready view
    obtain ⟨store, -⟩ := evaluateIn_after sorted ready settles
    refine ⟨m₁, printed, by rw [store, view], .deeper (settles.map_pure _) fun levels rounds => ?_⟩
    rw [executeIn, execute]
  | .returns value, .returns sorted => by
    intro scope m ready view
    obtain ⟨m₁, printed, settles⟩ := evaluates_settles value sorted ready view
    obtain ⟨store, -⟩ := evaluateIn_after sorted ready settles
    refine ⟨m₁, printed, by rw [store, view], .deeper (settles.map_pure _) fun levels rounds => ?_⟩
    rw [executeIn, execute]
  | @Executes.function _ name ps b, .function named params body => by
    intro scope m ready view
    refine ⟨Machine.told { m with store := m.store.set scope name (.function name ps b) }
      (.define name ps), rfl, ?_, .at_once fun levels rounds => ?_⟩
    · show (m.store.set scope name (.function name ps b)).view scope = _
      rw [ready.view_set named, view]
    · rw [executeIn, execute, bind_of_ok (declare_eq ready named params body)]
      rfl
  | .branch arms, .branch conditions bodies => by
    intro scope m ready view
    obtain ⟨m', printed, view', settles⟩ := executesArms_settles arms conditions bodies ready view
    refine ⟨m', printed, view', settles.deeper fun levels rounds => ?_⟩
    rw [executeIn, execute]
  | .loop rounds, .loop condition body => by
    intro scope m ready view
    obtain ⟨m', printed, view', settles⟩ := executesLoop_settles rounds condition body ready view
    refine ⟨m', printed, view', (settles 0).deeper fun levels rounds => ?_⟩
    rw [executeIn, execute]
    rfl
  | .empty, .empty => by
    intro scope m ready view
    refine ⟨m, rfl, view, .at_once fun levels rounds => ?_⟩
    rw [executeIn, execute]
    rfl

theorem executesBlock_settles {env node r lines env'} : ExecutesBlock env node r lines env' →
    node.IsBlock k →
    ∀ ⦃scope : Nat⦄ ⦃m : Machine⦄, m.Ready k scope → m.store.view scope = env →
    ∃ m', Printed m lines m' ∧ m'.store.view scope = env' ∧
      Settles (runBlockIn scope node) m (r, m')
  | .block statements, .block each => executesAll_settles statements each

/-- Statements in a row, up to the first that returns or fails. -/
theorem executesAll_settles {env nodes r lines env'} : ExecutesAll env nodes r lines env' →
    (∀ node ∈ nodes, node.IsStatement k) →
    ∀ ⦃scope : Nat⦄ ⦃m : Machine⦄, m.Ready k scope → m.store.view scope = env →
    ∃ m', Printed m lines m' ∧ m'.store.view scope = env' ∧
      Settles (runStatementsIn scope nodes) m (r, m')
  | .nil, _ => by
    intro scope m _ view
    exact ⟨m, rfl, view, .const fun _ => rfl⟩
  | .stopped first stop, sorted => by
    intro scope m ready view
    obtain ⟨m₁, printed, view₁, settles⟩ :=
      executes_settles first (sorted _ List.mem_cons_self) ready view
    exact ⟨m₁, printed, view₁, runStatements_settles (settles.stopped stop _)⟩
  | .next first rest, sorted => by
    intro scope m ready view
    obtain ⟨here, below⟩ := List.forall_mem_cons.1 sorted
    obtain ⟨m₁, printed, view₁, settles⟩ := executes_settles first here ready view
    have ready₁ := executeIn_ready here ready settles
    obtain ⟨m₂, printed₂, view₂, settles₂⟩ := executesAll_settles rest below ready₁ view₁
    exact ⟨m₂, printed_append printed printed₂, view₂, runStatements_settles (settles.bind settles₂)⟩

/-- Arms from the first on, up to the one whose condition holds. -/
theorem executesArms_settles {env arms r lines env'} : ExecutesArms env arms r lines env' →
    (∀ arm ∈ arms, arm.1.IsExpression k) → (∀ arm ∈ arms, arm.2.IsBlock k) →
    ∀ ⦃scope : Nat⦄ ⦃m : Machine⦄, m.Ready k scope → m.store.view scope = env →
    ∃ m', Printed m lines m' ∧ m'.store.view scope = env' ∧ Settles (runArmsIn scope arms) m (r, m')
  | .nil, _, _ => by
    intro scope m _ view
    exact ⟨m, rfl, view, .const fun _ => rfl⟩
  | .fault condition, conditions, _ => by
    intro scope m ready view
    have sorted := conditions _ List.mem_cons_self
    obtain ⟨m₁, printed, settles⟩ := evaluates_settles condition sorted ready view
    obtain ⟨store, -⟩ := evaluateIn_after sorted ready settles
    exact ⟨m₁, printed, by rw [store, view], settles.bind_error _⟩
  | @ExecutesArms.taken _ _ _ _ v _ _ _ _ condition holds body, conditions, bodies => by
    intro scope m ready view
    have sorted := conditions _ List.mem_cons_self
    obtain ⟨m₁, printed, ready₁, view₁, hv, settles⟩ :=
      settled_value sorted ready view (evaluates_settles condition sorted ready view)
    obtain ⟨m₂, printed₂, view₂, settles₂⟩ := executesBlock_settles body
      (bodies _ List.mem_cons_self) (ready₁.told (.ifCondition v)) view₁
    refine ⟨m₂, printed_append printed printed₂, view₂, runArms_settles hv ready₁ settles ?_⟩
    simpa only [holds, if_true] using settles₂
  | @ExecutesArms.skipped _ _ _ _ v _ _ _ _ condition fails rest, conditions, bodies => by
    intro scope m ready view
    obtain ⟨sorted, conditions⟩ := List.forall_mem_cons.1 conditions
    obtain ⟨-, bodies⟩ := List.forall_mem_cons.1 bodies
    obtain ⟨m₁, printed, ready₁, view₁, hv, settles⟩ :=
      settled_value sorted ready view (evaluates_settles condition sorted ready view)
    obtain ⟨m₂, printed₂, view₂, settles₂⟩ := executesArms_settles rest conditions bodies
      (ready₁.told (.ifCondition v)) view₁
    refine ⟨m₂, printed_append printed printed₂, view₂, runArms_settles hv ready₁ settles ?_⟩
    simpa only [fails, Bool.false_eq_true, if_false] using settles₂

/-- A loop that ends takes some number of rounds, whatever number the machine has done before. -/
theorem executesLoop_settles {env c b r lines env'} : ExecutesLoop env c b r lines env' →
    c.IsExpression k → b.IsBlock k →
    ∀ ⦃scope : Nat⦄ ⦃m : Machine⦄, m.Ready k scope → m.store.view scope = env →
    ∃ m', Printed m lines m' ∧ m'.store.view scope = env' ∧
      ∀ done, Settles (runLoopIn scope c b done) m (r, m')
  | .fault condition, sorted, _ => by
    intro scope m ready view
    obtain ⟨m₁, printed, settles⟩ := evaluates_settles condition sorted ready view
    obtain ⟨store, -⟩ := evaluateIn_after sorted ready settles
    exact ⟨m₁, printed, by rw [store, view], fun done => runLoopIn_settles (settles.bind_error _)⟩
  | @ExecutesLoop.done _ _ _ v _ condition fails, sorted, _ => by
    intro scope m ready view
    obtain ⟨m₁, printed, ready₁, view₁, hv, settles⟩ :=
      settled_value sorted ready view (evaluates_settles condition sorted ready view)
    refine ⟨m₁.told (.whileCondition v), printed, view₁,
      fun done => round_settles hv ready₁ settles (.const fun _ => ?_)⟩
    rw [if_neg (by simp [fails])]
    rfl
  | @ExecutesLoop.stopped _ _ _ v _ _ _ _ condition holds body stop, sorted, block => by
    intro scope m ready view
    obtain ⟨m₁, printed, ready₁, view₁, hv, settles⟩ :=
      settled_value sorted ready view (evaluates_settles condition sorted ready view)
    obtain ⟨m₂, printed₂, view₂, settles₂⟩ := executesBlock_settles body block
      (ready₁.told (.whileCondition v)) view₁
    refine ⟨m₂, printed_append printed printed₂, view₂, fun done =>
      round_settles hv ready₁ settles ?_⟩
    simpa only [holds, if_true] using settles₂.stopped stop _
  | @ExecutesLoop.next _ _ _ v _ _ _ _ _ _ condition holds body rest, sorted, block => by
    intro scope m ready view
    obtain ⟨m₁, printed, ready₁, view₁, hv, settles⟩ :=
      settled_value sorted ready view (evaluates_settles condition sorted ready view)
    have told := ready₁.told (.whileCondition v)
    obtain ⟨m₂, printed₂, view₂, settles₂⟩ := executesBlock_settles body block told view₁
    obtain ⟨m₃, printed₃, view₃, settles₃⟩ := executesLoop_settles rest sorted block
      (runBlockIn_ready block told settles₂) view₂
    refine ⟨m₃, printed_append printed (printed_append printed₂ printed₃), view₃, fun done =>
      round_settles hv ready₁ settles ?_⟩
    simpa only [holds, if_true] using settles₂.bind (settles₃ (done + 1))

end

end Derivations

end Eval

end Abacus
