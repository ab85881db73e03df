import Abacus.Proofs.EvalSteps
import Abacus.Proofs.Sorts

/-!
# Running well-sorted programs

A well-sorted program that runs among values of its vocabulary gives a value of the vocabulary and
leaves such values behind, or it ends in a fault that a script can be blamed for (`EvalFault.Expected`).
The one fault that is not the script's is that a strict stream refuses a text, and it needs a strict
stream and a name with a surrogate.

`Eval.Sound` says this of a computation. It goes through everything the evaluator is made of; the bodies
of functions are covered since the store holds no function whose body is not well-sorted.
-/

namespace Abacus

/-- Whether anything is encoded on its way out: what is printed, or a trace line for the file. -/
def Machine.strict (m : Machine) : Bool := m.printsStrictly || m.trace.filing

@[simp] theorem Trace.filing_tell (trace : Trace) (line : TraceLine) :
    (trace.tell line).filing = trace.filing := by
  unfold tell
  split
  · rfl
  · split <;> rfl

/-- A machine whose variables have values of the vocabulary. -/
structure Machine.Sorted (k : Vocabulary) (strict : Bool) (m : Machine) : Prop where
  store : m.store.Sorted k
  strict : m.strict = strict

/-- The faults in which a well-sorted program can end. -/
inductive EvalFault.Expected (k : Vocabulary) (strict : Bool) : EvalFault → Prop
  | undefined {name} : Expected k strict (.undefined name)
  | operand {fault} : Expected k strict (.operand fault)
  | argumentCount {name expected given} : Expected k strict (.argumentCount name expected given)
  | notCallable {name} : Expected k strict (.notCallable name)
  | tooDeep : Expected k strict .tooDeep
  | unfinished : Expected k strict .unfinished
  | notWritable {run t} (writes : strict = true) (named : k.name t) (odd : ¬ t.Plain) :
      Expected k strict (.notWritable run)

namespace Eval

variable {α β : Type} {k : Vocabulary} {strict : Bool} {Q : α → Prop} {P : β → Prop}

/-- A value as it should be, or a fault that was to be expected, and a machine as it should be. -/
inductive Fine (k : Vocabulary) (strict : Bool) (Q : α → Prop) : Except EvalFault α × Machine → Prop
  | value {a m} (holds : Q a) (sorted : m.Sorted k strict) : Fine k strict Q (.ok a, m)
  | fault {f m} (expected : f.Expected k strict) (sorted : m.Sorted k strict) :
      Fine k strict Q (.error f, m)

/-- On every machine with values of the vocabulary, the computation ends well. -/
def Sound (k : Vocabulary) (strict : Bool) (Q : α → Prop) (p : Eval α) : Prop :=
  ∀ m, m.Sorted k strict → Fine k strict Q (p m)

/-! ## Steps -/

theorem sound_pure {a : α} (h : Q a) : Sound k strict Q (pure a : Eval α) := fun _ hm => .value h hm

theorem sound_fail {f : EvalFault} (h : f.Expected k strict) : Sound k strict Q (fail f : Eval α) :=
  fun _ hm => .fault h hm

theorem Sound.bind {p : Eval α} {f : α → Eval β} (hp : Sound k strict Q p)
    (hf : ∀ a, Q a → Sound k strict P (f a)) : Sound k strict P (p >>= f) := by
  intro m hm
  have first := hp m hm
  show Fine k strict P (Eval.bind p f m)
  unfold Eval.bind
  generalize p m = outcome at first ⊢
  cases first with
  | value holds sorted => exact hf _ holds _ sorted
  | fault expected sorted => exact .fault expected sorted

/-- A text that is plain if all names are can be put anywhere, or a name is to blame. -/
theorem putting_fine {m : Machine} {encodes : Bool} {text : Option Text} {put : Machine → Machine}
    (hm : m.Sorted k strict) (writes : encodes = true → strict = true)
    (plain : k.Plain → ∀ t ∈ text, t.Plain) (sorted : (put m).Sorted k strict) :
    Fine k strict (fun _ => True) (putting (if encodes then text else none) put m) := by
  unfold putting
  split
  · next run found =>
    obtain ⟨t, isText, odd⟩ := Option.bind_eq_some_iff.1 found
    cases encodes with
    | false => cases isText
    | true =>
      have some_odd : ¬ k.Plain := by
        intro allPlain
        rw [(plain allPlain t isText).surrogates?_eq_none] at odd
        cases odd
      obtain ⟨name, named, notPlain⟩ : ∃ t, k.name t ∧ ¬ t.Plain := by
        simpa only [Vocabulary.Plain, not_forall, exists_prop] using some_odd
      exact .fault (.notWritable (writes rfl) named notPlain) hm
  · exact .value trivial sorted

theorem tell_sound {line : TraceLine} (h : line.Sorted k) :
    Sound k strict (fun _ => True) (tell line) := by
  intro m hm
  show Fine k strict _ (putting (if m.trace.files line then some line.text else none)
    (fun m => { m with trace := m.trace.tell line }) m)
  refine putting_fine hm (fun files => ?_) ?_ ?_
  · rw [← hm.strict, Machine.strict, (Bool.and_eq_true_iff.1 files).1, Bool.or_true]
  · rintro plain _ ⟨⟩
    exact h.text_plain plain
  · exact ⟨hm.store, (congrArg (m.printsStrictly || ·) (Trace.filing_tell _ _)).trans hm.strict⟩

theorem write_sound {text : Option Text} (plain : k.Plain → ∀ t ∈ text, t.Plain) :
    Sound k strict (fun _ => True) (write text) := by
  intro m hm
  show Fine k strict _ (putting (if m.printsStrictly then text else none)
    (fun m => { m with printed := text.toList ++ m.printed }) m)
  refine putting_fine hm (fun strictly => ?_) plain ⟨hm.store, hm.strict⟩
  rw [← hm.strict, Machine.strict, strictly, Bool.true_or]

theorem tells_sound (threshold : Nat) : Sound k strict (fun _ => True) (tells threshold) :=
  fun _ hm => .value trivial hm

theorem lookup_sound {name : Name} (named : k.Names name) (scope : Nat) :
    Sound k strict (Value.Sorted k) (lookup scope name) := by
  intro m hm
  cases named
  rw [lookup, if_pos (by rfl)]
  split
  · next value found => exact .value (hm.store.lookup? found) hm
  · exact .fault .undefined hm

theorem assign_sound {name : Name} {value : Value} (named : k.Names name) (hv : value.Sorted k)
    (scope : Nat) : Sound k strict (fun _ => True) (assign scope name value) := by
  intro m hm
  cases named
  exact .value trivial ⟨hm.store.set scope _ hv, hm.strict⟩

theorem inNewScope_sound {body : Nat → Eval α} (h : ∀ scope, Sound k strict Q (body scope))
    (parent : Nat) : Sound k strict Q (inNewScope parent body) := by
  intro m hm
  have inner := h (m.store.push parent).1 { m with store := (m.store.push parent).2 }
    ⟨hm.store.push parent, hm.strict⟩
  unfold inNewScope
  dsimp only
  generalize body _ _ = outcome at inner ⊢
  cases inner with
  | value holds sorted => exact .value holds ⟨sorted.store.pop, sorted.strict⟩
  | fault expected sorted => exact .fault expected ⟨sorted.store.pop, sorted.strict⟩

/-- Operations give values of the vocabulary. Integers stay in it since results are checked. -/
theorem apply_sorted {op : NativeOp} {left right value : Value} (h : op.apply left right = .ok value) :
    value.Sorted k := by
  unfold NativeOp.apply at h
  split at h
  · cases h
    exact .float
  · next m n =>
    cases result : op.onInts m n with
    | error fault =>
      rw [result] at h
      cases h
    | ok r =>
      rw [result] at h
      have checked : op.checked r = .ok value := h
      unfold NativeOp.checked at checked
      split at checked
      · next fits =>
        cases checked
        exact .int (k.integer_of_fits fits)
      · cases checked
  · cases h

theorem printedLine_plain {arguments : List Value} (h : ∀ v ∈ arguments, v.Sorted k) (plain : k.Plain) :
    (NativeOp.printedLine arguments).Plain := by
  refine .append (.intercalate (Text.plain_ofString _) fun t ht => ?_) (Text.plain_ofString _)
  obtain ⟨v, hv, rfl⟩ := List.mem_map.1 ht
  exact (h v hv).text_plain plain

/-- What operators give is of the vocabulary, and what they print has no surrogates if no name has any. -/
theorem call_sorted {op : NativeOp} {arguments : List Value} (h : ∀ v ∈ arguments, v.Sorted k)
    {value : Value} {text : Option Text} (eq : op.call arguments = .ok (value, text)) :
    value.Sorted k ∧ (k.Plain → ∀ t ∈ text, t.Plain) := by
  cases op with
  | print =>
    cases eq
    refine ⟨.void, ?_⟩
    rintro plain _ ⟨⟩
    exact printedLine_plain h plain
  | _ =>
    unfold NativeOp.call at eq
    dsimp only at eq
    split at eq
    · next left right =>
      cases computed : NativeOp.apply _ left right with
      | error fault =>
        rw [computed] at eq
        cases eq
      | ok v =>
        rw [computed] at eq
        cases eq
        exact ⟨apply_sorted computed, nofun⟩
    · cases eq

theorem native_sound (op : NativeOp) {arguments : List Value} (h : ∀ v ∈ arguments, v.Sorted k) :
    Sound k strict (Value.Sorted k) (native op arguments) := by
  unfold native
  split
  · next value text eq =>
    obtain ⟨sorted, plain⟩ := call_sorted h eq
    exact (write_sound plain).bind fun _ _ => sound_pure sorted
  · exact sound_fail .operand

/-! ## What the evaluator is made of -/

section Parts

/-- A statement gives nothing, or a value of the vocabulary. -/
abbrev Returned (k : Vocabulary) (returned : Option Value) : Prop := ∀ v ∈ returned, v.Sorted k

variable {evaluate : Node → Eval Value} {execute : Node → Eval (Option Value)}

theorem evaluateAll_sound {nodes : List Node}
    (he : ∀ node ∈ nodes, Sound k strict (Value.Sorted k) (evaluate node)) :
    Sound k strict (fun values => ∀ v ∈ values, v.Sorted k) (evaluateAll evaluate nodes) := by
  induction nodes with
  | nil => exact sound_pure nofun
  | cons node nodes ih =>
    refine (he node List.mem_cons_self).bind fun value hv => ?_
    refine (ih fun node mem => he node (List.mem_cons_of_mem _ mem)).bind fun values hvs => ?_
    exact sound_pure (List.forall_mem_cons.2 ⟨hv, hvs⟩)

theorem unlessReturned_sound {next : Eval (Option Value)} (h : Sound k strict (Returned k) next)
    (returned : Option Value) (holds : Returned k returned) :
    Sound k strict (Returned k) (unlessReturned next returned) := by
  cases returned with
  | none => exact h
  | some value => exact sound_pure holds

theorem runStatements_sound {nodes : List Node}
    (hx : ∀ node ∈ nodes, Sound k strict (Returned k) (execute node)) :
    Sound k strict (Returned k) (runStatements execute nodes) := by
  induction nodes with
  | nil => exact fun m hm => .value nofun hm
  | cons node nodes ih =>
    obtain ⟨here, below⟩ := List.forall_mem_cons.1 hx
    rw [runStatements_cons]
    exact here.bind (unlessReturned_sound (ih below))

theorem runBlock_sound {node : Node} (block : node.IsBlock k)
    (hx : ∀ node, node.IsStatement k → Sound k strict (Returned k) (execute node)) :
    Sound k strict (Returned k) (runBlock execute node) := by
  cases block with
  | block each => exact runStatements_sound fun node mem => hx node (each node mem)

theorem runArms_sound {arms : List (Node × Node)}
    (conditions : ∀ arm ∈ arms, arm.1.IsExpression k) (bodies : ∀ arm ∈ arms, arm.2.IsBlock k)
    (he : ∀ node, node.IsExpression k → Sound k strict (Value.Sorted k) (evaluate node))
    (hx : ∀ node, node.IsStatement k → Sound k strict (Returned k) (execute node)) :
    Sound k strict (Returned k) (runArms evaluate execute arms) := by
  induction arms with
  | nil => exact sound_pure nofun
  | cons arm arms ih =>
    obtain ⟨condition, body⟩ := arm
    refine (he condition (conditions _ List.mem_cons_self)).bind fun value hv => ?_
    refine (tell_sound (.ifCondition hv)).bind fun _ _ => ?_
    split
    · exact runBlock_sound (bodies _ List.mem_cons_self) hx
    · exact ih (fun arm mem => conditions arm (List.mem_cons_of_mem _ mem))
        fun arm mem => bodies arm (List.mem_cons_of_mem _ mem)

theorem runLoop_sound {condition : Eval Value} {body : Eval (Option Value)}
    (hc : Sound k strict (Value.Sorted k) condition) (hb : Sound k strict (Returned k) body)
    (rounds : Nat) : Sound k strict (Returned k) (runLoop condition body rounds) := by
  induction rounds with
  | zero => exact fun m hm => .fault .unfinished hm
  | succ rounds ih =>
    rw [runLoop_succ]
    refine hc.bind fun value hv => (tell_sound (.whileCondition hv)).bind fun _ _ => ?_
    split
    · exact hb.bind (unlessReturned_sound ih)
    · exact sound_pure nofun

end Parts

theorem bindAll_sound {bindings : List (Name × Value)}
    (h : ∀ b ∈ bindings, k.Names b.1 ∧ b.2.Sorted k) (scope : Nat) :
    Sound k strict (fun _ => True) (bindAll scope bindings) := by
  induction bindings with
  | nil => exact sound_pure trivial
  | cons binding bindings ih =>
    obtain ⟨named, sorted⟩ := h binding List.mem_cons_self
    refine (assign_sound named sorted scope).bind fun _ _ => ?_
    exact ih fun b mem => h b (List.mem_cons_of_mem _ mem)

theorem checkKeys_sound {names : List Name} (h : ∀ name ∈ names, k.Names name) :
    Sound k strict (fun _ => True) (checkKeys names) := by
  induction names with
  | nil => exact sound_pure trivial
  | cons name names ih =>
    cases h name List.mem_cons_self
    exact ih fun name mem => h name (List.mem_cons_of_mem _ mem)

theorem checkTexts_sound {names : List Name} (h : ∀ name ∈ names, k.Names name) (index : Nat) :
    Sound k strict (fun _ => True) (checkTexts index names) := by
  induction names generalizing index with
  | nil => exact sound_pure trivial
  | cons name names ih =>
    cases h name List.mem_cons_self
    exact ih (fun name mem => h name (List.mem_cons_of_mem _ mem)) (index + 1)

/-- Setting variables in a scope and running a block there. -/
theorem body_sound {execute : Node → Eval (Option Value)} {bindings : List (Name × Value)} {body : Node}
    (hb : ∀ b ∈ bindings, k.Names b.1 ∧ b.2.Sorted k) (block : body.IsBlock k)
    (hx : ∀ node, node.IsStatement k → Sound k strict (Returned k) (execute node)) (scope : Nat) :
    Sound k strict (Value.Sorted k) (do
      bindAll scope bindings
      let returned ← runBlock execute body
      return returned.getD .void : Eval Value) := by
  refine (bindAll_sound hb scope).bind fun _ _ => (runBlock_sound block hx).bind fun returned h => ?_
  cases returned with
  | none => exact sound_pure .void
  | some value => exact sound_pure (h value rfl)

theorem callFunction_sound {execute : Node → Nat → Eval (Option Value)} {name : Name}
    {params : List Name} {body : Node} {arguments : List Value} (hp : ∀ p ∈ params, k.Names p)
    (block : body.IsBlock k) (ha : ∀ v ∈ arguments, v.Sorted k)
    (hx : ∀ node scope, node.IsStatement k → Sound k strict (Returned k) (execute node scope))
    (caller : Nat) :
    Sound k strict (Value.Sorted k) (callFunction execute name params body arguments caller) := by
  unfold callFunction
  split
  · refine (checkKeys_sound hp).bind fun _ _ => inNewScope_sound (fun scope => ?_) caller
    exact body_sound (forall_mem_zip hp ha) block (fun node => hx node scope) scope
  · exact sound_fail .argumentCount

theorem declare_sound {name : Name} {params : List Name} {body : Node} (named : k.Names name)
    (hp : ∀ p ∈ params, k.Names p) (block : body.IsBlock k) (scope : Nat) :
    Sound k strict (fun _ => True) (declare scope name params body) := by
  have told : Sound k strict (fun _ => True) (tell (.define name params)) :=
    tell_sound (.define named hp)
  refine (assign_sound named (.function named hp block) scope).bind fun _ _ => ?_
  refine (tells_sound _).bind fun _ _ => ?_
  split
  · exact (checkTexts_sound hp 0).bind fun _ _ => told
  · exact told

/-! ## Evaluation -/

/-- By induction on the levels, expressions and statements together. A well-sorted node never meets a node
of the wrong kind below it. -/
theorem evaluate_execute_sound (rounds levels : Nat) :
    (∀ node scope, node.IsExpression k →
      Sound k strict (Value.Sorted k) (evaluate rounds levels node scope)) ∧
    ∀ node scope, node.IsStatement k →
      Sound k strict (Returned k) (execute rounds levels node scope) := by
  induction levels with
  | zero =>
    refine ⟨fun node scope _ => ?_, fun node scope _ => ?_⟩
    · rw [evaluate]
      exact sound_fail .tooDeep
    · rw [execute]
      exact sound_fail .tooDeep
  | succ levels ih =>
    obtain ⟨he, hx⟩ := ih
    refine ⟨fun node scope sorted => ?_, fun node scope sorted => ?_⟩
    · cases sorted with
      | int mem =>
        rw [evaluate]
        exact sound_pure (.int mem)
      | float =>
        rw [evaluate]
        exact sound_pure .float
      | @bool b =>
        rw [evaluate]
        exact sound_pure (.int (k.integer_of_fits (by cases b <;> decide)))
      | reference named =>
        rw [evaluate]
        refine (lookup_sound named scope).bind fun value hv => ?_
        exact (tell_sound (.lookup named hv)).bind fun _ _ => sound_pure hv
      | call named arguments =>
        rw [evaluate]
        refine (lookup_sound named scope).bind fun function hf => ?_
        refine (tell_sound (.call named)).bind fun _ _ => ?_
        refine (evaluateAll_sound fun node mem => he node scope (arguments node mem)).bind
          fun values hvs => ?_
        cases hf with
        | builtin => exact native_sound _ hvs
        | function _ params body => exact callFunction_sound params body hvs hx scope
        | _ => exact sound_fail .notCallable
    · cases sorted with
      | assignment named value =>
        rw [execute]
        refine (he _ scope value).bind fun value hv => ?_
        refine (assign_sound named hv scope).bind fun _ _ => ?_
        exact (tell_sound (.assign named hv)).bind fun _ _ => sound_pure nofun
      | expression value =>
        rw [execute]
        exact (he _ scope value).bind fun _ _ => sound_pure nofun
      | returns value =>
        rw [execute]
        refine (he _ scope value).bind fun value hv => sound_pure ?_
        rintro _ ⟨⟩
        exact hv
      | function named params body =>
        rw [execute]
        exact (declare_sound named params body scope).bind fun _ _ => sound_pure nofun
      | branch conditions bodies =>
        rw [execute]
        exact runArms_sound conditions bodies (fun node => he node scope) fun node => hx node scope
      | loop condition body =>
        rw [execute]
        exact runLoop_sound (he _ scope condition) (runBlock_sound body fun node => hx node scope) rounds
      | empty =>
        rw [execute]
        exact sound_pure nofun

theorem evaluate_sound {node : Node} (sorted : node.IsExpression k) (rounds levels scope : Nat) :
    Sound k strict (Value.Sorted k) (evaluate rounds levels node scope) :=
  (evaluate_execute_sound rounds levels).1 node scope sorted

theorem execute_sound {node : Node} (sorted : node.IsStatement k) (rounds levels scope : Nat) :
    Sound k strict (Returned k) (execute rounds levels node scope) :=
  (evaluate_execute_sound rounds levels).2 node scope sorted

end Eval

/-- A block that runs in a scope. -/
theorem Machine.runBlock_sound {k : Vocabulary} {strict : Bool} {program : Node}
    (block : program.IsBlock k) (limits : Limits) (scope : Nat) :
    Eval.Sound k strict (Value.Sorted k) (runBlock limits program scope false []) :=
  Eval.body_sound (List.forall_mem_nil _) block
    (fun _ sorted => Eval.execute_sound sorted limits.rounds limits.levels scope)
    scope

end Abacus
