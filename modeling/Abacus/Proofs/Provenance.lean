import Abacus.Proofs.Activity
import Abacus.Proofs.EvalSteps
import Abacus.Proofs.Sorts

/-!
# Where values and printed texts come from

A run leaves marks: variables with values, and printed texts. Whatever marks there are at the end of a run
have been there from the beginning or were made at a point of the run, a value where a variable was set to
it and a text where an operation printed it (`Activity.Sourced`). So the points of a run tell everything
about what it binds and prints.

`Sourced` is passed on along computations that make no marks (`Sourced.quiet`) and along the activities
that an activity begins (`Sourced.after`). The evaluator is made of these, so one induction on the levels
covers it.
-/

namespace Abacus

/-- What a run can leave behind. -/
inductive Mark where
  /-- Some variable has this value. -/
  | bound (value : Value)
  | printed (text : Text)

namespace Machine

def Bears (m : Machine) : Mark → Prop
  | .bound value => ∃ (id : Nat) (scope : Scope),
      m.store.scopes[id]? = some scope ∧ ∃ b ∈ scope.bindings, b.2 = value
  | .printed text => text ∈ m.printed

variable {m m' : Machine} {mark : Mark}

theorem Bears.of_same (h : m'.Bears mark) (store : m'.store = m.store)
    (printed : m'.printed = m.printed) : m.Bears mark := by
  cases mark with
  | bound value =>
    obtain ⟨id, scope, found, b, mem, rfl⟩ := h
    exact ⟨id, scope, store ▸ found, b, mem, rfl⟩
  | printed text =>
    show text ∈ m.printed
    rwa [← printed]

/-- A new scope has no variables. -/
theorem Bears.of_push (parent : Nat)
    (h : Bears { m with store := (m.store.push parent).2 } mark) : m.Bears mark := by
  cases mark with
  | bound value =>
    obtain ⟨id, scope, found, b, mem, rfl⟩ := h
    have found : (m.store.scopes.push ⟨some parent, []⟩)[id]? = some scope := found
    rw [Array.getElem?_push] at found
    split at found
    · cases found
      cases mem
    · exact ⟨id, scope, found, b, mem, rfl⟩
  | printed text => exact h

theorem Bears.of_pop (h : Bears { m with store := m.store.pop } mark) : m.Bears mark := by
  cases mark with
  | bound value =>
    obtain ⟨id, scope, found, b, mem, rfl⟩ := h
    have found : m.store.scopes.pop[id]? = some scope := found
    rw [Array.getElem?_pop] at found
    split at found
    · exact ⟨id, scope, found, b, mem, rfl⟩
    · cases found
  | printed text => exact h

end Machine

namespace Eval

variable {α : Type}

/-- A computation that neither sets variables nor prints. -/
def Quiet (p : Eval α) : Prop :=
  ∀ m, (p m).2.store = m.store ∧ (p m).2.printed = m.printed

theorem tell_quiet (line : TraceLine) : Quiet (tell line) := by
  intro m
  unfold tell putting
  dsimp only
  split <;> exact ⟨rfl, rfl⟩

theorem lookup_quiet (scope : Nat) (name : Name) : Quiet (lookup scope name) := by
  intro m
  unfold lookup
  split
  · split <;> exact ⟨rfl, rfl⟩
  · exact ⟨rfl, rfl⟩

theorem checkKeys_quiet (names : List Name) : Quiet (checkKeys names) := by
  intro m
  induction names with
  | nil => exact ⟨rfl, rfl⟩
  | cons name names ih =>
    rw [checkKeys]
    split
    · exact ih
    · exact ⟨rfl, rfl⟩

theorem checkTexts_quiet (index : Nat) (names : List Name) : Quiet (checkTexts index names) := by
  intro m
  induction names generalizing index with
  | nil => exact ⟨rfl, rfl⟩
  | cons name names ih =>
    cases name with
    | str text => exact ih (index + 1)
    | _ => exact ⟨rfl, rfl⟩

end Eval

namespace Activity

/-- An activity makes a mark by itself. -/
inductive Makes : Activity → Mark → Prop
  | bound {scope name value} : Makes (assign scope name value) (.bound value)
  | printed {op arguments value text} (prints : op.call arguments = .ok (value, some text)) :
      Makes (native op arguments) (.printed text)

variable {rounds levels scope : Nat} {start : Activity × Machine} {m m₁ m₂ : Machine}

/-- Every mark that there is now was there when the activity was begun, or was made in its course. -/
def Sourced (rounds : Nat) (start : Activity × Machine) (m : Machine) : Prop :=
  ∀ mark, m.Bears mark → start.2.Bears mark ∨
    ∃ activity point, Within rounds start (activity, point) ∧ activity.Makes mark

namespace Sourced

theorem refl (start : Activity × Machine) : Sourced rounds start start.2 := fun _ => .inl

theorem mono (h : Sourced rounds start m₁) (fewer : ∀ mark, m₂.Bears mark → m₁.Bears mark) :
    Sourced rounds start m₂ :=
  fun mark bears => h mark (fewer mark bears)

/-- The marks of another activity are made in the course of this one. -/
theorem after {other : Activity} (h : Sourced rounds start m₁)
    (begins : Begins rounds start (other, m₁)) (sub : Sourced rounds (other, m₁) m₂) :
    Sourced rounds start m₂ := by
  intro mark bears
  rcases sub mark bears with before | ⟨activity, point, within, makes⟩
  · exact h mark before
  · exact .inr ⟨activity, point, .head begins within, makes⟩

section Computations

variable {α β : Type} {p : Eval α} {f : α → Eval β}

theorem quiet (h : Sourced rounds start m) (hp : p.Quiet) : Sourced rounds start (p m).2 :=
  h.mono fun _ bears => bears.of_same (hp m).1 (hp m).2

theorem of_eq {outcome : Except EvalFault α} (h : Sourced rounds start (p m).2)
    (eq : p m = (outcome, m₁)) : Sourced rounds start m₁ := by
  rwa [eq] at h

theorem bind (hp : Sourced rounds start (p m).2)
    (hf : ∀ a m₁, p m = (.ok a, m₁) → Sourced rounds start m₁ → Sourced rounds start (f a m₁).2) :
    Sourced rounds start ((p >>= f) m).2 := by
  rcases eq : p m with ⟨fault | a, m₁⟩
  · rw [Eval.bind_of_error eq]
    exact hp.of_eq eq
  · rw [Eval.bind_of_ok eq]
    exact hf a m₁ eq (hp.of_eq eq)

end Computations

end Sourced

/-! ## What the evaluator is made of -/

/-- The value that is put is the only new mark. -/
theorem assign_sourced (scope : Nat) (name : Name) (value : Value) (m : Machine) :
    Sourced rounds (assign scope name value, m) (Eval.assign scope name value m).2 := by
  intro mark bears
  unfold Eval.assign at bears
  split at bears
  · cases mark with
    | printed text => exact .inl bears
    | bound v =>
      obtain ⟨id, after, found, b, mem, rfl⟩ := bears
      have found : (m.store.scopes.modify scope fun s => s.put name value)[id]? = some after := found
      rw [Array.getElem?_modify] at found
      split at found
      · obtain ⟨before, here, rfl⟩ := Option.map_eq_some_iff.1 found
        rcases Store.mem_putIn mem with eq | old
        · rw [eq]
          exact .inr ⟨_, m, .refl, .bound⟩
        · exact .inl ⟨id, before, here, b, old, rfl⟩
      · exact .inl ⟨id, after, found, b, mem, rfl⟩
  · exact .inl bears

/-- The text that is printed is the only new mark, if there is one and the stream can hold it. -/
theorem native_sourced (op : NativeOp) (arguments : List Value) (m : Machine) :
    Sourced rounds (native op arguments, m) (Eval.native op arguments m).2 := by
  unfold Eval.native
  rcases called : op.call arguments with fault | ⟨value, text⟩
  · exact .refl _
  · refine Sourced.bind ?_ fun _ _ _ h => h
    intro mark bears
    unfold Eval.write Eval.putting at bears
    dsimp only at bears
    split at bears
    · exact .inl bears
    · cases mark with
      | bound v => exact .inl bears
      | printed t =>
        have mem : t ∈ text.toList ++ m.printed := bears
        rcases List.mem_append.1 mem with new | old
        · cases Option.mem_toList.1 new
          exact .inr ⟨_, m, .refl, .printed called⟩
        · exact .inl old

theorem bindAll_sourced (scope : Nat) (bindings : List (Name × Value)) (m : Machine) :
    Sourced rounds (bindAll scope bindings, m) (Eval.bindAll scope bindings m).2 := by
  induction bindings generalizing m with
  | nil => exact .refl _
  | cons binding bindings ih =>
    obtain ⟨name, value⟩ := binding
    refine Sourced.bind ((Sourced.refl _).after .parameter (assign_sourced scope name value m)) ?_
    exact fun _ m₁ set h => h.after (.otherParameters set) (ih m₁)

section Parts

variable (rounds levels) in
/-- Evaluation with these levels is covered. -/
def CoversEvaluate : Prop := ∀ node scope m,
  Sourced rounds (evaluate levels node scope, m) (Eval.evaluate rounds levels node scope m).2

variable (rounds levels) in
/-- Execution with these levels is covered. -/
def CoversExecute : Prop := ∀ node scope m,
  Sourced rounds (execute levels node scope, m) (Eval.execute rounds levels node scope m).2

theorem evaluateAll_sourced (he : CoversEvaluate rounds levels) (nodes : List Node) (m : Machine) :
    Sourced rounds (evaluateAll levels nodes scope, m)
      (Eval.evaluateAll (fun node => Eval.evaluate rounds levels node scope) nodes m).2 := by
  induction nodes generalizing m with
  | nil => exact .refl _
  | cons node nodes ih =>
    refine Sourced.bind ((Sourced.refl _).after .first (he node scope m)) fun v m₁ value h => ?_
    exact Sourced.bind (h.after (.others value) (ih m₁)) fun _ _ _ h => h

theorem runStatements_sourced (hx : CoversExecute rounds levels) (nodes : List Node) (m : Machine) :
    Sourced rounds (runStatements levels nodes scope, m)
      (Eval.runStatements (fun node => Eval.execute rounds levels node scope) nodes m).2 := by
  induction nodes generalizing m with
  | nil => exact .refl _
  | cons node nodes ih =>
    rw [Eval.runStatements_cons]
    refine Sourced.bind ((Sourced.refl _).after .statement (hx node scope m)) ?_
    intro returned m₁ done h
    cases returned with
    | none => exact h.after (.statements done) (ih m₁)
    | some value => exact h

theorem runBlock_sourced (hx : CoversExecute rounds levels) (node : Node) (m : Machine) :
    Sourced rounds (runBlock levels node scope, m)
      (Eval.runBlock (fun node => Eval.execute rounds levels node scope) node m).2 := by
  cases node with
  | block nodes => exact (Sourced.refl _).after .block (runStatements_sourced hx nodes m)
  | _ => exact .refl _

/-- Each condition that is evaluated is told, and at most one body runs. -/
theorem runArms_sourced (he : CoversEvaluate rounds levels) (hx : CoversExecute rounds levels)
    (arms : List (Node × Node)) (m : Machine) :
    Sourced rounds (runArms levels arms scope, m)
      (Eval.runArms (fun node => Eval.evaluate rounds levels node scope)
        (fun node => Eval.execute rounds levels node scope) arms m).2 := by
  induction arms generalizing m with
  | nil => exact .refl _
  | cons arm arms ih =>
    obtain ⟨condition, body⟩ := arm
    refine Sourced.bind ((Sourced.refl _).after .armCondition (he condition scope m)) ?_
    intro v m₁ value h
    refine Sourced.bind (h.quiet (Eval.tell_quiet _)) fun _ m₂ told h => ?_
    split
    · next holds => exact h.after (.armBody value told holds) (runBlock_sourced hx body m₂)
    · next fails => exact h.after (.otherArms value told (Bool.eq_false_iff.2 fails)) (ih m₂)

/-- By induction on the rounds that are left: a condition, its line, the body and the next round. -/
theorem runLoop_sourced (he : CoversEvaluate rounds levels) (hx : CoversExecute rounds levels)
    (condition body : Node) (left : Nat) (m : Machine) :
    Sourced rounds (runLoop levels condition body scope left, m)
      (Eval.runLoop (Eval.evaluate rounds levels condition scope)
        (Eval.runBlock (fun node => Eval.execute rounds levels node scope) body) left m).2 := by
  induction left generalizing m with
  | zero => exact .refl _
  | succ left ih =>
    rw [Eval.runLoop_succ]
    refine Sourced.bind ((Sourced.refl _).after .loopCondition (he condition scope m)) ?_
    intro v m₁ value h
    refine Sourced.bind (h.quiet (Eval.tell_quiet _)) fun _ m₂ told h => ?_
    split
    · next holds =>
      refine Sourced.bind (h.after (.loopBody value told holds) (runBlock_sourced hx body m₂)) ?_
      intro returned m₃ done h
      cases returned with
      | none => exact h.after (.nextRound value told holds done) (ih m₃)
      | some value => exact h
    · exact h

/-- A call opens a scope, binds its arguments and runs the body there. -/
theorem callFunction_sourced (hx : CoversExecute rounds levels) (name : Name) (params : List Name)
    (body : Node) (arguments : List Value) (caller : Nat) (m : Machine) :
    Sourced rounds (callFunction levels name params body arguments caller, m)
      (Eval.callFunction (fun node scope => Eval.execute rounds levels node scope) name params body
        arguments caller m).2 := by
  unfold Eval.callFunction
  split
  · next count =>
    refine Sourced.bind ((Sourced.refl _).quiet (Eval.checkKeys_quiet params)) fun _ m₁ keys h => ?_
    refine Sourced.mono ?_ fun _ => Machine.Bears.of_pop
    have fresh := h.mono fun _ => Machine.Bears.of_push caller
    refine Sourced.bind (fresh.after (.parameters count keys) (bindAll_sourced _ _ _)) ?_
    intro _ m₂ bound h
    refine Sourced.bind (h.after (.body count keys bound) (runBlock_sourced hx body m₂)) ?_
    exact fun _ _ _ h => h
  · exact .refl _

theorem declare_sourced (name : Name) (params : List Name) (body : Node) (m : Machine) :
    Sourced rounds (execute (levels + 1) (.function name params body) scope, m)
      (Eval.declare scope name params body m).2 := by
  refine Sourced.bind ((Sourced.refl _).after .declares (assign_sourced scope name _ m)) ?_
  refine fun _ m₁ _ h => Sourced.bind (p := Eval.tells _) h fun told m₂ _ h => ?_
  split
  · refine Sourced.bind (h.quiet (Eval.checkTexts_quiet 0 params)) fun _ _ _ h => ?_
    exact h.quiet (Eval.tell_quiet _)
  · exact h.quiet (Eval.tell_quiet _)

end Parts

/-! ## Evaluation -/

theorem evaluate_succ_sourced (he : CoversEvaluate rounds levels) (hx : CoversExecute rounds levels) :
    CoversEvaluate rounds (levels + 1) := by
  intro node scope m
  cases node with
  | reference name =>
    rw [Eval.evaluate]
    refine Sourced.bind ((Sourced.refl _).quiet (Eval.lookup_quiet scope name)) fun v m₁ _ h => ?_
    exact Sourced.bind (h.quiet (Eval.tell_quiet _)) fun _ _ _ h => h
  | call callee arguments =>
    rw [Eval.evaluate]
    refine Sourced.bind ((Sourced.refl _).quiet (Eval.lookup_quiet scope callee)) ?_
    intro function m₁ found h
    refine Sourced.bind (h.quiet (Eval.tell_quiet _)) fun _ m₂ told h => ?_
    refine Sourced.bind (h.after (.arguments found told) (evaluateAll_sourced he arguments m₂)) ?_
    intro vs m₃ values h
    cases function with
    | builtin op => exact h.after (.operation found told values) (native_sourced op vs m₃)
    | function name params body =>
      exact h.after (.function found told values)
        (callFunction_sourced hx name params body vs scope m₃)
    | _ => exact h
  | _ =>
    rw [Eval.evaluate] <;> first | exact .refl _ | exact nofun

theorem execute_succ_sourced (he : CoversEvaluate rounds levels) (hx : CoversExecute rounds levels) :
    CoversExecute rounds (levels + 1) := by
  intro node scope m
  cases node with
  | assignment target e =>
    rw [Eval.execute]
    refine Sourced.bind ((Sourced.refl _).after .assigned (he e scope m)) fun v m₁ value h => ?_
    refine Sourced.bind (h.after (.assigns value) (assign_sourced scope target v m₁)) ?_
    intro _ m₂ _ h
    exact Sourced.bind (h.quiet (Eval.tell_quiet _)) fun _ _ _ h => h
  | expression e =>
    rw [Eval.execute]
    exact Sourced.bind ((Sourced.refl _).after .expression (he e scope m)) fun _ _ _ h => h
  | returns e =>
    rw [Eval.execute]
    exact Sourced.bind ((Sourced.refl _).after .returned (he e scope m)) fun _ _ _ h => h
  | function name params body =>
    rw [Eval.execute]
    exact Sourced.bind (declare_sourced name params body m) fun _ _ _ h => h
  | branch arms =>
    rw [Eval.execute]
    exact (Sourced.refl _).after .branch (runArms_sourced he hx arms m)
  | loop condition body =>
    rw [Eval.execute]
    exact (Sourced.refl _).after .loop (runLoop_sourced he hx condition body rounds m)
  | _ =>
    rw [Eval.execute] <;> first | exact .refl _ | exact nofun

theorem coversEvaluate_coversExecute (rounds levels : Nat) :
    CoversEvaluate rounds levels ∧ CoversExecute rounds levels := by
  induction levels with
  | zero =>
    refine ⟨fun node scope m => ?_, fun node scope m => ?_⟩
    · rw [Eval.evaluate]
      exact .refl _
    · rw [Eval.execute]
      exact .refl _
  | succ levels ih =>
    exact ⟨evaluate_succ_sourced ih.1 ih.2, execute_succ_sourced ih.1 ih.2⟩

theorem run_sourced (limits : Limits) (program : Node) (scope : Nat) (m : Machine) :
    Sourced limits.rounds (run limits.levels program scope, m)
      (Machine.run limits program scope m).2 := by
  have block : Sourced limits.rounds (run limits.levels program scope, m)
      (Machine.runBlock limits program scope false [] m).2 :=
    Sourced.bind (p := Eval.bindAll scope []) (.refl _) fun _ m₁ set h => by
      cases set
      have hx := (coversEvaluate_coversExecute limits.rounds limits.levels).2
      exact Sourced.bind (h.after .program (runBlock_sourced hx program m)) fun _ _ _ h => h
  exact block.mono fun _ bears => bears.of_same rfl rfl

/-- Whatever marks there are at the end of an activity were there at its beginning or are its own. -/
theorem perform_sourced (activity : Activity) (m : Machine) :
    Sourced rounds (activity, m) (activity.perform rounds m).2 := by
  have he := fun levels => (coversEvaluate_coversExecute rounds levels).1
  have hx := fun levels => (coversEvaluate_coversExecute rounds levels).2
  cases activity with
  | run levels program scope => exact run_sourced ⟨levels, rounds⟩ program scope m
  | evaluate levels node scope => exact he levels node scope m
  | evaluateAll levels nodes scope => exact evaluateAll_sourced (he levels) nodes m
  | execute levels node scope => exact hx levels node scope m
  | runStatements levels nodes scope => exact runStatements_sourced (hx levels) nodes m
  | runBlock levels node scope => exact runBlock_sourced (hx levels) node m
  | runArms levels arms scope => exact runArms_sourced (he levels) (hx levels) arms m
  | runLoop levels condition body scope left =>
    exact runLoop_sourced (he levels) (hx levels) condition body left m
  | native op arguments => exact native_sourced op arguments m
  | callFunction levels name params body arguments caller =>
    exact callFunction_sourced (hx levels) name params body arguments caller m
  | assign scope name value => exact assign_sourced scope name value m
  | bindAll scope bindings => exact bindAll_sourced scope bindings m

end Activity

end Abacus
