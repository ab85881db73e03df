import Abacus.Proofs.Activity
import Abacus.Proofs.SortedRun

/-!
# The points of a well-sorted run

An activity is well-sorted if what it is about is: nodes of the right sort, names that are texts, values
of the vocabulary. If an activity is well-sorted and begun among values of the vocabulary, then so are
those that it begins (`Activity.Begins.sorted`), and hence all that are begun in its course
(`Activity.Within.sorted`). What each of them results in, and the values that it leaves behind, are of
the vocabulary too (`Activity.perform_sorted`).
-/

namespace Abacus

variable {k : Vocabulary} {rounds : Nat} {m m₁ : Machine}

namespace Eval

variable {α : Type} {Q : α → Prop} {p : Eval α}

theorem Sound.of_eq_ok (hp : Sound k m.strict Q p) (hm : m.store.Sorted k) {a : α}
    (eq : p m = (.ok a, m₁)) : Q a ∧ m₁.store.Sorted k := by
  have fine := hp m ⟨hm, rfl⟩
  rw [eq] at fine
  cases fine with
  | value holds sorted => exact ⟨holds, sorted.store⟩

/-- A sound computation gives values of the vocabulary and leaves such values behind. -/
theorem Sound.giving_sorted (hp : Sound k m.strict Q p) (hm : m.store.Sorted k) {f : α → List Value}
    (hf : ∀ a, Q a → ∀ v ∈ f a, v.Sorted k) :
    (∀ vs, (p.giving f m).1 = .ok vs → ∀ v ∈ vs, v.Sorted k) ∧
      (p.giving f m).2.store.Sorted k := by
  have fine := hp m ⟨hm, rfl⟩
  unfold giving
  generalize p m = outcome at fine ⊢
  cases fine with
  | value holds sorted =>
    refine ⟨?_, sorted.store⟩
    rintro _ ⟨⟩
    exact hf _ holds
  | fault _ sorted => exact ⟨nofun, sorted.store⟩

end Eval

namespace Activity

/-- An activity that is about nodes of the right sort, and about names and values of the vocabulary. -/
def Sorted (k : Vocabulary) : Activity → Prop
  | run _ program _ => program.IsBlock k
  | evaluate _ node _ => node.IsExpression k
  | evaluateAll _ nodes _ => ∀ node ∈ nodes, node.IsExpression k
  | execute _ node _ => node.IsStatement k
  | runStatements _ nodes _ => ∀ node ∈ nodes, node.IsStatement k
  | runBlock _ node _ => node.IsBlock k
  | runArms _ arms _ => (∀ arm ∈ arms, arm.1.IsExpression k) ∧ ∀ arm ∈ arms, arm.2.IsBlock k
  | runLoop _ condition body _ _ => condition.IsExpression k ∧ body.IsBlock k
  | native _ arguments => ∀ v ∈ arguments, v.Sorted k
  | callFunction _ _ params body arguments _ =>
    (∀ p ∈ params, k.Names p) ∧ body.IsBlock k ∧ ∀ v ∈ arguments, v.Sorted k
  | assign _ name value => k.Names name ∧ value.Sorted k
  | bindAll _ bindings => ∀ b ∈ bindings, k.Names b.1 ∧ b.2.Sorted k

theorem Sorted.given {activity : Activity} (h : activity.Sorted k) :
    ∀ v ∈ activity.given, v.Sorted k := by
  cases activity with
  | native op arguments => exact h
  | callFunction levels name params body arguments caller => exact h.2.2
  | assign scope name value => exact List.forall_mem_singleton.2 h.2
  | bindAll scope bindings =>
    intro v mem
    obtain ⟨b, hb, rfl⟩ := List.mem_map.1 mem
    exact (h b hb).2
  | _ => exact List.forall_mem_nil _

/-- Each activity gives values of the vocabulary and leaves a store of them. -/
theorem perform_sorted (rounds : Nat) {activity : Activity} (h : activity.Sorted k)
    (hm : m.store.Sorted k) :
    (∀ vs, (activity.perform rounds m).1 = .ok vs → ∀ v ∈ vs, v.Sorted k) ∧
      (activity.perform rounds m).2.store.Sorted k := by
  have one (v : Value) (hv : v.Sorted k) : ∀ w ∈ [v], w.Sorted k := List.forall_mem_singleton.2 hv
  have option (returned : Option Value) (hr : Eval.Returned k returned) :
      ∀ w ∈ returned.toList, w.Sorted k := fun w mem => hr w (Option.mem_toList.1 mem)
  have he (levels : Nat) (node : Node) (scope : Nat) (h : node.IsExpression k) :
      Eval.Sound k m.strict (Value.Sorted k) (Eval.evaluate rounds levels node scope) :=
    Eval.evaluate_sound h rounds levels scope
  have hx (levels : Nat) (node : Node) (scope : Nat) (h : node.IsStatement k) :
      Eval.Sound k m.strict (Eval.Returned k) (Eval.execute rounds levels node scope) :=
    Eval.execute_sound h rounds levels scope
  cases activity with
  | run levels program scope =>
    exact (Machine.runBlock_sound h ⟨levels, rounds⟩ scope).giving_sorted hm one
  | evaluate levels node scope => exact (he levels node scope h).giving_sorted hm one
  | evaluateAll levels nodes scope =>
    exact (Eval.evaluateAll_sound fun node mem => he levels node scope (h node mem)).giving_sorted hm
      fun _ => id
  | execute levels node scope => exact (hx levels node scope h).giving_sorted hm option
  | runStatements levels nodes scope =>
    exact (Eval.runStatements_sound fun node mem =>
      hx levels node scope (h node mem)).giving_sorted hm option
  | runBlock levels node scope =>
    exact (Eval.runBlock_sound h fun node => hx levels node scope).giving_sorted hm option
  | runArms levels arms scope =>
    exact (Eval.runArms_sound h.1 h.2 (fun node => he levels node scope)
      fun node => hx levels node scope).giving_sorted hm option
  | runLoop levels condition body scope left =>
    have round := Eval.runBlock_sound h.2 fun node => hx levels node scope
    exact (Eval.runLoop_sound (he levels condition scope h.1) round left).giving_sorted hm option
  | native op arguments => exact (Eval.native_sound op h).giving_sorted hm one
  | callFunction levels name params body arguments caller =>
    exact (Eval.callFunction_sound h.1 h.2.1 h.2.2 (fun node scope => hx levels node scope)
      caller).giving_sorted hm one
  | assign scope name value =>
    exact (Eval.assign_sound h.1 h.2 scope).giving_sorted hm fun _ _ => List.forall_mem_nil _
  | bindAll scope bindings =>
    exact (Eval.bindAll_sound h scope).giving_sorted hm fun _ _ => List.forall_mem_nil _

section Points

variable {levels scope : Nat} {m₂ : Machine} {callee : Name} {es : List Node} {params : List Name}
  {vs : List Value} {f : Value}

theorem called_sorted (h : (evaluate (levels + 1) (.call callee es) scope).Sorted k)
    (hm : m.store.Sorted k) (found : Eval.lookup scope callee m = (.ok f, m₁))
    (told : Eval.tell (.call callee es.length) m₁ = (.ok (), m₂)) :
    (∀ e ∈ es, e.IsExpression k) ∧ f.Sorted k ∧ m₂.store.Sorted k := by
  cases h with
  | call named arguments =>
    obtain ⟨function, store⟩ := (Eval.lookup_sound named scope).of_eq_ok hm found
    exact ⟨arguments, function, ((Eval.tell_sound (.call named)).of_eq_ok store told).2⟩

theorem arguments_sorted {m₃ : Machine} (h : (evaluate (levels + 1) (.call callee es) scope).Sorted k)
    (hm : m.store.Sorted k) (found : Eval.lookup scope callee m = (.ok f, m₁))
    (told : Eval.tell (.call callee es.length) m₁ = (.ok (), m₂))
    (values : Eval.evaluateAll (fun e => Eval.evaluate rounds levels e scope) es m₂ = (.ok vs, m₃)) :
    f.Sorted k ∧ (∀ v ∈ vs, v.Sorted k) ∧ m₃.store.Sorted k := by
  obtain ⟨arguments, function, store⟩ := called_sorted h hm found told
  refine ⟨function, (Eval.evaluateAll_sound fun e mem => ?_).of_eq_ok store values⟩
  exact Eval.evaluate_sound (arguments e mem) rounds levels scope

theorem entered_sorted (names : ∀ p ∈ params, k.Names p) (hm : m.store.Sorted k)
    (keys : Eval.checkKeys params m = (.ok (), m₁)) (caller : Nat) :
    (m₁.store.push caller).2.Sorted k :=
  ((Eval.checkKeys_sound names).of_eq_ok hm keys).2.push caller

theorem tested_sorted {c : Node} {v : Value} {line : Value → TraceLine} (condition : c.IsExpression k)
    (hm : m.store.Sorted k) (value : Eval.evaluate rounds levels c scope m = (.ok v, m₁))
    (sorted : v.Sorted k → (line v).Sorted k) (told : Eval.tell (line v) m₁ = (.ok (), m₂)) :
    m₂.store.Sorted k := by
  obtain ⟨hv, store⟩ := (Eval.evaluate_sound condition rounds levels scope).of_eq_ok hm value
  exact ((Eval.tell_sound (sorted hv)).of_eq_ok store told).2

end Points

/-- A well-sorted activity that is begun among values of the vocabulary begins only such activities. -/
theorem Begins.sorted {activity next : Activity} (begins : Begins rounds (activity, m) (next, m₁))
    (h : activity.Sorted k) (hm : m.store.Sorted k) : next.Sorted k ∧ m₁.store.Sorted k := by
  cases begins with
  | program => exact ⟨h, hm⟩
  -- calls
  | arguments found told =>
    obtain ⟨arguments, -, store⟩ := called_sorted h hm found told
    exact ⟨arguments, store⟩
  | operation found told values =>
    obtain ⟨-, vs, store⟩ := arguments_sorted h hm found told values
    exact ⟨vs, store⟩
  | function found told values =>
    obtain ⟨function, vs, store⟩ := arguments_sorted h hm found told values
    cases function with
    | function named params body => exact ⟨⟨params, body, vs⟩, store⟩
  | first => exact ⟨h _ List.mem_cons_self, hm⟩
  | others value =>
    obtain ⟨here, below⟩ := List.forall_mem_cons.1 h
    exact ⟨below, ((Eval.evaluate_sound here _ _ _).of_eq_ok hm value).2⟩
  | parameters count keys =>
    obtain ⟨names, block, values⟩ := h
    exact ⟨Eval.forall_mem_zip names values, entered_sorted names hm keys _⟩
  | body count keys bound =>
    obtain ⟨names, block, values⟩ := h
    have set := (Eval.bindAll_sound (Eval.forall_mem_zip names values) _).of_eq_ok
      (entered_sorted names hm keys _) bound
    exact ⟨block, set.2⟩
  | parameter => exact ⟨h _ List.mem_cons_self, hm⟩
  | otherParameters set =>
    obtain ⟨⟨named, value⟩, below⟩ := List.forall_mem_cons.1 h
    exact ⟨below, ((Eval.assign_sound named value _).of_eq_ok hm set).2⟩
  -- statements
  | assigned =>
    cases h with
    | assignment named expression => exact ⟨expression, hm⟩
  | assigns value =>
    cases h with
    | assignment named expression =>
      obtain ⟨sorted, store⟩ := (Eval.evaluate_sound expression _ _ _).of_eq_ok hm value
      exact ⟨⟨named, sorted⟩, store⟩
  | expression =>
    cases h with
    | expression value => exact ⟨value, hm⟩
  | returned =>
    cases h with
    | returns value => exact ⟨value, hm⟩
  | declares =>
    cases h with
    | function named params body => exact ⟨⟨named, .function named params body⟩, hm⟩
  | branch =>
    cases h with
    | branch conditions bodies => exact ⟨⟨conditions, bodies⟩, hm⟩
  | loop =>
    cases h with
    | loop condition body => exact ⟨⟨condition, body⟩, hm⟩
  | block =>
    cases h with
    | block each => exact ⟨each, hm⟩
  | statement => exact ⟨h _ List.mem_cons_self, hm⟩
  | statements done =>
    obtain ⟨here, below⟩ := List.forall_mem_cons.1 h
    exact ⟨below, ((Eval.execute_sound here _ _ _).of_eq_ok hm done).2⟩
  -- arms and rounds
  | armCondition => exact ⟨h.1 _ List.mem_cons_self, hm⟩
  | armBody value told holds =>
    have condition := h.1 _ List.mem_cons_self
    exact ⟨h.2 _ List.mem_cons_self, tested_sorted condition hm value .ifCondition told⟩
  | otherArms value told fails =>
    obtain ⟨condition, conditions⟩ := List.forall_mem_cons.1 h.1
    obtain ⟨-, bodies⟩ := List.forall_mem_cons.1 h.2
    exact ⟨⟨conditions, bodies⟩, tested_sorted condition hm value .ifCondition told⟩
  | loopCondition => exact ⟨h.1, hm⟩
  | loopBody value told holds => exact ⟨h.2, tested_sorted h.1 hm value .whileCondition told⟩
  | nextRound value told holds done =>
    have store := tested_sorted h.1 hm value .whileCondition told
    have round := (Eval.runBlock_sound h.2 fun node h => Eval.execute_sound h _ _ _).of_eq_ok store done
    exact ⟨h, round.2⟩

/-- All activities that are begun in the course of a well-sorted one are well-sorted. -/
theorem Within.sorted {start finish : Activity × Machine} (within : Within rounds start finish)
    (h : start.1.Sorted k) (hm : start.2.store.Sorted k) :
    finish.1.Sorted k ∧ finish.2.store.Sorted k := by
  induction within with
  | refl => exact ⟨h, hm⟩
  | tail _ begins ih => exact begins.sorted ih.1 ih.2

end Activity

end Abacus
