import Abacus.Eval.Interpreter

/-!
# Evaluation in steps

Statements in a row and the rounds of a loop, written as one computation after another. What is to be
shown of the evaluator is shown of `>>=` once, and then these equations take it apart.
-/

namespace Abacus

namespace Eval

variable {α β : Type} {m m' : Machine}

theorem bind_of_ok {p : Eval α} {a : α} (h : p m = (.ok a, m')) (f : α → Eval β) :
    (p >>= f) m = f a m' := by
  show Eval.bind p f m = f a m'
  rw [Eval.bind, h]

theorem bind_of_error {p : Eval α} {fault : EvalFault} (h : p m = (.error fault, m'))
    (f : α → Eval β) : (p >>= f) m = (.error fault, m') := by
  show Eval.bind p f m = (.error fault, m')
  rw [Eval.bind, h]

/-- What holds of the parameters and of the arguments holds of the bindings of a call. -/
theorem forall_mem_zip {P : Name → Prop} {Q : Value → Prop} {params : List Name}
    {arguments : List Value} (hp : ∀ p ∈ params, P p) (hq : ∀ v ∈ arguments, Q v) :
    ∀ b ∈ params.zip arguments, P b.1 ∧ Q b.2 := by
  rintro ⟨name, value⟩ mem
  obtain ⟨param, argument⟩ := List.of_mem_zip mem
  exact ⟨hp name param, hq value argument⟩

/-- Goes on, unless a value has been returned. -/
def unlessReturned (next : Eval (Option Value)) : Option Value → Eval (Option Value)
  | none => next
  | some value => pure (some value)

theorem runStatements_cons (execute : Node → Eval (Option Value)) (node : Node) (nodes : List Node) :
    runStatements execute (node :: nodes)
      = execute node >>= unlessReturned (runStatements execute nodes) := by
  funext m
  rw [runStatements]
  rcases eq : execute node m with ⟨_ | _ | value, m'⟩
  · rw [bind_of_error eq]
  · rw [bind_of_ok eq]
    rfl
  · rw [bind_of_ok eq]
    rfl

theorem runLoop_succ (condition : Eval Value) (body : Eval (Option Value)) (rounds : Nat) :
    runLoop condition body (rounds + 1) = (do
      let value ← condition
      tell (.whileCondition value)
      if value.isTrue then body >>= unlessReturned (runLoop condition body rounds)
      else return none) := by
  funext m
  rw [runLoop]
  have test : (condition.bind fun value => (tell (.whileCondition value)).bind fun _ => .pure value) m
      = (condition >>= fun value => tell (.whileCondition value) >>= fun _ => pure value) m := rfl
  rw [test]
  rcases eq : condition m with ⟨fault | value, m₁⟩
  · rw [bind_of_error eq, bind_of_error eq]
  · rw [bind_of_ok eq, bind_of_ok eq]
    rcases told : tell (.whileCondition value) m₁ with ⟨fault | _, m₂⟩
    · rw [bind_of_error told, bind_of_error told]
    · rw [bind_of_ok told, bind_of_ok told]
      show (if value.isTrue then _ else _) = _
      split
      · rcases round : body m₂ with ⟨_ | _ | value, m₃⟩
        · rw [bind_of_error round]
        · rw [bind_of_ok round]
          rfl
        · rw [bind_of_ok round]
          rfl
      · rfl

end Eval

end Abacus
