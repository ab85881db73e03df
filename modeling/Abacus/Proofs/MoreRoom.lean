import Abacus.Proofs.Tandem

/-!
# More levels and more rounds

What does not end in the fault of a limit does not change when the limit is raised. `Eval.Extends E p q`
says that `q` does what `p` does, unless `p` ends in one of the faults `E`. A run with more rounds extends
one with fewer if `E` has the fault of the rounds, and likewise for levels. The two runs go side by side
with the same trace.
-/

namespace Abacus

namespace Eval

variable {α : Type} {E : EvalFault → Prop}

/-- `q` does what `p` does, unless `p` ends in a fault of the kind `E`. -/
def Extends (E : EvalFault → Prop) (p q : Eval α) : Prop :=
  ∀ m, (∃ f, (p m).1 = .error f ∧ E f) ∨ q m = p m

theorem beside_eq_iff {m n : Machine} : Machine.Beside Eq m n ↔ n = m := by
  constructor
  · intro beside
    rw [beside.eq, ← beside.trace]
  · rintro rfl
    exact ⟨rfl, rfl, rfl, rfl⟩

theorem listening_eq : Listening Eq (fun f _ => E f) where
  told line m n beside := by
    cases beside_eq_iff.1 beside
    exact .same (beside_eq_iff.2 rfl)
  keeps _ _ excuse := excuse
  reach := by
    rintro t u line rfl reached
    exact reached
  check := by
    rintro t u line rfl reached
    exact .inl reached

theorem Together.extends {p q : Eval α} (h : Together Eq (fun f _ => E f) p q) : Extends E p q := by
  intro m
  have agree := h.agree (beside_eq_iff.2 (Eq.refl m))
  rcases left : p m with ⟨r, m'⟩
  rcases right : q m with ⟨r', n'⟩
  rw [left, right] at agree
  cases agree with
  | same beside =>
    cases beside_eq_iff.1 beside
    exact .inr rfl
  | excused excuse => exact .inl ⟨_, rfl, excuse⟩

end Eval

namespace Machine

open Eval

variable {E : EvalFault → Prop} {limits limits' : Limits}

theorem run_extends (rounds : limits.rounds ≤ limits'.rounds)
    (more : limits.rounds < limits'.rounds → E .unfinished) (levels : limits.levels ≤ limits'.levels)
    (deeper : limits.levels < limits'.levels → E .tooDeep) (program : Node) (scope : Nat) :
    Extends E (run limits program scope) (run limits' program scope) := by
  have block : Extends E (runBlock limits program scope false [])
      (runBlock limits' program scope false []) :=
    (runBlock_together listening_eq rounds (fun lt _ => more lt) levels (fun lt _ => deeper lt) program scope
      false []).extends
  intro m
  unfold run
  rcases block m with fault | same
  · exact .inl fault
  · rw [same]
    exact .inr rfl

end Machine

end Abacus
