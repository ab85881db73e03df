import Mathlib
import Abacus.Proofs.Recursion

/-!
# The grammar without levels

The parser counts the levels of its brackets and blocks. `Source.within` is what it does with so many
levels, for each of the rules, and each rule is one `Source.step` over the rules it calls for. A call goes
a level down only behind a bracket or a brace, so with more levels than tokens it does not matter how many
levels there are, and the rules without levels (`Source.unbounded`) are left.

They solve the equations of the grammar (`Source.step_unbounded`), and nothing else does
(`Source.eq_unbounded_of_step`): a rule is settled by those called before it, and calls end.
-/

namespace Abacus

namespace RuleName

/-- The calls that go one level down: into a bracket or into a block. -/
def opens : RuleName → RuleName → Bool
  | call, arguments _ => true
  | value, expression => true
  | function, block => true
  | arms _, block => true
  | loop, block => true
  | _, _ => false

/-- Whatever goes one level down has taken a token before. -/
theorem rank_le_of_opens {name name' : RuleName} (h : name.opens name' = true) :
    name.rank ≤ name'.rank := by
  unfold opens at h
  split at h
  case h_6 => cases h
  all_goals exact of_decide_eq_true rfl

end RuleName

namespace Source

variable (src : Source)

/-! ## The rules with levels -/

/-- The rules where brackets and blocks nest no deeper than `levels`. -/
def within (levels : Nat) : Rules
  | .call => src.call (src.expression (levels - 1))
  | .arguments name => src.items (src.expression levels) (.argument name) (.argumentEnd name)
  | .value => src.value (src.expression (levels - 1))
  | .product => src.chain ["*", "/"] (src.value (src.expression (levels - 1)))
  | .factors left => src.chainTail ["*", "/"] (src.value (src.expression (levels - 1))) left
  | .expression => src.expression levels
  | .terms left =>
    src.chainTail ["+", "-"] (src.chain ["*", "/"] (src.value (src.expression (levels - 1)))) left
  | .assignment => src.assignment (src.expression levels)
  | .returning => src.returning (src.expression levels)
  | .function => src.function (src.block (levels - 1))
  | .parameters name => src.items src.identifier (.parameter name) (.parameterEnd name)
  | .branch => src.branch (src.expression levels) (src.block (levels - 1))
  | .arms word => src.arms (src.expression levels) (src.block (levels - 1)) word
  | .loop => src.loop (src.expression levels) (src.block (levels - 1))
  | .statement => src.statement (src.expression levels) (src.block (levels - 1))
  | .block => src.block levels

/-- Every rule leaves an end of its tokens, however many levels it has. -/
theorem steady_within (levels : Nat) : ∀ name, src.Steady (src.within levels name) := by
  have expression (k : Nat) : src.Steady (src.expression k) := Pairing.expression rfl
  have block (k : Nat) : src.Steady (src.block k) := Pairing.block rfl
  have value : src.Steady (src.value (src.expression (levels - 1))) := Pairing.value (expression _)
  intro name
  cases name with
  | call => exact Pairing.call (expression _)
  | value => exact value
  | product => exact Pairing.chain _ value
  | expression => exact expression _
  | assignment => exact Pairing.assignment (expression _)
  | returning => exact Pairing.returning (expression _)
  | function => exact Pairing.function (block _)
  | branch => exact Pairing.branch (expression _) (block _)
  | loop => exact Pairing.loop (expression _) (block _)
  | statement => exact Pairing.statement (expression _) (block _)
  | block => exact block _
  | arguments name => exact fun _ _ _ _ => Pairing.items _ _ (expression _)
  | parameters name => exact fun _ _ _ _ => Pairing.items _ _ Pairing.identifier
  | factors left => exact fun _ _ _ _ => Pairing.chainTail _ _ value
  | terms left => exact fun _ _ _ _ => Pairing.chainTail _ _ (Pairing.chain _ value)
  | arms word => exact fun _ _ _ _ => Pairing.arms (expression _) (block _) _

/-- The rules that `name` calls for, where `levels` are left behind a bracket or a brace. -/
def called (levels : Nat) (name : RuleName) : Rules := fun name' =>
  src.within (if name.opens name' then levels else levels + 1) name'

theorem steady_called (levels : Nat) (name name' : RuleName) : src.Steady (src.called levels name name') :=
  src.steady_within _ name'

theorem within_succ (levels : Nat) (name : RuleName) :
    src.within (levels + 1) name = src.step (src.called levels name) name := by
  cases name with
  | arguments name => exact src.items_eq_round _ _ _
  | parameters name => exact src.items_eq_round _ _ _
  | factors left => exact src.chainTail_eq_round _ _ _
  | terms left => exact src.chainTail_eq_round _ _ _
  | arms word => exact src.arms_eq_round _ _ _
  | block => exact statements_eq_round _
  | _ => rfl

variable {src}

/-- Behind a bracket or a brace there is a level less, and a token less. -/
theorem length_lt_of_calledBefore {name name' : RuleName} {us ts : List Token} {levels : Nat}
    (before : CalledBefore name' us name ts) (lt : ts.length < levels + 1) :
    us.length < if name.opens name' then levels else levels + 1 := by
  rcases before with ⟨-, shorter⟩ | ⟨rfl, lower⟩
  · split <;> omega
  · have flat : name.opens name' ≠ true := fun opens =>
      Nat.not_le.2 lower (RuleName.rank_le_of_opens opens)
    rwa [if_neg flat]

/-- With more levels than tokens it does not matter how many there are. -/
theorem within_eq_within {levels levels' : Nat} {name : RuleName} {ts : List Token}
    (lt : ts.length < levels) (lt' : ts.length < levels') (memo : Memo) :
    src.within levels name ts memo = src.within levels' name ts memo := by
  obtain ⟨levels, rfl⟩ := Nat.exists_eq_add_one_of_ne_zero (Nat.ne_of_gt (Nat.zero_lt_of_lt lt))
  obtain ⟨levels', rfl⟩ := Nat.exists_eq_add_one_of_ne_zero (Nat.ne_of_gt (Nat.zero_lt_of_lt lt'))
  rw [within_succ, within_succ]
  refine step_congr (src.steady_called levels' name) (fun name' us memo' before => ?_) memo
  exact within_eq_within (length_lt_of_calledBefore before lt)
    (length_lt_of_calledBefore before lt') memo'
termination_by (ts.length, name.rank)
decreasing_by exact before.lex

/-! ## The rules without levels -/

variable (src)

/-- The rules with as many levels as the tokens can use. -/
def unbounded : Rules := fun name ts memo => src.within (ts.length + 1) name ts memo

theorem within_eq_unbounded {levels : Nat} {name : RuleName} {ts : List Token} (lt : ts.length < levels)
    (memo : Memo) : src.within levels name ts memo = src.unbounded name ts memo :=
  within_eq_within lt (Nat.lt_succ_self _) memo

theorem steady_unbounded (name : RuleName) : src.Steady (src.unbounded name) := by
  rintro ts memo _ _ ⟨rfl, rfl⟩
  exact src.steady_within _ name ⟨rfl, rfl⟩

/-- The rules without levels are as the grammar has them. -/
theorem step_unbounded : src.step src.unbounded = src.unbounded := by
  funext name ts memo
  have levels : src.unbounded name ts memo = src.step (src.called ts.length name) name ts memo :=
    congrFun (congrFun (src.within_succ ts.length name) ts) memo
  rw [levels]
  refine step_congr (src.steady_called ts.length name) (fun name' us memo' before => ?_) memo
  exact (src.within_eq_unbounded (length_lt_of_calledBefore before (Nat.lt_succ_self _)) memo').symm

/-- What the rules called before do settles what a rule does. -/
theorem step_eq_unbounded {rules : Rules} {name : RuleName} {ts : List Token}
    (agree : ∀ name' us memo, CalledBefore name' us name ts →
      rules name' us memo = src.unbounded name' us memo)
    (memo : Memo) : src.step rules name ts memo = src.unbounded name ts memo := by
  rw [step_congr src.steady_unbounded agree memo, step_unbounded]

theorem apply_eq_unbounded_of_step {rules : Rules} (eq : src.step rules = rules) (name : RuleName)
    (ts : List Token) (memo : Memo) : rules name ts memo = src.unbounded name ts memo := by
  rw [← eq]
  exact src.step_eq_unbounded (fun name' us memo' before =>
    apply_eq_unbounded_of_step eq name' us memo') memo
termination_by (ts.length, name.rank)
decreasing_by exact before.lex

/-- Nothing else is as the grammar has it. -/
theorem eq_unbounded_of_step {rules : Rules} (eq : src.step rules = rules) : rules = src.unbounded := by
  funext name ts memo
  exact src.apply_eq_unbounded_of_step eq name ts memo

theorem program_eq_programOf {levels : Nat} {ts : List Token} (lt : ts.length < levels) (memo : Memo) :
    src.program levels ts memo = src.programOf (src.unbounded .block) ts memo := by
  have block : src.block levels ts memo = src.unbounded .block ts memo :=
    @within_eq_unbounded src levels .block ts lt memo
  rw [program, programOf, programOf, block]

end Source

end Abacus
