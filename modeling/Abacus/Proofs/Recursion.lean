import Mathlib
import Abacus.Proofs.RaisedLimits

/-!
# The recursion of the grammar

The rules of the grammar call each other, and five of them go round in a loop. Here a loop is a rule that
calls itself for the next round, so that `Source.step` gives every rule by what it calls for and nothing
in it repeats. A rule that is called either stands further on, or stands at the same place and is of a
lower rank: a block calls for a statement, a statement for an expression, an expression for a product, a
product for a value, and a value calls for an expression again only after a bracket. So what a rule makes
of its tokens depends on nothing but what the rules called before it make of theirs
(`Source.step_congr`).
-/

namespace Abacus

variable {α β : Type} {g h : Bool}

/-! ## Rules that do the same -/

/-- The tokens `us` are left of `ts` when some have been taken. -/
def Remains (us ts : List Token) : Prop := us <:+ ts ∧ us.length < ts.length

theorem Remains.trans {us vs ts : List Token} (h : Remains vs us) (h' : Remains us ts) : Remains vs ts :=
  ⟨h.1.trans h'.1, Nat.lt_trans h.2 h'.2⟩

theorem remains_cons (t : Token) (ts : List Token) : Remains ts (t :: ts) :=
  ⟨List.suffix_cons t ts, Nat.lt_succ_self _⟩

/-- A rule that matches leaves an end of its tokens. -/
abbrev Source.Steady (src : Source) (p : Rule g α) : Prop := (Pairing.deeper src 0).Coupled p p

theorem Source.Steady.suffix {src : Source} {p : Rule g α} (steady : src.Steady p) {ts us : List Token}
    {memo memo' : Memo} {a : α} {shorter : us.length < ts.length + g.toNat}
    (h : p ts memo = (.matched a us shorter, memo')) : us <:+ ts := by
  have both := @steady ts memo ts memo ⟨rfl, rfl⟩
  rw [h] at both
  cases both with
  | matched suffix => exact suffix

theorem Source.Steady.remains {src : Source} {p : Rule false α} (steady : src.Steady p) {ts us : List Token}
    {memo memo' : Memo} {a : α} {shorter : us.length < ts.length}
    (h : p ts memo = (.matched a us shorter, memo')) : Remains us ts :=
  ⟨steady.suffix h, shorter⟩

namespace Rule

/-- Two rules do the same further on. -/
def AgreeLater (ts : List Token) (p p' : Rule g α) : Prop :=
  ∀ us memo, Remains us ts → p us memo = p' us memo

theorem AgreeLater.remains {us ts : List Token} {p p' : Rule g α} (agree : AgreeLater ts p p')
    (h : Remains us ts) : AgreeLater us p p' :=
  fun vs memo h' => agree vs memo (h'.trans h)

variable {src : Source} {ts : List Token} {memo : Memo}

theorem map_congr {p p' : Rule g α} (f : α → β) (same : p ts memo = p' ts memo) :
    p.map f ts memo = p'.map f ts memo := by
  unfold map
  rw [same]

/-- The second rule stands where the first one has left off. -/
theorem bind_congr {p p' : Rule false α} {f f' : α → Rule h β} (steady : src.Steady p')
    (same : p ts memo = p' ts memo)
    (next : ∀ a us memo', Remains us ts → f a us memo' = f' a us memo') :
    p.bind f ts memo = p'.bind f' ts memo := by
  unfold bind
  rw [same]
  cases taken : p' ts memo with
  | mk attempt memo' =>
    cases attempt with
    | missed => rfl
    | failed fault => rfl
    | matched a us shorter => simp only [next a us memo' (steady.remains taken)]

theorem bind_congr_left {p p' : Rule g α} (f : α → Rule h β) (same : p ts memo = p' ts memo) :
    p.bind f ts memo = p'.bind f ts memo := by
  unfold bind
  rw [same]

theorem orElse_congr {p p' q q' : Rule g α} (same : p ts memo = p' ts memo)
    (other : ∀ memo', q ts memo' = q' ts memo') : p.orElse q ts memo = p'.orElse q' ts memo := by
  unfold orElse
  rw [same]
  cases p' ts memo with
  | mk attempt memo' =>
    cases attempt with
    | missed => exact other memo'
    | failed fault => rfl
    | matched a us shorter => rfl

end Rule

/-! ## Rounds -/

namespace Rule

variable {first : Token} {ts us vs : List Token}

theorem length_lt_of_two (lt' : vs.length < us.length + false.toNat)
    (lt : us.length < ts.length + false.toNat) : vs.length < ts.length + false.toNat :=
  Nat.lt_trans lt' lt

theorem length_le_of_shorter (lt : us.length < ts.length + false.toNat) :
    us.length + false.toNat ≤ ts.length + false.toNat :=
  Nat.le_of_lt lt

theorem length_le_of_rest (lt : vs.length < us.length + false.toNat) :
    vs.length + true.toNat ≤ us.length + true.toNat :=
  Nat.succ_le_succ (Nat.le_of_lt lt)

theorem length_le_of_operand (lt : vs.length < us.length + false.toNat) :
    vs.length + true.toNat ≤ (first :: us).length + true.toNat :=
  Nat.succ_le_succ (Nat.le_succ_of_le (Nat.le_of_lt lt))

theorem length_lt_self : ts.length < ts.length + true.toNat := Nat.lt_succ_self _

theorem length_cons_lt_self : (first :: us).length < (first :: us).length + true.toNat := Nat.lt_succ_self _

end Rule

namespace Source

open Rule

variable (src : Source)

/-- An item, and `more` of them after a comma. -/
def itemsRound (item : Rule false α) (noItem noEnd : Cause) (more : Rule false (List α)) :
    Rule false (List α) := fun ts memo =>
  match src.orFail item noItem ts memo with
  | (.matched first rest shorter, memo) =>
    match src.operator "," rest memo with
    | (.matched _ rest' shorter', memo) =>
      have less := length_lt_of_two shorter' shorter
      let (attempt, memo) := more rest' memo
      ((attempt.map (first :: ·)).widen (length_le_of_shorter less), memo)
    | (_, memo) =>
      match src.orFail (src.operator ")") noEnd rest memo with
      | (.matched _ rest' shorter', memo) =>
        (.matched [first] rest' (length_lt_of_two shorter' shorter), memo)
      | (.missed, memo) => (.missed, memo)
      | (.failed fault, memo) => (.failed fault, memo)
  | (.missed, memo) => (.missed, memo)
  | (.failed fault, memo) => (.failed fault, memo)

theorem items_eq_round (item : Rule false α) (noItem noEnd : Cause) :
    src.items item noItem noEnd = src.itemsRound item noItem noEnd (src.items item noItem noEnd) := by
  funext ts memo
  rw [items]
  rfl

/-- An operator and its right operand, and `more` of them after the call that the two make. -/
def chainRound (symbols : List String) (operand : Rule false Node) (more : Node → Rule true Node)
    (left : Node) : Rule true Node := fun ts memo =>
  let (token, memo) := src.look ts memo
  match ts, token.lexeme with
  | first :: rest, .operator symbol =>
    if symbol ∈ symbols then
      match src.orFail operand (.operand symbol) rest memo with
      | (.matched right rest' shorter, memo) =>
        let (attempt, memo) := more (.call (.str symbol) [left, right]) rest' memo
        (attempt.widen (length_le_of_operand shorter), memo)
      | (.missed, memo) => (.missed, memo)
      | (.failed fault, memo) => (.failed fault, memo)
    else
      (.matched left (first :: rest) length_cons_lt_self, memo)
  | ts, _ => (.matched left ts length_lt_self, memo)

theorem chainTail_eq_round (symbols : List String) (operand : Rule false Node) (left : Node) :
    src.chainTail symbols operand left
      = src.chainRound symbols operand (src.chainTail symbols operand) left := by
  funext ts memo
  rw [chainTail]
  rfl

/-- A condition and its block after `word`, and `more` of them after `elif`. -/
def armsRound (expression : Rule false Node) (block : Rule true (List Node)) (word : String)
    (more : Rule false (List (Node × Node))) : Rule false (List (Node × Node)) := fun ts memo =>
  match src.arm expression block word ts memo with
  | (.matched first rest shorter, memo) =>
    match src.keyword "elif" rest memo with
    | (.matched _ rest' shorter', memo) =>
      have less := length_lt_of_two shorter' shorter
      let (attempt, memo) := more rest' memo
      ((attempt.map (first :: ·)).widen (length_le_of_shorter less), memo)
    | (_, memo) =>
      match src.keyword "else" rest memo with
      | (.matched _ rest' shorter', memo) =>
        have less := length_lt_of_two shorter' shorter
        let (attempt, memo) := src.braced block "'else'" rest' memo
        ((attempt.map fun body => [first, (.bool true, body)]).widen (length_le_of_shorter less), memo)
      | (_, memo) => (.matched [first] rest shorter, memo)
  | (.missed, memo) => (.missed, memo)
  | (.failed fault, memo) => (.failed fault, memo)

theorem arms_eq_round (expression : Rule false Node) (block : Rule true (List Node)) (word : String) :
    src.arms expression block word
      = src.armsRound expression block word (src.arms expression block "elif") := by
  funext ts memo
  rw [arms]
  rfl

/-- A statement, and `more` of them after it. -/
def statementsRound (statement : Rule false Node) (more : Rule true (List Node)) :
    Rule true (List Node) := fun ts memo =>
  match statement ts memo with
  | (.matched first rest shorter, memo) =>
    let (attempt, memo) := more rest memo
    let keep (tail : List Node) : List Node :=
      match first with
      | .empty => tail
      | _ => first :: tail
    ((attempt.map keep).widen (length_le_of_rest shorter), memo)
  | (.missed, memo) => (.matched [] ts length_lt_self, memo)
  | (.failed fault, memo) => (.failed fault, memo)

theorem statements_eq_round (statement : Rule false Node) :
    statements statement = statementsRound statement (statements statement) := by
  funext ts memo
  rw [statements]
  rfl

/-! ## What a round depends on -/

variable {src} {ts : List Token} {memo : Memo}

theorem orFail_congr {p p' : Rule g α} (cause : Cause) (same : p ts memo = p' ts memo) :
    src.orFail p cause ts memo = src.orFail p' cause ts memo := by
  unfold orFail
  rw [same]

/-- A round calls for an item where it stands, and for more items only after a comma. -/
theorem itemsRound_congr {item item' : Rule false α} {more more' : Rule false (List α)}
    (noItem noEnd : Cause) (steady : src.Steady item') (same : item ts memo = item' ts memo)
    (further : AgreeLater ts more more') :
    src.itemsRound item noItem noEnd more ts memo = src.itemsRound item' noItem noEnd more' ts memo := by
  unfold itemsRound
  rw [orFail_congr noItem same]
  cases first : src.orFail item' noItem ts memo with
  | mk attempt memo₁ =>
    cases attempt with
    | missed => rfl
    | failed fault => rfl
    | matched value us shorter =>
      have here : Remains us ts := Steady.remains (Pairing.Coupled.orFail noItem steady) first
      dsimp only
      cases comma : src.operator "," us memo₁ with
      | mk attempt memo₂ =>
        cases attempt with
        | missed => rfl
        | failed fault => rfl
        | matched _ vs shorter' =>
          have there : Remains vs us := Steady.remains (Pairing.operator ",") comma
          simp only [further vs memo₂ (there.trans here)]

/-- A round calls for its operand, and for more of the chain, only after an operator. -/
theorem chainRound_congr {operand operand' : Rule false Node} {more more' : Node → Rule true Node}
    (symbols : List String) (left : Node) (steady : src.Steady operand')
    (operands : AgreeLater ts operand operand')
    (further : ∀ left, AgreeLater ts (more left) (more' left)) :
    src.chainRound symbols operand more left ts memo
      = src.chainRound symbols operand' more' left ts memo := by
  unfold chainRound
  cases src.look ts memo with
  | mk token memo₁ =>
    cases ts with
    | nil => rfl
    | cons t us =>
      dsimp only
      cases token.lexeme with
      | operator symbol =>
        dsimp only
        rw [orFail_congr (.operand symbol) (operands us memo₁ (remains_cons t us))]
        cases taken : src.orFail operand' (.operand symbol) us memo₁ with
        | mk attempt memo₂ =>
          cases attempt with
          | missed => rfl
          | failed fault => rfl
          | matched right vs shorter =>
            have there : Remains vs us := Steady.remains (Pairing.Coupled.orFail _ steady) taken
            simp only [further _ vs memo₂ (there.trans (remains_cons t us))]
      | _ => rfl

theorem braced_congr {block block' : Rule true (List Node)} (context : String)
    (blocks : AgreeLater ts block block') :
    src.braced block context ts memo = src.braced block' context ts memo :=
  Rule.bind_congr (Pairing.expect _ _) rfl fun _ us memo' later =>
    Rule.bind_congr_left _ (blocks us memo' later)

theorem arm_congr {expression expression' : Rule false Node} {block block' : Rule true (List Node)}
    (word : String) (steady : src.Steady expression') (same : expression ts memo = expression' ts memo)
    (blocks : AgreeLater ts block block') :
    src.arm expression block word ts memo = src.arm expression' block' word ts memo :=
  Rule.bind_congr (Pairing.Coupled.orFail _ steady) (orFail_congr _ same) fun _ _ _ later =>
    Rule.map_congr _ (braced_congr _ (blocks.remains later))

/-- A round calls for a condition where it stands; a block and more arms come later. -/
theorem armsRound_congr {expression expression' : Rule false Node} {block block' : Rule true (List Node)}
    {more more' : Rule false (List (Node × Node))} (word : String) (steady : src.Steady expression')
    (steady' : src.Steady block') (same : expression ts memo = expression' ts memo)
    (blocks : AgreeLater ts block block') (further : AgreeLater ts more more') :
    src.armsRound expression block word more ts memo
      = src.armsRound expression' block' word more' ts memo := by
  unfold armsRound
  rw [arm_congr word steady same blocks]
  cases first : src.arm expression' block' word ts memo with
  | mk attempt memo₁ =>
    cases attempt with
    | missed => rfl
    | failed fault => rfl
    | matched value us shorter =>
      have here : Remains us ts := Steady.remains (Pairing.arm steady steady' word) first
      -- without an `elif` there may be an `else`
      have otherwise (memo₂ : Memo) (vs : List Token) (memo₃ : Memo) {lt : vs.length < us.length}
          (h : src.keyword "else" us memo₂ = (.matched () vs lt, memo₃)) :
          src.braced block "'else'" vs memo₃ = src.braced block' "'else'" vs memo₃ :=
        have there : Remains vs us := Steady.remains (Pairing.keyword "else") h
        braced_congr _ (blocks.remains (there.trans here))
      dsimp only
      cases elif : src.keyword "elif" us memo₁ with
      | mk attempt memo₂ =>
        cases attempt with
        | matched _ vs shorter' =>
          have there : Remains vs us := Steady.remains (Pairing.keyword "elif") elif
          simp only [further vs memo₂ (there.trans here)]
        | _ =>
          dsimp only
          cases last : src.keyword "else" us memo₂ with
          | mk attempt memo₃ =>
            cases attempt with
            | matched _ vs shorter' => simp only [otherwise memo₂ vs memo₃ last]
            | _ => rfl

theorem statementsRound_congr {statement statement' : Rule false Node} {more more' : Rule true (List Node)}
    (steady : src.Steady statement') (same : statement ts memo = statement' ts memo)
    (further : AgreeLater ts more more') :
    statementsRound statement more ts memo = statementsRound statement' more' ts memo := by
  unfold statementsRound
  rw [same]
  cases first : statement' ts memo with
  | mk attempt memo₁ =>
    cases attempt with
    | missed => rfl
    | failed fault => rfl
    | matched value us shorter => simp only [further us memo₁ (steady.remains first)]

end Source

/-! ## The rules together -/

/-- The rules of the grammar that call for rules, and the loops. -/
inductive RuleName where
  | call
  | value
  | product
  | expression
  | assignment
  | returning
  | function
  | branch
  | loop
  | statement
  | block
  /-- The arguments of a call from one of them on. -/
  | arguments (function : String)
  /-- The parameters of a function from one of them on. -/
  | parameters (function : String)
  /-- The operators of a product from one of them on. -/
  | factors (left : Node)
  /-- The operators of a sum from one of them on. -/
  | terms (left : Node)
  /-- The arms of a branch from one of them on. -/
  | arms (word : String)

namespace RuleName

/-- At the place where it stands, a rule calls only for rules of a lower rank. -/
def rank : RuleName → Nat
  | parameters _ | factors _ | terms _ => 0
  | call => 0
  | value => 1
  | product => 2
  | expression => 3
  | arguments _ | arms _ => 4
  | assignment | returning | function | branch | loop => 5
  | statement => 6
  | block => 7

/-- Whether a rule may match without taking a token. -/
abbrev grade : RuleName → Bool
  | block | factors _ | terms _ => true
  | _ => false

/-- What a rule gives. -/
abbrev Result : RuleName → Type
  | block | arguments _ => List Node
  | parameters _ => List String
  | arms _ => List (Node × Node)
  | _ => Node

end RuleName

/-- A rule for each name. -/
abbrev Rules := (name : RuleName) → Rule name.grade name.Result

/-- One rule stands further on than another, or at the same place and is of a lower rank. -/
def CalledBefore (name : RuleName) (us : List Token) (name' : RuleName) (ts : List Token) : Prop :=
  Remains us ts ∨ us = ts ∧ name.rank < name'.rank

/-- Calls end. -/
theorem CalledBefore.lex {name name' : RuleName} {us ts : List Token}
    (before : CalledBefore name us name' ts) :
    Prod.Lex (· < ·) (· < ·) (us.length, name.rank) (ts.length, name'.rank) := by
  rcases before with later | ⟨rfl, lower⟩
  · exact .left _ _ later.2
  · exact .right _ lower

namespace Source

open Rule

variable (src : Source)

/-- The rules as the grammar has them, where each of them calls for those in `rules`. -/
def step (rules : Rules) : Rules
  | .call =>
    src.identifier.bind fun name =>
      (src.operator "(").bind fun _ =>
        Rule.map (fun arguments => .call (.str name) arguments)
          (((src.operator ")").map fun _ => []).orElse (rules (.arguments name)))
  | .arguments name =>
    src.itemsRound (rules .expression) (.argument name) (.argumentEnd name) (rules (.arguments name))
  | .value => Rule.orElse (rules .call) ((src.parenthesised (rules .expression)).orElse src.literal)
  | .product => Rule.bind (rules .value) fun left => rules (.factors left)
  | .factors left => src.chainRound ["*", "/"] (rules .value) (fun left => rules (.factors left)) left
  | .expression => Rule.bind (rules .product) fun left => rules (.terms left)
  | .terms left => src.chainRound ["+", "-"] (rules .product) (fun left => rules (.terms left)) left
  | .assignment => src.assignment (rules .expression)
  | .returning => src.returning (rules .expression)
  | .function =>
    (src.keyword "fn").bind fun _ =>
      (src.orFail src.identifier .functionName).bind fun name =>
        (src.expect "(" ("after fn " ++ name)).bind fun _ =>
          Rule.bind (((src.operator ")").map fun _ => []).orElse (rules (.parameters name))) fun params =>
            (src.braced (rules .block) ("fn " ++ name ++ "(...)")).map fun body =>
              .function (.str name) (params.map fun (param : String) => .str param) body
  | .parameters name =>
    src.itemsRound src.identifier (.parameter name) (.parameterEnd name) (rules (.parameters name))
  | .branch => (src.keyword "if").bind fun _ => Rule.map .branch (rules (.arms "if"))
  | .arms word => src.armsRound (rules .expression) (rules .block) word (rules (.arms "elif"))
  | .loop => src.loop (rules .expression) (rules .block)
  | .statement =>
    (src.terminated (rules .assignment)).orElse <|
    (src.terminated (rules .returning)).orElse <|
    (src.terminated (Rule.map .expression (rules .expression))).orElse <|
    Rule.orElse (rules .function) <|
    Rule.orElse (rules .branch) <|
    Rule.orElse (rules .loop) <|
    (src.eat .semicolon).map fun _ => .empty
  | .block => statementsRound (rules .statement) (rules .block)

variable {src} {rules rules' : Rules} {name : RuleName} {ts : List Token}

/-- What a rule makes of its tokens depends on nothing but what the rules called before it make of
theirs. -/
theorem step_congr (steady : ∀ name, src.Steady (rules' name))
    (agree : ∀ name' us memo, CalledBefore name' us name ts → rules name' us memo = rules' name' us memo)
    (memo : Memo) : src.step rules name ts memo = src.step rules' name ts memo := by
  have further (name' : RuleName) : AgreeLater ts (rules name') (rules' name') :=
    fun us memo' later => agree name' us memo' (.inl later)
  have lower (name' : RuleName) (lt : name'.rank < name.rank) (memo' : Memo) :
      rules name' ts memo' = rules' name' ts memo' := agree name' ts memo' (.inr ⟨rfl, lt⟩)
  cases name with
  | call =>
    refine Rule.bind_congr Pairing.identifier rfl fun name us memo₁ h₁ => ?_
    refine Rule.bind_congr (Pairing.operator "(") rfl fun _ vs memo₂ h₂ => ?_
    refine Rule.map_congr _ (Rule.orElse_congr rfl fun memo₃ => ?_)
    exact further (.arguments name) vs memo₃ (h₂.trans h₁)
  | arguments name =>
    exact itemsRound_congr _ _ (steady .expression) (lower .expression (Nat.lt_succ_self 3) memo)
      (further (.arguments name))
  | value =>
    refine Rule.orElse_congr (lower .call (by decide) memo) fun memo₁ => Rule.orElse_congr ?_ fun _ => rfl
    exact Rule.bind_congr (Pairing.operator "(") rfl fun _ us memo₂ later =>
      Rule.bind_congr_left _ (further .expression us memo₂ later)
  | product =>
    exact Rule.bind_congr (steady .value) (lower .value (by decide) memo) fun left =>
      further (.factors left)
  | factors left =>
    exact chainRound_congr _ _ (steady .value) (further .value) fun left => further (.factors left)
  | expression =>
    exact Rule.bind_congr (steady .product) (lower .product (by decide) memo) fun left =>
      further (.terms left)
  | terms left =>
    exact chainRound_congr _ _ (steady .product) (further .product) fun left => further (.terms left)
  | assignment =>
    refine Rule.bind_congr Pairing.identifier rfl fun name us memo₁ h₁ => ?_
    refine Rule.bind_congr (Pairing.operator "=") rfl fun _ vs memo₂ h₂ => ?_
    exact Rule.map_congr _ (further .expression vs memo₂ (h₂.trans h₁))
  | returning =>
    exact Rule.bind_congr (Pairing.keyword "return") rfl fun _ us memo₁ later =>
      Rule.map_congr _ (further .expression us memo₁ later)
  | function =>
    refine Rule.bind_congr (Pairing.keyword "fn") rfl fun _ us₁ _ h₁ => ?_
    refine Rule.bind_congr (Pairing.Coupled.orFail _ Pairing.identifier) rfl fun name us₂ _ h₂ => ?_
    refine Rule.bind_congr (Pairing.expect _ _) rfl fun _ us₃ _ h₃ => ?_
    have here : Remains us₃ ts := h₃.trans (h₂.trans h₁)
    have params : src.Steady
        (Rule.orElse ((src.operator ")").map fun _ => []) (rules' (.parameters name))) :=
      Pairing.Coupled.orElse (Pairing.Coupled.map _ (Pairing.operator ")")) (steady (.parameters name))
    refine Rule.bind_congr params (Rule.orElse_congr rfl fun memo₄ => ?_) fun _ us₄ memo₄ h₄ => ?_
    · exact further (.parameters name) us₃ memo₄ here
    · refine Rule.map_congr _ ?_
      exact braced_congr _ ((further .block).remains (h₄.trans here))
  | parameters name =>
    exact itemsRound_congr _ _ Pairing.identifier rfl (further (.parameters name))
  | branch =>
    exact Rule.bind_congr (Pairing.keyword "if") rfl fun _ us memo₁ later =>
      Rule.map_congr _ (further (.arms "if") us memo₁ later)
  | arms word =>
    exact armsRound_congr _ (steady .expression) (steady .block)
      (lower .expression (Nat.lt_succ_self 3) memo) (further .block) (further (.arms "elif"))
  | loop =>
    refine Rule.bind_congr (Pairing.keyword "while") rfl fun _ us memo₁ later => Rule.map_congr _ ?_
    exact arm_congr _ (steady .expression) (further .expression us memo₁ later)
      ((further .block).remains later)
  | statement =>
    refine Rule.orElse_congr (Rule.bind_congr_left _ (lower .assignment (by decide) memo)) fun memo₁ => ?_
    refine Rule.orElse_congr (Rule.bind_congr_left _ (lower .returning (by decide) memo₁)) fun memo₂ => ?_
    refine Rule.orElse_congr (Rule.bind_congr_left _ ?_) fun memo₃ => ?_
    · exact Rule.map_congr _ (lower .expression (by decide) memo₂)
    refine Rule.orElse_congr (lower .function (by decide) memo₃) fun memo₄ => ?_
    refine Rule.orElse_congr (lower .branch (by decide) memo₄) fun memo₅ => ?_
    exact Rule.orElse_congr (lower .loop (by decide) memo₅) fun _ => rfl
  | block =>
    exact statementsRound_congr (steady .statement) (lower .statement (by decide) memo) (further .block)

end Source

end Abacus
