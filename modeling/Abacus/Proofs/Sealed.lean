import Abacus.Proofs.ParseComplete

/-!
# Statements that are sealed

A statement ends in a semicolon or in a closing brace. An expression holds neither. So a rule that is
tried on tokens of which the last seals a statement never runs out of tokens in the middle of
something; it sees the end only after a whole statement. What follows the tokens then makes no difference
to it, but for one case: an `elif` or an `else` would prolong a branch.

`Carries` says so of a rule, and is proved for one rule after another. The result is
`Source.block_append`: the statements of two lists of tokens, one after the other, are those of the
first and then those of the second, and no more levels are needed than for each of them.
-/

namespace Abacus

/-- Whether a statement can end in this word. -/
def Lexeme.seals (l : Lexeme) : Prop := l = .semicolon ∨ l = .operator "\x7d"

/-- There is a last token, and a statement can end in it. -/
def Sealed (ts : List Token) : Prop := ∃ t, ts.getLast? = some t ∧ t.lexeme.seals

theorem Sealed.ne_nil {ts : List Token} (h : Sealed ts) : ts ≠ [] := by
  rintro rfl
  obtain ⟨t, last, -⟩ := h
  cases last

/-- A token that is taken seals a statement, or more tokens follow. -/
theorem Sealed.tail {t : Token} {ts : List Token} (h : Sealed (t :: ts)) :
    ts = [] ∧ t.lexeme.seals ∨ Sealed ts := by
  obtain ⟨u, last, seals⟩ := h
  cases ts with
  | nil =>
    cases last
    exact .inl ⟨rfl, seals⟩
  | cons v vs =>
    rw [List.getLast?_cons_cons] at last
    exact .inr ⟨u, last, seals⟩

/-- There is nothing left, or what is left is sealed. -/
def SealedOrNil (ts : List Token) : Prop := ts = [] ∨ Sealed ts

/-- What follows cannot be one more arm of a branch. -/
def NoArm (more : List Token) : Prop :=
  ∀ t ∈ more.head?, t.lexeme ≠ .keyword "elif" ∧ t.lexeme ≠ .keyword "else"

/-- What has come of a rule, tried on some tokens and on the same tokens with more behind them. If the
first attempt fails, nothing is said of the second. -/
inductive Kept {α : Type} (more : List Token) (Left : List Token → Prop) {n n' : Nat} :
    Attempt α n × Memo → Attempt α n' × Memo → Prop
  | matched {value us m m'} {lt : us.length < n} {lt' : (us ++ more).length < n'} (left : Left us) :
      Kept more Left (.matched value us lt, m) (.matched value (us ++ more) lt', m')
  | missed {m m'} : Kept more Left (.missed, m) (.missed, m')
  | failed {f m outcome'} : Kept more Left (.failed f, m) outcome'

/-- Tried on sealed tokens, the rule does the same whatever comes after them. What it leaves of them is
as `Left` says. -/
def Carries {α : Type} {g : Bool} (more : List Token) (Left : List Token → Prop) (p : Rule g α) : Prop :=
  ∀ ⦃ts⦄, Sealed ts → ∀ m m', Kept more Left (p ts m) (p (ts ++ more) m')

/-- What has come of a block. If no tokens are left its brace is missing, and nothing is said of the
second attempt. -/
inductive KeptInside (more : List Token) {n n' : Nat} :
    Attempt (List Node) n × Memo → Attempt (List Node) n' × Memo → Prop
  | inside {value us m m'} {lt : us.length < n} {lt' : (us ++ more).length < n'} (left : Sealed us) :
      KeptInside more (.matched value us lt, m) (.matched value (us ++ more) lt', m')
  | spent {value m outcome'} {lt : [].length < n} : KeptInside more (.matched value [] lt, m) outcome'
  | failed {f m outcome'} : KeptInside more (.failed f, m) outcome'

/-- The same of a block, which is followed by a brace. -/
def CarriesInside (more : List Token) (block : Rule true (List Node)) : Prop :=
  ∀ ⦃ts⦄, Sealed ts → ∀ m m', KeptInside more (block ts m) (block (ts ++ more) m')

variable {α β : Type} {g h : Bool} {more : List Token} {Left : List Token → Prop}

/-! ## Rules in general -/

namespace Kept

variable {k k' n n' : Nat}

theorem map {x : Attempt α n × Memo} {x' : Attempt α n' × Memo} (f : α → β)
    (hx : Kept more Left x x') : Kept more Left (x.1.map f, x.2) (x'.1.map f, x'.2) := by
  cases hx with
  | matched left => exact .matched left
  | missed => exact .missed
  | failed => exact .failed

theorem widen {x : Attempt α k × Memo} {x' : Attempt α k' × Memo} (le : k ≤ n) (le' : k' ≤ n')
    (hx : Kept more Left x x') : Kept more Left (x.1.widen le, x.2) (x'.1.widen le', x'.2) := by
  cases hx with
  | matched left => exact .matched left
  | missed => exact .missed
  | failed => exact .failed

theorem left {value : α} {us : List Token} {m : Memo} {lt : us.length < n} {x' : Attempt α n' × Memo}
    (hx : Kept more Left (.matched value us lt, m) x') : Left us := by
  cases hx with
  | matched left => exact left

theorem takes {p : Rule g α} {ts us : List Token} {value : α} {m : Memo} {lt : us.length < n}
    (hp : ∀ m', Kept more Left (.matched value us lt, m) (p ts m')) : p.Takes ts value (us ++ more) := by
  intro m'
  have hx := hp m'
  generalize p ts m' = x' at hx ⊢
  cases hx with
  | matched left => exact ⟨_, _, rfl⟩

end Kept

namespace Carries

theorem map {p : Rule g α} (f : α → β) (hp : Carries more Left p) : Carries more Left (p.map f) :=
  fun _ sealed m m' => (hp sealed m m').map f

/-- The second rule is tried on what the first one left, so that must still be sealed. -/
theorem bind {p : Rule g α} {f : α → Rule h β} (hp : Carries more Sealed p)
    (hf : ∀ a, Carries more Left (f a)) : Carries more Left (p.bind f) := by
  intro ts sealed m m'
  have hx := hp sealed m m'
  unfold Rule.bind
  generalize p ts m = x at hx ⊢
  generalize p (ts ++ more) m' = x' at hx ⊢
  cases hx with
  | missed => exact .missed
  | failed => exact .failed
  | @matched value us n n' _ _ left =>
    have hy := hf value left n n'
    dsimp only
    generalize f value us n = y at hy ⊢
    generalize f value (us ++ more) n' = y' at hy ⊢
    cases hy with
    | matched left => exact .matched left
    | missed => exact .missed
    | failed => exact .failed

theorem orElse {p q : Rule g α} (hp : Carries more Left p) (hq : Carries more Left q) :
    Carries more Left (p.orElse q) := by
  intro ts sealed m m'
  have hx := hp sealed m m'
  unfold Rule.orElse
  generalize p ts m = x at hx ⊢
  generalize p (ts ++ more) m' = x' at hx ⊢
  cases hx with
  | matched left => exact .matched left
  | missed => exact hq sealed _ _
  | failed => exact .failed

theorem orFail {src : Source} {p : Rule g α} (cause : Cause) (hp : Carries more Left p) :
    Carries more Left (src.orFail p cause) := by
  intro ts sealed m m'
  have hx := hp sealed m m'
  unfold Source.orFail
  generalize p ts m = x at hx ⊢
  generalize p (ts ++ more) m' = x' at hx ⊢
  cases hx with
  | matched left => exact .matched left
  | missed => exact .failed
  | failed => exact .failed

theorem expect {src : Source} {symbol : String} (context : String)
    (hp : Carries more Left (src.operator symbol)) : Carries more Left (src.expect symbol context) := by
  intro ts sealed m m'
  have hx := hp sealed m m'
  unfold Source.expect
  generalize src.operator symbol ts m = x at hx ⊢
  generalize src.operator symbol (ts ++ more) m' = x' at hx ⊢
  cases hx with
  | matched left => exact .matched left
  | missed => exact .failed
  | failed => exact .failed

end Carries

namespace Source

variable {src : Source} (direct : src.Direct)
include direct

/-! ## Tokens -/

/-- What a rule for one token leaves of sealed tokens is a matter of the token it takes. -/
theorem take_carries (f : Lexeme → Option α)
    (left : ∀ {t : Token} {ts : List Token}, Sealed (t :: ts) → f t.lexeme ≠ none → Left ts) :
    Carries more Left (src.take f) := by
  intro ts sealed m m'
  cases ts with
  | nil => exact absurd rfl sealed.ne_nil
  | cons t ts =>
    unfold take
    rw [List.cons_append]
    simp only [look_token direct, List.headD_cons]
    cases found : f t.lexeme with
    | none => exact .missed
    | some value =>
      have found_ne : f t.lexeme ≠ none := by simp [found]
      exact .matched (left sealed found_ne)

/-- A word that seals no statement. -/
theorem take_inside (f : Lexeme → Option α) (inside : ∀ l : Lexeme, l.seals → f l = none) :
    Carries more Sealed (src.take f) := by
  refine take_carries direct f fun {t ts} sealed found => ?_
  rcases sealed.tail with ⟨-, seals⟩ | rest
  · exact absurd (inside _ seals) found
  · exact rest

theorem take_anywhere (f : Lexeme → Option α) : Carries more SealedOrNil (src.take f) := by
  refine take_carries direct f fun {t ts} sealed _ => ?_
  rcases sealed.tail with ⟨rfl, -⟩ | rest
  · exact .inl rfl
  · exact .inr rest

theorem eat_anywhere (lexeme : Lexeme) : Carries more SealedOrNil (src.eat lexeme) :=
  take_anywhere direct _

theorem eat_inside {lexeme : Lexeme} (inside : ¬ lexeme.seals) :
    Carries more Sealed (src.eat lexeme) := by
  refine take_inside direct _ fun l seals => if_neg ?_
  rintro rfl
  exact inside seals

theorem keyword_carries (word : String) : Carries more Sealed (src.keyword word) :=
  eat_inside direct (by simp [Lexeme.seals])

theorem operator_carries {symbol : String} (ne : symbol ≠ "\x7d") :
    Carries more Sealed (src.operator symbol) :=
  eat_inside direct (by simpa [Lexeme.seals] using ne)

theorem identifier_carries : Carries more Sealed src.identifier := by
  refine take_inside direct _ fun l seals => ?_
  rcases seals with rfl | rfl <;> rfl

/-! ## Expressions -/

/-- After an item there is a comma or a bracket, and neither seals a statement. -/
theorem items_carries {item : Rule false α} (hi : Carries more Sealed item) (noItem noEnd : Cause) :
    Carries more Sealed (src.items item noItem noEnd) := by
  intro ts sealed m m'
  rw [items, items]
  have comma : Carries more Sealed (src.operator ",") := operator_carries direct (by decide)
  have bracket : Carries more Sealed (src.orFail (src.operator ")") noEnd) :=
    (operator_carries direct (by decide)).orFail noEnd
  have start : Carries more Sealed (src.orFail item noItem) := hi.orFail noItem
  have hx := start sealed m m'
  generalize src.orFail item noItem ts m = x at hx ⊢
  generalize src.orFail item noItem (ts ++ more) m' = x' at hx ⊢
  cases hx with
  | missed => exact .missed
  | failed => exact .failed
  | @matched first us n n' shorter shorter' left =>
    have hy := comma left n n'
    have plain : ∀ f, (src.operator "," us n).1 ≠ .failed f := src.take_ne_failed _ us n
    dsimp only
    generalize src.operator "," us n = y at hy plain ⊢
    generalize src.operator "," (us ++ more) n' = y' at hy ⊢
    cases hy with
    | failed => exact absurd rfl (plain _)
    | @matched _ vs k k' lt lt' left' =>
      have less : vs.length < ts.length := Nat.lt_trans lt shorter
      exact ((items_carries hi noItem noEnd left' k k').map (first :: ·)).widen _ _
    | @missed k k' =>
      have hz := bracket left k k'
      dsimp only
      generalize src.orFail (src.operator ")") noEnd us k = z at hz ⊢
      generalize src.orFail (src.operator ")") noEnd (us ++ more) k' = z' at hz ⊢
      cases hz with
      | matched left => exact .matched left
      | missed => exact .missed
      | failed => exact .failed
termination_by ts => ts.length

/-- A chain stops inside of the tokens, since no operator of it seals a statement. -/
theorem chainTail_carries {operand : Rule false Node} (ho : Carries more Sealed operand)
    {symbols : List String} (inside : "\x7d" ∉ symbols) (left : Node) :
    Carries more Sealed (src.chainTail symbols operand left) := by
  intro ts sealed m m'
  cases ts with
  | nil => exact absurd rfl sealed.ne_nil
  | cons t us =>
    rw [chainTail, List.cons_append, chainTail]
    simp only [look_token direct, List.headD_cons]
    cases word : t.lexeme with
    | operator symbol =>
      dsimp only
      split
      · next mem =>
        have rest : Sealed us := by
          rcases sealed.tail with ⟨-, seals⟩ | rest
          · rw [word] at seals
            rcases seals with eq | eq
            · cases eq
            · cases eq
              exact absurd mem inside
          · exact rest
        have start : Carries more Sealed (src.orFail operand (.operand symbol)) := ho.orFail _
        have hx := start rest (src.look (t :: us) m).2 (src.look (t :: (us ++ more)) m').2
        generalize src.orFail operand (.operand symbol) us _ = x at hx ⊢
        generalize src.orFail operand (.operand symbol) (us ++ more) _ = x' at hx ⊢
        cases hx with
        | missed => exact .missed
        | failed => exact .failed
        | @matched right vs n n' lt lt' left' =>
          have less : vs.length < (t :: us).length := Nat.lt_succ_of_lt lt
          exact (chainTail_carries ho inside (.call (.str symbol) [left, right]) left' n n').widen _ _
      · exact .matched sealed
    | _ => exact .matched sealed
termination_by ts => ts.length

theorem chain_carries {operand : Rule false Node} (ho : Carries more Sealed operand)
    {symbols : List String} (inside : "\x7d" ∉ symbols) :
    Carries more Sealed (src.chain symbols operand) :=
  ho.bind fun left => chainTail_carries direct ho inside left

/-- A literal is refused where it stands, and that is the same place on both sides. -/
theorem literal_carries : Carries more Sealed src.literal := by
  intro ts sealed m m'
  have same : src.here (ts ++ more) = src.here ts := by
    cases ts with
    | nil => exact absurd rfl sealed.ne_nil
    | cons t ts => rfl
  have start : Carries more Sealed (src.take (literalOf (src.here ts))) := by
    refine take_inside direct _ fun l seals => ?_
    rcases seals with rfl | rfl <;> rfl
  have hx := start sealed m m'
  unfold literal
  rw [same]
  generalize src.take (literalOf (src.here ts)) ts m = x at hx ⊢
  generalize src.take (literalOf (src.here ts)) (ts ++ more) m' = x' at hx ⊢
  cases hx with
  | missed => exact .missed
  | failed => exact .failed
  | @matched value us n n' lt lt' left =>
    cases value with
    | ok node => exact .matched left
    | error f => exact .failed

theorem parenthesised_carries {expression : Rule false Node} (he : Carries more Sealed expression) :
    Carries more Sealed (src.parenthesised expression) :=
  (operator_carries direct (by decide)).bind fun _ => he.bind fun _ =>
    ((operator_carries direct (by decide)).expect _).map _

theorem arguments_carries {expression : Rule false Node} (he : Carries more Sealed expression)
    (function : String) : Carries more Sealed (src.arguments expression function) :=
  ((operator_carries direct (by decide)).map _).orElse (items_carries direct he _ _)

theorem call_carries {expression : Rule false Node} (he : Carries more Sealed expression) :
    Carries more Sealed (src.call expression) :=
  (identifier_carries direct).bind fun name => (operator_carries direct (by decide)).bind fun _ =>
    (arguments_carries direct he name).map _

theorem expression_carries (levels : Nat) : Carries more Sealed (src.expression levels) := by
  induction levels with
  | zero => exact fun _ _ _ _ => .failed
  | succ levels ih =>
    have value : Carries more Sealed (src.value (src.expression levels)) :=
      (call_carries direct ih).orElse ((parenthesised_carries direct ih).orElse (literal_carries direct))
    exact chain_carries direct (chain_carries direct value (by decide)) (by decide)

/-! ## Statements -/

section Statements

variable {expression : Rule false Node} {block : Rule true (List Node)}

theorem terminated_carries {p : Rule false Node} (hp : Carries more Sealed p) :
    Carries more SealedOrNil (src.terminated p) :=
  hp.bind fun _ => (eat_anywhere direct _).map _

theorem assignment_carries (he : Carries more Sealed expression) :
    Carries more Sealed (src.assignment expression) :=
  (identifier_carries direct).bind fun _ => (operator_carries direct (by decide)).bind fun _ => he.map _

theorem returning_carries (he : Carries more Sealed expression) :
    Carries more Sealed (src.returning expression) :=
  (keyword_carries direct _).bind fun _ => he.map _

/-- The closing brace may be the last of the tokens. If they end before it, the first attempt fails. -/
theorem braced_carries (hb : CarriesInside more block) (context : String) :
    Carries more SealedOrNil (src.braced block context) := by
  refine ((operator_carries direct (by decide)).expect _).bind fun _ ts sealed m m' => ?_
  have hx := hb sealed m m'
  unfold Rule.bind
  generalize block ts m = x at hx ⊢
  generalize block (ts ++ more) m' = x' at hx ⊢
  cases hx with
  | failed => exact .failed
  | spent => exact .failed
  | @inside value us n n' lt lt' left =>
    have brace : Carries more SealedOrNil (src.expect "\x7d" ("to close " ++ context)) :=
      (eat_anywhere direct _).expect _
    have hy := (brace.map fun _ => Node.block value) left n n'
    dsimp only
    generalize Rule.map _ (src.expect "\x7d" ("to close " ++ context)) us n = y at hy ⊢
    generalize Rule.map _ (src.expect "\x7d" ("to close " ++ context)) (us ++ more) n' = y' at hy ⊢
    cases hy with
    | matched left => exact .matched left
    | missed => exact .missed
    | failed => exact .failed

theorem parameters_carries (function : String) : Carries more Sealed (src.parameters function) :=
  ((operator_carries direct (by decide)).map _).orElse
    (items_carries direct (identifier_carries direct) _ _)

theorem function_carries (hb : CarriesInside more block) : Carries more SealedOrNil (src.function block) :=
  (keyword_carries direct _).bind fun _ => ((identifier_carries direct).orFail _).bind fun name =>
    ((operator_carries direct (by decide)).expect _).bind fun _ =>
      (parameters_carries direct name).bind fun _ => (braced_carries direct hb _).map _

theorem arm_carries (he : Carries more Sealed expression) (hb : CarriesInside more block) (word : String) :
    Carries more SealedOrNil (src.arm expression block word) :=
  (he.orFail _).bind fun _ => (braced_carries direct hb _).map _

/-- After a sealed statement a word is there on both sides or on neither, if it does not come next. -/
theorem keyword_after {word : String} (other : ∀ t ∈ more.head?, t.lexeme ≠ .keyword word)
    {us : List Token} (sealed : SealedOrNil us) (m m' : Memo) :
    Kept more Sealed (src.keyword word us m) (src.keyword word (us ++ more) m') := by
  rcases sealed with rfl | sealed
  · have absent : (src.keyword word more m').1 = .missed := by
      unfold keyword eat take
      cases more with
      | nil => rfl
      | cons t more => simp [look_token direct, other t rfl]
    rw [List.nil_append]
    generalize src.keyword word more m' = y at absent ⊢
    obtain ⟨attempt, n⟩ := y
    cases absent
    exact .missed
  · exact keyword_carries direct word sealed m m'

/-- After an arm the tokens may be used up. Then an `elif` or an `else` would have to come from what
follows. -/
theorem arms_carries (he : Carries more Sealed expression) (hb : CarriesInside more block)
    (apart : NoArm more) (word : String) : Carries more SealedOrNil (src.arms expression block word) := by
  intro ts sealed m m'
  rw [arms, arms]
  have hx := arm_carries direct he hb word sealed m m'
  generalize src.arm expression block word ts m = x at hx ⊢
  generalize src.arm expression block word (ts ++ more) m' = x' at hx ⊢
  cases hx with
  | missed => exact .missed
  | failed => exact .failed
  | @matched first us n n' shorter shorter' left =>
    have hy := keyword_after direct (fun t ht => (apart t ht).1) left n n'
    have plain : ∀ f, (src.keyword "elif" us n).1 ≠ .failed f := src.take_ne_failed _ us n
    dsimp only
    generalize src.keyword "elif" us n = y at hy plain ⊢
    generalize src.keyword "elif" (us ++ more) n' = y' at hy ⊢
    cases hy with
    | failed => exact absurd rfl (plain _)
    | @matched _ vs k k' lt lt' left' =>
      have less : vs.length < ts.length := Nat.lt_trans lt shorter
      exact ((arms_carries he hb apart "elif" left' k k').map (first :: ·)).widen _ _
    | @missed k k' =>
      have hz := keyword_after direct (fun t ht => (apart t ht).2) left k k'
      have plain : ∀ f, (src.keyword "else" us k).1 ≠ .failed f := src.take_ne_failed _ us k
      dsimp only
      generalize src.keyword "else" us k = z at hz plain ⊢
      generalize src.keyword "else" (us ++ more) k' = z' at hz ⊢
      cases hz with
      | failed => exact absurd rfl (plain _)
      | @matched _ vs i i' lt lt' left' =>
        have rest := braced_carries direct hb "'else'" left' i i'
        exact (rest.map fun body => [first, (.bool true, body)]).widen _ _
      | missed => exact .matched left
termination_by ts => ts.length

theorem statement_carries (he : Carries more Sealed expression) (hb : CarriesInside more block)
    (apart : NoArm more) : Carries more SealedOrNil (src.statement expression block) := by
  have branch : Carries more SealedOrNil (src.branch expression block) :=
    (keyword_carries direct _).bind fun _ => (arms_carries direct he hb apart "if").map _
  have loop : Carries more SealedOrNil (src.loop expression block) :=
    (keyword_carries direct _).bind fun _ => (arm_carries direct he hb "while").map _
  exact (terminated_carries direct (assignment_carries direct he)).orElse <|
    (terminated_carries direct (returning_carries direct he)).orElse <|
    (terminated_carries direct (he.map _)).orElse <| (function_carries direct hb).orElse <|
    branch.orElse <| loop.orElse <| (eat_anywhere direct _).map _

end Statements

omit direct in
/-- Where no tokens are left there are no statements. -/
theorem statements_nil (statement : Rule false Node) (m : Memo) :
    (∃ lt n, statements statement [] m = (.matched [] [] lt, n)) ∨
      ∃ f n, statements statement [] m = (.failed f, n) := by
  rw [statements]
  generalize statement [] m = x
  obtain ⟨attempt, n⟩ := x
  cases attempt with
  | matched _ _ lt => exact absurd lt (Nat.not_lt_zero _)
  | missed => exact .inl ⟨_, n, rfl⟩
  | failed f => exact .inr ⟨f, n, rfl⟩

omit direct in
/-- By recursion on the tokens, statement by statement. Once they are used up there is no brace in them.
-/
theorem statements_carries {statement : Rule false Node} (hs : Carries more SealedOrNil statement) :
    CarriesInside more (statements statement) := by
  intro ts sealed m m'
  rw [statements, statements]
  have hx := hs sealed m m'
  generalize statement ts m = x at hx ⊢
  generalize statement (ts ++ more) m' = x' at hx ⊢
  cases hx with
  | missed => exact .inside sealed
  | failed => exact .failed
  | @matched first us n n' shorter shorter' left =>
    have less : us.length < ts.length := shorter
    dsimp only
    rcases left with rfl | left
    · rcases statements_nil statement n with ⟨lt, k, eq⟩ | ⟨f, k, eq⟩
      · rw [eq]
        exact .spent
      · rw [eq]
        exact .failed
    · have rest := statements_carries hs left n n'
      generalize statements statement us n = y at rest ⊢
      generalize statements statement (us ++ more) n' = y' at rest ⊢
      cases rest with
      | inside left => exact .inside left
      | spent => exact .spent
      | failed => exact .failed
termination_by ts => ts.length

theorem block_carries (apart : NoArm more) (levels : Nat) : CarriesInside more (src.block levels) := by
  induction levels with
  | zero => exact fun _ _ _ _ => .failed
  | succ levels ih =>
    exact statements_carries (statement_carries direct (expression_carries direct (levels + 1)) ih apart)

/-- The statements of a block of so many levels. -/
theorem topStatement_carries (apart : NoArm more) (levels : Nat) :
    Carries more SealedOrNil (src.statement (src.expression (levels + 1)) (src.block levels)) :=
  statement_carries direct (expression_carries direct (levels + 1))
    (block_carries direct apart levels) apart

omit direct in
/-- The statements of sealed tokens, and then those of what follows. -/
theorem statements_append {statement : Rule false Node} (hs : Carries more SealedOrNil statement)
    {ts rest : List Token} (sealed : SealedOrNil ts) {m n : Memo} {nodes nodes' : List Node} {lt}
    (read : statements statement ts m = (.matched nodes [] lt, n))
    (after : Rule.Takes (g := true) (statements statement) more nodes' rest) :
    Rule.Takes (g := true) (statements statement) (ts ++ more) (nodes ++ nodes') rest := by
  rcases sealed with rfl | sealed
  · rcases statements_nil statement m with ⟨_, k, eq⟩ | ⟨f, k, eq⟩
    · cases eq.symm.trans read
      exact after
    · cases eq.symm.trans read
  · have hx := hs sealed m
    rw [statements] at read
    generalize statement ts m = x at hx read
    obtain ⟨attempt, k⟩ := x
    cases attempt with
    | missed => cases read; exact absurd rfl sealed.ne_nil
    | failed f => cases read
    | matched first us shorter =>
      have less : us.length < ts.length := shorter
      have first_takes : statement.Takes (ts ++ more) first (us ++ more) := Kept.takes hx
      dsimp only at read
      generalize others : statements statement us k = y at read
      obtain ⟨attempt, k'⟩ := y
      cases attempt with
      | missed => cases read
      | failed f => cases read
      | matched tail vs lt' =>
        cases first with
        | empty =>
          cases read
          exact statements_skip first_takes (statements_append hs (hx m).left others after)
        | _ =>
          cases read
          exact statements_step (by simp) first_takes (statements_append hs (hx m).left others after)
termination_by ts.length

/-- The statements of two lists of tokens, one after the other. -/
theorem block_append (apart : NoArm more) {levels : Nat} {ts rest : List Token} (sealed : SealedOrNil ts)
    {nodes nodes' : List Node} (read : (src.block levels).Takes ts nodes [])
    (after : (src.block levels).Takes more nodes' rest) :
    (src.block levels).Takes (ts ++ more) (nodes ++ nodes') rest := by
  obtain ⟨_, _, read⟩ := read .empty
  cases levels with
  | zero => cases read
  | succ levels =>
    exact statements_append (topStatement_carries direct apart levels) sealed read after

end Source

end Abacus
