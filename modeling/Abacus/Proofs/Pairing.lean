import Abacus.Grammar.Program
import Abacus.Proofs.StreamOrder

/-!
# Two parsers side by side

A rule sees nothing of a token but its lexeme, and nothing of a memo at all; offsets only go into
faults. So two parsers that look at the same lexemes do the same thing at every step. This file says
so once for all rules. A `Pairing` relates where two parsers stand (`stand`) and what they complain
about (`fault`), and asks only that looking, taking a token and going back respect the relation.
`Pairing.program` concludes that the two runs correspond.

The second parser may be allowed deeper nesting than the first. Then the first may stop early with a
fault that the pairing excuses, and nothing more is said of that run.
-/

namespace Abacus

/-- Two parsers and what is to correspond in their runs. -/
structure Pairing where
  left : Source
  right : Source
  /-- The tokens ahead and the memo, on the left and on the right. -/
  stand : List Token → Memo → List Token → Memo → Prop
  fault : ParseFault → ParseFault → Prop
  /-- The faults of the left parser that need no counterpart. -/
  excused : ParseFault → Prop
  /-- The levels that are left on both sides. -/
  levels : Nat → Nat → Prop
  look : ∀ {ts m ts' m'}, stand ts m ts' m' →
    (left.look ts m).1.lexeme = (right.look ts' m').1.lexeme ∧
      stand ts (left.look ts m).2 ts' (right.look ts' m').2
  nil : ∀ {m ts' m'}, stand [] m ts' m' → ts' = []
  cons : ∀ {t ts m ts' m'}, stand (t :: ts) m ts' m' →
    ∃ t' us', ts' = t' :: us' ∧
      stand ts (left.look (t :: ts) m).2 us' (right.look (t' :: us') m').2
  back : ∀ {ts m ts' m' us n us' n'}, stand ts m ts' m' → us <:+ ts → us' <:+ ts' →
    stand us n us' n' → stand ts n ts' n'
  rejected : ∀ {ts m ts' m'} (cause : Cause), stand ts m ts' m' →
    fault (.rejected cause (left.here ts)) (.rejected cause (right.here ts'))
  trailing : ∀ {ts m ts' m'} (cause : Cause), stand ts m ts' m' →
    fault (.rejected cause (left.look ts m).1.start) (.rejected cause (right.look ts' m').1.start)
  numeral : ∀ digits, fault (.numeralTooLong digits) (.numeralTooLong digits)
  bottom : ∀ {l}, levels 0 l →
    (l = 0 ∧ fault .nestedTooDeeply .nestedTooDeeply) ∨ excused .nestedTooDeeply
  descend : ∀ {k l}, levels (k + 1) l → ∃ l', l = l' + 1 ∧ levels k l'

namespace Pairing

variable {α β : Type} {g h : Bool}

/-- What has come of a rule on both sides, tried on `ts` and on `ts'`. -/
inductive Outcome (c : Pairing) (ts ts' : List Token) {n n' : Nat} :
    Attempt α n × Memo → Attempt α n' × Memo → Prop
  | matched {value us us' m m'} {lt : us.length < n} {lt' : us'.length < n'}
      (suffix : us <:+ ts) (suffix' : us' <:+ ts') (stand : c.stand us m us' m') :
      Outcome c ts ts' (.matched value us lt, m) (.matched value us' lt', m')
  | missed {m m'} (stand : c.stand ts m ts' m') : Outcome c ts ts' (.missed, m) (.missed, m')
  | failed {f f' m m'} (stand : c.stand ts m ts' m') (fault : c.fault f f') :
      Outcome c ts ts' (.failed f, m) (.failed f', m')
  | excused {f m outcome'} (excuse : c.excused f) : Outcome c ts ts' (.failed f, m) outcome'

/-- Two rules that correspond wherever they are tried. -/
def Coupled (c : Pairing) (p p' : Rule g α) : Prop :=
  ∀ ⦃ts m ts' m'⦄, c.stand ts m ts' m' → c.Outcome ts ts' (p ts m) (p' ts' m')

variable {c : Pairing}

/-! ## Outcomes -/

namespace Outcome

variable {ts ts' us us' : List Token} {m m' : Memo} {k k' n n' : Nat}

theorem map {x : Attempt α n × Memo} {x' : Attempt α n' × Memo} (f : α → β)
    (hx : c.Outcome ts ts' x x') : c.Outcome ts ts' (x.1.map f, x.2) (x'.1.map f, x'.2) := by
  cases hx with
  | matched suffix suffix' stand => exact .matched suffix suffix' stand
  | missed stand => exact .missed stand
  | failed stand fault => exact .failed stand fault
  | excused excuse => exact .excused excuse

/-- What came of a rule further on, seen from where the parser stood before. -/
theorem widen {x : Attempt α k × Memo} {x' : Attempt α k' × Memo} (hs : c.stand ts m ts' m')
    (hu : us <:+ ts) (hu' : us' <:+ ts') (le : k ≤ n) (le' : k' ≤ n')
    (hx : c.Outcome us us' x x') :
    c.Outcome ts ts' (x.1.widen le, x.2) (x'.1.widen le', x'.2) := by
  cases hx with
  | matched suffix suffix' stand => exact .matched (suffix.trans hu) (suffix'.trans hu') stand
  | missed stand => exact .missed (c.back hs hu hu' stand)
  | failed stand fault => exact .failed (c.back hs hu hu' stand) fault
  | excused excuse => exact .excused excuse

end Outcome

/-! ## Rules in general -/

namespace Coupled

theorem map {p p' : Rule g α} (f : α → β) (hp : c.Coupled p p') :
    c.Coupled (p.map f) (p'.map f) := by
  intro ts m ts' m' hs
  exact (hp hs).map f

/-- The second rules are tried where the first ones left off, and a parser that gives up there goes back.
-/
theorem bind {p p' : Rule g α} {f f' : α → Rule h β} (hp : c.Coupled p p')
    (hf : ∀ a, c.Coupled (f a) (f' a)) : c.Coupled (p.bind f) (p'.bind f') := by
  intro ts m ts' m' hs
  have hx := hp hs
  unfold Rule.bind
  generalize p ts m = x at hx ⊢
  generalize p' ts' m' = x' at hx ⊢
  cases hx with
  | missed stand => exact .missed stand
  | failed stand fault => exact .failed stand fault
  | excused excuse => exact .excused excuse
  | @matched value us us' n n' _ _ suffix suffix' stand =>
    have hy := hf value stand
    dsimp only
    generalize f value us n = y at hy ⊢
    generalize f' value us' n' = y' at hy ⊢
    cases hy with
    | missed stand' => exact .missed (c.back hs suffix suffix' stand')
    | failed stand' fault => exact .failed (c.back hs suffix suffix' stand') fault
    | excused excuse => exact .excused excuse
    | matched next next' stand' => exact .matched (next.trans suffix) (next'.trans suffix') stand'

theorem orElse {p p' q q' : Rule g α} (hp : c.Coupled p p') (hq : c.Coupled q q') :
    c.Coupled (p.orElse q) (p'.orElse q') := by
  intro ts m ts' m' hs
  have hx := hp hs
  unfold Rule.orElse
  generalize p ts m = x at hx ⊢
  generalize p' ts' m' = x' at hx ⊢
  cases hx with
  | matched suffix suffix' stand => exact .matched suffix suffix' stand
  | missed stand => exact hq stand
  | failed stand fault => exact .failed stand fault
  | excused excuse => exact .excused excuse

theorem orFail {p p' : Rule g α} (cause : Cause) (hp : c.Coupled p p') :
    c.Coupled (c.left.orFail p cause) (c.right.orFail p' cause) := by
  intro ts m ts' m' hs
  have hx := hp hs
  unfold Source.orFail
  generalize p ts m = x at hx ⊢
  generalize p' ts' m' = x' at hx ⊢
  cases hx with
  | matched suffix suffix' stand => exact .matched suffix suffix' stand
  | missed stand => exact .failed stand (c.rejected cause hs)
  | failed stand fault => exact .failed stand fault
  | excused excuse => exact .excused excuse

end Coupled

/-! ## Tokens -/

/-- What has come of looking for one token, on both sides. It is there or it is not: nothing fails. -/
inductive Seen (c : Pairing) (ts ts' : List Token) {n n' : Nat} :
    Attempt α n × Memo → Attempt α n' × Memo → Prop
  | there {value us us' m m'} {lt : us.length < n} {lt' : us'.length < n'}
      (suffix : us <:+ ts) (suffix' : us' <:+ ts') (stand : c.stand us m us' m') :
      Seen c ts ts' (.matched value us lt, m) (.matched value us' lt', m')
  | absent {m m'} (stand : c.stand ts m ts' m') : Seen c ts ts' (.missed, m) (.missed, m')

theorem Seen.outcome {ts ts' : List Token} {n n' : Nat} {x : Attempt α n × Memo}
    {x' : Attempt α n' × Memo} (hx : c.Seen ts ts' x x') : c.Outcome ts ts' x x' := by
  cases hx with
  | there suffix suffix' stand => exact .matched suffix suffix' stand
  | absent stand => exact .missed stand

/-- Both parsers see the same lexeme, so both take a token or neither does. -/
theorem seen_take (f : Lexeme → Option α) {ts : List Token} {m : Memo} {ts' : List Token}
    {m' : Memo} (hs : c.stand ts m ts' m') :
    c.Seen ts ts' (c.left.take f ts m) (c.right.take f ts' m') := by
  obtain ⟨same, stay⟩ := c.look hs
  unfold Source.take
  cases ts with
  | nil =>
    cases c.nil hs
    exact .absent stay
  | cons t ts =>
    obtain ⟨t', us', rfl, step⟩ := c.cons hs
    dsimp only
    rw [same]
    cases f (c.right.look (t' :: us') m').1.lexeme with
    | none => exact .absent stay
    | some value => exact .there (List.suffix_cons t ts) (List.suffix_cons t' us') step

theorem seen_eat (lexeme : Lexeme) {ts : List Token} {m : Memo} {ts' : List Token} {m' : Memo}
    (hs : c.stand ts m ts' m') :
    c.Seen ts ts' (c.left.eat lexeme ts m) (c.right.eat lexeme ts' m') :=
  seen_take _ hs

theorem take (f : Lexeme → Option α) : c.Coupled (c.left.take f) (c.right.take f) :=
  fun _ _ _ _ hs => (seen_take f hs).outcome

theorem eat (lexeme : Lexeme) : c.Coupled (c.left.eat lexeme) (c.right.eat lexeme) :=
  take _

theorem keyword (word : String) : c.Coupled (c.left.keyword word) (c.right.keyword word) :=
  eat _

theorem operator (symbol : String) : c.Coupled (c.left.operator symbol) (c.right.operator symbol) :=
  eat _

theorem identifier : c.Coupled c.left.identifier c.right.identifier :=
  take _

theorem expect (symbol context : String) :
    c.Coupled (c.left.expect symbol context) (c.right.expect symbol context) := by
  intro ts m ts' m' hs
  have hx := operator symbol hs
  unfold Source.expect
  generalize c.left.operator symbol ts m = x at hx ⊢
  generalize c.right.operator symbol ts' m' = x' at hx ⊢
  cases hx with
  | matched suffix suffix' stand => exact .matched suffix suffix' stand
  | missed stand =>
    obtain ⟨same, stay⟩ := c.look stand
    dsimp only
    rw [same]
    exact .failed stay (c.rejected _ hs)
  | failed stand fault => exact .failed stand fault
  | excused excuse => exact .excused excuse

/-- By recursion on the tokens of the left parser. The right one has as many commas. -/
theorem items {item item' : Rule false α} (noItem noEnd : Cause) (hi : c.Coupled item item')
    {ts : List Token} {m : Memo} {ts' : List Token} {m' : Memo} (hs : c.stand ts m ts' m') :
    c.Outcome ts ts' (c.left.items item noItem noEnd ts m)
      (c.right.items item' noItem noEnd ts' m') := by
  rw [Source.items, Source.items]
  have hx := hi.orFail noItem hs
  generalize c.left.orFail item noItem ts m = x at hx ⊢
  generalize c.right.orFail item' noItem ts' m' = x' at hx ⊢
  cases hx with
  | missed stand => exact .missed stand
  | failed stand fault => exact .failed stand fault
  | excused excuse => exact .excused excuse
  | @matched first us us' n n' shorter shorter' suffix suffix' stand =>
    have hy : c.Seen us us' (c.left.operator "," us n) (c.right.operator "," us' n') :=
      seen_eat (.operator ",") stand
    dsimp only
    generalize c.left.operator "," us n = y at hy ⊢
    generalize c.right.operator "," us' n' = y' at hy ⊢
    cases hy with
    | @there _ vs vs' k k' lt lt' next next' stand' =>
      have less : vs.length < ts.length := Nat.lt_trans lt shorter
      have rest := items noItem noEnd hi stand'
      exact (rest.map (first :: ·)).widen hs (next.trans suffix) (next'.trans suffix') _ _
    | @absent k k' stand' =>
      have hz := Coupled.orFail noEnd (operator ")") stand'
      dsimp only
      generalize c.left.orFail (c.left.operator ")") noEnd us k = z at hz ⊢
      generalize c.right.orFail (c.right.operator ")") noEnd us' k' = z' at hz ⊢
      cases hz with
      | matched next next' stand' =>
        exact .matched (next.trans suffix) (next'.trans suffix') stand'
      | missed stand' => exact .missed (c.back hs suffix suffix' stand')
      | failed stand' fault => exact .failed (c.back hs suffix suffix' stand') fault
      | excused excuse => exact .excused excuse
termination_by ts.length

/-! ## Expressions -/

/-- By recursion on the tokens of the left parser, with the tree so far, which both have in common. -/
theorem chainTail (symbols : List String) {operand operand' : Rule false Node} (left : Node)
    (ho : c.Coupled operand operand') {ts : List Token} {m : Memo} {ts' : List Token} {m' : Memo}
    (hs : c.stand ts m ts' m') :
    c.Outcome ts ts' (c.left.chainTail symbols operand left ts m)
      (c.right.chainTail symbols operand' left ts' m') := by
  rw [Source.chainTail, Source.chainTail]
  obtain ⟨same, stay⟩ := c.look hs
  cases ts with
  | nil =>
    cases c.nil hs
    exact .matched (List.suffix_refl _) (List.suffix_refl _) stay
  | cons t us =>
    obtain ⟨t', us', rfl, step⟩ := c.cons hs
    dsimp only
    rw [same]
    cases (c.right.look (t' :: us') m').1.lexeme with
    | operator symbol =>
      dsimp only
      split
      · have hx := ho.orFail (.operand symbol) step
        generalize c.left.orFail operand (.operand symbol) us _ = x at hx ⊢
        generalize c.right.orFail operand' (.operand symbol) us' _ = x' at hx ⊢
        have suffix := List.suffix_cons t us
        have suffix' := List.suffix_cons t' us'
        cases hx with
        | missed stand => exact .missed (c.back hs suffix suffix' stand)
        | failed stand fault => exact .failed (c.back hs suffix suffix' stand) fault
        | excused excuse => exact .excused excuse
        | @matched right vs vs' n n' lt lt' next next' stand =>
          have less : vs.length < (t :: us).length := Nat.lt_succ_of_lt lt
          have rest := chainTail symbols (.call (.str symbol) [left, right]) ho stand
          exact rest.widen hs (next.trans suffix) (next'.trans suffix') _ _
      · exact .matched (List.suffix_refl _) (List.suffix_refl _) stay
    | _ => exact .matched (List.suffix_refl _) (List.suffix_refl _) stay
termination_by ts.length

theorem chain (symbols : List String) {operand operand' : Rule false Node}
    (ho : c.Coupled operand operand') :
    c.Coupled (c.left.chain symbols operand) (c.right.chain symbols operand') :=
  ho.bind fun left _ _ _ _ hs => chainTail symbols left ho hs

/-- A literal depends on its lexeme alone, but for the offset at which it may be refused. -/
theorem literal : c.Coupled c.left.literal c.right.literal := by
  intro ts m ts' m' hs
  obtain ⟨same, stay⟩ := c.look hs
  unfold Source.literal Source.take
  cases ts with
  | nil =>
    cases c.nil hs
    exact .missed stay
  | cons t us =>
    obtain ⟨t', us', rfl, step⟩ := c.cons hs
    have taken {node : Node} : c.Outcome (t :: us) (t' :: us')
        (.matched node us (Nat.lt_succ_self _), (c.left.look (t :: us) m).2)
        (.matched node us' (Nat.lt_succ_self _), (c.right.look (t' :: us') m').2) :=
      .matched (List.suffix_cons t us) (List.suffix_cons t' us') step
    dsimp only
    rw [same]
    cases (c.right.look (t' :: us') m').1.lexeme with
    | float numeral =>
      simp only [Source.literalOf]
      cases Numeral.readFloat? numeral with
      | none => exact .missed stay
      | some x => exact taken
    | int digits =>
      simp only [Source.literalOf]
      by_cases long : digitLimit < digits.length
      · simp only [if_pos long]
        exact .failed stay (c.numeral _)
      · simp only [if_neg long]
        by_cases fits : fitsInt32 (Numeral.natOfDigits digits.toList) = true
        · simp only [if_pos fits]
          exact taken
        · simp only [if_neg fits]
          exact .failed stay (c.rejected _ hs)
    | identifier name => exact taken
    | _ => exact .missed stay

theorem parenthesised {expression expression' : Rule false Node}
    (he : c.Coupled expression expression') :
    c.Coupled (c.left.parenthesised expression) (c.right.parenthesised expression') :=
  (operator "(").bind fun _ => he.bind fun _ => (expect ")" _).map _

theorem arguments {expression expression' : Rule false Node}
    (he : c.Coupled expression expression') (function : String) :
    c.Coupled (c.left.arguments expression function) (c.right.arguments expression' function) :=
  ((operator ")").map _).orElse fun _ _ _ _ hs => items _ _ he hs

theorem call {expression expression' : Rule false Node} (he : c.Coupled expression expression') :
    c.Coupled (c.left.call expression) (c.right.call expression') :=
  identifier.bind fun name => (operator "(").bind fun _ => (arguments he name).map _

theorem value {expression expression' : Rule false Node} (he : c.Coupled expression expression') :
    c.Coupled (c.left.value expression) (c.right.value expression') :=
  (call he).orElse ((parenthesised he).orElse literal)

theorem expression {k l : Nat} (hl : c.levels k l) :
    c.Coupled (c.left.expression k) (c.right.expression l) := by
  induction k generalizing l with
  | zero =>
    intro ts m ts' m' hs
    rcases c.bottom hl with ⟨rfl, fault⟩ | excuse
    · exact .failed hs fault
    · exact .excused excuse
  | succ k ih =>
    obtain ⟨l, rfl, below⟩ := c.descend hl
    exact chain _ (chain _ (value (ih below)))

/-! ## Programs -/

section Statements

variable {expression expression' : Rule false Node} {block block' : Rule true (List Node)}

theorem terminated {p p' : Rule false Node} (hp : c.Coupled p p') :
    c.Coupled (c.left.terminated p) (c.right.terminated p') :=
  hp.bind fun _ => (eat .semicolon).map _

theorem assignment (he : c.Coupled expression expression') :
    c.Coupled (c.left.assignment expression) (c.right.assignment expression') :=
  identifier.bind fun _ => (operator "=").bind fun _ => he.map _

theorem returning (he : c.Coupled expression expression') :
    c.Coupled (c.left.returning expression) (c.right.returning expression') :=
  (keyword "return").bind fun _ => he.map _

theorem braced (hb : c.Coupled block block') (context : String) :
    c.Coupled (c.left.braced block context) (c.right.braced block' context) :=
  (expect _ _).bind fun _ => hb.bind fun _ => (expect _ _).map _

theorem parameters (function : String) :
    c.Coupled (c.left.parameters function) (c.right.parameters function) :=
  ((operator ")").map _).orElse fun _ _ _ _ hs => items _ _ identifier hs

theorem function (hb : c.Coupled block block') :
    c.Coupled (c.left.function block) (c.right.function block') :=
  (keyword "fn").bind fun _ => (identifier.orFail _).bind fun name =>
    (expect _ _).bind fun _ => (parameters name).bind fun _ => (braced hb _).map _

theorem arm (he : c.Coupled expression expression') (hb : c.Coupled block block') (word : String) :
    c.Coupled (c.left.arm expression block word) (c.right.arm expression' block' word) :=
  (he.orFail _).bind fun _ => (braced hb _).map _

/-- By recursion on the tokens of the left parser. Both see an `elif` or an `else`, or neither does. -/
theorem arms (he : c.Coupled expression expression') (hb : c.Coupled block block') (word : String)
    {ts : List Token} {m : Memo} {ts' : List Token} {m' : Memo} (hs : c.stand ts m ts' m') :
    c.Outcome ts ts' (c.left.arms expression block word ts m)
      (c.right.arms expression' block' word ts' m') := by
  rw [Source.arms, Source.arms]
  have hx := arm he hb word hs
  generalize c.left.arm expression block word ts m = x at hx ⊢
  generalize c.right.arm expression' block' word ts' m' = x' at hx ⊢
  cases hx with
  | missed stand => exact .missed stand
  | failed stand fault => exact .failed stand fault
  | excused excuse => exact .excused excuse
  | @matched first us us' n n' shorter shorter' suffix suffix' stand =>
    have hy : c.Seen us us' (c.left.keyword "elif" us n) (c.right.keyword "elif" us' n') :=
      seen_eat (.keyword "elif") stand
    dsimp only
    generalize c.left.keyword "elif" us n = y at hy ⊢
    generalize c.right.keyword "elif" us' n' = y' at hy ⊢
    cases hy with
    | @there _ vs vs' k k' lt lt' next next' stand' =>
      have less : vs.length < ts.length := Nat.lt_trans lt shorter
      have rest := arms he hb "elif" stand'
      exact (rest.map (first :: ·)).widen hs (next.trans suffix) (next'.trans suffix') _ _
    | @absent k k' stand' =>
      have hz : c.Seen us us' (c.left.keyword "else" us k) (c.right.keyword "else" us' k') :=
        seen_eat (.keyword "else") stand'
      dsimp only
      generalize c.left.keyword "else" us k = z at hz ⊢
      generalize c.right.keyword "else" us' k' = z' at hz ⊢
      cases hz with
      | there next next' stand'' =>
        have rest := braced hb "'else'" stand''
        exact (rest.map fun body => [first, (.bool true, body)]).widen hs (next.trans suffix)
          (next'.trans suffix') _ _
      | absent stand'' => exact .matched suffix suffix' stand''
termination_by ts.length

theorem branch (he : c.Coupled expression expression') (hb : c.Coupled block block') :
    c.Coupled (c.left.branch expression block) (c.right.branch expression' block') :=
  (keyword "if").bind fun _ => Coupled.map _ fun _ _ _ _ hs => arms he hb "if" hs

theorem loop (he : c.Coupled expression expression') (hb : c.Coupled block block') :
    c.Coupled (c.left.loop expression block) (c.right.loop expression' block') :=
  (keyword "while").bind fun _ => (arm he hb "while").map _

theorem statement (he : c.Coupled expression expression') (hb : c.Coupled block block') :
    c.Coupled (c.left.statement expression block) (c.right.statement expression' block') :=
  (terminated (assignment he)).orElse <| (terminated (returning he)).orElse <|
    (terminated (he.map _)).orElse <| (function hb).orElse <| (branch he hb).orElse <|
      (loop he hb).orElse <| (eat .semicolon).map _

end Statements

/-- By recursion on the tokens of the left parser, statement by statement. -/
theorem statements {statement statement' : Rule false Node} (hst : c.Coupled statement statement')
    {ts : List Token} {m : Memo} {ts' : List Token} {m' : Memo} (hs : c.stand ts m ts' m') :
    c.Outcome ts ts' (Source.statements statement ts m) (Source.statements statement' ts' m') := by
  rw [Source.statements, Source.statements]
  have hx := hst hs
  generalize statement ts m = x at hx ⊢
  generalize statement' ts' m' = x' at hx ⊢
  cases hx with
  | missed stand => exact .matched (List.suffix_refl _) (List.suffix_refl _) stand
  | failed stand fault => exact .failed stand fault
  | excused excuse => exact .excused excuse
  | @matched first us us' n n' shorter shorter' suffix suffix' stand =>
    have less : us.length < ts.length := shorter
    have rest := statements hst stand
    exact (rest.map _).widen hs suffix suffix' _ _
termination_by ts.length

theorem block {k l : Nat} (hl : c.levels k l) : c.Coupled (c.left.block k) (c.right.block l) := by
  induction k generalizing l with
  | zero =>
    intro ts m ts' m' hs
    rcases c.bottom hl with ⟨rfl, fault⟩ | excuse
    · exact .failed hs fault
    · exact .excused excuse
  | succ k ih =>
    obtain ⟨l, rfl, below⟩ := c.descend hl
    intro ts m ts' m' hs
    exact statements (statement (expression hl) (ih below)) hs

/-- The two runs end alike: in the same tree, in corresponding faults, or with an excuse. -/
theorem program {k l : Nat} (hl : c.levels k l) {ts : List Token} {m : Memo} {ts' : List Token}
    {m' : Memo} (hs : c.stand ts m ts' m') :
    let run := c.left.program k ts m
    let run' := c.right.program l ts' m'
    (((∃ tree, run.1 = .ok tree ∧ run'.1 = .ok tree) ∨
        ∃ f f', run.1 = .error f ∧ run'.1 = .error f' ∧ c.fault f f') ∧
      ∃ us us', c.stand us run.2 us' run'.2) ∨
    ∃ f, run.1 = .error f ∧ c.excused f := by
  unfold Source.program Source.programOf
  have hx := block hl hs
  generalize c.left.block k ts m = x at hx ⊢
  generalize c.right.block l ts' m' = x' at hx ⊢
  cases hx with
  | missed stand => exact .inl ⟨.inl ⟨_, rfl, rfl⟩, _, _, stand⟩
  | failed stand fault => exact .inl ⟨.inr ⟨_, _, rfl, rfl, fault⟩, _, _, stand⟩
  | excused excuse => exact .inr ⟨_, rfl, excuse⟩
  | matched suffix suffix' stand =>
    obtain ⟨same, stay⟩ := c.look stand
    dsimp only
    rw [same]
    split
    · exact .inl ⟨.inl ⟨_, rfl, rfl⟩, _, _, stay⟩
    · exact .inl ⟨.inr ⟨_, _, rfl, rfl, c.trailing _ stand⟩, _, _, stay⟩

/-! ## Ways of looking -/

/-- Levels that are equal on both sides go down together. -/
theorem descend_of_eq {k l : Nat} (same : k + 1 = l) : ∃ l', l = l' + 1 ∧ k = l' := ⟨k, same.symm, rfl⟩

theorem numeral_of_eq (digits : Nat) :
    ParseFault.numeralTooLong digits = ParseFault.numeralTooLong digits := rfl

/-- Where the lower limit is hit, the higher one is too, or there is a gap between them. -/
theorem bottom_of_gap {gap l : Nat} (h : l = 0 + gap) :
    (l = 0 ∧ ParseFault.nestedTooDeeply = .nestedTooDeeply) ∨
      0 < gap ∧ ParseFault.nestedTooDeeply = .nestedTooDeeply := by
  rcases Nat.eq_zero_or_pos gap with rfl | pos
  · exact .inl ⟨h, rfl⟩
  · exact .inr ⟨pos, rfl⟩

theorem descend_of_gap {gap k l : Nat} (h : l = k + 1 + gap) : ∃ l', l = l' + 1 ∧ l' = k + gap :=
  ⟨k + gap, by omega, rfl⟩

/-- Two honest ways of looking at one stream, the second with `gap` levels more. -/
def honest (s : Stream) {peek peek' : Peek} (hp : Memo.Honest s peek) (hp' : Memo.Honest s peek')
    (gap : Nat) : Pairing where
  left := ⟨peek, s.final⟩
  right := ⟨peek', s.final⟩
  stand ts m ts' m' := ts = ts' ∧ ts <:+ s.tokens ∧ m.Faithful s ∧ m'.Faithful s
  fault f f' := f = f'
  excused f := 0 < gap ∧ f = .nestedTooDeeply
  levels k l := l = k + gap
  look := by
    rintro ts m _ m' ⟨rfl, suffix, hm, hm'⟩
    obtain ⟨eq, stay⟩ := hp (s.headD_mem_all suffix) hm
    obtain ⟨eq', stay'⟩ := hp' (s.headD_mem_all suffix) hm'
    exact ⟨congrArg Token.lexeme (eq.trans eq'.symm), rfl, suffix, stay, stay'⟩
  nil := by
    rintro m _ m' ⟨rfl, -⟩
    rfl
  cons := by
    rintro t ts m _ m' ⟨rfl, suffix, hm, hm'⟩
    obtain ⟨-, stay⟩ := hp (s.headD_mem_all suffix) hm
    obtain ⟨-, stay'⟩ := hp' (s.headD_mem_all suffix) hm'
    exact ⟨t, ts, rfl, rfl, (List.suffix_cons t ts).trans suffix, stay, stay'⟩
  back := by
    rintro ts m _ m' us n _ n' ⟨rfl, suffix, -⟩ - - ⟨-, -, hn, hn'⟩
    exact ⟨rfl, suffix, hn, hn'⟩
  rejected := by
    rintro ts m _ m' cause ⟨rfl, -⟩
    rfl
  trailing := by
    rintro ts m _ m' cause ⟨rfl, suffix, hm, hm'⟩
    obtain ⟨eq, -⟩ := hp (s.headD_mem_all suffix) hm
    obtain ⟨eq', -⟩ := hp' (s.headD_mem_all suffix) hm'
    exact congrArg (fun t => ParseFault.rejected cause t.start) (eq.trans eq'.symm)
  numeral := numeral_of_eq
  bottom := bottom_of_gap
  descend := descend_of_gap

end Pairing

/-- How the parser looks does not matter as long as it is honest, and levels matter only where they
run out. -/
theorem parseWithin_eq_or_nestedTooDeeply {text : List Char} {offset : Nat} {peek peek' : Peek}
    (hp : Memo.Honest (.ofText text offset) peek) (hp' : Memo.Honest (.ofText text offset) peek')
    (levels gap : Nat) :
    (parseWithin levels peek text offset).1 = (parseWithin (levels + gap) peek' text offset).1 ∨
      0 < gap ∧ (parseWithin levels peek text offset).1 = .error .nestedTooDeeply := by
  let s := Stream.ofText text offset
  let c := Pairing.honest s hp hp' gap
  have hs : c.stand s.tokens .empty s.tokens .empty :=
    ⟨rfl, List.suffix_refl _, Memo.faithful_empty s, Memo.faithful_empty s⟩
  have hl : c.levels levels (levels + gap) := rfl
  rcases Pairing.program hl hs with ⟨⟨tree, h, h'⟩ | ⟨f, f', h, h', rfl⟩, -⟩ | ⟨_, h, pos, rfl⟩
  · exact .inl (h.trans h'.symm)
  · exact .inl (h.trans h'.symm)
  · exact .inr ⟨pos, h⟩

/-- The same outcome without a memo. -/
theorem parseWithin_eq_rereading (levels : Nat) (text : List Char) (offset : Nat) :
    (parseWithin levels Memo.remembering text offset).1
      = (parseWithin levels Memo.rereading text offset).1 := by
  have honest := Memo.honest_remembering text offset
  rcases parseWithin_eq_or_nestedTooDeeply honest (Memo.honest_rereading _) levels 0 with eq | ⟨pos, -⟩
  · exact eq
  · exact absurd pos (Nat.lt_irrefl 0)

end Abacus
