import Abacus.Proofs.ParseSound

/-!
# Every phrase is taken

The converse of soundness. A rule is tried on the words of a phrase with more tokens after them, and
it takes exactly the phrase (`Rule.Takes`), provided that the token after the phrase could not have
belonged to it, and that there are more levels than words. For the alternatives of a statement one
also needs that those which come earlier miss (`Rule.Misses`) and do not fail: they look at one or two
tokens and find that they do not apply.

Operators group to the left, while the parser goes from left to right with the tree it has so far. So
a chain is not compared with its last operator taken off, but continued: if the parser goes on from
here with the tree of the phrase, then it does so from before the phrase.
-/

namespace Abacus

namespace Rule

variable {α β : Type} {g h : Bool} {ts us vs : List Token} {a : α} {b : β}

/-- The rule takes the tokens up to `us` and gives `a`, whatever is remembered. -/
def Takes (p : Rule g α) (ts : List Token) (a : α) (us : List Token) : Prop :=
  ∀ memo, ∃ lt memo', p ts memo = (.matched a us lt, memo')

/-- The rule misses, whatever is remembered. -/
def Misses (p : Rule g α) (ts : List Token) : Prop :=
  ∀ memo, ∃ memo', p ts memo = (.missed, memo')

theorem Takes.map {p : Rule g α} (hp : p.Takes ts a us) (f : α → β) :
    (p.map f).Takes ts (f a) us := by
  intro memo
  obtain ⟨lt, memo', eq⟩ := hp memo
  refine ⟨lt, memo', ?_⟩
  unfold Rule.map
  rw [eq]
  rfl

theorem Misses.map {p : Rule g α} (hp : p.Misses ts) (f : α → β) : (p.map f).Misses ts := by
  intro memo
  obtain ⟨memo', eq⟩ := hp memo
  refine ⟨memo', ?_⟩
  unfold Rule.map
  rw [eq]
  rfl

theorem Takes.bind {p : Rule g α} {f : α → Rule h β} (hp : p.Takes ts a us)
    (hf : (f a).Takes us b vs) : (p.bind f).Takes ts b vs := by
  intro memo
  obtain ⟨lt, memo', eq⟩ := hp memo
  obtain ⟨lt', memo'', eq'⟩ := hf memo'
  refine ⟨bind_bound lt lt', memo'', ?_⟩
  unfold Rule.bind
  rw [eq]
  dsimp only
  rw [eq']

theorem Takes.bind_misses {p : Rule g α} {f : α → Rule h β} (hp : p.Takes ts a us)
    (hf : (f a).Misses us) : (p.bind f).Misses ts := by
  intro memo
  obtain ⟨lt, memo', eq⟩ := hp memo
  obtain ⟨memo'', eq'⟩ := hf memo'
  refine ⟨memo'', ?_⟩
  unfold Rule.bind
  rw [eq]
  dsimp only
  rw [eq']

theorem Misses.bind {p : Rule g α} (hp : p.Misses ts) (f : α → Rule h β) :
    (p.bind f).Misses ts := by
  intro memo
  obtain ⟨memo', eq⟩ := hp memo
  refine ⟨memo', ?_⟩
  unfold Rule.bind
  rw [eq]

theorem Takes.orElse {p : Rule g α} (hp : p.Takes ts a us) (q : Rule g α) :
    (p.orElse q).Takes ts a us := by
  intro memo
  obtain ⟨lt, memo', eq⟩ := hp memo
  refine ⟨lt, memo', ?_⟩
  unfold Rule.orElse
  rw [eq]

theorem Misses.orElse {p q : Rule g α} (hp : p.Misses ts) (hq : q.Takes ts a us) :
    (p.orElse q).Takes ts a us := by
  intro memo
  obtain ⟨memo', eq⟩ := hp memo
  obtain ⟨lt, memo'', eq'⟩ := hq memo'
  refine ⟨lt, memo'', ?_⟩
  unfold Rule.orElse
  rw [eq]
  exact eq'

theorem Misses.orElse_misses {p q : Rule g α} (hp : p.Misses ts) (hq : q.Misses ts) :
    (p.orElse q).Misses ts := by
  intro memo
  obtain ⟨memo', eq⟩ := hp memo
  obtain ⟨memo'', eq'⟩ := hq memo'
  refine ⟨memo'', ?_⟩
  unfold Rule.orElse
  rw [eq]
  exact eq'

end Rule

/-- The word ahead. -/
def ahead (ts : List Token) : Option Lexeme := ts.head?.map Token.lexeme

@[simp] theorem ahead_nil : ahead [] = none := rfl

@[simp] theorem ahead_cons (t : Token) (ts : List Token) : ahead (t :: ts) = some t.lexeme := rfl

namespace Source

open Phrase

theorem orFail_takes (src : Source) {α : Type} {g : Bool} {p : Rule g α} {ts us : List Token}
    {a : α} (hp : p.Takes ts a us) (cause : Cause) : (src.orFail p cause).Takes ts a us := by
  intro memo
  obtain ⟨lt, memo', eq⟩ := hp memo
  refine ⟨lt, memo', ?_⟩
  unfold orFail
  rw [eq]

variable {src : Source} (direct : src.Direct) {α : Type} {ts us : List Token} {t : Token}
include direct

/-! ## Tokens -/

theorem take_takes {f : Lexeme → Option α} {a : α} (h : f t.lexeme = some a) :
    (src.take f).Takes (t :: us) a us := by
  intro memo
  have seen := look_token direct (t :: us) memo
  unfold take
  generalize src.look (t :: us) memo = sight at seen ⊢
  obtain ⟨token, memo'⟩ := sight
  cases seen
  refine ⟨Nat.lt_succ_self _, memo', ?_⟩
  dsimp only [List.headD_cons]
  rw [h]

theorem take_misses {f : Lexeme → Option α} (h : ∀ l, ahead ts = some l → f l = none) :
    (src.take f).Misses ts := by
  intro memo
  have seen := look_token direct ts memo
  unfold take
  generalize src.look ts memo = sight at seen ⊢
  obtain ⟨token, memo'⟩ := sight
  cases seen
  refine ⟨memo', ?_⟩
  cases ts with
  | nil => rfl
  | cons t us =>
    dsimp only [List.headD_cons]
    rw [h t.lexeme rfl]

theorem eat_takes {l : Lexeme} (h : t.lexeme = l) : (src.eat l).Takes (t :: us) () us :=
  take_takes direct (if_pos h)

theorem eat_misses {l : Lexeme} (h : ahead ts ≠ some l) : (src.eat l).Misses ts := by
  refine take_misses direct fun l' hl' => if_neg ?_
  rintro rfl
  exact h hl'

theorem identifier_takes {name : String} (h : t.lexeme = .identifier name) :
    src.identifier.Takes (t :: us) name us := by
  refine take_takes direct ?_
  rw [h]

theorem identifier_misses (h : ∀ name, ahead ts ≠ some (.identifier name)) :
    src.identifier.Misses ts := by
  refine take_misses direct fun l hl => ?_
  cases l with
  | identifier name => exact absurd hl (h name)
  | _ => rfl

theorem expect_takes {symbol : String} (context : String) (h : t.lexeme = .operator symbol) :
    (src.expect symbol context).Takes (t :: us) () us := by
  intro memo
  have taken : (src.operator symbol).Takes (t :: us) () us := eat_takes direct h
  obtain ⟨lt, memo', eq⟩ := taken memo
  refine ⟨lt, memo', ?_⟩
  unfold expect
  rw [eq]

/-! ## Items between commas -/

section Items

variable {item : Rule false α} {a : α} {as : List α} {vs : List Token} (noItem noEnd : Cause)

/-- The last item, before the bracket that closes the list. -/
theorem items_one (hi : item.Takes ts a (t :: us)) (ht : t.lexeme = .operator ")") :
    Rule.Takes (g := false) (src.items item noItem noEnd) ts [a] us := by
  intro memo
  obtain ⟨lt, memo₁, eq₁⟩ := orFail_takes src hi noItem memo
  have no_comma : (src.operator ",").Misses (t :: us) :=
    eat_misses direct (by simp [ht])
  obtain ⟨memo₂, eq₂⟩ := no_comma memo₁
  have bracket : (src.orFail (src.operator ")") noEnd).Takes (t :: us) () us :=
    orFail_takes src (eat_takes direct ht) noEnd
  obtain ⟨lt₃, memo₃, eq₃⟩ := bracket memo₂
  refine ⟨Nat.lt_trans lt₃ lt, memo₃, ?_⟩
  rw [items, eq₁]
  dsimp only
  rw [eq₂]
  dsimp only
  rw [eq₃]

/-- An item, and after a comma the others. -/
theorem items_more (hi : item.Takes ts a (t :: us)) (ht : t.lexeme = .operator ",")
    (rest : Rule.Takes (g := false) (src.items item noItem noEnd) us as vs) :
    Rule.Takes (g := false) (src.items item noItem noEnd) ts (a :: as) vs := by
  intro memo
  obtain ⟨lt, memo₁, eq₁⟩ := orFail_takes src hi noItem memo
  have comma : (src.operator ",").Takes (t :: us) () us := eat_takes direct ht
  obtain ⟨lt₂, memo₂, eq₂⟩ := comma memo₁
  obtain ⟨lt₃, memo₃, eq₃⟩ := rest memo₂
  refine ⟨Nat.lt_trans lt₃ (Nat.lt_trans lt₂ lt), memo₃, ?_⟩
  rw [items, eq₁]
  dsimp only
  rw [eq₂]
  dsimp only
  rw [eq₃]
  rfl

end Items

/-! ## Chains -/

section Chains

variable {symbols : List String} {operand : Rule false Node} {left right e : Node} {vs : List Token}

/-- The chain stops where no operator of its level is ahead. -/
theorem chainTail_stop (h : ∀ symbol ∈ symbols, ahead us ≠ some (.operator symbol)) :
    Rule.Takes (g := true) (src.chainTail symbols operand left) us left us := by
  intro memo
  have seen := look_token direct us memo
  rw [chainTail]
  generalize src.look us memo = sight at seen ⊢
  obtain ⟨token, memo'⟩ := sight
  cases seen
  refine ⟨Nat.lt_succ_self _, memo', ?_⟩
  cases us with
  | nil => rfl
  | cons t us =>
    dsimp only [List.headD_cons]
    cases ht : t.lexeme with
    | operator symbol =>
      dsimp only
      have other : symbol ∉ symbols := fun mem => h symbol mem (by rw [ahead_cons, ht])
      rw [if_neg other]
    | _ => rfl

/-- An operator of the chain and its right operand, which make the left operand of what follows. -/
theorem chainTail_step {symbol : String} (ht : t.lexeme = .operator symbol) (mem : symbol ∈ symbols)
    (ho : operand.Takes ts right us)
    (rest : Rule.Takes (g := true)
      (src.chainTail symbols operand (.call (.str symbol) [left, right])) us e vs) :
    Rule.Takes (g := true) (src.chainTail symbols operand left) (t :: ts) e vs := by
  intro memo
  have seen := look_token direct (t :: ts) memo
  rw [chainTail]
  generalize src.look (t :: ts) memo = sight at seen ⊢
  obtain ⟨token, memo₁⟩ := sight
  cases seen
  obtain ⟨lt₂, memo₂, eq₂⟩ := orFail_takes src ho (.operand symbol) memo₁
  obtain ⟨lt₃, memo₃, eq₃⟩ := rest memo₂
  refine ⟨?_, memo₃, ?_⟩
  · have shorter₂ : us.length < ts.length := lt₂
    have shorter₃ : vs.length < us.length + 1 := lt₃
    show vs.length < ts.length + 1 + 1
    omega
  · dsimp only [List.headD_cons]
    rw [ht]
    dsimp only
    rw [if_pos mem, eq₂]
    dsimp only
    rw [eq₃]
    rfl

end Chains

/-! ## Expressions -/

section Expressions

variable {expression : Rule false Node} {e : Node} {es : List Node}

theorem call_misses (h : ∀ name, ahead ts ≠ some (.identifier name)) :
    (src.call expression).Misses ts :=
  (identifier_misses direct h).bind _

theorem parenthesised_misses (h : ahead ts ≠ some (.operator "(")) :
    (src.parenthesised expression).Misses ts :=
  (eat_misses direct h).bind _

theorem literal_takes {l : Lexeme} (ht : t.lexeme = l)
    (h : ∀ offset, literalOf offset l = some (.ok e)) : src.literal.Takes (t :: us) e us := by
  intro memo
  have taken : (src.take (literalOf (src.here (t :: us)))).Takes (t :: us) (.ok e) us :=
    take_takes direct (ht ▸ h _)
  obtain ⟨lt, memo', eq⟩ := taken memo
  refine ⟨lt, memo', ?_⟩
  unfold literal
  rw [eq]

/-- A literal is tried after calls and brackets, which do not begin with it. -/
theorem value_takes_literal {l : Lexeme} (ht : t.lexeme = l) (hn : ∀ name, l ≠ .identifier name)
    (ho : l ≠ .operator "(") (h : ∀ offset, literalOf offset l = some (.ok e)) :
    (src.value expression).Takes (t :: us) e us := by
  have no_call : (src.call expression).Misses (t :: us) :=
    call_misses direct fun name => by simpa [ht] using hn name
  have no_bracket : (src.parenthesised expression).Misses (t :: us) :=
    parenthesised_misses direct (by simpa [ht] using ho)
  exact no_call.orElse (no_bracket.orElse (literal_takes direct ht h))

theorem value_takes_reference {name : String} (ht : t.lexeme = .identifier name)
    (hu : ahead us ≠ some (.operator "(")) :
    (src.value expression).Takes (t :: us) (.reference (.str name)) us := by
  have no_call : (src.call expression).Misses (t :: us) :=
    (identifier_takes direct ht).bind_misses ((eat_misses direct hu).bind _)
  have no_bracket : (src.parenthesised expression).Misses (t :: us) :=
    parenthesised_misses direct (by simp [ht])
  exact no_call.orElse (no_bracket.orElse (literal_takes direct ht fun _ => rfl))

theorem value_takes_bracket {vs : List Token} {c : Token} (ht : t.lexeme = .operator "(")
    (he : expression.Takes ts e (c :: vs)) (hc : c.lexeme = .operator ")") :
    (src.value expression).Takes (t :: ts) e vs := by
  have no_call : (src.call expression).Misses (t :: ts) :=
    call_misses direct fun name => by simp [ht]
  have bracket : (src.parenthesised expression).Takes (t :: ts) e vs :=
    (eat_takes direct ht).bind (he.bind ((expect_takes direct _ hc).map _))
  exact no_call.orElse (bracket.orElse _)

theorem value_takes_call {name : String} {o : Token} (ht : t.lexeme = .identifier name)
    (ho : o.lexeme = .operator "(") (ha : (src.arguments expression name).Takes ts es us) :
    (src.value expression).Takes (t :: o :: ts) (.call (.str name) es) us :=
  ((identifier_takes direct ht).bind ((eat_takes direct ho).bind (ha.map _))).orElse _

theorem arguments_takes_none {name : String} (ht : t.lexeme = .operator ")") :
    (src.arguments expression name).Takes (t :: us) [] us :=
  ((eat_takes direct ht).map _).orElse _

theorem arguments_takes_items {name : String} (ht : ahead ts ≠ some (.operator ")"))
    (hi : Rule.Takes (g := false)
      (src.items expression (.argument name) (.argumentEnd name)) ts es us) :
    (src.arguments expression name).Takes ts es us := by
  have no_end : (src.operator ")").Misses ts := eat_misses direct ht
  exact (no_end.map _).orElse hi

end Expressions

omit direct in
/-- None of these operators is ahead. -/
def Clear (symbols : List String) (us : List Token) : Prop :=
  ∀ symbol ∈ symbols, ahead us ≠ some (.operator symbol)

omit direct in
theorem Clear.mono {symbols symbols' : List String} (h : Clear symbols us)
    (sub : symbols' ⊆ symbols) : Clear symbols' us :=
  fun symbol mem => h symbol (sub mem)

omit direct in
theorem clear_cons {symbols : List String} {symbol : String} (ht : t.lexeme = .operator symbol)
    (other : symbol ∉ symbols) : Clear symbols (t :: us) := by
  intro symbol' mem eq
  rw [ahead_cons, ht] at eq
  cases eq
  exact other mem

omit direct in
theorem clear_of_semicolon {symbols : List String} (ht : t.lexeme = .semicolon) :
    Clear symbols (t :: us) := by
  intro symbol' mem eq
  rw [ahead_cons, ht] at eq
  cases eq

/-- A product, as the parser reads it with `levels` to go. -/
abbrev product (src : Source) (levels : Nat) : Rule false Node :=
  src.chain ["*", "/"] (src.value (src.expression levels))

/-- If the parser goes on after these words with the tree `e`, then it does so from before them. -/
def Continues (src : Source) (ls : List Lexeme) (e : Node) : Prop :=
  ∀ ⦃levels : Nat⦄ ⦃ts us vs : List Token⦄ ⦃v : Node⦄, ls.length ≤ levels →
    ts.map Token.lexeme = ls → Clear ["(", "*", "/"] us →
    Rule.Takes (g := true) (src.chainTail ["+", "-"] (src.product levels) e) us v vs →
    (src.expression (levels + 1)).Takes (ts ++ us) v vs

theorem Continues.takes {ls : List Lexeme} {e : Node} (h : src.Continues ls e) {levels : Nat}
    (lt : ls.length < levels) (words : ts.map Token.lexeme = ls)
    (clear : Clear ["(", "*", "/", "+", "-"] us) :
    (src.expression levels).Takes (ts ++ us) e us := by
  obtain ⟨k, rfl⟩ : ∃ k, levels = k + 1 := ⟨levels - 1, by omega⟩
  have stop : Clear ["+", "-"] us := clear.mono (by decide)
  exact h (Nat.le_of_lt_succ lt) words (clear.mono (by decide)) (chainTail_stop direct stop)

mutual

/-- An operator and its operand are one more step of the chain that continues the left operand. The
induction is on the phrase, so it goes from the last operator to the first. -/
theorem expression_continues {ls e} : Expression ls e → src.Continues ls e
  | .product product => by
    intro levels ts us vs v le words clear tail
    have stop : Clear ["*", "/"] us := clear.mono (by decide)
    have taken : (src.product levels).Takes (ts ++ us) e us :=
      product_continues product le words (clear.mono (by decide)) (chainTail_stop direct stop)
    exact taken.bind tail
  | @Expression.apply _ _ symbol _ b left additive right => by
    intro levels ts us vs v le words clear tail
    obtain ⟨ts₁, _, rfl, words₁, words₂⟩ := List.map_eq_append_iff.1 words
    obtain ⟨t, ts₂, rfl, ht, words₂⟩ := List.map_eq_cons_iff.1 words₂
    rw [List.length_append, List.length_cons] at le
    have stop : Clear ["*", "/"] us := clear.mono (by decide)
    have taken : (src.product levels).Takes (ts₂ ++ us) b us :=
      product_continues right (by omega) words₂ (clear.mono (by decide)) (chainTail_stop direct stop)
    have other : symbol ∉ ["(", "*", "/"] :=
      (by decide : ∀ s ∈ ["+", "-"], s ∉ ["(", "*", "/"]) symbol additive
    rw [List.append_assoc, List.cons_append]
    exact expression_continues left (by omega) words₁ (clear_cons ht other)
      (chainTail_step direct ht additive taken tail)

/-- The same one level down. A bracket after the words would make a call of a name, so none may follow. -/
theorem product_continues {ls e} : Product ls e →
    ∀ ⦃levels : Nat⦄ ⦃ts us vs : List Token⦄ ⦃v : Node⦄,
    ls.length ≤ levels → ts.map Token.lexeme = ls → Clear ["("] us →
    Rule.Takes (g := true) (src.chainTail ["*", "/"] (src.value (src.expression levels)) e) us v vs →
    (src.product levels).Takes (ts ++ us) v vs
  | .value value => fun _ _ _ _ _ le words clear tail =>
    (value_takes value le words clear).bind tail
  | @Product.apply _ _ symbol _ b left multiplicative right => by
    intro levels ts us vs v le words clear tail
    obtain ⟨ts₁, _, rfl, words₁, words₂⟩ := List.map_eq_append_iff.1 words
    obtain ⟨t, ts₂, rfl, ht, words₂⟩ := List.map_eq_cons_iff.1 words₂
    rw [List.length_append, List.length_cons] at le
    have taken : (src.value (src.expression levels)).Takes (ts₂ ++ us) b us :=
      value_takes right (by omega) words₂ clear
    have other : symbol ∉ ["("] :=
      (by decide : ∀ s ∈ ["*", "/"], s ∉ ["("]) symbol multiplicative
    rw [List.append_assoc, List.cons_append]
    exact product_continues left (by omega) words₁ (clear_cons ht other)
      (chainTail_step direct ht multiplicative taken tail)

/-- A value is the first of its alternatives that does not miss. Each bracket takes a level along with its
token. -/
theorem value_takes {ls e} : Value ls e → ∀ ⦃levels : Nat⦄ ⦃ts us : List Token⦄,
    ls.length ≤ levels → ts.map Token.lexeme = ls → Clear ["("] us →
    (src.value (src.expression levels)).Takes (ts ++ us) e us
  | .call arguments => by
    intro levels ts us le words clear
    obtain ⟨t, _, rfl, ht, words₁⟩ := List.map_eq_cons_iff.1 words
    obtain ⟨o, _, rfl, ho, words₂⟩ := List.map_eq_cons_iff.1 words₁
    obtain ⟨ts, _, rfl, inner, closing⟩ := List.map_eq_append_iff.1 words₂
    obtain ⟨c, rfl, hc⟩ := List.map_eq_singleton_iff.1 closing
    simp only [List.length_cons, List.length_append, List.length_nil] at le
    simp only [List.cons_append, List.append_assoc, List.nil_append]
    exact value_takes_call direct ht ho (arguments_takes arguments _ (by omega) inner hc)
  | .bracket expression => by
    intro levels ts us le words clear
    obtain ⟨t, _, rfl, ht, words₁⟩ := List.map_eq_cons_iff.1 words
    obtain ⟨ts, _, rfl, inner, closing⟩ := List.map_eq_append_iff.1 words₁
    obtain ⟨c, rfl, hc⟩ := List.map_eq_singleton_iff.1 closing
    simp only [List.length_cons, List.length_append, List.length_nil] at le
    simp only [List.cons_append, List.append_assoc, List.nil_append]
    have taken : (src.expression levels).Takes (ts ++ c :: us) e (c :: us) :=
      (expression_continues expression).takes direct (by omega) inner (clear_cons hc (by decide))
    exact value_takes_bracket direct ht taken hc
  | .float reads => by
    intro levels ts us le words clear
    obtain ⟨t, rfl, ht⟩ := List.map_eq_singleton_iff.1 words
    refine value_takes_literal direct ht nofun nofun fun offset => ?_
    simp only [literalOf, reads, Option.map_some]
  | .int short fits => by
    intro levels ts us le words clear
    obtain ⟨t, rfl, ht⟩ := List.map_eq_singleton_iff.1 words
    refine value_takes_literal direct ht nofun nofun fun offset => ?_
    simp only [literalOf, if_neg (Nat.not_lt.2 short), if_pos fits]
  | .reference => by
    intro levels ts us le words clear
    obtain ⟨t, rfl, ht⟩ := List.map_eq_singleton_iff.1 words
    exact value_takes_reference direct ht (clear "(" List.mem_cons_self)

/-- What stands between the brackets of a call, up to the closing one. -/
theorem arguments_takes {ls es} : Arguments ls es → ∀ (name : String) ⦃levels : Nat⦄
    ⦃ts us : List Token⦄ ⦃c : Token⦄, ls.length < levels → ts.map Token.lexeme = ls →
    c.lexeme = .operator ")" →
    (src.arguments (src.expression levels) name).Takes (ts ++ c :: us) es us
  | .none => by
    intro name levels ts us c lt words hc
    cases List.map_eq_nil_iff.1 words
    exact arguments_takes_none direct hc
  | .some items => by
    intro name levels ts us c lt words hc
    refine arguments_takes_items direct ?_ (items_takes items _ _ lt words hc)
    obtain ⟨l, rs, rfl, opening⟩ := items.opening
    obtain ⟨t, ts, rfl, ht, -⟩ := List.map_eq_cons_iff.1 words
    rw [List.cons_append, ahead_cons, ht]
    rintro ⟨⟩
    cases opening

/-- Arguments are followed by a comma or a bracket, and neither goes on with an expression. -/
theorem items_takes {ls es} : Items ls es → ∀ (noItem noEnd : Cause) ⦃levels : Nat⦄
    ⦃ts us : List Token⦄ ⦃c : Token⦄, ls.length < levels → ts.map Token.lexeme = ls →
    c.lexeme = .operator ")" →
    Rule.Takes (g := false) (src.items (src.expression levels) noItem noEnd) (ts ++ c :: us) es us
  | @Items.one _ e item => by
    intro noItem noEnd levels ts us c lt words hc
    have taken : (src.expression levels).Takes (ts ++ c :: us) e (c :: us) :=
      (expression_continues item).takes direct lt words (clear_cons hc (by decide))
    exact items_one direct _ _ taken hc
  | @Items.more _ e _ _ item items => by
    intro noItem noEnd levels ts us c lt words hc
    obtain ⟨ts₁, _, rfl, words₁, words₂⟩ := List.map_eq_append_iff.1 words
    obtain ⟨t, ts₂, rfl, ht, words₂⟩ := List.map_eq_cons_iff.1 words₂
    rw [List.length_append, List.length_cons] at lt
    rw [List.append_assoc, List.cons_append]
    have taken : (src.expression levels).Takes (ts₁ ++ t :: (ts₂ ++ c :: us)) e
        (t :: (ts₂ ++ c :: us)) :=
      (expression_continues item).takes direct (by omega) words₁ (clear_cons ht (by decide))
    exact items_more direct _ _ taken ht (items_takes items _ _ (by omega) words₂ hc)

end

/-! ## Alternatives that miss -/

section Alternatives

variable {expression : Rule false Node} {block : Rule true (List Node)} {levels : Nat}

/-- An expression is missed where no word that begins one is ahead: every alternative of a value looks at
that word and leaves it. -/
theorem expression_misses (h : ∀ l, ahead ts = some l → opens l = false) :
    (src.expression (levels + 1)).Misses ts := by
  have no_call : (src.call (src.expression levels)).Misses ts :=
    call_misses direct fun name eq => nomatch h _ eq
  have no_bracket : (src.parenthesised (src.expression levels)).Misses ts :=
    parenthesised_misses direct fun eq => nomatch h _ eq
  have no_literal : src.literal.Misses ts := by
    intro memo
    have missed : (src.take (literalOf (src.here ts))).Misses ts := by
      refine take_misses direct fun l hl => ?_
      have closed := h l hl
      cases l <;> first | rfl | cases closed
    obtain ⟨memo', eq⟩ := missed memo
    refine ⟨memo', ?_⟩
    unfold literal
    rw [eq]
  exact ((no_call.orElse_misses (no_bracket.orElse_misses no_literal)).bind _).bind _

theorem assignment_misses (h : ∀ name, ahead ts ≠ some (.identifier name)) :
    (src.terminated (src.assignment expression)).Misses ts :=
  ((identifier_misses direct h).bind _).bind _

/-- An expression is not taken for an assignment, since no equals sign is in it. -/
theorem assignment_misses_expression {ls : List Lexeme} {e : Node} (phrase : Expression ls e)
    (words : ts.map Token.lexeme = ls) (ht : t.lexeme = .semicolon) :
    (src.terminated (src.assignment expression)).Misses (ts ++ t :: us) := by
  obtain ⟨l, rs, rfl, opening⟩ := phrase.opening
  obtain ⟨first, ts, rfl, hl, words₁⟩ := List.map_eq_cons_iff.1 words
  cases l with
  | identifier name =>
    have no_equals : ahead (ts ++ t :: us) ≠ some (.operator "=") := by
      cases ts with
      | nil => simp [ht]
      | cons second ts =>
        intro eq
        refine phrase.no_equals (List.mem_cons_of_mem _ ?_)
        rw [← words₁, List.map_cons]
        rw [List.cons_append, ahead_cons] at eq
        exact List.mem_cons.2 (.inl (Option.some.inj eq).symm)
    exact ((identifier_takes direct hl).bind_misses ((eat_misses direct no_equals).bind _)).bind _
  | _ => exact assignment_misses direct fun name => by simp [hl]

theorem returning_misses (h : ahead ts ≠ some (.keyword "return")) :
    (src.terminated (src.returning expression)).Misses ts :=
  ((eat_misses direct h).bind _).bind _

theorem expressionStatement_misses (h : ∀ l, ahead ts = some l → opens l = false) :
    (src.terminated ((src.expression (levels + 1)).map .expression)).Misses ts :=
  ((expression_misses direct h).map _).bind _

theorem function_misses (h : ahead ts ≠ some (.keyword "fn")) : (src.function block).Misses ts :=
  (eat_misses direct h).bind _

theorem branch_misses (h : ahead ts ≠ some (.keyword "if")) :
    (src.branch expression block).Misses ts :=
  (eat_misses direct h).bind _

theorem loop_misses (h : ahead ts ≠ some (.keyword "while")) :
    (src.loop expression block).Misses ts :=
  (eat_misses direct h).bind _

/-- At the end of a block there is no statement. -/
theorem statement_misses (h : ∀ l, ahead ts = some l → l = .operator "\x7d") :
    (src.statement (src.expression (levels + 1)) block).Misses ts := by
  have other {l : Lexeme} (ne : l ≠ .operator "\x7d") : ahead ts ≠ some l :=
    fun eq => ne (h l eq)
  have closed (l : Lexeme) (eq : ahead ts = some l) : opens l = false := by
    rw [h l eq]
    rfl
  refine (assignment_misses direct fun name => other nofun).orElse_misses ?_
  refine (returning_misses direct (other nofun)).orElse_misses ?_
  refine (expressionStatement_misses direct closed).orElse_misses ?_
  refine (function_misses direct (other nofun)).orElse_misses ?_
  refine (branch_misses direct (other nofun)).orElse_misses ?_
  refine (loop_misses direct (other nofun)).orElse_misses ?_
  have no_semicolon : (src.eat .semicolon).Misses ts := eat_misses direct (other nofun)
  exact no_semicolon.map _

/-- A keyword that begins a statement is not taken for an assignment or an expression. -/
theorem keyword_misses {word : String} (ht : t.lexeme = .keyword word) :
    (src.terminated (src.assignment expression)).Misses (t :: us) ∧
      (src.terminated ((src.expression (levels + 1)).map .expression)).Misses (t :: us) := by
  refine ⟨assignment_misses direct fun name => by simp [ht], ?_⟩
  refine expressionStatement_misses direct fun l eq => ?_
  rw [ahead_cons, ht] at eq
  cases eq
  rfl

end Alternatives

/-! ## Statements -/

section Statements

variable {expression : Rule false Node} {block : Rule true (List Node)} {e c b : Node}
  {arms : List (Node × Node)} {vs : List Token}

theorem assignment_takes {name : String} {o s : Token} (ht : t.lexeme = .identifier name)
    (ho : o.lexeme = .operator "=") (he : expression.Takes ts e (s :: us))
    (hs : s.lexeme = .semicolon) :
    (src.terminated (src.assignment expression)).Takes (t :: o :: ts) (.assignment (.str name) e)
      us := by
  have assigned : (src.assignment expression).Takes (t :: o :: ts) (.assignment (.str name) e)
      (s :: us) :=
    (identifier_takes direct ht).bind ((eat_takes direct ho).bind (he.map _))
  exact assigned.bind ((eat_takes direct hs).map _)

theorem returning_takes {s : Token} (ht : t.lexeme = .keyword "return")
    (he : expression.Takes ts e (s :: us)) (hs : s.lexeme = .semicolon) :
    (src.terminated (src.returning expression)).Takes (t :: ts) (.returns e) us := by
  have returned : (src.returning expression).Takes (t :: ts) (.returns e) (s :: us) :=
    (eat_takes direct ht).bind (he.map _)
  exact returned.bind ((eat_takes direct hs).map _)

theorem expressionStatement_takes {s : Token} (he : expression.Takes ts e (s :: us))
    (hs : s.lexeme = .semicolon) :
    (src.terminated (expression.map .expression)).Takes ts (.expression e) us :=
  (he.map Node.expression).bind ((eat_takes direct hs).map _)

theorem braced_takes_block {ss : List Node} {s : Token} (context : String)
    (ht : t.lexeme = .operator "\x7b") (hb : block.Takes ts ss (s :: us))
    (hs : s.lexeme = .operator "\x7d") :
    (src.braced block context).Takes (t :: ts) (.block ss) us :=
  (expect_takes direct _ ht).bind (hb.bind ((expect_takes direct _ hs).map _))

theorem function_takes {name : String} {params : List String} {i o : Token}
    (ht : t.lexeme = .keyword "fn") (hi : i.lexeme = .identifier name)
    (ho : o.lexeme = .operator "(") (hp : (src.parameters name).Takes ts params us)
    (hb : (src.braced block ("fn " ++ name ++ "(...)")).Takes us b vs) :
    (src.function block).Takes (t :: i :: o :: ts)
      (.function (.str name) (params.map fun (param : String) => .str param) b) vs := by
  have named : (src.orFail src.identifier .functionName).Takes (i :: o :: ts) name (o :: ts) :=
    orFail_takes src (identifier_takes direct hi) _
  exact (eat_takes direct ht).bind (named.bind ((expect_takes direct _ ho).bind
    (hp.bind (hb.map _))))

omit direct in
theorem arm_takes {word : String} (he : expression.Takes ts c us)
    (hb : (src.braced block (word ++ " condition")).Takes us b vs) :
    (src.arm expression block word).Takes ts (c, b) vs :=
  (orFail_takes src he _).bind (hb.map fun body => (c, body))

theorem branch_takes (ht : t.lexeme = .keyword "if")
    (ha : Rule.Takes (g := false) (src.arms expression block "if") ts arms us) :
    (src.branch expression block).Takes (t :: ts) (.branch arms) us := by
  have taken : (src.keyword "if").Takes (t :: ts) () ts := eat_takes direct ht
  exact taken.bind (ha.map Node.branch)

theorem loop_takes (ht : t.lexeme = .keyword "while")
    (ha : (src.arm expression block "while").Takes ts (c, b) us) :
    (src.loop expression block).Takes (t :: ts) (.loop c b) us := by
  have taken : (src.keyword "while").Takes (t :: ts) () ts := eat_takes direct ht
  exact taken.bind (ha.map _)

/-- The last arm of a branch without an `else`. -/
theorem arms_last {word : String} (ha : (src.arm expression block word).Takes ts (c, b) us)
    (no_elif : ahead us ≠ some (.keyword "elif")) (no_else : ahead us ≠ some (.keyword "else")) :
    Rule.Takes (g := false) (src.arms expression block word) ts [(c, b)] us := by
  intro memo
  obtain ⟨lt, memo₁, eq₁⟩ := ha memo
  have missed : (src.keyword "elif").Misses us := eat_misses direct no_elif
  obtain ⟨memo₂, eq₂⟩ := missed memo₁
  have missed' : (src.keyword "else").Misses us := eat_misses direct no_else
  obtain ⟨memo₃, eq₃⟩ := missed' memo₂
  refine ⟨lt, memo₃, ?_⟩
  rw [Source.arms, eq₁]
  dsimp only
  rw [eq₂]
  dsimp only
  rw [eq₃]

/-- An arm, and an `else` after it. -/
theorem arms_otherwise {word : String} {o : Node}
    (ha : (src.arm expression block word).Takes ts (c, b) (t :: us))
    (ht : t.lexeme = .keyword "else") (ho : (src.braced block "'else'").Takes us o vs) :
    Rule.Takes (g := false) (src.arms expression block word) ts [(c, b), (.bool true, o)] vs := by
  intro memo
  obtain ⟨lt, memo₁, eq₁⟩ := ha memo
  have missed : (src.keyword "elif").Misses (t :: us) := eat_misses direct (by simp [ht])
  obtain ⟨memo₂, eq₂⟩ := missed memo₁
  have taken : (src.keyword "else").Takes (t :: us) () us := eat_takes direct ht
  obtain ⟨lt₃, memo₃, eq₃⟩ := taken memo₂
  obtain ⟨lt₄, memo₄, eq₄⟩ := ho memo₃
  refine ⟨Nat.lt_trans lt₄ (Nat.lt_trans lt₃ lt), memo₄, ?_⟩
  rw [Source.arms, eq₁]
  dsimp only
  rw [eq₂]
  dsimp only
  rw [eq₃]
  dsimp only
  rw [eq₄]
  rfl

/-- An arm, and after an `elif` the others. -/
theorem arms_elif {word : String}
    (ha : (src.arm expression block word).Takes ts (c, b) (t :: us))
    (ht : t.lexeme = .keyword "elif")
    (rest : Rule.Takes (g := false) (src.arms expression block "elif") us arms vs) :
    Rule.Takes (g := false) (src.arms expression block word) ts ((c, b) :: arms) vs := by
  intro memo
  obtain ⟨lt, memo₁, eq₁⟩ := ha memo
  have taken : (src.keyword "elif").Takes (t :: us) () us := eat_takes direct ht
  obtain ⟨lt₂, memo₂, eq₂⟩ := taken memo₁
  obtain ⟨lt₃, memo₃, eq₃⟩ := rest memo₂
  refine ⟨Nat.lt_trans lt₃ (Nat.lt_trans lt₂ lt), memo₃, ?_⟩
  rw [Source.arms, eq₁]
  dsimp only
  rw [eq₂]
  dsimp only
  rw [eq₃]
  rfl

end Statements

section Blocks

variable {statement : Rule false Node} {ss : List Node} {vs : List Token}

omit direct in
theorem statements_stop (hs : statement.Misses us) :
    Rule.Takes (g := true) (statements statement) us [] us := by
  intro memo
  obtain ⟨memo', eq⟩ := hs memo
  refine ⟨Nat.lt_succ_self _, memo', ?_⟩
  rw [statements, eq]

omit direct in
/-- A statement that leaves something in the tree, and those after it. -/
theorem statements_step {s : Node} (proper : s ≠ .empty) (hs : statement.Takes ts s us)
    (rest : Rule.Takes (g := true) (statements statement) us ss vs) :
    Rule.Takes (g := true) (statements statement) ts (s :: ss) vs := by
  intro memo
  obtain ⟨lt, memo₁, eq₁⟩ := hs memo
  obtain ⟨lt₂, memo₂, eq₂⟩ := rest memo₁
  have shorter : us.length < ts.length := lt
  have shorter₂ : vs.length < us.length + 1 := lt₂
  refine ⟨show vs.length < ts.length + 1 by omega, memo₂, ?_⟩
  rw [statements, eq₁]
  dsimp only
  rw [eq₂]
  cases s with
  | empty => exact absurd rfl proper
  | _ => rfl

omit direct in
theorem statements_skip (hs : statement.Takes ts .empty us)
    (rest : Rule.Takes (g := true) (statements statement) us ss vs) :
    Rule.Takes (g := true) (statements statement) ts ss vs := by
  intro memo
  obtain ⟨lt, memo₁, eq₁⟩ := hs memo
  obtain ⟨lt₂, memo₂, eq₂⟩ := rest memo₁
  have shorter : us.length < ts.length := lt
  have shorter₂ : vs.length < us.length + 1 := lt₂
  refine ⟨show vs.length < ts.length + 1 by omega, memo₂, ?_⟩
  rw [statements, eq₁]
  dsimp only
  rw [eq₂]
  rfl

/-- A semicolon on its own is the last of the alternatives; all others miss it. -/
theorem statement_takes_semicolon {block : Rule true (List Node)} {levels : Nat}
    (ht : t.lexeme = .semicolon) :
    (src.statement (src.expression (levels + 1)) block).Takes (t :: us) .empty us := by
  have other {l : Lexeme} (ne : l ≠ .semicolon) : ahead (t :: us) ≠ some l := by
    rintro eq
    rw [ahead_cons, ht] at eq
    exact ne (Option.some.inj eq).symm
  have closed (l : Lexeme) (eq : ahead (t :: us) = some l) : opens l = false := by
    rw [ahead_cons, ht] at eq
    cases eq
    rfl
  refine (assignment_misses direct fun name => other nofun).orElse ?_
  refine (returning_misses direct (other nofun)).orElse ?_
  refine (expressionStatement_misses direct closed).orElse ?_
  refine (function_misses direct (other nofun)).orElse ?_
  refine (branch_misses direct (other nofun)).orElse ?_
  refine (loop_misses direct (other nofun)).orElse ?_
  exact (eat_takes direct ht).map _

end Blocks

/-! ## Programs -/

theorem separated_takes {ls : List Lexeme} {names : List String} (h : Separated Identifier ls names)
    (noItem noEnd : Cause) {c : Token} (words : ts.map Token.lexeme = ls)
    (hc : c.lexeme = .operator ")") :
    Rule.Takes (g := false) (src.items src.identifier noItem noEnd) (ts ++ c :: us) names us := by
  induction h generalizing ts with
  | one item =>
    obtain ⟨t, rfl, ht⟩ := List.map_eq_singleton_iff.1 (words.trans item)
    exact items_one direct _ _ (identifier_takes direct ht) hc
  | more item items ih =>
    obtain ⟨ts₁, _, rfl, words₁, words₂⟩ := List.map_eq_append_iff.1 words
    obtain ⟨t, rfl, ht⟩ := List.map_eq_singleton_iff.1 (words₁.trans item)
    obtain ⟨comma, ts₂, rfl, hcomma, words₃⟩ := List.map_eq_cons_iff.1 words₂
    exact items_more direct _ _ (identifier_takes direct ht) hcomma (ih words₃)

/-- The parameters of a function, up to the closing bracket. -/
theorem parameters_takes {ls : List Lexeme} {names : List String} (h : Parameters ls names)
    (function : String) {c : Token} (words : ts.map Token.lexeme = ls)
    (hc : c.lexeme = .operator ")") :
    (src.parameters function).Takes (ts ++ c :: us) names us := by
  cases h with
  | none =>
    cases List.map_eq_nil_iff.1 words
    exact ((eat_takes direct hc).map _).orElse _
  | some items =>
    have no_end : (src.operator ")").Misses (ts ++ c :: us) := by
      refine eat_misses direct ?_
      obtain ⟨name, rs, rfl⟩ := items.starts
      obtain ⟨t, ts, rfl, ht, -⟩ := List.map_eq_cons_iff.1 words
      simp [ht]
    exact (no_end.map _).orElse (separated_takes direct items _ _ words hc)

/-- What may stand after a statement: no word that would go on with a branch. -/
def Settled (us : List Token) : Prop :=
  ahead us ≠ some (.keyword "elif") ∧ ahead us ≠ some (.keyword "else")

omit direct in
theorem settled_append {ls : List Lexeme} {ss : List Node} (block : Block ls ss)
    (words : ts.map Token.lexeme = ls) (h : Settled us) : Settled (ts ++ us) := by
  cases ts with
  | nil => exact h
  | cons t ts =>
    rw [List.map_cons] at words
    subst words
    have begins := block.begins
    constructor
    all_goals
      rw [List.cons_append, ahead_cons]
      rintro eq
      rw [Option.some.inj eq] at begins
      cases begins

/-- Nothing but the end of a block or of the input is ahead. -/
def Closed (us : List Token) : Prop := ∀ l, ahead us = some l → l = .operator "\x7d"

omit direct in
theorem Closed.settled (h : Closed us) : Settled us := by
  constructor
  all_goals
    intro eq
    cases h _ eq

omit direct in
/-- A brace ends an expression. -/
theorem clear_of_braced {ls : List Lexeme} {b : Node} (h : Braced ls b)
    (words : ts.map Token.lexeme = ls) : Clear ["(", "*", "/", "+", "-"] (ts ++ us) := by
  cases h with
  | block block =>
    obtain ⟨t, ts, rfl, ht, -⟩ := List.map_eq_cons_iff.1 words
    exact clear_cons ht (by decide)

/-- A statement, as the parser reads it in a block with `levels` below it. -/
abbrev statementAt (src : Source) (levels : Nat) : Rule false Node :=
  src.statement (src.expression (levels + 1)) (src.block levels)

theorem expression_takes {ls : List Lexeme} {e : Node} (h : Expression ls e) {levels : Nat}
    (lt : ls.length < levels) (words : ts.map Token.lexeme = ls)
    (clear : Clear ["(", "*", "/", "+", "-"] us) :
    (src.expression levels).Takes (ts ++ us) e us :=
  (expression_continues direct h).takes direct lt words clear

mutual

/-- A statement is taken by its own alternative, and those tried before it miss. An expression is the hard
case, since an assignment begins like one. -/
theorem statement_takes {ls s} : Statement ls s → ∀ ⦃levels : Nat⦄ ⦃ts us : List Token⦄,
    ls.length ≤ levels → ts.map Token.lexeme = ls → Settled us →
    (src.statementAt levels).Takes (ts ++ us) s us
  | @Statement.assignment _ _ e value => by
    intro levels ts us le words settled
    obtain ⟨t, _, rfl, ht, words₁⟩ := List.map_eq_cons_iff.1 words
    obtain ⟨o, _, rfl, ho, words₂⟩ := List.map_eq_cons_iff.1 words₁
    obtain ⟨ts, _, rfl, inner, closing⟩ := List.map_eq_append_iff.1 words₂
    obtain ⟨c, rfl, hc⟩ := List.map_eq_singleton_iff.1 closing
    simp only [List.length_cons, List.length_append, List.length_nil] at le
    simp only [List.cons_append, List.append_assoc, List.nil_append]
    have taken : (src.expression (levels + 1)).Takes (ts ++ c :: us) e (c :: us) :=
      expression_takes direct value (by omega) inner (clear_of_semicolon hc)
    exact (assignment_takes direct ht ho taken hc).orElse _
  | @Statement.returns _ e value => by
    intro levels ts us le words settled
    obtain ⟨t, _, rfl, ht, words₁⟩ := List.map_eq_cons_iff.1 words
    obtain ⟨ts, _, rfl, inner, closing⟩ := List.map_eq_append_iff.1 words₁
    obtain ⟨c, rfl, hc⟩ := List.map_eq_singleton_iff.1 closing
    simp only [List.length_cons, List.length_append, List.length_nil] at le
    simp only [List.cons_append, List.append_assoc, List.nil_append]
    have taken : (src.expression (levels + 1)).Takes (ts ++ c :: us) e (c :: us) :=
      expression_takes direct value (by omega) inner (clear_of_semicolon hc)
    refine (assignment_misses direct (by simp [ht])).orElse ?_
    exact (returning_takes direct ht taken hc).orElse _
  | @Statement.expression _ e value => by
    intro levels ts us le words settled
    obtain ⟨ts, _, rfl, inner, closing⟩ := List.map_eq_append_iff.1 words
    obtain ⟨c, rfl, hc⟩ := List.map_eq_singleton_iff.1 closing
    simp only [List.length_cons, List.length_append, List.length_nil] at le
    simp only [List.append_assoc, List.cons_append, List.nil_append]
    have taken : (src.expression (levels + 1)).Takes (ts ++ c :: us) e (c :: us) :=
      expression_takes direct value (by omega) inner (clear_of_semicolon hc)
    have no_return : ahead (ts ++ c :: us) ≠ some (.keyword "return") := by
      obtain ⟨l, rs, rfl, opening⟩ := value.opening
      obtain ⟨t, ts, rfl, ht, -⟩ := List.map_eq_cons_iff.1 inner
      rintro eq
      rw [List.cons_append, ahead_cons, ht] at eq
      rw [Option.some.inj eq] at opening
      cases opening
    refine (assignment_misses_expression direct value inner hc).orElse ?_
    refine (returning_misses direct no_return).orElse ?_
    exact (expressionStatement_takes direct taken hc).orElse _
  | @Statement.function name _ _ _ b parameters body => by
    intro levels ts us le words settled
    obtain ⟨t, _, rfl, ht, words₁⟩ := List.map_eq_cons_iff.1 words
    obtain ⟨i, _, rfl, hi, words₂⟩ := List.map_eq_cons_iff.1 words₁
    obtain ⟨o, _, rfl, ho, words₃⟩ := List.map_eq_cons_iff.1 words₂
    obtain ⟨ts, _, rfl, inner, words₄⟩ := List.map_eq_append_iff.1 words₃
    obtain ⟨c, bs, rfl, hc, words₅⟩ := List.map_eq_cons_iff.1 words₄
    simp only [List.length_cons, List.length_append] at le
    simp only [List.cons_append, List.append_assoc]
    have braced : (src.braced (src.block levels) ("fn " ++ name ++ "(...)")).Takes (bs ++ us) b us :=
      braced_takes body _ (by omega) words₅
    have taken := function_takes direct ht hi ho (parameters_takes direct parameters _ inner hc) braced
    obtain ⟨no_assignment, no_expression⟩ := keyword_misses direct ht
    refine no_assignment.orElse ?_
    refine (returning_misses direct (by simp [ht])).orElse ?_
    exact no_expression.orElse (taken.orElse _)
  | @Statement.branch _ as arms => by
    intro levels ts us le words settled
    obtain ⟨t, ts, rfl, ht, words₁⟩ := List.map_eq_cons_iff.1 words
    rw [List.length_cons] at le
    rw [List.cons_append]
    have taken : (src.branch (src.expression (levels + 1)) (src.block levels)).Takes (t :: (ts ++ us))
        (.branch as) us :=
      branch_takes direct ht (arms_takes arms "if" (by omega) words₁ settled)
    obtain ⟨no_assignment, no_expression⟩ := keyword_misses direct ht
    refine no_assignment.orElse ?_
    refine (returning_misses direct (by simp [ht])).orElse ?_
    refine no_expression.orElse ?_
    exact (function_misses direct (by simp [ht])).orElse (taken.orElse _)
  | @Statement.loop _ c _ b condition body => by
    intro levels ts us le words settled
    obtain ⟨t, _, rfl, ht, words₁⟩ := List.map_eq_cons_iff.1 words
    obtain ⟨cs, bs, rfl, words₂, words₃⟩ := List.map_eq_append_iff.1 words₁
    simp only [List.length_cons, List.length_append] at le
    simp only [List.cons_append, List.append_assoc]
    have arm : (src.arm (src.expression (levels + 1)) (src.block levels) "while").Takes
        (cs ++ (bs ++ us)) (c, b) us :=
      arm_takes (expression_takes direct condition (by omega) words₂ (clear_of_braced body words₃))
        (braced_takes body _ (by omega) words₃)
    obtain ⟨no_assignment, no_expression⟩ := keyword_misses direct ht
    refine no_assignment.orElse ?_
    refine (returning_misses direct (by simp [ht])).orElse ?_
    refine no_expression.orElse ?_
    refine (function_misses direct (by simp [ht])).orElse ?_
    refine (branch_misses direct (by simp [ht])).orElse ?_
    exact (loop_takes direct ht arm).orElse _

/-- A block in braces; the opening one takes a level along with it. -/
theorem braced_takes {ls b} : Braced ls b → ∀ (context : String) ⦃levels : Nat⦄
    ⦃ts us : List Token⦄, ls.length ≤ levels → ts.map Token.lexeme = ls →
    (src.braced (src.block levels) context).Takes (ts ++ us) b us
  | @Braced.block _ ss block => by
    intro context levels ts us le words
    obtain ⟨t, _, rfl, ht, words₁⟩ := List.map_eq_cons_iff.1 words
    obtain ⟨ts, _, rfl, inner, closing⟩ := List.map_eq_append_iff.1 words₁
    obtain ⟨c, rfl, hc⟩ := List.map_eq_singleton_iff.1 closing
    simp only [List.length_cons, List.length_append, List.length_nil] at le
    simp only [List.cons_append, List.append_assoc, List.nil_append]
    have closed : Closed (c :: us) := by
      intro l eq
      rw [ahead_cons, hc] at eq
      exact (Option.some.inj eq).symm
    have taken : (src.block levels).Takes (ts ++ c :: us) ss (c :: us) :=
      block_takes block (by omega) inner closed
    exact braced_takes_block direct context ht taken hc

/-- What follows `if` or `elif`, provided that nothing more of the branch comes after it. -/
theorem arms_takes {ls as} : Arms ls as → ∀ (word : String) ⦃levels : Nat⦄
    ⦃ts us : List Token⦄, ls.length ≤ levels → ts.map Token.lexeme = ls → Settled us →
    Rule.Takes (g := false) (src.arms (src.expression (levels + 1)) (src.block levels) word)
      (ts ++ us) as us
  | @Arms.last _ c _ b condition body => by
    intro word levels ts us le words settled
    obtain ⟨cs, bs, rfl, words₁, words₂⟩ := List.map_eq_append_iff.1 words
    rw [List.length_append] at le
    rw [List.append_assoc]
    have arm : (src.arm (src.expression (levels + 1)) (src.block levels) word).Takes
        (cs ++ (bs ++ us)) (c, b) us :=
      arm_takes (expression_takes direct condition (by omega) words₁ (clear_of_braced body words₂))
        (braced_takes body _ (by omega) words₂)
    exact arms_last direct arm settled.1 settled.2
  | @Arms.otherwise _ c _ b _ o condition body other => by
    intro word levels ts us le words settled
    obtain ⟨cs, _, rfl, words₁, words₂⟩ := List.map_eq_append_iff.1 words
    obtain ⟨bs, _, rfl, words₃, words₄⟩ := List.map_eq_append_iff.1 words₂
    obtain ⟨t, os, rfl, ht, words₅⟩ := List.map_eq_cons_iff.1 words₄
    simp only [List.length_cons, List.length_append] at le
    simp only [List.cons_append, List.append_assoc]
    have arm : (src.arm (src.expression (levels + 1)) (src.block levels) word).Takes
        (cs ++ (bs ++ t :: (os ++ us))) (c, b) (t :: (os ++ us)) :=
      arm_takes (expression_takes direct condition (by omega) words₁ (clear_of_braced body words₃))
        (braced_takes body _ (by omega) words₃)
    have braced : (src.braced (src.block levels) "'else'").Takes (os ++ us) o us :=
      braced_takes other _ (by omega) words₅
    exact arms_otherwise direct arm ht braced
  | @Arms.elif _ c _ b _ as condition body arms => by
    intro word levels ts us le words settled
    obtain ⟨cs, _, rfl, words₁, words₂⟩ := List.map_eq_append_iff.1 words
    obtain ⟨bs, _, rfl, words₃, words₄⟩ := List.map_eq_append_iff.1 words₂
    obtain ⟨t, ms, rfl, ht, words₅⟩ := List.map_eq_cons_iff.1 words₄
    simp only [List.length_cons, List.length_append] at le
    simp only [List.cons_append, List.append_assoc]
    have arm : (src.arm (src.expression (levels + 1)) (src.block levels) word).Takes
        (cs ++ (bs ++ t :: (ms ++ us))) (c, b) (t :: (ms ++ us)) :=
      arm_takes (expression_takes direct condition (by omega) words₁ (clear_of_braced body words₃))
        (braced_takes body _ (by omega) words₃)
    exact arms_elif direct arm ht (arms_takes arms "elif" (by omega) words₅ settled)

/-- The statements of a block, up to the brace or the end of the input that closes it. -/
theorem block_takes {ls ss} : Block ls ss → ∀ ⦃levels : Nat⦄ ⦃ts us : List Token⦄,
    ls.length < levels → ts.map Token.lexeme = ls → Closed us →
    (src.block levels).Takes (ts ++ us) ss us
  | .nil => by
    intro levels ts us lt words closed
    obtain ⟨k, rfl⟩ : ∃ k, levels = k + 1 := ⟨levels - 1, by omega⟩
    cases List.map_eq_nil_iff.1 words
    exact statements_stop (statement_misses direct closed)
  | @Block.semicolon _ ss block => by
    intro levels ts us lt words closed
    obtain ⟨k, rfl⟩ : ∃ k, levels = k + 1 := ⟨levels - 1, by omega⟩
    obtain ⟨t, ts, rfl, ht, words₁⟩ := List.map_eq_cons_iff.1 words
    rw [List.length_cons] at lt
    have rest : (src.block (k + 1)).Takes (ts ++ us) ss us :=
      block_takes block (by omega) words₁ closed
    exact statements_skip (statement_takes_semicolon direct ht) rest
  | @Block.cons _ s _ ss statement block => by
    intro levels ts us lt words closed
    obtain ⟨k, rfl⟩ : ∃ k, levels = k + 1 := ⟨levels - 1, by omega⟩
    obtain ⟨ts₁, ts₂, rfl, words₁, words₂⟩ := List.map_eq_append_iff.1 words
    rw [List.length_append] at lt
    rw [List.append_assoc]
    have first : (src.statementAt k).Takes (ts₁ ++ (ts₂ ++ us)) s (ts₂ ++ us) :=
      statement_takes statement (by omega) words₁ (settled_append block words₂ closed.settled)
    have rest : (src.block (k + 1)).Takes (ts₂ ++ us) ss us :=
      block_takes block (by omega) words₂ closed
    exact statements_step statement.ne_empty first rest

end

/-- The words of a program are accepted, with its tree. -/
theorem program_takes {ts : List Token} {tree : Node} (ends : src.final.lexeme = .endOfInput)
    (h : Program (ts.map Token.lexeme) tree) {levels : Nat} (lt : ts.length < levels) (memo : Memo) :
    (src.program levels ts memo).1 = .ok tree := by
  obtain ⟨statements, rfl, block⟩ := h
  have closed : Closed [] := nofun
  have taken : (src.block levels).Takes (ts ++ []) statements [] :=
    block_takes direct block (by rwa [List.length_map]) rfl closed
  rw [List.append_nil] at taken
  obtain ⟨shorter, memo', eq⟩ := taken memo
  unfold program programOf
  rw [eq]
  dsimp only
  rw [look_token direct, List.headD_nil, if_pos ends]

end Source

end Abacus
