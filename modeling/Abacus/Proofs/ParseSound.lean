import Abacus.Proofs.Phrase
import Abacus.Proofs.Spelling
import Abacus.Proofs.StreamOrder

/-!
# What a rule takes is a phrase

`Rule.Sound src known n p D` says what can come of a rule that is tried after the words `known`. If it
matches, the words it took are a phrase of `D` with the value it gives. If it fails, the fault is one that
the tokens give cause for (`Blame`):

* Depth is complained of only where at least `n` tokens are ahead, since every level uses up a token.
* A numeral that is too long is one of the text.
* A cause is one that the grammar has for a text of these words (`Cause.Arises`), and the tokens taken so
  far are viable: some words would make a phrase of `D` out of them. So no rule refuses too soon. For this
  a phrase of every rule has to be had from nothing (`Rule.Sound.possible`), since what was taken is
  completed by the words that are missing and then by phrases for all rules that were to come.

The lemmas follow the combinators, then the rules, so the soundness of a rule is read off its
definition; what remains is to put the phrases together.
-/

namespace Abacus

open Phrase

/-! ## Viable words -/

/-- Some words make a phrase of `D` out of `ls`. -/
def Viable {α : Type} (D : List Lexeme → α → Prop) (ls : List Lexeme) : Prop :=
  ∃ rs a, (∀ l ∈ rs, l.Proper) ∧ D (ls ++ rs) a

namespace Viable

variable {α β : Type} {D : List Lexeme → α → Prop} {E : List Lexeme → β → Prop} {ls : List Lexeme}

theorem imp (h : Viable D ls) (front : List Lexeme) (join : ∀ rs a, D rs a → ∃ b, E (front ++ rs) b) :
    Viable E (front ++ ls) := by
  obtain ⟨rs, a, proper, phrase⟩ := h
  obtain ⟨b, joined⟩ := join _ _ phrase
  exact ⟨rs, b, proper, by rwa [List.append_assoc]⟩

/-- A phrase that can be completed, and then a phrase that can be had from nothing. -/
theorem bind (h : Viable D ls) (next : ∀ rs a, D rs a → Viable (fun us b => E (rs ++ us) b) []) :
    Viable E ls := by
  obtain ⟨rs, a, proper, phrase⟩ := h
  obtain ⟨us, b, proper', phrase'⟩ := next _ _ phrase
  refine ⟨rs ++ us, b, ?_, ?_⟩
  · exact fun l hl => (List.mem_append.1 hl).elim (proper l) (proper' l)
  · simpa using phrase'

end Viable

/-- The offset is where the parser stands after some tokens, and these are viable. -/
def Closes {α : Type} (src : Source) (D : List Lexeme → α → Prop) (ts : List Token) (pos : Nat) : Prop :=
  ∃ taken us, ts = taken ++ us ∧ pos = src.here us ∧ Viable D (taken.map Token.lexeme)

namespace Closes

variable {α β : Type} {src : Source} {D : List Lexeme → α → Prop} {E : List Lexeme → β → Prop}
  {ts us : List Token} {pos : Nat}

theorem here (h : Viable D []) (ts : List Token) : Closes src D ts (src.here ts) :=
  ⟨[], ts, rfl, rfl, h⟩

theorem after (h : Closes src D us pos) (taken : List Token)
    (join : ∀ rs a, D rs a → ∃ b, E (taken.map Token.lexeme ++ rs) b) :
    Closes src E (taken ++ us) pos := by
  obtain ⟨more, vs, rfl, stands, viable⟩ := h
  refine ⟨taken ++ more, vs, (List.append_assoc ..).symm, stands, ?_⟩
  rw [List.map_append]
  exact viable.imp _ join

theorem bind (h : Closes src D ts pos)
    (next : ∀ rs a, D rs a → Viable (fun us b => E (rs ++ us) b) []) : Closes src E ts pos := by
  obtain ⟨taken, us, split, stands, viable⟩ := h
  exact ⟨taken, us, split, stands, viable.bind next⟩

end Closes

/-! ## Why a rule fails -/

/-- The words that a condition follows. -/
def conditionWords : List String := ["if", "elif", "while"]

/-- The symbols that operands stand on both sides of. -/
def binarySymbols : List String := ["+", "-", "*", "/"]

/-- What messages call a construct with a block, in a text of these words. -/
inductive Construct (words : List Lexeme) : String → Prop
  | arm {word} (mem : word ∈ conditionWords) : Construct words (word ++ " condition")
  | otherwise : Construct words "'else'"
  | function {name} (mem : .identifier name ∈ words) : Construct words ("fn " ++ name ++ "(...)")

/-- The causes for which a rule fails in a text of these words. They name nothing of the text but its
names, its numerals and the word that stands where something else is due. -/
inductive Cause.Arises (words : List Lexeme) : Cause → Prop
  | bracket {found} : Arises words (.operator ")" "to close parenthesis" found)
  | parameters {name found} (mem : .identifier name ∈ words) :
      Arises words (.operator "(" ("after fn " ++ name) found)
  | blockStart {context found} (begun : Construct words context) :
      Arises words (.operator "\x7b" ("after " ++ context) found)
  | blockEnd {context found} (begun : Construct words context) :
      Arises words (.operator "\x7d" ("to close " ++ context) found)
  | functionName : Arises words .functionName
  | parameter {name} (mem : .identifier name ∈ words) : Arises words (.parameter name)
  | parameterEnd {name} (mem : .identifier name ∈ words) : Arises words (.parameterEnd name)
  | condition {word} (mem : word ∈ conditionWords) : Arises words (.condition word)
  | operand {symbol} (mem : symbol ∈ binarySymbols) : Arises words (.operand symbol)
  | literalRange {digits} (mem : .int digits ∈ words) : Arises words (.literalRange digits)
  | argument {name} (mem : .identifier name ∈ words) : Arises words (.argument name)
  | argumentEnd {name} (mem : .identifier name ∈ words) : Arises words (.argumentEnd name)

theorem Construct.mono {words words' : List Lexeme} (sub : words ⊆ words') {context : String}
    (h : Construct words context) : Construct words' context := by
  cases h with
  | arm mem => exact .arm mem
  | otherwise => exact .otherwise
  | function mem => exact .function (sub mem)

/-- A longer text has all the causes of a shorter one. -/
theorem Cause.Arises.mono {words words' : List Lexeme} (sub : words ⊆ words') {cause : Cause}
    (h : cause.Arises words) : cause.Arises words' := by
  cases h with
  | bracket => exact .bracket
  | parameters mem => exact .parameters (sub mem)
  | blockStart begun => exact .blockStart (begun.mono sub)
  | blockEnd begun => exact .blockEnd (begun.mono sub)
  | functionName => exact .functionName
  | parameter mem => exact .parameter (sub mem)
  | parameterEnd mem => exact .parameterEnd (sub mem)
  | condition mem => exact .condition mem
  | operand mem => exact .operand mem
  | literalRange mem => exact .literalRange (sub mem)
  | argument mem => exact .argument (sub mem)
  | argumentEnd mem => exact .argumentEnd (sub mem)

/-- The tokens ahead give cause for a fault, after the words `known` and with `n` levels left, where a
phrase of `D` is due. -/
inductive Blame {α : Type} (src : Source) (known : List Lexeme) (n : Nat) (D : List Lexeme → α → Prop)
    (ts : List Token) : ParseFault → Prop
  | rejected {cause pos} (arises : cause.Arises (known ++ ts.map Token.lexeme))
      (closes : Closes src D ts pos) : Blame src known n D ts (.rejected cause pos)
  | nestedTooDeeply (deep : n ≤ ts.length) : Blame src known n D ts .nestedTooDeeply
  | numeralTooLong {digits : String} (mem : .int digits ∈ ts.map Token.lexeme)
      (long : digitLimit < digits.length) : Blame src known n D ts (.numeralTooLong digits.length)

namespace Blame

variable {α β : Type} {src : Source} {known known' : List Lexeme} {n k : Nat}
  {D : List Lexeme → α → Prop} {E : List Lexeme → β → Prop} {ts us : List Token} {f : ParseFault}

/-- Something is missing where the tokens begin. -/
theorem here (possible : Viable D []) {cause : Cause} (arises : cause.Arises known) :
    Blame src known n D ts (.rejected cause (src.here ts)) :=
  .rejected (arises.mono (List.subset_append_left ..)) (.here possible ts)

/-- Tokens that were taken give room for as many levels, and their words are known. -/
theorem after (h : Blame src known' k D us f) (taken : List Token) (le : n ≤ k + taken.length)
    (knows : known' ⊆ known ++ taken.map Token.lexeme)
    (join : ∀ rs a, D rs a → ∃ b, E (taken.map Token.lexeme ++ rs) b) :
    Blame src known n E (taken ++ us) f := by
  cases h with
  | rejected arises closes =>
    refine .rejected (arises.mono ?_) (closes.after taken join)
    rw [List.map_append, ← List.append_assoc]
    exact List.append_subset.2
      ⟨List.Subset.trans knows (List.subset_append_left ..), List.subset_append_right ..⟩
  | nestedTooDeeply deep =>
    refine .nestedTooDeeply ?_
    rw [List.length_append]
    omega
  | numeralTooLong mem long =>
    refine .numeralTooLong ?_ long
    rw [List.map_append]
    exact List.mem_append_right _ mem

theorem append (h : Blame src known n D us f) (taken : List Token)
    (join : ∀ rs a, D rs a → ∃ b, E (taken.map Token.lexeme ++ rs) b) :
    Blame src known n E (taken ++ us) f :=
  h.after taken (Nat.le_add_right ..) (List.subset_append_left ..) join

theorem imp (h : Blame src known n D ts f) (join : ∀ rs a, D rs a → ∃ b, E rs b) :
    Blame src known n E ts f :=
  h.append [] join

/-- What was taken is completed by the phrase that was due and one that was to come after it. -/
theorem bind (h : Blame src known n D ts f)
    (next : ∀ rs a, D rs a → Viable (fun us b => E (rs ++ us) b) []) : Blame src known n E ts f := by
  cases h with
  | rejected arises closes => exact .rejected arises (closes.bind next)
  | nestedTooDeeply deep => exact .nestedTooDeeply deep
  | numeralTooLong mem long => exact .numeralTooLong mem long

end Blame

/-- Why a program is refused: for a reason inside of it, or for what follows a whole program. -/
inductive Source.Refuses (src : Source) (levels : Nat) (ts : List Token) : ParseFault → Prop
  | inside {f} (blame : Blame src [] levels Program ts f) : Refuses src levels ts f
  | after {taken t us tree} (split : ts = taken ++ t :: us)
      (program : Program (taken.map Token.lexeme) tree) :
      Refuses src levels ts (.rejected (.unexpected t.lexeme) t.start)

/-- What may come of a rule on `ts`: a phrase of `D` is taken, or the rule misses, or it fails for a
reason. -/
inductive Verdict {α : Type} (src : Source) (known : List Lexeme) (n : Nat)
    (D : List Lexeme → α → Prop) (ts : List Token) {k : Nat} : Attempt α k → Prop
  | matched {value us} {lt : us.length < k} (taken : List Token) (split : ts = taken ++ us)
      (phrase : D (taken.map Token.lexeme) value) : Verdict src known n D ts (.matched value us lt)
  | missed : Verdict src known n D ts .missed
  | failed {f} (blame : Blame src known n D ts f) : Verdict src known n D ts (.failed f)

namespace Verdict

variable {α β : Type} {src : Source} {known : List Lexeme} {n k k' : Nat}
  {D D' : List Lexeme → α → Prop} {ts us : List Token} {x : Attempt α k}

theorem mono (h : ∀ ls a, D ls a → D' ls a) (hx : Verdict src known n D ts x) :
    Verdict src known n D' ts x := by
  cases hx with
  | matched taken split phrase => exact .matched taken split (h _ _ phrase)
  | missed => exact .missed
  | failed blame => exact .failed (blame.imp fun _ a phrase => ⟨a, h _ _ phrase⟩)

theorem map {E : List Lexeme → β → Prop} (f : α → β) (h : ∀ ls a, D ls a → E ls (f a))
    (hx : Verdict src known n D ts x) : Verdict src known n E ts (x.map f) := by
  cases hx with
  | matched taken split phrase => exact .matched taken split (h _ _ phrase)
  | missed => exact .missed
  | failed blame => exact .failed (blame.imp fun _ a phrase => ⟨f a, h _ _ phrase⟩)

/-- A rule that is tried after some tokens were taken. -/
theorem widen {taken : List Token} (split : ts = taken ++ us) (le : k ≤ k')
    (h : ∀ ls a, D ls a → D' (taken.map Token.lexeme ++ ls) a) (hx : Verdict src known n D us x) :
    Verdict src known n D' ts (x.widen le) := by
  subst split
  cases hx with
  | matched more split' phrase =>
    subst split'
    refine .matched (taken ++ more) (List.append_assoc ..).symm ?_
    rw [List.map_append]
    exact h _ _ phrase
  | missed => exact .missed
  | failed blame => exact .failed (blame.append taken fun _ a phrase => ⟨a, h _ _ phrase⟩)

theorem knowing (hx : Verdict src [] n D ts x) : Verdict src known n D ts x := by
  cases hx with
  | matched taken split phrase => exact .matched taken split phrase
  | missed => exact .missed
  | failed blame =>
    exact .failed (blame.after [] (Nat.le_refl _) (List.nil_subset _) fun _ a phrase => ⟨a, phrase⟩)

end Verdict

namespace Rule

variable {α β : Type} {g h : Bool} {src : Source} {known : List Lexeme} {n : Nat}

/-- The rule takes phrases of `D`, of which there are some, and fails for a reason. -/
structure Sound (src : Source) (known : List Lexeme) (n : Nat) (p : Rule g α)
    (D : List Lexeme → α → Prop) : Prop where
  possible : Viable D []
  verdict : ∀ ts memo, Verdict src known n D ts (p ts memo).1

namespace Sound

variable {D : List Lexeme → α → Prop} {E : List Lexeme → β → Prop}

theorem mono {D' : List Lexeme → α → Prop} {p : Rule g α} (hp : p.Sound src known n D)
    (h : ∀ ls a, D ls a → D' ls a) : p.Sound src known n D' where
  possible := hp.possible.imp [] fun rs a phrase => ⟨a, h rs a phrase⟩
  verdict ts memo := (hp.verdict ts memo).mono h

theorem map {p : Rule g α} (hp : p.Sound src known n D) (f : α → β)
    (h : ∀ ls a, D ls a → E ls (f a)) : (p.map f).Sound src known n E where
  possible := hp.possible.imp [] fun rs a phrase => ⟨f a, h rs a phrase⟩
  verdict ts memo := (hp.verdict ts memo).map f h

/-- What a rule does without knowing what came before, it does after any words. -/
theorem knowing {p : Rule g α} (hp : p.Sound src [] n D) : p.Sound src known n D where
  possible := hp.possible
  verdict ts memo := (hp.verdict ts memo).knowing

theorem orElse {p q : Rule g α} (hp : p.Sound src known n D) (hq : q.Sound src known n D) :
    (p.orElse q).Sound src known n D where
  possible := hp.possible
  verdict ts memo := by
    have hx := hp.verdict ts memo
    unfold Rule.orElse
    generalize p ts memo = outcome at hx ⊢
    obtain ⟨attempt, memo'⟩ := outcome
    cases attempt with
    | matched value us lt => exact hx
    | missed => exact hq.verdict ts memo'
    | failed f => exact hx

/-- One rule and then another, which completes the phrase that the first one took. If the first rule
takes a token for certain, the second may have a level less. -/
theorem bindTo {p : Rule g α} {f : α → Rule h β} {k : Nat} (le : n ≤ k + (!g).toNat)
    (hp : p.Sound src known n D)
    (hf : ∀ {ls a}, D ls a → (f a).Sound src (known ++ ls) k fun rs b => E (ls ++ rs) b) :
    (p.bind f).Sound src known n E where
  possible := hp.possible.bind fun _ _ phrase => (hf phrase).possible
  verdict ts memo := by
    have hx := hp.verdict ts memo
    unfold Rule.bind
    generalize p ts memo = outcome at hx ⊢
    obtain ⟨attempt, memo'⟩ := outcome
    cases hx with
    | missed => exact .missed
    | failed blame => exact .failed (blame.bind fun _ _ phrase => (hf phrase).possible)
    | @matched value us lt taken split phrase =>
      subst split
      have progress : (!g).toNat ≤ taken.length := by
        rw [List.length_append] at lt
        cases g with
        | false =>
          simp only [Bool.toNat_false, Bool.not_false, Bool.toNat_true] at lt ⊢
          omega
        | true => exact Nat.zero_le _
      have hy := (hf phrase).verdict us memo'
      dsimp only
      generalize f value us memo' = outcome at hy ⊢
      obtain ⟨attempt', memo''⟩ := outcome
      cases hy with
      | missed => exact .missed
      | failed blame =>
        exact .failed (blame.after taken (by omega) (List.Subset.refl _) fun _ b joined => ⟨b, joined⟩)
      | matched more split' phrase' =>
        subst split'
        refine .matched (taken ++ more) (List.append_assoc ..).symm ?_
        rw [List.map_append]
        exact phrase'

theorem bind {p : Rule g α} {f : α → Rule h β} (hp : p.Sound src known n D)
    (hf : ∀ {ls a}, D ls a → (f a).Sound src (known ++ ls) n fun rs b => E (ls ++ rs) b) :
    (p.bind f).Sound src known n E :=
  bindTo (Nat.le_add_right ..) hp hf

theorem descend {p : Rule false α} {f : α → Rule h β} (hp : p.Sound src known (n + 1) D)
    (hf : ∀ {ls a}, D ls a → (f a).Sound src (known ++ ls) n fun rs b => E (ls ++ rs) b) :
    (p.bind f).Sound src known (n + 1) E :=
  bindTo (Nat.le_refl _) hp hf

end Sound

theorem fail_sound {D : List Lexeme → α → Prop} (possible : Viable D []) :
    (fail .nestedTooDeeply : Rule g α).Sound src known 0 D where
  possible := possible
  verdict _ _ := .failed (.nestedTooDeeply (Nat.zero_le _))

end Rule

/-! Statements without the semicolon that ends them. -/

namespace Phrase

def BareAssignment (ls : List Lexeme) (node : Node) : Prop :=
  ∃ name rs e, ls = .identifier name :: .operator "=" :: rs ∧ node = .assignment (.str name) e ∧
    Expression rs e

def BareReturn (ls : List Lexeme) (node : Node) : Prop :=
  ∃ rs e, ls = .keyword "return" :: rs ∧ node = .returns e ∧ Expression rs e

def BareExpression (ls : List Lexeme) (node : Node) : Prop :=
  ∃ e, node = .expression e ∧ Expression ls e

theorem BareAssignment.terminated {ls : List Lexeme} {node : Node} :
    BareAssignment ls node → Statement (ls ++ [.semicolon]) node := by
  rintro ⟨name, rs, e, rfl, rfl, phrase⟩
  exact .assignment phrase

theorem BareReturn.terminated {ls : List Lexeme} {node : Node} :
    BareReturn ls node → Statement (ls ++ [.semicolon]) node := by
  rintro ⟨rs, e, rfl, rfl, phrase⟩
  exact .returns phrase

theorem BareExpression.terminated {ls : List Lexeme} {node : Node} :
    BareExpression ls node → Statement (ls ++ [.semicolon]) node := by
  rintro ⟨e, rfl, phrase⟩
  exact .expression phrase

end Phrase

namespace Source

/-- The parser sees the token that stands there, whatever it remembers. -/
def Direct (src : Source) : Prop := ∀ t memo, (src.peek t memo).1 = t

theorem direct_rereading (final : Token) : Direct ⟨Memo.rereading, final⟩ := fun _ _ => rfl

theorem orFail_sound {src : Source} {α : Type} {g : Bool} {known : List Lexeme} {n : Nat} {p : Rule g α}
    {D : List Lexeme → α → Prop} {cause : Cause} (hp : p.Sound src known n D)
    (arises : cause.Arises known) : (src.orFail p cause).Sound src known n D where
  possible := hp.possible
  verdict ts memo := by
    have hx := hp.verdict ts memo
    unfold orFail
    generalize p ts memo = outcome at hx ⊢
    obtain ⟨attempt, memo'⟩ := outcome
    cases attempt with
    | matched value us lt => exact hx
    | missed => exact .failed (.here hp.possible arises)
    | failed f => exact hx

/-- Looking for a word never fails. -/
theorem take_ne_failed (src : Source) {α : Type} (f : Lexeme → Option α) (ts : List Token) (memo : Memo)
    (fault : ParseFault) : (src.take f ts memo).1 ≠ .failed fault := by
  unfold take
  generalize src.look ts memo = sight
  cases ts with
  | nil => exact nofun
  | cons t us =>
    dsimp only
    cases f sight.1.lexeme <;> exact nofun

variable {src : Source} (direct : src.Direct) {α : Type} {known : List Lexeme} {n : Nat}
include direct

/-! ## Tokens -/

theorem look_token (ts : List Token) (memo : Memo) :
    (src.look ts memo).1 = ts.headD src.final :=
  direct _ _

/-- The word is the one that stands there. That some word will do is what makes the rule possible. -/
theorem take_sound {f : Lexeme → Option α} {l : Lexeme} {a : α} (proper : l.Proper)
    (value : f l = some a) :
    (src.take f).Sound src known n fun ls a => ∃ l, ls = [l] ∧ f l = some a where
  possible := ⟨[l], a, by simpa using proper, l, rfl, value⟩
  verdict ts memo := by
    have seen := look_token direct ts memo
    unfold take
    generalize src.look ts memo = sight at seen ⊢
    obtain ⟨token, memo'⟩ := sight
    cases seen
    cases ts with
    | nil => exact .missed
    | cons t us =>
      dsimp only [List.headD_cons]
      cases hv : f t.lexeme with
      | none => exact .missed
      | some value => exact .matched [t] rfl ⟨_, rfl, hv⟩

theorem eat_sound {lexeme : Lexeme} (proper : lexeme.Proper) :
    (src.eat lexeme).Sound src known n fun ls _ => ls = [lexeme] := by
  refine (take_sound direct proper (if_pos rfl)).mono ?_
  rintro _ ⟨⟩ ⟨l, rfl, found⟩
  split at found
  · next eq => rw [eq]
  · cases found

theorem operator_sound {symbol : String} (mem : symbol ∈ operatorTable) :
    (src.operator symbol).Sound src known n fun ls _ => ls = [.operator symbol] :=
  eat_sound direct (.operator mem)

theorem keyword_sound {word : String} (reserved : word ∈ reservedWords) :
    (src.keyword word).Sound src known n fun ls _ => ls = [.keyword word] :=
  eat_sound direct (.keyword reserved)

omit direct in
theorem isName_x : IsName "x" := ⟨by decide, 'x', [], by decide, by decide, List.forall_mem_nil _⟩

theorem identifier_sound : src.identifier.Sound src known n Identifier := by
  unfold identifier
  refine Rule.Sound.mono (take_sound direct (a := "x") (.identifier isName_x) rfl) ?_
  rintro _ name ⟨l, rfl, found⟩
  split at found
  · cases found
    rfl
  · cases found

theorem expect_sound {symbol context : String} (mem : symbol ∈ operatorTable)
    (arises : ∀ found, (Cause.operator symbol context found).Arises known) :
    (src.expect symbol context).Sound src known n fun ls _ => ls = [.operator symbol] := by
  have hp : (src.operator symbol).Sound src known n _ := operator_sound direct mem
  refine ⟨hp.possible, fun ts memo => ?_⟩
  have hx := hp.verdict ts memo
  unfold expect
  generalize src.operator symbol ts memo = outcome at hx ⊢
  obtain ⟨attempt, memo'⟩ := outcome
  cases attempt with
  | matched value us lt => exact hx
  | missed => exact .failed (.here hp.possible (arises _))
  | failed f => exact hx

omit direct in
/-- One item and a bracket are a list of items. -/
theorem one_item {D : List Lexeme → α → Prop} (ls : List Lexeme) (a : α) (item : D ls a) :
    Viable (fun rs as => ∃ us, ls ++ rs = us ++ [.operator ")"] ∧ Separated D us as) [] :=
  ⟨[.operator ")"], [a], by simpa using .operator (by decide), ls, rfl, .one item⟩

/-- By recursion on the tokens. Without its first item a list is completed by one item and the bracket;
after an item, by the bracket. -/
theorem items_verdict {item : Rule false α} {D : List Lexeme → α → Prop} {noItem noEnd : Cause}
    (hi : item.Sound src [] n D) (itemArises : noItem.Arises known) (endArises : noEnd.Arises known)
    (ts : List Token) (memo : Memo) :
    Verdict src known n (fun ls as => ∃ rs, ls = rs ++ [.operator ")"] ∧ Separated D rs as) ts
      (src.items item noItem noEnd ts memo).1 := by
  rw [items]
  have hx := (orFail_sound hi.knowing itemArises).verdict ts memo
  generalize src.orFail item noItem ts memo = outcome at hx ⊢
  obtain ⟨attempt, memo₁⟩ := outcome
  cases hx with
  | missed => exact .missed
  | failed blame => exact .failed (blame.bind one_item)
  | @matched first us lt taken split phrase =>
    subst split
    have comma : (src.operator ",").Sound src known n _ := operator_sound direct (by decide)
    have hy := comma.verdict us memo₁
    dsimp only
    generalize src.operator "," us memo₁ = outcome at hy ⊢
    obtain ⟨attempt, memo₂⟩ := outcome
    cases hy with
    | @matched _ vs lt' taken' split' phrase' =>
      subst split'
      have less : vs.length < (taken ++ (taken' ++ vs)).length := Nat.lt_trans lt' lt
      have rest := items_verdict hi itemArises endArises vs memo₂
      have join (ls : List Lexeme) (as : List α)
          (h : ∃ rs, ls = rs ++ [.operator ")"] ∧ Separated D rs as) :
          ∃ rs, (taken ++ taken').map Token.lexeme ++ ls = rs ++ [.operator ")"] ∧
            Separated D rs (first :: as) := by
        obtain ⟨rs, rfl, phrases⟩ := h
        refine ⟨_, ?_, .more phrase phrases⟩
        simp [phrase']
      dsimp only
      exact Verdict.widen (List.append_assoc ..).symm _ (fun _ _ h => h) (rest.map (first :: ·) join)
    | _ =>
      -- no comma: the bracket has to close here
      have bracket : (src.operator ")").Sound src known n _ := operator_sound direct (by decide)
      have hz := (orFail_sound bracket endArises).verdict us memo₂
      dsimp only
      generalize src.orFail (src.operator ")") noEnd us memo₂ = outcome at hz ⊢
      obtain ⟨attempt, memo₃⟩ := outcome
      cases hz with
      | @matched _ vs _ bracket split' phrase' =>
        subst split'
        refine .matched (taken ++ bracket) (List.append_assoc ..).symm ⟨_, ?_, .one phrase⟩
        rw [List.map_append, phrase']
      | missed => exact .missed
      | failed blame =>
        refine .failed (blame.append taken ?_)
        rintro _ _ rfl
        exact ⟨[first], _, rfl, .one phrase⟩
termination_by ts.length

theorem items_sound {item : Rule false α} {D : List Lexeme → α → Prop} {noItem noEnd : Cause}
    (hi : item.Sound src [] n D) (itemArises : noItem.Arises known) (endArises : noEnd.Arises known) :
    Rule.Sound src known n (src.items item noItem noEnd) fun ls as =>
      ∃ rs, ls = rs ++ [.operator ")"] ∧ Separated D rs as where
  possible := hi.possible.bind one_item
  verdict := items_verdict direct hi itemArises endArises

/-! ## Expressions -/

/-- The rule of a chain, where `C` are the chains that end here. -/
theorem chainTail_verdict {symbols : List String} {operand : Rule false Node}
    {C D : List Lexeme → Node → Prop} (ho : operand.Sound src [] n D) (binary : symbols ⊆ binarySymbols)
    (apply : ∀ {ls a symbol rs b}, C ls a → symbol ∈ symbols → D rs b →
      C (ls ++ .operator symbol :: rs) (.call (.str symbol) [a, b]))
    {ls : List Lexeme} {left : Node} (hl : C ls left) (ts : List Token) (memo : Memo) :
    Verdict src known n (fun rs e => C (ls ++ rs) e) ts
      (src.chainTail symbols operand left ts memo).1 := by
  rw [chainTail]
  have seen := look_token direct ts memo
  generalize src.look ts memo = sight at seen ⊢
  obtain ⟨token, memo₁⟩ := sight
  cases seen
  have stop : C (ls ++ List.map Token.lexeme []) left := by simpa using hl
  cases ts with
  | nil => exact .matched [] rfl stop
  | cons t us =>
    dsimp only [List.headD_cons]
    cases ht : t.lexeme with
    | operator symbol =>
      dsimp only
      split
      · next mem =>
        have next : (src.orFail operand (.operand symbol)).Sound src known n D :=
          orFail_sound ho.knowing (.operand (binary mem))
        have hx := next.verdict us memo₁
        generalize src.orFail operand (.operand symbol) us memo₁ = outcome at hx ⊢
        obtain ⟨attempt, memo₂⟩ := outcome
        cases hx with
        | missed => exact .missed
        | failed blame =>
          refine .failed (blame.append [t] fun rs b phrase => ⟨.call (.str symbol) [left, b], ?_⟩)
          simpa [ht] using apply hl mem phrase
        | @matched right vs lt taken split phrase =>
          subst split
          have less : vs.length < (t :: (taken ++ vs)).length := Nat.lt_succ_of_lt lt
          have rest := chainTail_verdict ho binary apply (apply hl mem phrase) vs memo₂
          dsimp only
          refine rest.widen (List.cons_append ..).symm _ fun rs e h => ?_
          simpa [ht] using h
      · exact .matched [] rfl stop
    | _ => exact .matched [] rfl stop
termination_by ts.length

theorem chain_sound {symbols : List String} {operand : Rule false Node}
    {C D : List Lexeme → Node → Prop} (ho : operand.Sound src [] n D) (binary : symbols ⊆ binarySymbols)
    (one : ∀ {ls e}, D ls e → C ls e)
    (apply : ∀ {ls a symbol rs b}, C ls a → symbol ∈ symbols → D rs b →
      C (ls ++ .operator symbol :: rs) (.call (.str symbol) [a, b])) :
    (src.chain symbols operand).Sound src [] n C := by
  refine ho.bind fun {ls left} phrase => ⟨⟨[], left, List.forall_mem_nil _, ?_⟩, ?_⟩
  · simpa using one phrase
  · exact chainTail_verdict direct ho binary apply (one phrase)

omit direct in
/-- A name is a value. -/
theorem value_possible : Viable Value [] :=
  ⟨[.identifier "x"], _, by simpa using .identifier isName_x, .reference⟩

/-- A numeral that cannot be read is blamed on itself, and what was taken before it can still become a
value. -/
theorem literal_sound : src.literal.Sound src known n Value where
  possible := value_possible
  verdict ts memo := by
    have word : (src.take (literalOf (src.here ts))).Sound src known n _ :=
      take_sound direct (.identifier isName_x) rfl
    have hx := word.verdict ts memo
    have never := src.take_ne_failed (literalOf (src.here ts)) ts memo
    unfold literal
    generalize src.take (literalOf (src.here ts)) ts memo = outcome at hx never ⊢
    obtain ⟨attempt, memo'⟩ := outcome
    cases hx with
    | missed => exact .missed
    | failed blame => exact absurd rfl (never _)
    | @matched result us lt taken split found =>
      obtain ⟨l, taken_eq, found⟩ := found
      have mem : l ∈ ts.map Token.lexeme := by simp [split, taken_eq]
      cases l with
      | float numeral =>
        obtain ⟨x, reads, rfl⟩ := Option.map_eq_some_iff.1 found
        exact .matched taken split (taken_eq ▸ .float reads)
      | int digits =>
        simp only [literalOf] at found
        split at found
        · next long =>
          cases found
          exact .failed (.numeralTooLong mem long)
        · next short =>
          split at found
          · next fits =>
            cases found
            exact .matched taken split (taken_eq ▸ .int (Nat.le_of_not_lt short) fits)
          · -- a literal out of range is refused where it stands
            cases found
            exact .failed (.rejected (.literalRange (List.mem_append_right _ mem)) (.here value_possible ts))
      | identifier name =>
        cases found
        exact .matched taken split (taken_eq ▸ .reference)
      | _ => cases found

theorem arguments_sound {expression : Rule false Node} (he : expression.Sound src [] n Expression)
    {function : String} (mem : .identifier function ∈ known) :
    (src.arguments expression function).Sound src known n fun ls es =>
      ∃ rs, ls = rs ++ [.operator ")"] ∧ Arguments rs es := by
  refine .orElse ((operator_sound direct (by decide)).map _ ?_)
    ((items_sound direct he (.argument mem) (.argumentEnd mem)).mono ?_)
  · rintro ls ⟨⟩ rfl
    exact ⟨[], rfl, .none⟩
  · rintro ls es ⟨rs, rfl, items⟩
    exact ⟨rs, rfl, .some (items_of_separated items)⟩

theorem call_sound {expression : Rule false Node} (he : expression.Sound src [] n Expression) :
    (src.call expression).Sound src known (n + 1) Value := by
  refine (identifier_sound direct).bind fun {word name} hname => ?_
  have mem : .identifier name ∈ known ++ word := List.mem_append_right _ (hname ▸ List.mem_cons_self)
  refine .descend (operator_sound direct (by decide)) fun hopen => ?_
  refine (arguments_sound direct he (List.mem_append_left _ mem)).map _ ?_
  rintro _ es ⟨rs, rfl, arguments⟩
  rw [hname, hopen]
  exact .call arguments

theorem parenthesised_sound {expression : Rule false Node} (he : expression.Sound src [] n Expression) :
    (src.parenthesised expression).Sound src known (n + 1) Value := by
  refine .descend (operator_sound direct (by decide)) fun hopen => ?_
  refine he.knowing.bind fun phrase => ?_
  refine (expect_sound direct (by decide) fun _ => .bracket).map _ ?_
  rintro _ ⟨⟩ rfl
  rw [hopen]
  exact .bracket phrase

theorem expression_sound (levels : Nat) : (src.expression levels).Sound src [] levels Expression := by
  induction levels with
  | zero =>
    exact Rule.fail_sound (value_possible.imp [] fun rs e phrase => ⟨e, .product (.value phrase)⟩)
  | succ levels ih =>
    have value : (src.value (src.expression levels)).Sound src [] (levels + 1) Value :=
      .orElse (call_sound direct ih) (.orElse (parenthesised_sound direct ih) (literal_sound direct))
    have product := chain_sound direct value (by decide : ["*", "/"] ⊆ binarySymbols) Product.value .apply
    exact chain_sound direct product (by decide) .product .apply

/-! ## Programs -/

theorem braced_sound {block : Rule true (List Node)} (hb : block.Sound src [] n Block) {context : String}
    (begun : Construct known context) : (src.braced block context).Sound src known (n + 1) Braced := by
  have still (words : List Lexeme) : Construct (known ++ words) context :=
    begun.mono (List.subset_append_left ..)
  refine .descend (expect_sound direct (by decide) fun _ => .blockStart begun) fun {opening _} hopen => ?_
  refine hb.knowing.bind fun {inside _} phrase => ?_
  have begun : Construct (known ++ opening ++ inside) context := by
    rw [List.append_assoc]
    exact still _
  refine (expect_sound direct (by decide) fun _ => .blockEnd begun).map _ ?_
  rintro _ ⟨⟩ rfl
  rw [hopen]
  exact .block phrase

theorem parameters_sound {function : String} (mem : .identifier function ∈ known) :
    (src.parameters function).Sound src known n fun ls names =>
      ∃ rs, ls = rs ++ [.operator ")"] ∧ Parameters rs names := by
  refine .orElse ((operator_sound direct (by decide)).map _ ?_)
    ((items_sound direct (identifier_sound direct) (.parameter mem) (.parameterEnd mem)).mono ?_)
  · rintro ls ⟨⟩ rfl
    exact ⟨[], rfl, .none⟩
  · rintro ls names ⟨rs, rfl, items⟩
    exact ⟨rs, rfl, .some items⟩

theorem terminated_sound {p : Rule false Node} {D E : List Lexeme → Node → Prop}
    (hp : p.Sound src known n D) (join : ∀ {ls node}, D ls node → E (ls ++ [.semicolon]) node) :
    (src.terminated p).Sound src known n E := by
  refine hp.bind fun phrase => (eat_sound direct .semicolon).map _ ?_
  rintro _ ⟨⟩ rfl
  exact join phrase

section Statements

variable {expression : Rule false Node} {block : Rule true (List Node)}

theorem assignment_sound (he : expression.Sound src [] n Expression) :
    (src.terminated (src.assignment expression)).Sound src known n Statement := by
  have bare : (src.assignment expression).Sound src known n BareAssignment := by
    refine (identifier_sound direct).bind fun {_ name} hname => ?_
    refine (operator_sound direct (by decide)).bind fun hequals => ?_
    refine he.knowing.map _ fun rs e phrase => ?_
    rw [hname, hequals]
    exact ⟨name, rs, e, rfl, rfl, phrase⟩
  exact terminated_sound direct bare BareAssignment.terminated

theorem returning_sound (he : expression.Sound src [] n Expression) :
    (src.terminated (src.returning expression)).Sound src known n Statement := by
  have bare : (src.returning expression).Sound src known n BareReturn := by
    refine (keyword_sound direct (by decide)).bind fun hreturn => ?_
    refine he.knowing.map _ fun rs e phrase => ?_
    rw [hreturn]
    exact ⟨rs, e, rfl, rfl, phrase⟩
  exact terminated_sound direct bare BareReturn.terminated

theorem expressionStatement_sound (he : expression.Sound src [] n Expression) :
    (src.terminated (expression.map .expression)).Sound src known n Statement := by
  have bare : (expression.map Node.expression).Sound src known n BareExpression :=
    he.knowing.map _ fun _ e phrase => ⟨e, rfl, phrase⟩
  exact terminated_sound direct bare BareExpression.terminated

theorem function_sound (hb : block.Sound src [] n Block) :
    (src.function block).Sound src known (n + 1) Statement := by
  refine (keyword_sound direct (by decide)).bind fun {start _} hfn => ?_
  refine (orFail_sound (identifier_sound direct) .functionName).bind fun {word name} hname => ?_
  have mem : .identifier name ∈ known ++ start ++ word :=
    List.mem_append_right _ (hname ▸ List.mem_cons_self)
  refine (expect_sound direct (by decide) fun _ => .parameters mem).bind fun hopen => ?_
  refine (parameters_sound direct (List.mem_append_left _ mem)).bind ?_
  rintro _ params ⟨ps, rfl, parameters⟩
  refine (braced_sound direct hb (.function ?_)).map _ fun ls body phrase => ?_
  · exact List.mem_append_left _ (List.mem_append_left _ mem)
  · rw [hfn, hname, hopen, List.append_assoc]
    exact .function parameters phrase

theorem arm_sound (he : expression.Sound src [] (n + 1) Expression) (hb : block.Sound src [] n Block)
    {word : String} (mem : word ∈ conditionWords) :
    (src.arm expression block word).Sound src known (n + 1) fun ls pair => ∃ cs bs,
      ls = cs ++ bs ∧ Expression cs pair.1 ∧ Braced bs pair.2 := by
  refine (orFail_sound he.knowing (.condition mem)).bind fun {cs _} condition => ?_
  exact (braced_sound direct hb (.arm mem)).map _ fun bs body phrase => ⟨cs, bs, rfl, condition, phrase⟩

omit direct in
/-- One arm is a branch. -/
theorem exists_arms (ls : List Lexeme) (pair : Node × Node)
    (arm : ∃ cs bs, ls = cs ++ bs ∧ Expression cs pair.1 ∧ Braced bs pair.2) : ∃ as, Arms ls as := by
  obtain ⟨cs, bs, rfl, condition, body⟩ := arm
  exact ⟨_, .last condition body⟩

/-- By recursion on the tokens. One arm is enough to complete a branch that is cut off within it. -/
theorem arms_verdict (he : expression.Sound src [] (n + 1) Expression) (hb : block.Sound src [] n Block)
    {word : String} (mem : word ∈ conditionWords) (ts : List Token) (memo : Memo) :
    Verdict src known (n + 1) Arms ts (src.arms expression block word ts memo).1 := by
  rw [arms]
  have arm : (src.arm expression block word).Sound src known (n + 1) _ := arm_sound direct he hb mem
  have hx := arm.verdict ts memo
  generalize src.arm expression block word ts memo = outcome at hx ⊢
  obtain ⟨attempt, memo₁⟩ := outcome
  cases hx with
  | missed => exact .missed
  | failed blame => exact .failed (blame.imp exists_arms)
  | @matched first us lt taken split phrase =>
    obtain ⟨cs, bs, taken_eq, condition, body⟩ := phrase
    subst split
    have elif : (src.keyword "elif").Sound src known (n + 1) _ := keyword_sound direct (by decide)
    have hy := elif.verdict us memo₁
    dsimp only
    generalize src.keyword "elif" us memo₁ = outcome at hy ⊢
    obtain ⟨attempt, memo₂⟩ := outcome
    cases hy with
    | @matched _ vs lt' taken' split' elif_eq =>
      subst split'
      have less : vs.length < (taken ++ (taken' ++ vs)).length := Nat.lt_trans lt' lt
      have next : "elif" ∈ conditionWords := by decide
      have rest := arms_verdict he hb next vs memo₂
      dsimp only
      refine Verdict.widen (List.append_assoc ..).symm _ (fun _ _ h => h)
        (rest.map (first :: ·) fun ms as phrase => ?_)
      rw [List.map_append, taken_eq, elif_eq]
      simpa using Arms.elif condition body phrase
    | _ =>
      -- no `elif`: there may be an `else`
      have otherwise : (src.keyword "else").Sound src known (n + 1) _ :=
        keyword_sound direct (by decide)
      have hz := otherwise.verdict us memo₂
      dsimp only
      generalize src.keyword "else" us memo₂ = outcome at hz ⊢
      obtain ⟨attempt, memo₃⟩ := outcome
      cases hz with
      | @matched _ vs lt' taken' split' else_eq =>
        subst split'
        have other : (src.braced block "'else'").Sound src known (n + 1) Braced :=
          braced_sound direct hb .otherwise
        have rest := other.verdict vs memo₃
        dsimp only
        refine Verdict.widen (List.append_assoc ..).symm _ (fun _ _ h => h)
          (rest.map (fun other => [first, (.bool true, other)]) fun os other phrase => ?_)
        rw [List.map_append, taken_eq, else_eq]
        simpa using Arms.otherwise condition body phrase
      | _ => exact .matched taken rfl (taken_eq ▸ .last condition body)
termination_by ts.length

theorem branch_sound (he : expression.Sound src [] (n + 1) Expression) (hb : block.Sound src [] n Block) :
    (src.branch expression block).Sound src known (n + 1) Statement := by
  refine (keyword_sound direct (by decide)).bind fun {start _} hif => ?_
  have mem : "if" ∈ conditionWords := by decide
  have arm : (src.arm expression block "if").Sound src known (n + 1) _ := arm_sound direct he hb mem
  have arms : Rule.Sound src (known ++ start) (n + 1) (src.arms expression block "if") Arms :=
    ⟨arm.possible.imp [] exists_arms, arms_verdict direct he hb mem⟩
  refine arms.map _ fun ls arms phrase => ?_
  rw [hif]
  exact .branch phrase

theorem loop_sound (he : expression.Sound src [] (n + 1) Expression) (hb : block.Sound src [] n Block) :
    (src.loop expression block).Sound src known (n + 1) Statement := by
  refine (keyword_sound direct (by decide)).bind fun hwhile => ?_
  refine (arm_sound direct he hb (by decide)).map _ ?_
  rintro _ ⟨c, b⟩ ⟨cs, bs, rfl, condition, body⟩
  rw [hwhile]
  show Statement (.keyword "while" :: (cs ++ bs)) (.loop c b)
  exact .loop condition body

/-- A statement, or a semicolon on its own. -/
theorem statement_sound (he : expression.Sound src [] (n + 1) Expression) (hb : block.Sound src [] n Block) :
    (src.statement expression block).Sound src known (n + 1) fun ls node =>
      Statement ls node ∨ ls = [.semicolon] ∧ node = .empty := by
  have proper {p : Rule false Node} (hp : p.Sound src known (n + 1) Statement) :
      p.Sound src known (n + 1) fun ls node => Statement ls node ∨ ls = [.semicolon] ∧ node = .empty :=
    hp.mono fun _ _ => .inl
  refine .orElse (proper (assignment_sound direct he)) ?_
  refine .orElse (proper (returning_sound direct he)) ?_
  refine .orElse (proper (expressionStatement_sound direct he)) ?_
  refine .orElse (proper (function_sound direct hb)) ?_
  refine .orElse (proper (branch_sound direct he hb)) ?_
  refine .orElse (proper (loop_sound direct he hb)) ?_
  exact (eat_sound direct .semicolon).map _ fun _ _ semicolon => .inr ⟨semicolon, rfl⟩

end Statements

omit direct in
/-- By recursion on the tokens. A block that is cut off within a statement is completed by that statement.
-/
theorem statements_verdict {statement : Rule false Node}
    (hs : statement.Sound src known n fun ls node =>
      Statement ls node ∨ ls = [.semicolon] ∧ node = .empty)
    (ts : List Token) (memo : Memo) :
    Verdict src known n Block ts (statements statement ts memo).1 := by
  rw [statements]
  have hx := hs.verdict ts memo
  generalize statement ts memo = outcome at hx ⊢
  obtain ⟨attempt, memo'⟩ := outcome
  cases hx with
  | missed => exact .matched [] rfl .nil
  | failed blame =>
    refine .failed (blame.imp fun ls node phrase => ?_)
    rcases phrase with phrase | ⟨rfl, -⟩
    · exact ⟨[node], List.append_nil ls ▸ .cons phrase .nil⟩
    · exact ⟨[], .semicolon .nil⟩
  | @matched first us lt taken split phrase =>
    subst split
    have less : us.length < (taken ++ us).length := lt
    have rest := statements_verdict hs us memo'
    dsimp only
    refine Verdict.widen rfl _ (fun _ _ h => h) (rest.map _ fun rs ss block => ?_)
    rcases phrase with phrase | ⟨semicolon, rfl⟩
    · cases first with
      | empty => exact absurd rfl phrase.ne_empty
      | _ => exact .cons phrase block
    · rw [semicolon]
      exact .semicolon block
termination_by ts.length

theorem block_sound (levels : Nat) : (src.block levels).Sound src [] levels Block := by
  have possible : Viable Block [] := ⟨[], [], List.forall_mem_nil _, .nil⟩
  induction levels with
  | zero => exact Rule.fail_sound possible
  | succ levels ih =>
    have expression := expression_sound direct (levels + 1)
    exact ⟨possible, statements_verdict (statement_sound direct expression ih)⟩

omit direct in
/-- A row of statements may be empty, so it is never missed. -/
theorem statements_ne_missed (statement : Rule false Node) (ts : List Token) (memo : Memo) :
    (statements statement ts memo).1 ≠ .missed := by
  rw [statements]
  generalize statement ts memo = outcome
  obtain ⟨attempt, memo'⟩ := outcome
  cases attempt with
  | missed => exact nofun
  | failed f => exact nofun
  | matched first us lt =>
    have less : us.length < ts.length := lt
    have ih := statements_ne_missed statement us memo'
    dsimp only
    generalize statements statement us memo' = outcome at ih ⊢
    obtain ⟨attempt, memo''⟩ := outcome
    cases attempt with
    | missed => exact absurd rfl ih
    | matched value vs lt' => exact nofun
    | failed f => exact nofun
termination_by ts.length

omit direct in
variable (src) in
/-- Where there is no statement there is an empty block. -/
theorem block_ne_missed (levels : Nat) (ts : List Token) (memo : Memo) :
    (src.block levels ts memo).1 ≠ .missed := by
  cases levels with
  | zero => exact nofun
  | succ levels => exact statements_ne_missed _ ts memo

omit direct in
/-- What a program that is read consists of. -/
theorem program_eq_ok {levels : Nat} {ts : List Token} {memo : Memo} {tree : Node}
    (ok : (src.program levels ts memo).1 = .ok tree) :
    ∃ nodes rest shorter memo', src.block levels ts memo = (.matched nodes rest shorter, memo') ∧
      tree = .block nodes ∧ (src.look rest memo').1.lexeme = .endOfInput ∧
      (src.program levels ts memo).2 = (src.look rest memo').2 := by
  have found := src.block_ne_missed levels ts memo
  unfold program programOf at ok ⊢
  generalize src.block levels ts memo = x at ok found ⊢
  match x with
  | (.missed, memo') => exact absurd rfl found
  | (.failed fault, memo') => cases ok
  | (.matched nodes rest shorter, memo') =>
    refine ⟨nodes, rest, shorter, memo', rfl, ?_⟩
    dsimp only at ok ⊢
    split at ok
    · next last =>
      rw [if_pos last]
      exact ⟨(Except.ok.inj ok).symm, last, rfl⟩
    · cases ok

/-- A program that is accepted is a phrase, and a program is refused for a reason. -/
theorem program_sound {ts : List Token} (ends : src.final.lexeme = .endOfInput)
    (inner : ∀ t ∈ ts, t.lexeme ≠ .endOfInput) (levels : Nat) (memo : Memo) :
    (∃ tree, (src.program levels ts memo).1 = .ok tree ∧ Program (ts.map Token.lexeme) tree) ∨
      ∃ f, (src.program levels ts memo).1 = .error f ∧ src.Refuses levels ts f := by
  have hx := (block_sound direct levels).verdict ts memo
  have ne := src.block_ne_missed levels ts memo
  unfold program programOf
  generalize src.block levels ts memo = outcome at hx ne ⊢
  obtain ⟨attempt, memo'⟩ := outcome
  cases hx with
  | missed => exact absurd rfl ne
  | failed blame => exact .inr ⟨_, rfl, .inside (blame.imp fun _ ss block => ⟨_, ss, rfl, block⟩)⟩
  | @matched statements us lt taken split phrase =>
    subst split
    dsimp only
    rw [look_token direct]
    cases us with
    | nil =>
      rw [List.append_nil, List.headD_nil, if_pos ends]
      exact .inl ⟨_, rfl, _, rfl, phrase⟩
    | cons t us =>
      rw [List.headD_cons, if_neg (inner t (by simp))]
      exact .inr ⟨_, rfl, .after rfl ⟨_, rfl, phrase⟩⟩

end Source

end Abacus
