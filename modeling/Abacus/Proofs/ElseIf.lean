import Mathlib
import Abacus.Proofs.Joined
import Abacus.Proofs.Tracing

/-!
# Chains of conditions

    if c₁ {B₁} elif c₂ {B₂} ... else {E}          if c₁ {B₁} else { if c₂ {B₂} else { ... {E} ... } }

A chain of conditions can be written flat or nested. The two are different trees, and the nested one
needs more levels and tells more lines: each `else` is a condition that is always true. Apart from that
they run alike (`elif_is_nested_else_if`). The conditions are tried in order, on the machine that the ones
before have left, up to the first that is true or fails.
-/

namespace Abacus

open Phrase

/-! ## Chains as they are written -/

/-- An expression, and nothing after it. -/
def Source.wholeExpression (src : Source) (levels : Nat) (ts : List Token) : Option Node :=
  match (src.expression levels ts .empty).1 with
  | .matched node [] _ => some node
  | _ => none

/-- The expression that a whole text is read as, with levels to spare. -/
def readExpression (text : List Char) : Option Node :=
  let s := Stream.ofText text 0
  Source.wholeExpression ⟨Memo.rereading, s.final⟩ (s.tokens.length + 1) s.tokens

/-- A program as it is written, to stand between braces. -/
structure WrittenBlock where
  text : List Char
  node : Node
  reads : parseFreely text 0 = .ok node

/-- A condition and a block as they are written. -/
structure WrittenArm where
  condition : List Char
  test : Node
  reads : readExpression condition = some test
  body : WrittenBlock

namespace WrittenArm

def node (arm : WrittenArm) : Node × Node := (arm.test, arm.body.node)

end WrittenArm

/-- A text between braces, after a blank. -/
def inBraces (text : List Char) : List Char := " \x7b".toList ++ (text ++ "\x7d".toList)

/-- The end of a chain. -/
def elseText (otherwise : Option WrittenBlock) : List Char :=
  otherwise.elim [] fun other => " else".toList ++ inBraces other.text

/-- A chain after its `if`: `c₁ {B₁} elif c₂ {B₂} ... else {E}`. -/
def chainText (first : WrittenArm) (others : List WrittenArm) (otherwise : Option WrittenBlock) :
    List Char :=
  first.condition ++ (inBraces first.body.text ++
    match others with
    | [] => elseText otherwise
    | second :: others => " elif ".toList ++ chainText second others otherwise)

/-- The same after its `if`, nested: `c₁ {B₁} else { if c₂ {B₂} else { ... {E} ... } }`. -/
def nestedText (first : WrittenArm) (others : List WrittenArm) (otherwise : Option WrittenBlock) :
    List Char :=
  first.condition ++ (inBraces first.body.text ++
    match others with
    | [] => elseText otherwise
    | second :: others =>
      " else".toList ++ inBraces (" if ".toList ++ (nestedText second others otherwise ++ " ".toList)))

/-- The arm of an `else`. -/
def elseArm (otherwise : Option Node) : List (Node × Node) :=
  otherwise.toList.map fun other => (.bool true, other)

/-- The arms of a nested chain. -/
def nestedArms (first : Node × Node) (others : List (Node × Node)) (otherwise : Option Node) :
    List (Node × Node) :=
  first ::
    match others with
    | [] => elseArm otherwise
    | second :: others => [(.bool true, .block [.branch (nestedArms second others otherwise)])]

/-! ## Reading -/

theorem lexemes_nil : (Stream.ofText [] 0).lexemes = [] :=
  congrArg Stream.lexemes (Stream.read_blank (List.forall_mem_nil _) 0)

/-- A single word behind blanks. -/
theorem lexemes_alone {l : Lexeme} (proper : l.Proper) {gap : List Char}
    (blanks : ∀ c ∈ gap, isBlank c = true) :
    (Stream.ofText (gap ++ l.value.toList) 0).lexemes = [l] := by
  obtain ⟨c, body, chars, solid, spelling⟩ := proper.spelt
  have cut : Cut [l] (gap ++ c :: (body ++ [])) [] :=
    .word ⟨blanks, solid, spelling, nofun⟩ (.blank (List.forall_mem_nil _))
  have words := cut.lexemes_eq 0 0
  rw [List.append_nil, List.append_nil] at words
  rw [chars]
  exact words.trans (congrArg ([l] ++ ·) lexemes_nil)

theorem lexemes_keyword {word : String} (reserved : word ∈ reservedWords) :
    (Stream.ofText word.toList 0).lexemes = [.keyword word] :=
  lexemes_alone (.keyword reserved) (List.forall_mem_nil _)

theorem lexemes_spaced_keyword {word : String} (reserved : word ∈ reservedWords) :
    (Stream.ofText (' ' :: word.toList) 0).lexemes = [.keyword word] :=
  lexemes_alone (.keyword reserved) (List.forall_mem_singleton.2 rfl)

theorem lexemes_openBrace (text : List Char) :
    (Stream.ofText ('\x7b' :: text) 0).lexemes = .operator "\x7b" :: (Stream.ofText text 0).lexemes := by
  have word : HasWord (.operator "\x7b") [] '\x7b' [] ([] ++ text) :=
    ⟨List.forall_mem_nil _, rfl, by decide, fun d _ => Lexeme.endsBefore_brace (.inl rfl) d⟩
  exact (Cut.word word (.blank (List.forall_mem_nil _))).lexemes_eq 0 0

theorem lexemes_closeBrace (text : List Char) :
    (Stream.ofText ('\x7d' :: text) 0).lexemes = .operator "\x7d" :: (Stream.ofText text 0).lexemes := by
  have known : "\x7d" ∈ operatorTable := by decide
  have brace : (Stream.ofText ['\x7d'] 0).lexemes = [.operator "\x7d"] :=
    lexemes_alone (.operator known) (List.forall_mem_nil _)
  have sealed : EndsSealed (Stream.ofText ['\x7d'] 0).lexemes := brace ▸ EndsSealed.brace []
  rw [← List.singleton_append, Stream.lexemes_append (.inr sealed), brace]
  rfl

/-- A program in braces after some text, and text after it. -/
theorem lexemes_inBraces {text : List Char} {block : Node} (reads : parseFreely text 0 = .ok block)
    (before : List Char) {after : List Char} {rest : List Lexeme}
    (behind : (Stream.ofText after 0).lexemes = rest) :
    ∃ words, Braced words block ∧
      (Stream.ofText (before ++ (inBraces text ++ after)) 0).lexemes
        = (Stream.ofText before 0).lexemes ++ (words ++ rest) := by
  obtain ⟨statements, rfl, phrase⟩ := (parseFreely_eq_ok_iff text 0 block).1 reads
  refine ⟨_, .block phrase, ?_⟩
  have shape : before ++ (inBraces text ++ after)
      = before ++ ' ' :: ('\x7b' :: (text ++ '\x7d' :: after)) := by
    simp [inBraces]
  rw [shape, Stream.lexemes_append_blank _ rfl, lexemes_openBrace,
    Stream.lexemes_append phrase.nil_or_endsSealed, lexemes_closeBrace, behind]
  simp

/-- A text that the rule for expressions takes is an expression. -/
theorem expression_of_readExpression {text : List Char} {node : Node}
    (reads : readExpression text = some node) : Expression (Stream.ofText text 0).lexemes node := by
  unfold readExpression Source.wholeExpression at reads
  dsimp only at reads
  split at reads
  case h_2 => cases reads
  case h_1 value shorter matched =>
    cases reads
    have sound := Source.expression_sound (Source.direct_rereading (Stream.ofText text 0).final)
      ((Stream.ofText text 0).tokens.length + 1)
    have verdict := sound.verdict (Stream.ofText text 0).tokens .empty
    rw [matched] at verdict
    cases verdict with
    | matched taken split phrase =>
      rw [List.append_nil] at split
      rw [Stream.lexemes, split]
      exact phrase

/-- An `if` and the arms after it. -/
theorem parseFreely_branch {text : List Char} {arms : List (Node × Node)}
    (h : Arms (Stream.ofText text 0).lexemes arms) :
    parseFreely ("if ".toList ++ text) 0 = .ok (.block [.branch arms]) := by
  have word : (Stream.ofText "if".toList 0).lexemes = [.keyword "if"] := lexemes_keyword (by decide)
  have spaced : "if ".toList ++ text = "if".toList ++ ' ' :: text := rfl
  rw [parseFreely_eq_ok_iff, spaced, Stream.lexemes_append_blank _ rfl, word]
  have block := Block.cons (.branch h) .nil
  rw [List.append_nil] at block
  exact ⟨_, rfl, block⟩

/-- Blanks around a program make no difference. -/
theorem parseFreely_between_blanks {text : List Char} {tree : Node}
    (reads : parseFreely text 0 = .ok tree) : parseFreely (' ' :: (text ++ [' '])) 0 = .ok tree := by
  have before := Stream.lexemes_append_blank [] (c := ' ') rfl (text ++ [' '])
  have after := Stream.lexemes_append_blank text (c := ' ') rfl []
  rw [lexemes_nil, List.nil_append, List.nil_append] at before
  rw [lexemes_nil, List.append_nil] at after
  rw [parseFreely_eq_ok_iff, before, after]
  exact (parseFreely_eq_ok_iff text 0 tree).1 reads

/-- An `else` and its program. -/
theorem lexemes_else {text : List Char} {block : Node} (reads : parseFreely text 0 = .ok block) :
    ∃ words, Braced words block ∧
      (Stream.ofText (" else".toList ++ inBraces text) 0).lexemes = .keyword "else" :: words := by
  obtain ⟨words, braced, eq⟩ := lexemes_inBraces reads " else".toList lexemes_nil
  have reserved : "else" ∈ reservedWords := by decide
  have word : (Stream.ofText " else".toList 0).lexemes = [.keyword "else"] :=
    lexemes_spaced_keyword reserved
  rw [List.append_nil, word, List.append_nil] at eq
  exact ⟨words, braced, eq⟩

section Texts

variable (first : WrittenArm) (others : List WrittenArm) (otherwise : Option WrittenBlock)

/-- The last condition of a chain, and the `else` after it. -/
theorem arms_last :
    Arms (Stream.ofText (first.condition ++ (inBraces first.body.text ++ elseText otherwise)) 0).lexemes
      (first.node :: elseArm (otherwise.map (·.node))) := by
  have condition := expression_of_readExpression first.reads
  cases otherwise with
  | none =>
    obtain ⟨body, block, eq⟩ := lexemes_inBraces first.body.reads first.condition lexemes_nil
    rw [elseText, Option.elim_none, eq, List.append_nil]
    exact .last condition block
  | some other =>
    obtain ⟨words, last, behind⟩ := lexemes_else other.reads
    obtain ⟨body, block, eq⟩ := lexemes_inBraces first.body.reads first.condition behind
    rw [elseText, Option.elim_some, eq]
    exact .otherwise condition block last

/-- The words of a chain derive its arms, one after another. -/
theorem arms_chainText :
    Arms (Stream.ofText (chainText first others otherwise) 0).lexemes
      (first.node :: (others.map WrittenArm.node ++ elseArm (otherwise.map (·.node)))) := by
  induction others generalizing first with
  | nil =>
    rw [chainText]
    exact arms_last first otherwise
  | cons second others ih =>
    have condition := expression_of_readExpression first.reads
    have behind : (Stream.ofText (" elif ".toList ++ chainText second others otherwise) 0).lexemes
        = .keyword "elif" :: (Stream.ofText (chainText second others otherwise) 0).lexemes := by
      have reserved : "elif" ∈ reservedWords := by decide
      have word : (Stream.ofText " elif".toList 0).lexemes = [.keyword "elif"] :=
        lexemes_spaced_keyword reserved
      have spaced : " elif ".toList ++ chainText second others otherwise
          = " elif".toList ++ ' ' :: chainText second others otherwise := rfl
      rw [spaced, Stream.lexemes_append_blank _ rfl, word]
      rfl
    obtain ⟨body, block, eq⟩ := lexemes_inBraces first.body.reads first.condition behind
    rw [chainText, eq]
    exact .elif condition block (ih second)

/-- The words of nested branches derive a branch within the `else` of another. -/
theorem arms_nestedText :
    Arms (Stream.ofText (nestedText first others otherwise) 0).lexemes
      (nestedArms first.node (others.map WrittenArm.node) (otherwise.map (·.node))) := by
  induction others generalizing first with
  | nil =>
    rw [nestedText, List.map_nil, nestedArms]
    exact arms_last first otherwise
  | cons second others ih =>
    have inner : parseFreely (" if ".toList ++ (nestedText second others otherwise ++ " ".toList)) 0
        = .ok (.block [.branch (nestedArms second.node (others.map WrittenArm.node)
            (otherwise.map (·.node)))]) := by
      have spaced : " if ".toList ++ (nestedText second others otherwise ++ " ".toList)
          = ' ' :: (("if ".toList ++ nestedText second others otherwise) ++ [' ']) := rfl
      rw [spaced]
      exact parseFreely_between_blanks (parseFreely_branch (ih second))
    have condition := expression_of_readExpression first.reads
    obtain ⟨words, last, behind⟩ := lexemes_else inner
    obtain ⟨body, block, eq⟩ := lexemes_inBraces first.body.reads first.condition behind
    rw [nestedText, eq, List.map_cons, nestedArms]
    exact .otherwise condition block last

end Texts

/-! ## Running -/

namespace Trace

@[simp] theorem level_tell (trace : Trace) (line : TraceLine) : (trace.tell line).level = trace.level := by
  unfold tell
  split
  · rfl
  · split <;> rfl

/-- Traces that take the same lines, whatever they have taken before. -/
structure Alike (t u : Trace) : Prop where
  level : u.level = t.level
  filing : u.filing = t.filing

namespace Alike

variable {t u : Trace}

theorem refl (t : Trace) : Alike t t := ⟨rfl, rfl⟩

theorem tell_left (h : Alike t u) (line : TraceLine) : Alike (t.tell line) u :=
  ⟨h.level.trans (level_tell t line).symm, h.filing.trans (filing_tell t line).symm⟩

theorem tell_right (h : Alike t u) (line : TraceLine) : Alike t (u.tell line) :=
  ⟨(level_tell u line).trans h.level, (filing_tell u line).trans h.filing⟩

theorem files (h : Alike t u) (line : TraceLine) : u.files line = t.files line := by
  rw [Trace.files, Trace.files, h.level, h.filing]

end Alike

end Trace

namespace Eval

/-- No more is excused than running out of levels. -/
def IsTooDeep (fault : EvalFault) (_ : Trace) : Prop := fault = .tooDeep

theorem listening_alike : Listening Trace.Alike IsTooDeep where
  told line m n beside := by
    have files := beside.trace.files line
    rcases tell_cases line m with ⟨writable, told⟩ | ⟨run, filed, odd, failed⟩
    · rw [told, tell_of_writable (files ▸ writable)]
      exact .same ⟨beside.store, beside.printed, beside.printsStrictly,
        (beside.trace.tell_left line).tell_right line⟩
    · rw [failed, tell_of_odd (files.trans filed) odd]
      exact .same beside
  keeps _ _ excuse := excuse
  reach line alike reached := alike.level ▸ reached
  check line alike reached := .inl (alike.level ▸ reached)

/-- Tries arms in a scope. -/
def tryArms (rounds levels scope : Nat) (arms : List (Node × Node)) : Eval (Option Value) :=
  runArms (evaluate rounds levels · scope) (execute rounds levels · scope) arms

/-- Runs a program in a scope, for what it returns. -/
def runHere (rounds levels scope : Nat) (program : Node) : Eval (Option Value) :=
  runBlock (execute rounds levels · scope) program

section Nesting

variable {rounds levels levels' scope : Nat}

theorem runStatements_singleton (execute : Node → Eval (Option Value)) (node : Node) :
    runStatements execute [node] = execute node := by
  funext m
  rw [runStatements]
  rcases execute node m with ⟨_ | _ | _, m'⟩ <;> rfl

/-- A branch takes a level. -/
theorem runHere_branch (arms : List (Node × Node)) :
    runHere rounds (levels + 1) scope (.block [.branch arms]) = tryArms rounds levels scope arms := by
  rw [runHere, runBlock, runStatements_singleton, execute]
  rfl

theorem runHere_tooDeep (arms : List (Node × Node)) :
    runHere rounds 0 scope (.block [.branch arms]) = fail .tooDeep := by
  rw [runHere, runBlock, runStatements_singleton, execute]

theorem tryArms_tooDeep (arm : Node × Node) (arms : List (Node × Node)) (m : Machine) :
    tryArms rounds 0 scope (arm :: arms) m = (.error .tooDeep, m) := by
  have stops : evaluate rounds 0 arm.1 scope m = (.error .tooDeep, m) := by
    rw [evaluate]
    rfl
  exact bind_of_error stops _

/-- The condition of an `else` changes nothing but the trace. -/
theorem tryArms_else (block : Node) (m : Machine) :
    tryArms rounds (levels + 1) scope [(.bool true, block)] m
      = runHere rounds (levels + 1) scope block
          { m with trace := m.trace.tell (.ifCondition (.int 1)) } := by
  have value : evaluate rounds (levels + 1) (.bool true) scope m = (.ok (.int 1), m) := by
    rw [evaluate]
    rfl
  have told : tell (.ifCondition (.int 1)) m
      = (.ok (), { m with trace := m.trace.tell (.ifCondition (.int 1)) }) :=
    tell_of_writable fun _ => by decide
  rw [tryArms, runArms, bind_of_ok value, bind_of_ok told]
  rfl

/-- The same arm before arms that go together. -/
theorem tryArms_cons_together (deep : levels ≤ levels') (arm : Node × Node)
    {rest rest' : List (Node × Node)}
    (h : Together Trace.Alike IsTooDeep (tryArms rounds levels scope rest)
      (tryArms rounds levels' scope rest')) :
    Together Trace.Alike IsTooDeep (tryArms rounds levels scope (arm :: rest))
      (tryArms rounds levels' scope (arm :: rest')) := by
  have excuse : levels < levels' → ∀ trace, IsTooDeep .tooDeep trace := fun _ _ => rfl
  obtain ⟨he, hx⟩ := evaluate_execute_together listening_alike (Nat.le_refl rounds)
    (fun lt => absurd lt (Nat.lt_irrefl rounds)) deep excuse
  refine (he arm.1 scope).bind fun value => (listening_alike.tell _).bind fun _ => ?_
  split
  · exact runBlock_together (fun node => hx node scope) arm.2
  · exact h

theorem tryArms_together (deep : levels ≤ levels') (arms : List (Node × Node)) :
    Together Trace.Alike IsTooDeep (tryArms rounds levels scope arms)
      (tryArms rounds levels' scope arms) := by
  induction arms with
  | nil => exact together_pure none
  | cons arm arms ih => exact tryArms_cons_together deep arm ih

/-- Nested, a chain does what it does flat, if it has a level more for each further condition. -/
theorem flat_together_nested (first : Node × Node) (others : List (Node × Node))
    (otherwise : Option Node) (deep : levels + others.length ≤ levels') :
    Together Trace.Alike IsTooDeep
      (tryArms rounds levels scope (first :: (others ++ elseArm otherwise)))
      (tryArms rounds levels' scope (nestedArms first others otherwise)) := by
  induction others generalizing first levels' with
  | nil =>
    rw [nestedArms]
    exact tryArms_together deep _
  | cons second others ih =>
    rw [List.length_cons] at deep
    obtain ⟨levels', rfl⟩ : ∃ k, levels' = k + 1 := ⟨levels' - 1, by omega⟩
    rw [nestedArms]
    refine tryArms_cons_together (by omega) first (.of_agree fun m n beside => ?_)
    rw [tryArms_else, runHere_branch]
    refine (ih second (by omega)).agree ⟨beside.store, beside.printed, beside.printsStrictly, ?_⟩
    exact beside.trace.tell_right _

/-- Flat, a chain does what it does nested. -/
theorem nested_together_flat (first : Node × Node) (others : List (Node × Node))
    (otherwise : Option Node) (deep : levels ≤ levels') :
    Together Trace.Alike IsTooDeep
      (tryArms rounds levels scope (nestedArms first others otherwise))
      (tryArms rounds levels' scope (first :: (others ++ elseArm otherwise))) := by
  induction others generalizing first levels with
  | nil =>
    rw [nestedArms]
    exact tryArms_together deep _
  | cons second others ih =>
    rw [nestedArms]
    refine tryArms_cons_together deep first (.of_agree fun m n beside => ?_)
    cases levels with
    | zero =>
      rw [tryArms_tooDeep]
      exact .excused rfl
    | succ levels =>
      rw [tryArms_else, runHere_branch]
      refine (ih second (by omega)).agree ⟨beside.store, beside.printed, beside.printsStrictly, ?_⟩
      exact beside.trace.tell_left _

end Nesting

/-! ## Trying one condition after the other -/

/-- Evaluates a condition, and tells how it turned out. -/
def test (evaluate : Node → Eval Value) (condition : Node) : Eval Value := do
  let value ← evaluate condition
  tell (.ifCondition value)
  return value

/-- The conditions of these arms are evaluated, from one machine to the other, and none is true. -/
inductive Passes (evaluate : Node → Eval Value) : List (Node × Node) → Machine → Machine → Prop
  | nil {m} : Passes evaluate [] m m
  | cons {condition body arms value m m' m''} (tested : test evaluate condition m = (.ok value, m'))
      (isFalse : value.isTrue = false) (rest : Passes evaluate arms m' m'') :
      Passes evaluate ((condition, body) :: arms) m m''

section Passing

variable {evaluate : Node → Eval Value} {execute : Node → Eval (Option Value)}

theorem runArms_cons (condition body : Node) (arms : List (Node × Node)) :
    runArms evaluate execute ((condition, body) :: arms) = (do
      let value ← test evaluate condition
      if value.isTrue then runBlock execute body else runArms evaluate execute arms) := by
  funext m
  rw [runArms, test]
  rcases eq : evaluate condition m with ⟨fault | value, m₁⟩
  · rw [bind_of_error eq, bind_of_error (bind_of_error eq _)]
  · rw [bind_of_ok eq]
    rcases told : tell (.ifCondition value) m₁ with ⟨fault | _, m₂⟩
    · rw [bind_of_error told, bind_of_error ((bind_of_ok eq _).trans (bind_of_error told _))]
    · rw [bind_of_ok told, bind_of_ok ((bind_of_ok eq _).trans (bind_of_ok told _))]

theorem Passes.runArms_append {before : List (Node × Node)} {m m' : Machine}
    (h : Passes evaluate before m m') (execute : Node → Eval (Option Value))
    (after : List (Node × Node)) :
    runArms evaluate execute (before ++ after) m = runArms evaluate execute after m' := by
  induction h with
  | nil => rfl
  | cons tested isFalse _ ih =>
    rw [List.cons_append, runArms_cons, bind_of_ok tested, isFalse]
    exact ih

/-- Conditions take a level. -/
theorem Passes.exists_level {rounds levels scope : Nat} {arm : Node × Node} {arms : List (Node × Node)}
    {m m' : Machine} (h : Passes (Eval.evaluate rounds levels · scope) (arm :: arms) m m') :
    ∃ k, levels = k + 1 := by
  cases levels with
  | succ k => exact ⟨k, rfl⟩
  | zero =>
    have stuck : tryArms rounds 0 scope (arm :: arms) m = (.ok none, m') := by
      have tried := h.runArms_append (Eval.execute rounds 0 · scope) []
      rwa [List.append_nil] at tried
    rw [tryArms_tooDeep] at stuck
    cases stuck

end Passing

/-- The same outcome, the same output and the same variables. -/
structure SameEnd (left right : Except EvalFault (Option Value) × Machine) : Prop where
  outcome : right.1 = left.1
  printed : right.2.printed = left.2.printed
  store : right.2.store = left.2.store

/-- Computations that go together end alike, from the same machine. -/
theorem Together.sameEnd {p q : Eval (Option Value)} (h : Together Trace.Alike IsTooDeep p q)
    {m : Machine} (enough : (p m).1 ≠ .error .tooDeep) : SameEnd (p m) (q m) := by
  have agree := h.agree ⟨rfl, rfl, rfl, .refl m.trace⟩
  generalize p m = left at agree enough ⊢
  generalize q m = right at agree ⊢
  cases agree with
  | same beside => exact ⟨rfl, beside.printed, beside.store⟩
  | excused excuse => exact absurd (congrArg Except.error excuse) enough

theorem runHere_branch_together {rounds levels levels' scope extra : Nat}
    {arms arms' : List (Node × Node)} (deep : levels + extra ≤ levels')
    (h : ∀ k k', k + extra ≤ k' → Together Trace.Alike IsTooDeep (tryArms rounds k scope arms)
      (tryArms rounds k' scope arms')) :
    Together Trace.Alike IsTooDeep (runHere rounds levels scope (.block [.branch arms]))
      (runHere rounds levels' scope (.block [.branch arms'])) := by
  cases levels with
  | zero =>
    rw [runHere_tooDeep]
    exact .of_agree fun _ _ _ => .excused rfl
  | succ k =>
    obtain ⟨k', rfl⟩ : ∃ k', levels' = k' + 1 := ⟨levels' - 1, by omega⟩
    rw [runHere_branch, runHere_branch]
    exact h k k' (by omega)

end Eval

open Eval

/-- A chain of conditions can be written with `elif` or nested in `else`. Both texts are read if their
parts are. Given a level more for each condition after the first, the nested program ends as the flat one
does, and without it the flat one ends as the nested one does. Where the conditions before an arm are
false and its own fails or is true, what comes of the chain does not depend on the arms after it. -/
theorem elif_is_nested_else_if (first : WrittenArm) (others : List WrittenArm)
    (otherwise : Option WrittenBlock) :
    let arms := (first :: others).map WrittenArm.node
    let other := otherwise.map (·.node)
    let flat := Node.block [.branch (arms ++ elseArm other)]
    let nested := Node.block [.branch (nestedArms first.node (others.map WrittenArm.node) other)]
    parseFreely ("if ".toList ++ chainText first others otherwise) 0 = .ok flat ∧
    parseFreely ("if ".toList ++ nestedText first others otherwise) 0 = .ok nested ∧
    ∀ (rounds scope : Nat) (m : Machine),
      (∀ levels levels', levels + others.length ≤ levels' →
        (runHere rounds levels scope flat m).1 ≠ .error .tooDeep →
        SameEnd (runHere rounds levels scope flat m) (runHere rounds levels' scope nested m)) ∧
      (∀ levels levels', levels ≤ levels' →
        (runHere rounds levels scope nested m).1 ≠ .error .tooDeep →
        SameEnd (runHere rounds levels scope nested m) (runHere rounds levels' scope flat m)) ∧
      ∀ (levels : Nat) (m' : Machine),
        (∀ before arm after, first :: others = before ++ arm :: after →
          Passes (evaluate rounds levels · scope) (before.map WrittenArm.node) m m' →
            (∀ fault m'', test (evaluate rounds levels · scope) arm.test m' = (.error fault, m'') →
              runHere rounds (levels + 1) scope flat m = (.error fault, m'')) ∧
            ∀ value m'', test (evaluate rounds levels · scope) arm.test m' = (.ok value, m'') →
              value.isTrue = true →
              runHere rounds (levels + 1) scope flat m
                = runHere rounds levels scope arm.body.node m'') ∧
        (Passes (evaluate rounds levels · scope) arms m m' →
          (otherwise = none → runHere rounds (levels + 1) scope flat m = (.ok none, m')) ∧
          ∀ block, otherwise = some block →
            runHere rounds (levels + 1) scope flat m
              = runHere rounds levels scope block.node
                  { m' with trace := m'.trace.tell (.ifCondition (.int 1)) }) := by
  intro arms other flat nested
  refine ⟨parseFreely_branch (arms_chainText first others otherwise),
    parseFreely_branch (arms_nestedText first others otherwise),
    fun rounds scope m => ⟨fun levels levels' deep enough => ?_, fun levels levels' deep enough => ?_,
      fun levels m' => ⟨fun before arm after split passes => ?_, fun passes => ?_⟩⟩⟩
  · refine (runHere_branch_together deep fun k k' le => ?_).sameEnd enough
    exact flat_together_nested _ _ _ (by rwa [List.length_map])
  · have deep : levels + 0 ≤ levels' := deep
    refine (runHere_branch_together deep fun k k' le => ?_).sameEnd enough
    exact nested_together_flat _ _ _ le
  · have shape : arms ++ elseArm other = before.map WrittenArm.node ++
        arm.node :: (after.map WrittenArm.node ++ elseArm other) := by
      have mapped : arms = (before ++ arm :: after).map WrittenArm.node :=
        congrArg (List.map WrittenArm.node) split
      rw [mapped, List.map_append, List.map_cons, List.append_assoc, List.cons_append]
    have tried := passes.runArms_append (execute rounds levels · scope)
      (arm.node :: (after.map WrittenArm.node ++ elseArm other))
    rw [← shape, WrittenArm.node, runArms_cons] at tried
    refine ⟨fun fault m'' tested => ?_, fun value m'' tested isTrue => ?_⟩
    · rw [runHere_branch, tryArms, tried, bind_of_error tested]
    · rw [runHere_branch, tryArms, tried, bind_of_ok tested, isTrue]
      rfl
  · have tried : runHere rounds (levels + 1) scope flat m
        = tryArms rounds levels scope (elseArm other) m' := by
      rw [runHere_branch]
      exact passes.runArms_append _ _
    refine ⟨?_, ?_⟩
    · rintro rfl
      exact tried
    · rintro block rfl
      obtain ⟨k, rfl⟩ := passes.exists_level
      rw [tried]
      exact tryArms_else block.node m'

/-- The arm `0 {return 1;}`. -/
def zeroArm : WrittenArm where
  condition := "0".toList
  test := .int 0
  reads := by cbv
  body := ⟨"return 1;".toList, .block [.returns (.int 1)], by cbv⟩

/-- The arm `2 {return 3;}`. -/
def twoArm : WrittenArm where
  condition := "2".toList
  test := .int 2
  reads := by cbv
  body := ⟨"return 3;".toList, .block [.returns (.int 3)], by cbv⟩

/-- The arm `x {}`. -/
def unboundArm : WrittenArm where
  condition := "x".toList
  test := .reference (.str "x")
  reads := by cbv
  body := ⟨[], .block [], by cbv⟩

/-- The variable `x` has no value, and is not looked up. -/
theorem elif_is_nested_else_if_unbound :
    (∃ flat, parseFreely "if 0 \x7breturn 1;\x7d elif 2 \x7breturn 3;\x7d elif x \x7b\x7d".toList 0
        = .ok flat ∧
      (runHere 0 3 Store.globalId flat (.start 4 false false)).1 = .ok (some (.int 3))) ∧
    ∃ nested, parseFreely
        "if 0 \x7breturn 1;\x7d else \x7b if 2 \x7breturn 3;\x7d else \x7b if x \x7b\x7d \x7d \x7d".toList 0
        = .ok nested ∧
      (runHere 0 5 Store.globalId nested (.start 4 false false)).1 = .ok (some (.int 3)) := by
  obtain ⟨flat, nested, runs⟩ := elif_is_nested_else_if zeroArm [twoArm, unboundArm] none
  have returned : (runHere 0 3 Store.globalId
      (.block [.branch [zeroArm.node, twoArm.node, unboundArm.node]]) (.start 4 false false)).1
      = .ok (some (.int 3)) := by cbv
  have same := (runs 0 Store.globalId (.start 4 false false)).1 3 5 (Nat.le_refl 5) (by
    intro tooDeep
    cases returned.symm.trans tooDeep)
  exact ⟨⟨_, flat, returned⟩, _, nested, same.outcome.trans returned⟩

end Abacus
