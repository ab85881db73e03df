import Mathlib
import Abacus.Proofs.Acceptance
import Abacus.Proofs.FixedPoint
import Abacus.Proofs.TokenChain
import Abacus.Proofs.WordsOnly

/-!
# What the parser remembers

A parser goes back and looks at the same tokens again. What it remembers is at every moment a front part
of the chain of tokens, in its order, and it looks at no token but one of these or the next one. So a
token that is remembered is the one that reading anew would give, and what is wrong with a token is told
once, in the order of the text.
-/

namespace Abacus

/-! ## Memos -/

namespace Memo

/-- What is remembered is a front part of the stream, in its order. -/
def IsFront (s : Stream) (memo : Memo) : Prop := memo.tokens.reverse <+: s.all

variable {text : List Char} {offset i : Nat} {memo : Memo} {t : Token}

theorem IsFront.push {s : Stream} (h : memo.IsFront s)
    (here : s.all[memo.tokens.length]? = some t) : (memo.push t).IsFront s := by
  have front := List.prefix_iff_eq_take.1 h
  rw [List.length_reverse] at front
  show (t :: memo.tokens).reverse <+: s.all
  rw [List.reverse_cons, front]
  obtain ⟨lt, rfl⟩ := List.getElem?_eq_some_iff.1 here
  rw [List.take_concat_get' _ _ lt]
  exact List.take_prefix _ _

/-- A token that has been looked at is found. -/
theorem IsFront.find?_eq_some (h : memo.IsFront (.ofText text offset)) (mem : t ∈ memo.tokens) :
    memo.find? t.origin = some t := by
  obtain ⟨later, earlier, split⟩ := List.append_of_mem mem
  have order : (later ++ t :: earlier).Pairwise fun t u => u.origin < t.origin := by
    have up : memo.tokens.reverse.Pairwise fun t u => t.origin < u.origin :=
      (Stream.read_pairwise_origin _ _).sublist h.sublist
    rwa [List.pairwise_reverse, split] at up
  have beyond : ∀ u ∈ later, decide (t.origin < u.origin) = true := fun u hu =>
    decide_eq_true ((List.pairwise_append.1 order).2.2 u hu t List.mem_cons_self)
  unfold find?
  rw [split, List.dropWhile_append_of_pos beyond, List.dropWhile_cons_of_neg (by simp)]
  exact if_pos rfl

/-- Looking at a token that is remembered, or at the first one that is not, gives that token. If it was
not remembered, it is from then on. -/
theorem IsFront.remembering_eq (h : memo.IsFront (.ofText text offset))
    (here : (Stream.ofText text offset).all[i]? = some t) (le : i ≤ memo.tokens.length) :
    remembering t memo = (t, if i < memo.tokens.length then memo else memo.push t) := by
  have front := List.prefix_iff_eq_take.1 h
  rw [List.length_reverse] at front
  by_cases lt : i < memo.tokens.length
  · have mem : t ∈ memo.tokens := by
      rw [← List.mem_reverse, front]
      exact List.mem_of_getElem? ((List.getElem?_take_of_lt lt).trans here)
    rw [if_pos lt, remembering, h.find?_eq_some mem]
  · have unknown : memo.find? t.origin = none := by
      refine Option.eq_none_iff_forall_not_mem.2 fun u found => ?_
      obtain ⟨mem, same⟩ := find?_origin found
      obtain ⟨j, at_j⟩ := List.mem_iff_getElem?.1 (List.mem_reverse.2 mem)
      rw [front, List.getElem?_take] at at_j
      split at at_j
      · next before =>
        obtain ⟨hj, rfl⟩ := List.getElem?_eq_some_iff.1 at_j
        obtain ⟨hi, rfl⟩ := List.getElem?_eq_some_iff.1 here
        have order : (Stream.ofText text offset).all.Pairwise fun t u => t.origin < u.origin :=
          Stream.read_pairwise_origin _ _
        exact absurd same (Nat.ne_of_lt (List.pairwise_iff_getElem.1 order j i hj hi (by omega)))
      · cases at_j
    rw [if_neg lt, remembering, unknown]

end Memo

/-! ## Where the parser stands -/

/-- The parser stands before the tokens `ts`, and has looked at all that come before them. -/
structure Standing (s : Stream) (ts : List Token) (memo : Memo) : Prop where
  suffix : ts <:+ s.tokens
  front : memo.IsFront s
  behind : s.tokens.length - ts.length ≤ memo.tokens.length

namespace Standing

variable {text : List Char} {offset : Nat} {ts us : List Token} {memo memo' : Memo}

/-- The token ahead is remembered or the first that is not. It is shown, and remembered from then on. -/
theorem look (h : Standing (.ofText text offset) ts memo) :
    let s := Stream.ofText text offset
    let t := ts.headD s.final
    (Memo.remembering t memo).1 = t ∧ (Memo.remembering t memo).2.IsFront s ∧
      s.tokens.length - ts.length < (Memo.remembering t memo).2.tokens.length := by
  intro s t
  have here := Stream.all_getElem?_of_suffix h.suffix
  rw [h.front.remembering_eq here h.behind]
  split
  · next lt => exact ⟨rfl, h.front, lt⟩
  · next ge =>
    have index : s.tokens.length - ts.length = memo.tokens.length :=
      Nat.le_antisymm h.behind (Nat.not_lt.1 ge)
    refine ⟨rfl, h.front.push (index ▸ here), ?_⟩
    rw [index]
    exact Nat.lt_succ_self _

/-- One token further. -/
theorem next {t : Token} (h : Standing (.ofText text offset) (t :: ts) memo) :
    Standing (.ofText text offset) ts (Memo.remembering t memo).2 := by
  obtain ⟨-, front, behind⟩ := h.look
  refine ⟨(List.suffix_cons t ts).trans h.suffix, front, ?_⟩
  have := h.suffix.length_le
  simp only [List.length_cons, List.headD_cons] at behind this ⊢
  omega

/-- Back to where the parser stood before, with what it has seen since. -/
theorem back (h : Standing (.ofText text offset) ts memo) (further : us <:+ ts)
    (h' : Standing (.ofText text offset) us memo') : Standing (.ofText text offset) ts memo' := by
  have := further.length_le
  have := h'.behind
  exact ⟨h.suffix, h'.front, by omega⟩

end Standing

/-- The first `k` tokens are remembered and no others: under their offsets, in their order, and each as it
is read from its offset. -/
structure Memo.Holds (text : List Char) (offset k : Nat) (memo : Memo) : Prop where
  keys : memo.tokens.reverse.map Token.origin = (List.range k).map (tokenOffset text offset)
  increasing : ∀ i j, i < j → j < k → tokenOffset text offset i < tokenOffset text offset j
  entries : ∀ t ∈ memo.tokens, t = Token.readFrom text t.origin

/-- A moment of a parse: the first tokens of the text are remembered, and one of them or the next one is
looked at. -/
def IsMoment (text : List Char) (offset : Nat) (t : Token) (memo : Memo) : Prop :=
  ∃ k i, memo.Holds text offset k ∧ i ≤ k ∧ t = tokenAt text offset i

namespace Memo.IsFront

variable {text : List Char} {offset : Nat} {memo : Memo}

theorem tokens_eq (h : memo.IsFront (.ofText text offset)) :
    memo.tokens.reverse = (List.range memo.tokens.length).map (tokenAt text offset) := by
  have le := h.length_le
  have front := List.prefix_iff_eq_take.1 h
  rw [List.length_reverse] at le front
  exact front.trans (Stream.take_all le)

theorem holds (h : memo.IsFront (.ofText text offset)) :
    memo.Holds text offset memo.tokens.length where
  keys := by
    rw [h.tokens_eq, List.map_map]
    exact List.map_congr_left fun i _ => tokenAt_origin text offset i
  increasing i j lt lt' := by
    have order : memo.tokens.reverse.Pairwise fun t u => t.origin < u.origin :=
      (Stream.read_pairwise_origin _ _).sublist h.sublist
    rw [h.tokens_eq] at order
    have up := List.pairwise_iff_getElem.1 order i j (by simpa using by omega) (by simpa using lt') lt
    simpa using up
  entries t mem := by
    rw [← List.mem_reverse, h.tokens_eq] at mem
    obtain ⟨i, -, rfl⟩ := List.mem_map.1 mem
    rw [tokenAt_origin]
    rfl

end Memo.IsFront

theorem Standing.isMoment {text : List Char} {offset : Nat} {ts : List Token} {memo : Memo}
    (h : Standing (.ofText text offset) ts memo) :
    IsMoment text offset (ts.headD (Stream.ofText text offset).final) memo :=
  ⟨_, _, h.front.holds, h.behind, Stream.ofText_getElem? (Stream.all_getElem?_of_suffix h.suffix)⟩

/-- The parser that remembers, and one that does as it does at such moments. -/
def Pairing.atMoments {text : List Char} {offset : Nat} {peek : Peek}
    (agrees : ∀ t memo, IsMoment text offset t memo → peek t memo = Memo.remembering t memo) :
    Pairing where
  left := ⟨Memo.remembering, (Stream.ofText text offset).final⟩
  right := ⟨peek, (Stream.ofText text offset).final⟩
  stand ts m ts' m' := ts = ts' ∧ m = m' ∧ Standing (.ofText text offset) ts m
  fault f f' := f = f'
  excused _ := False
  levels k l := k = l
  look := by
    rintro ts m _ _ ⟨rfl, rfl, h⟩
    have same := agrees _ _ h.isMoment
    obtain ⟨-, front, behind⟩ := h.look
    refine ⟨congrArg (fun sight => sight.1.lexeme) same.symm, rfl, congrArg Prod.snd same.symm, ?_⟩
    exact ⟨h.suffix, front, Nat.le_of_lt behind⟩
  nil := by
    rintro m _ m' ⟨rfl, -⟩
    rfl
  cons := by
    rintro t ts m _ _ ⟨rfl, rfl, h⟩
    exact ⟨t, ts, rfl, rfl, congrArg Prod.snd (agrees _ _ h.isMoment).symm, h.next⟩
  back := by
    rintro ts m _ _ us n _ _ ⟨rfl, rfl, h⟩ further - ⟨rfl, rfl, h'⟩
    exact ⟨rfl, rfl, h.back further h'⟩
  rejected := by
    rintro ts m _ _ cause ⟨rfl, -⟩
    rfl
  trailing := by
    rintro ts m _ _ cause ⟨rfl, rfl, h⟩
    exact congrArg (fun sight => ParseFault.rejected cause sight.1.start) (agrees _ _ h.isMoment).symm
  numeral := numeral_of_eq
  bottom := by
    rintro _ rfl
    exact .inl ⟨rfl, rfl⟩
  descend := descend_of_eq

/-! ## Whole parses -/

section Parses

variable {text : List Char} {offset : Nat}

theorem standing_at_start : Standing (.ofText text offset) (Stream.ofText text offset).tokens .empty :=
  ⟨List.suffix_refl _, List.nil_prefix, by rw [Nat.sub_self]; exact Nat.zero_le _⟩

/-- Only moments matter to a parse. -/
theorem parseWithin_eq_of_agrees {peek : Peek}
    (agrees : ∀ t memo, IsMoment text offset t memo → peek t memo = Memo.remembering t memo)
    (levels : Nat) :
    parseWithin levels peek text offset = parseWithin levels Memo.remembering text offset ∧
      (parseWithin levels Memo.remembering text offset).2.IsFront (.ofText text offset) := by
  let c := Pairing.atMoments agrees
  let ts := (Stream.ofText text offset).tokens
  have start : c.stand ts .empty ts .empty := ⟨rfl, rfl, standing_at_start⟩
  have equal : c.levels levels levels := rfl
  rcases Pairing.program equal start with ⟨outcome, us, _, -, memos, standing⟩ | ⟨_, -, excuse⟩
  · refine ⟨Prod.ext ?_ memos.symm, standing.front⟩
    rcases outcome with ⟨tree, h, h'⟩ | ⟨f, _, h, h', rfl⟩
    · exact h'.trans h.symm
    · exact h'.trans h.symm
  · exact excuse.elim

theorem parseWithin_isFront (text : List Char) (offset levels : Nat) :
    (parseWithin levels Memo.remembering text offset).2.IsFront (.ofText text offset) :=
  (parseWithin_eq_of_agrees (fun _ _ _ => rfl) levels).2

/-- A block that has been read leaves the parser standing behind it. -/
theorem standing_after_block {levels : Nat} {nodes : List Node} {rest : List Token} {memo : Memo}
    {shorter : rest.length < (Stream.ofText text offset).tokens.length + 1}
    (read : Source.block ⟨Memo.remembering, (Stream.ofText text offset).final⟩ levels
      (Stream.ofText text offset).tokens .empty = (.matched nodes rest shorter, memo)) :
    Standing (.ofText text offset) rest memo := by
  let c : Pairing := .atMoments fun t memo (_ : IsMoment text offset t memo) => rfl
  let ts := (Stream.ofText text offset).tokens
  have start : c.stand ts .empty ts .empty := ⟨rfl, rfl, standing_at_start⟩
  have equal : c.levels levels levels := rfl
  have outcome := Pairing.block equal start
  rw [show c.left.block levels ts .empty = _ from read] at outcome
  generalize c.right.block levels ts .empty = other at outcome
  cases outcome with
  | matched _ _ stand => exact stand.2.2

/-- A parse that succeeds has looked at every token, the end of the input included. -/
theorem parseWithin_looks_at_all {levels : Nat} {tree : Node}
    (ok : (parseWithin levels Memo.remembering text offset).1 = .ok tree) :
    (parseWithin levels Memo.remembering text offset).2.tokens.reverse
      = (Stream.ofText text offset).all := by
  obtain ⟨nodes, rest, shorter, memo, read, -, last, seen⟩ := Source.program_eq_ok ok
  have standing := standing_after_block read
  obtain ⟨shown, front, beyond⟩ := standing.look
  have empty : rest = [] := by
    cases rest with
    | nil => rfl
    | cons t rest =>
      have word := Stream.read_lexeme_ne (standing.suffix.subset List.mem_cons_self)
      exact absurd ((congrArg Token.lexeme shown).symm.trans last) word
  subst empty
  refine (parseWithin_isFront text offset levels).eq_of_length_le ?_
  rw [List.length_reverse, show (parseWithin levels Memo.remembering text offset).2 = _ from seen]
  simpa [Stream.all, Source.look] using beyond

end Parses

/-- There is one warning for each of them. -/
theorem Memo.IsFront.warnings_eq {text : List Char} {offset : Nat} {memo : Memo}
    (h : memo.IsFront (.ofText text offset)) :
    memo.warnings text = (repeatedDots text offset memo.tokens.length).map fun o =>
      "repeated dots in the same number at " ++ Place.describe text o := by
  rw [Memo.warnings, h.tokens_eq, repeatedDots, List.flatMap_map, List.map_flatMap]
  rfl

/-- Whatever the limit of nesting, and whether the text is accepted or refused, the parser looks at a token
only at a moment at which the first tokens of the chain are remembered, under their offsets and as they
are read from there: what another way of looking does at any other moment makes no difference. So the
outcome is that of a parser that remembers nothing. The warnings are one for every dot that repeats a dot
of its numeral, in the first tokens of the chain and in the order of the text; if the text is accepted,
they are those of all its tokens. -/
theorem tokens_are_remembered_exactly (text : List Char) (offset : Nat) :
    (∀ levels,
      let run := parseWithin levels Memo.remembering text offset
      (∀ peek : Peek,
        (∀ t memo, IsMoment text offset t memo → peek t memo = Memo.remembering t memo) →
          parseWithin levels peek text offset = run) ∧
      run.1 = (parseWithin levels Memo.rereading text offset).1 ∧
      (∃ k, run.2.Holds text offset k ∧
        run.2.warnings text = (repeatedDots text offset k).map fun o =>
          "repeated dots in the same number at " ++ Place.describe text o) ∧
      (∀ tree, run.1 = .ok tree →
        run.2.warnings text = (Stream.ofText text offset).all.flatMap (Token.warnings text))) ∧
    (∀ k, (repeatedDots text offset k).Pairwise (· < ·) ∧
      ∀ o, o ∈ repeatedDots text offset k ↔ ∃ i < k, (tokenAt text offset i).RepeatsDot text o) ∧
    (readProgram text offset).program
      = (parse text offset).1.mapError (ParseFault.report text offset) ∧
    (readProgram text offset).warnings = (parse text offset).2.warnings text ∧
    parse text offset = parseWithin nestingLimit Memo.remembering text offset := by
  refine ⟨fun levels => ⟨fun peek agrees => (parseWithin_eq_of_agrees agrees levels).1, ?_, ?_, ?_⟩,
    fun k => ⟨repeatedDots_pairwise text offset k, fun o => mem_repeatedDots⟩, rfl, rfl, rfl⟩
  · exact parseWithin_eq_rereading levels text offset
  · have front := parseWithin_isFront text offset levels
    exact ⟨_, front.holds, front.warnings_eq⟩
  · intro tree ok
    exact congrArg (List.flatMap (Token.warnings text)) (parseWithin_looks_at_all ok)

/-- Numerals where a name is due; the second is never looked at. -/
def namelessFunction : List Char := ['f', 'n', ' ', '1', '.', '.', '2', ' ', '3', '.', '.', '4']

/-- A numeral with three dots. -/
def dottedNumeral : List Char := ['1', '.', '.', '.', '2', ';']

theorem parse_dottedNumeral : ∃ tree, (parse dottedNumeral 0).1 = .ok tree := by
  let p : FixedPoint :=
    ⟨['1'], ['2'], List.cons_ne_nil _ _, List.forall_mem_singleton.2 rfl, List.forall_mem_singleton.2 rfl⟩
  have size : (Stream.ofText dottedNumeral 0).tokens.length = 2 := by cbv
  have words : (Stream.ofText dottedNumeral 0).lexemes = [.float (String.ofList p.text), .semicolon] := by
    cbv
  have free := parseWithin_eq_parseFreely dottedNumeral 0 247
  rw [size] at free
  refine ⟨.block [.expression (.float p.value)], free.trans ((parseFreely_eq_ok_iff _ _ _).2 ?_)⟩
  rw [words]
  have numeral : Phrase.Value [.float (String.ofList p.text)] (.float p.value) :=
    .float (Numeral.readFloat?_fixedPoint p)
  exact ⟨_, rfl, .cons (.expression (.product (.value numeral))) .nil⟩

open Classical in
/-- Remembers tokens at the moments of a parse, and forgets them all at any other. -/
noncomputable def forgetful (text : List Char) (offset : Nat) : Peek := fun t memo =>
  if IsMoment text offset t memo then Memo.remembering t memo else (t, .empty)

theorem tokens_are_remembered_exactly_numerals :
    parseWithin 2 (forgetful namelessFunction 0) namelessFunction 0
      = parseWithin 2 Memo.remembering namelessFunction 0 ∧
    (parseWithin 2 Memo.remembering namelessFunction 0).2.warnings namelessFunction
      = ["repeated dots in the same number at offset 5 (line 1, column 6)"] ∧
    ∃ tree, (parse dottedNumeral 0).1 = .ok tree ∧
      (parse dottedNumeral 0).2.warnings dottedNumeral
        = (Stream.ofText dottedNumeral 0).all.flatMap (Token.warnings dottedNumeral) := by
  obtain ⟨tree, ok⟩ := parse_dottedNumeral
  have refused := (tokens_are_remembered_exactly namelessFunction 0).1 2
  have accepted := (tokens_are_remembered_exactly dottedNumeral 0).1 nestingLimit
  exact ⟨refused.1 _ fun t memo now => if_pos now, by cbv, tree, ok, accepted.2.2.2 tree ok⟩

end Abacus
