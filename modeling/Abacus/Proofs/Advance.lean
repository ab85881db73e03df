import Mathlib
import Abacus.Proofs.Acceptance
import Abacus.Proofs.Tiling
import Abacus.Proofs.Unbounded

/-!
# Every rule advances

A parser that stands at an offset of a text has the tokens from there ahead of it. So the tokens that a
rule leaves are those of the text from a later offset, the end of a token, and the order in which rules
are called is an order of offsets and ranks.
-/

namespace Abacus

namespace Stream

variable {text : List Char} {pos : Nat}

/-- The first token, and those of the text from where it stops. -/
theorem ofText_eq (text : List Char) (pos : Nat) :
    ofText text pos =
      if (Token.readFrom text pos).lexeme = .endOfInput then ⟨[], Token.readFrom text pos⟩
      else ⟨Token.readFrom text pos :: (ofText text (Token.readFrom text pos).stop).tokens,
        (ofText text (Token.readFrom text pos).stop).final⟩ := by
  rw [ofText, read]
  by_cases last : (Token.readFrom text pos).lexeme = .endOfInput
  · rw [if_pos last]
    exact if_pos last
  · rw [if_neg last, ofText, ← Token.next_rest last]
    exact if_neg last

/-- Further on there is an end of the tokens. -/
theorem ofText_tokenOffset {k : Nat} (le : k ≤ (ofText text pos).tokens.length) :
    ofText text (tokenOffset text pos k) = ⟨(ofText text pos).tokens.drop k, (ofText text pos).final⟩ := by
  induction k generalizing pos with
  | zero => rfl
  | succ k ih =>
    have eq := ofText_eq text pos
    split at eq
    · rw [eq] at le
      cases le
    · rw [tokenOffset_succ, eq]
      rw [eq] at le
      exact ih (Nat.le_of_succ_le_succ le)

theorem tile_tokenAt {i : Nat} (lt : i < (ofText text pos).tokens.length) :
    tokenAt text pos i ∈ (ofText text pos).tokens ∧ (tokenAt text pos i).Tile text := by
  have mem : tokenAt text pos i ∈ (ofText text pos).tokens := by
    rw [(ofText_eq_map text pos).1]
    exact List.mem_map_of_mem (List.mem_range.2 lt)
  exact ⟨mem, Token.tile_readFrom (read_lexeme_ne mem)⟩

/-- From token to token the offsets grow. -/
theorem tokenOffset_lt {i j : Nat} (lt : i < j) (le : j ≤ (ofText text pos).tokens.length) :
    tokenOffset text pos i < tokenOffset text pos j := by
  obtain ⟨-, tile⟩ := tile_tokenAt (Nat.lt_of_lt_of_le lt le)
  calc tokenOffset text pos i = (tokenAt text pos i).origin := (tokenAt_origin text pos i).symm
    _ < (tokenAt text pos i).stop := Nat.lt_of_le_of_lt tile.origin_le tile.start_lt
    _ ≤ tokenOffset text pos j := tokenOffset_monotone text pos lt

/-- The offset at which the tokens of a text begin to be read. -/
theorem here_ofText {src : Source} (final : src.final = (ofText text pos).final) :
    src.here (ofText text pos).tokens = pos := by
  have first := Token.readFrom_origin text pos
  rw [Source.here, final, ofText_eq]
  split
  · exact first
  · exact first

/-- An offset that a parser comes to from `pos`: `pos` itself, or the end of a token. -/
def Reaches (text : List Char) (pos offset : Nat) : Prop :=
  offset = pos ∨ ∃ t ∈ (ofText text pos).tokens, t.stop = offset

theorem reaches_tokenOffset {k : Nat} (le : k ≤ (ofText text pos).tokens.length) :
    Reaches text pos (tokenOffset text pos k) := by
  cases k with
  | zero => exact .inl rfl
  | succ k => exact .inr ⟨_, (tile_tokenAt le).1, rfl⟩

/-- What is left of the tokens are those of the text from an offset that the parser comes to. -/
theorem exists_of_suffix {us : List Token} (suffix : us <:+ (ofText text pos).tokens) :
    ∃ offset, Reaches text pos offset ∧ ofText text offset = ⟨us, (ofText text pos).final⟩ ∧
      (Remains us (ofText text pos).tokens →
        pos < offset ∧ offset ≤ text.length ∧ ∃ t ∈ (ofText text pos).tokens, t.stop = offset) := by
  let k := (ofText text pos).tokens.length - us.length
  have le : k ≤ (ofText text pos).tokens.length := Nat.sub_le _ _
  have left : us = (ofText text pos).tokens.drop k := List.suffix_iff_eq_drop.1 suffix
  refine ⟨tokenOffset text pos k, reaches_tokenOffset le, ?_, fun remains => ?_⟩
  · rw [ofText_tokenOffset le, ← left]
  · obtain ⟨j, taken⟩ : ∃ j, k = j + 1 :=
      Nat.exists_eq_add_one_of_ne_zero (Nat.ne_of_gt (Nat.sub_pos_of_lt remains.2))
    have lt : j < (ofText text pos).tokens.length := by omega
    obtain ⟨mem, tile⟩ := tile_tokenAt lt
    rw [taken] at le ⊢
    exact ⟨tokenOffset_lt (Nat.succ_pos j) le, tile.stop_le, _, mem, rfl⟩

/-- So the text is read on from where the parser stands. -/
theorem ofText_here {src : Source} (final : src.final = (ofText text pos).final) {us : List Token}
    (suffix : us <:+ (ofText text pos).tokens) :
    ofText text (src.here us) = ⟨us, (ofText text pos).final⟩ ∧
      (Remains us (ofText text pos).tokens → pos < src.here us ∧ src.here us ≤ text.length ∧
        ∃ t ∈ (ofText text pos).tokens, t.stop = src.here us) := by
  obtain ⟨offset, -, left, place⟩ := exists_of_suffix suffix
  have here : src.here us = offset := by
    have there : src.here (ofText text offset).tokens = offset :=
      here_ofText (final.trans (congrArg Stream.final left).symm)
    rwa [left] at there
  rw [here]
  exact ⟨left, place⟩

end Stream

namespace Source

/-- Every rule that matches ends later than it begins, within the text and at the end of a token, and what
is ahead of the parser then are the tokens of the text from there; a block and the operators of a chain may
also take nothing and end where they begin. At every offset a rule depends only on what the rules do at
the offsets that the parser comes to from there: all of them at a later offset, those of a lower rank at
the same one. So the equations of the grammar, in which nothing limits a recursion or a loop, have one
solution; and the parser with levels is this solution as soon as it has more levels than tokens, for every
rule and for whole programs, and then is never told of a program that is nested too deeply. -/
theorem every_rule_advances (text : List Char) (pos : Nat) :
    let stream := Stream.ofText text pos
    let src : Source := ⟨Memo.remembering, stream.final⟩
    (∀ name memo value rest shorter memo',
      src.unbounded name stream.tokens memo = (.matched value rest shorter, memo') →
        Stream.ofText text (src.here rest) = ⟨rest, stream.final⟩ ∧
        (pos < src.here rest ∧ src.here rest ≤ text.length ∧
            (∃ t ∈ stream.tokens, t.stop = src.here rest) ∨
          name.grade = true ∧ src.here rest = pos)) ∧
    (∀ (rules : Rules) name,
      (∀ name' offset memo, Stream.Reaches text pos offset →
        pos < offset ∨ offset = pos ∧ name'.rank < name.rank →
        rules name' (Stream.ofText text offset).tokens memo
          = src.unbounded name' (Stream.ofText text offset).tokens memo) →
      ∀ memo, src.step rules name stream.tokens memo = src.unbounded name stream.tokens memo) ∧
    (src.step src.unbounded = src.unbounded ∧
      ∀ rules, src.step rules = rules → rules = src.unbounded) ∧
    ∀ levels, stream.tokens.length < levels →
      (∀ name memo, src.within levels name stream.tokens memo = src.unbounded name stream.tokens memo) ∧
      parseWithin levels Memo.remembering text pos
        = src.programOf (src.unbounded .block) stream.tokens .empty ∧
      (parseWithin levels Memo.remembering text pos).1 ≠ .error .nestedTooDeeply := by
  intro stream src
  refine ⟨?_, ?_, ⟨src.step_unbounded, fun _ => src.eq_unbounded_of_step⟩, fun levels lt => ⟨?_, ?_, ?_⟩⟩
  · intro name memo value rest shorter memo' matched
    have suffix : rest <:+ stream.tokens := (src.steady_unbounded name).suffix matched
    obtain ⟨left, place⟩ := @Stream.ofText_here text pos src rfl _ suffix
    refine ⟨left, ?_⟩
    rcases Nat.lt_or_eq_of_le suffix.length_le with less | same
    · exact .inl (place ⟨suffix, less⟩)
    · -- nothing has been taken
      have all : rest = stream.tokens := suffix.eq_of_length same
      refine .inr ⟨?_, ?_⟩
      · cases grade : name.grade with
        | true => rfl
        | false =>
          rw [grade, same] at shorter
          exact absurd shorter (Nat.lt_irrefl _)
      · rw [all]
        exact Stream.here_ofText rfl
  · intro rules name agree
    refine src.step_eq_unbounded fun name' us memo before => ?_
    rcases before with remains | ⟨rfl, lower⟩
    · obtain ⟨offset, reaches, left, place⟩ := Stream.exists_of_suffix remains.1
      have same := agree name' offset memo reaches (.inl (place remains).1)
      rwa [left] at same
    · exact agree name' pos memo (.inl rfl) (.inr ⟨rfl, lower⟩)
  · exact fun name memo => src.within_eq_unbounded lt memo
  · exact src.program_eq_programOf lt .empty
  · obtain ⟨extra, rfl⟩ := Nat.exists_eq_add_of_le (Nat.succ_le_of_lt lt)
    rw [parseWithin_eq_parseFreely text pos extra]
    exact parseFreely_ne_nestedTooDeeply text pos

end Source

end Abacus
