import Abacus.Grammar.Memo

/-!
# The order of tokens

Every token takes at least one character, and each is read from where the one before stopped. So the
offsets from which tokens are read go up along a stream, and an offset tells a token from all others.
That is what makes remembered tokens trustworthy: a memo that holds nothing but tokens of the stream
(`Memo.Faithful`) gives back the very token that reading anew would give.
-/

namespace Abacus

/-! ## One token -/

namespace Lexeme

theorem length_pos_of_mem_operatorTable {symbol : String} (h : symbol ∈ operatorTable) :
    0 < symbol.length := by
  revert symbol
  decide

/-- A word takes at least one character. -/
theorem ofHead_size_pos (c : Char) (cs : List Char) : 0 < (ofHead c cs).2 := by
  unfold ofHead
  split
  · exact Nat.one_pos
  · split
    · exact Nat.succ_pos _
    · split
      · next symbol found =>
        exact length_pos_of_mem_operatorTable (List.mem_of_find?_eq_some found)
      · split
        · exact Nat.succ_pos _
        · exact Nat.one_pos

end Lexeme

namespace Token

@[simp] theorem next_origin (offset : Nat) (rest : List Char) :
    (next offset rest).1.origin = offset := by
  unfold next
  split <;> rfl

/-- A token that is not the end of the input stops after the offset it was read from. -/
theorem lt_next_stop {offset : Nat} {rest : List Char}
    (h : (next offset rest).1.lexeme ≠ .endOfInput) : offset < (next offset rest).1.stop := by
  unfold next at h ⊢
  split
  · next eq =>
    rw [eq] at h
    exact absurd rfl h
  · next c cs eq =>
    have size_pos := Lexeme.ofHead_size_pos c cs
    show offset < offset + _ + _
    omega

end Token

/-! ## The whole stream -/

namespace Stream

/-- The words of a stream, without the end of the input. -/
def lexemes (s : Stream) : List Lexeme := s.tokens.map Token.lexeme

/-- The token ahead is one of the stream, wherever the parser stands. -/
theorem headD_mem_all (s : Stream) {ts : List Token} (h : ts <:+ s.tokens) :
    ts.headD s.final ∈ s.all := by
  cases ts with
  | nil => exact List.mem_append_right _ List.mem_cons_self
  | cons t ts => exact List.mem_append_left _ (h.subset List.mem_cons_self)

theorem read_final_lexeme (offset : Nat) (rest : List Char) :
    (read offset rest).final.lexeme = .endOfInput := by
  fun_induction read offset rest with
  | case1 offset rest step h => exact h
  | case2 offset rest step h tail ih => exact ih

theorem read_lexeme_ne {offset : Nat} {rest : List Char} {t : Token}
    (ht : t ∈ (read offset rest).tokens) : t.lexeme ≠ .endOfInput := by
  fun_induction read offset rest with
  | case1 offset rest step h => cases ht
  | case2 offset rest step h tail ih =>
    rcases List.mem_cons.1 ht with rfl | ht
    · exact h
    · exact ih ht

/-- No token is read from before the offset where the stream begins. -/
theorem read_origin_ge {offset : Nat} {rest : List Char} {t : Token}
    (ht : t ∈ (read offset rest).all) : offset ≤ t.origin := by
  fun_induction read offset rest with
  | case1 offset rest step h =>
    rcases List.mem_singleton.1 ht with rfl
    exact Nat.le_of_eq (Token.next_origin offset rest).symm
  | case2 offset rest step h tail ih =>
    have stop_gt : offset < step.1.stop := Token.lt_next_stop h
    rcases List.mem_cons.1 ht with rfl | ht
    · exact Nat.le_of_eq (Token.next_origin offset rest).symm
    · have := ih ht
      omega

/-- The offsets from which tokens are read go up. -/
theorem read_pairwise_origin (offset : Nat) (rest : List Char) :
    (read offset rest).all.Pairwise fun t u => t.origin < u.origin := by
  fun_induction read offset rest with
  | case1 offset rest step h => exact List.pairwise_singleton _ _
  | case2 offset rest step h tail ih =>
    refine List.pairwise_cons.2 ⟨fun u hu => ?_, ih⟩
    have stop_gt : offset < step.1.stop := Token.lt_next_stop h
    have origin_ge : step.1.stop ≤ u.origin := read_origin_ge hu
    rw [Token.next_origin]
    omega

/-- An offset tells a token from all others. -/
theorem read_eq_of_origin_eq {offset : Nat} {rest : List Char} {t u : Token}
    (ht : t ∈ (read offset rest).all) (hu : u ∈ (read offset rest).all)
    (h : t.origin = u.origin) : t = u := by
  obtain ⟨i, hi, rfl⟩ := List.mem_iff_getElem.1 ht
  obtain ⟨j, hj, rfl⟩ := List.mem_iff_getElem.1 hu
  have order := List.pairwise_iff_getElem.1 (read_pairwise_origin offset rest)
  rcases Nat.lt_trichotomy i j with lt | rfl | gt
  · have := order i j hi hj lt
    omega
  · rfl
  · have := order j i hj hi gt
    omega

end Stream

/-! ## Memos -/

namespace Memo

/-- Nothing but tokens of the stream has been remembered. -/
def Faithful (s : Stream) (memo : Memo) : Prop := ∀ t ∈ memo.tokens, t ∈ s.all

theorem faithful_empty (s : Stream) : Faithful s empty := by
  intro t ht
  cases ht

theorem Faithful.push {s : Stream} {memo : Memo} {t : Token} (h : memo.Faithful s)
    (ht : t ∈ s.all) : (memo.push t).Faithful s := by
  intro u hu
  rcases List.mem_cons.1 hu with rfl | hu
  · exact ht
  · exact h u hu

/-- A way of looking is honest if it always shows the token that stands there, and keeps the memo
faithful. -/
def Honest (s : Stream) (peek : Peek) : Prop :=
  ∀ ⦃t : Token⦄ ⦃memo : Memo⦄, t ∈ s.all → memo.Faithful s →
    (peek t memo).1 = t ∧ (peek t memo).2.Faithful s

theorem honest_rereading (s : Stream) : Honest s rereading := by
  intro t memo ht h
  exact ⟨rfl, h.push ht⟩

theorem find?_origin {memo : Memo} {origin : Nat} {t : Token} (h : memo.find? origin = some t) :
    t ∈ memo.tokens ∧ t.origin = origin := by
  unfold find? at h
  split at h
  · cases h
  · next known older eq =>
    split at h
    · next same =>
      cases h
      have : t ∈ memo.tokens.dropWhile fun token => origin < token.origin := by
        rw [eq]
        exact List.mem_cons_self
      exact ⟨(List.dropWhile_sublist _).subset this, same⟩
    · cases h

theorem honest_remembering (text : List Char) (offset : Nat) :
    Honest (.ofText text offset) remembering := by
  intro t memo ht h
  unfold remembering
  split
  · next known found =>
    obtain ⟨mem, same⟩ := find?_origin found
    exact ⟨Stream.read_eq_of_origin_eq (h known mem) ht same, h⟩
  · exact ⟨rfl, h.push ht⟩

end Memo

end Abacus
