import Abacus.Token.Stream

/-!
# Remembered tokens

A parser that tries one rule after another looks at the same tokens again. It remembers each token by
the offset from which it was read, so a token is read once, and what is wrong with it is reported
once. `Memo.remembering` is the way of looking that does so; `Memo.rereading` reads every time anew.
-/

namespace Abacus

/-- The tokens looked at so far, the last one first. -/
structure Memo where
  tokens : List Token

/-- A way of looking at the token ahead. -/
abbrev Peek := Token → Memo → Token × Memo

namespace Memo

/-- Nothing has been looked at. -/
def empty : Memo := ⟨[]⟩

/-- Adds a token. -/
def push (memo : Memo) (token : Token) : Memo := ⟨token :: memo.tokens⟩

/-- The token that was read from `origin`. The last token looked at was read from the largest offset,
so the search ends at the first smaller one. -/
def find? (memo : Memo) (origin : Nat) : Option Token :=
  match memo.tokens.dropWhile fun token => origin < token.origin with
  | [] => none
  | token :: _ => if token.origin = origin then some token else none

/-- The remembered token, if there is one; else the token itself, which is remembered from now on. -/
def remembering : Peek := fun token memo =>
  match memo.find? token.origin with
  | some known => (known, memo)
  | none => (token, memo.push token)

/-- The token itself, whether it has been looked at or not. -/
def rereading : Peek := fun token memo => (token, memo.push token)

/-- What was wrong with the tokens looked at, in the order of reading. -/
def warnings (text : List Char) (memo : Memo) : List String :=
  memo.tokens.reverse.flatMap (Token.warnings text)

end Memo

end Abacus
