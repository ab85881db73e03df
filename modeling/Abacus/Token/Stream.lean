import Abacus.Text.Place
import Abacus.Token.Lexeme

/-!
# Tokens

A token is a lexeme with its place in the text. `Token.next` reads one token from an offset: it skips
the blanks there and takes the lexeme behind them. `Stream.read` reads on, each time from where the
token before stopped, until the text is used up; every token takes at least one character, so it ends.

A dot in a numeral after the first one has no meaning. The token keeps the offsets of such dots, and
`Token.warnings` reports them.
-/

namespace Abacus

/-- A lexeme and where it stands. -/
structure Token where
  lexeme : Lexeme
  /-- The offset from which the token was read. -/
  origin : Nat
  /-- The offset of its first character. -/
  start : Nat
  /-- The offset after its last character. -/
  stop : Nat
  /-- The offsets of the dots after the first one, in a numeral. -/
  extraDots : List Nat

namespace Token

/-- The offsets of the dots of `run` after the first one, if `run` begins at `start`. -/
def dotsAfterFirst (start : Nat) (run : List Char) : List Nat :=
  ((run.zipIdx start).filterMap fun (c, i) => if c = '.' then some i else none).tail

/-- The token read from `offset`, where `rest` begins, and what comes after it. -/
def next (offset : Nat) (rest : List Char) : Token × List Char :=
  let start := offset + (rest.takeWhile isBlank).length
  match rest.dropWhile isBlank with
  | [] => (⟨.endOfInput, offset, start, start, []⟩, [])
  | c :: cs =>
    let (lexeme, size) := Lexeme.ofHead c cs
    (⟨lexeme, offset, start, start + size, dotsAfterFirst start ((c :: cs).take size)⟩,
      cs.drop (size - 1))

/-- Where the token stands, seen in the text it was read from. -/
def place (text : List Char) (t : Token) : Place :=
  Place.ofOffset text t.start

/-- One line for every dot without a meaning. -/
def warnings (text : List Char) (t : Token) : List String :=
  t.extraDots.map fun offset =>
    "repeated dots in the same number at " ++ Place.describe text offset

theorem length_dropWhile_le {α : Type} (p : α → Bool) (l : List α) :
    (l.dropWhile p).length ≤ l.length :=
  (List.dropWhile_sublist p).length_le

/-- Reading a token that is not the end of the input shortens the text. -/
theorem length_next_lt {offset : Nat} {rest : List Char}
    (h : (next offset rest).1.lexeme ≠ .endOfInput) :
    (next offset rest).2.length < rest.length := by
  have le := length_dropWhile_le isBlank rest
  unfold next at h ⊢
  split at h
  · exact absurd rfl h
  · next c cs eq =>
    rw [eq, List.length_cons] at le
    simp only [List.length_drop]
    omega

end Token

/-- The tokens of a text, and the end of the input after them. -/
structure Stream where
  tokens : List Token
  final : Token

namespace Stream

/-- All tokens from `offset`, where `rest` begins. -/
def read (offset : Nat) (rest : List Char) : Stream :=
  let step := Token.next offset rest
  if step.1.lexeme = .endOfInput then
    ⟨[], step.1⟩
  else
    let tail := read step.1.stop step.2
    ⟨step.1 :: tail.tokens, tail.final⟩
termination_by rest.length
decreasing_by exact Token.length_next_lt (by assumption)

/-- The tokens of `text` from `offset`. -/
def ofText (text : List Char) (offset : Nat) : Stream :=
  read offset (text.drop offset)

/-- Every token, the end of the input included. -/
def all (s : Stream) : List Token :=
  s.tokens ++ [s.final]

end Stream

end Abacus
