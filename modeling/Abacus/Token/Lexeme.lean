/-!
# Lexemes

The words of the language, each with what it says: a reserved word, an operator, a name, a numeral.
`Lexeme.ofHead` reads the one at the head of a text. Words and numerals are as long as possible, and
an operator that begins with a shorter one stands before it in the table, so it is found first.

Letters and digits are those of ASCII: any other character is a word of its own that no rule of the
grammar knows.
-/

namespace Abacus

/-- The words that cannot be names. -/
def reservedWords : List String :=
  ["for", "if", "while", "loop", "until", "return", "continue", "break", "to", "downto", "fn",
    "else", "elif"]

/-- The operators, in the order in which they are tried. -/
def operatorTable : List String :=
  ["+", "->", "-", "**", "*", "/", "=", "[", "]", "(", ")", "\x7b", "\x7d", ","]

/-- A word of the language. -/
inductive Lexeme where
  | endOfInput
  | semicolon
  | keyword (word : String)
  | operator (symbol : String)
  | identifier (name : String)
  /-- A numeral without a dot. -/
  | int (digits : String)
  /-- A numeral with a dot, written with one dot and at least one digit after it. -/
  | float (numeral : String)
  /-- A character that begins no other word. -/
  | stray (char : Char)
deriving DecidableEq

/-- Spaces, tabs and line ends stand between words. -/
def isBlank (c : Char) : Bool :=
  c == ' ' || c == '\t' || c == '\r' || c == '\n'

def isWordStart (c : Char) : Bool :=
  c == '_' || c.isAlpha

def isWordPart (c : Char) : Bool :=
  isWordStart c || c.isDigit

def isNumeralPart (c : Char) : Bool :=
  c.isDigit || c == '.'

namespace Lexeme

/-- The name of a word's class. -/
def kind : Lexeme → String
  | endOfInput => "EOF"
  | semicolon => "SEMICOLON"
  | keyword _ => "KEYWORD"
  | operator _ => "OPERATOR"
  | identifier _ => "IDENT"
  | int _ => "INT"
  | float _ => "FLOAT"
  | stray _ => "ERROR"

/-- The text of a word, as a message shows it. The end of the input has none. -/
def value : Lexeme → String
  | endOfInput => ""
  | semicolon => ";"
  | keyword word => word
  | operator symbol => symbol
  | identifier name => name
  | int digits => digits
  | float numeral => numeral
  | stray char => char.toString

/-- A word of letters is reserved or a name. -/
def ofWord (word : String) : Lexeme :=
  if word ∈ reservedWords then keyword word else identifier word

/-- A run of digits and dots. The first dot divides it; the later ones are dropped, and a missing
fraction is zero. -/
def ofNumeral (run : List Char) : Lexeme :=
  let whole := run.takeWhile Char.isDigit
  match run.dropWhile Char.isDigit with
  | [] => int (String.ofList whole)
  | _ :: tail =>
    let fraction := tail.filter Char.isDigit
    float (String.ofList (whole ++ '.' :: (if fraction.isEmpty then ['0'] else fraction)))

/-- The lexeme at the head of the text `c :: cs`, and the number of characters it takes. -/
def ofHead (c : Char) (cs : List Char) : Lexeme × Nat :=
  if c = ';' then
    (semicolon, 1)
  else if isWordStart c then
    let word := c :: cs.takeWhile isWordPart
    (ofWord (String.ofList word), word.length)
  else
    match operatorTable.find? fun symbol => symbol.toList.isPrefixOf (c :: cs) with
    | some symbol => (operator symbol, symbol.length)
    | none =>
      if c.isDigit then
        let run := c :: cs.takeWhile isNumeralPart
        (ofNumeral run, run.length)
      else
        (stray c, 1)

end Lexeme

end Abacus
