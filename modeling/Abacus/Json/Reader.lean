import Abacus.Json.Basic
import Abacus.Number.Numeral
import Abacus.Report

/-!
# Reading JSON

The reader takes one value from a text. It knows the words `NaN`, `Infinity` and `-Infinity`, keeps
integers and doubles apart, and says at which offset a text goes wrong. Lists and objects may nest only
so deep.

A cursor is an offset with the text from there on. Every value that is read leaves a shorter text, so
the loops over items and members end; the depth of nesting is counted down.
-/

namespace Abacus

/-- What is wrong at an offset of a text that should be JSON. -/
inductive JsonCause where
  | byteOrderMark
  | value
  | key
  | colon
  | comma
  | extraData
  | openString
  | controlCharacter
  | letterEscape
  | codeEscape

namespace JsonCause

def message : JsonCause → String
  | byteOrderMark => "Unexpected UTF-8 BOM (decode using utf-8-sig)"
  | value => "Expecting value"
  | key => "Expecting property name enclosed in double quotes"
  | colon => "Expecting ':' delimiter"
  | comma => "Expecting ',' delimiter"
  | extraData => "Extra data"
  | openString => "Unterminated string starting at"
  | controlCharacter => "Invalid control character at"
  | letterEscape => "Invalid \\escape"
  | codeEscape => "Invalid \\uXXXX escape"

end JsonCause

/-- Why a text is not read as JSON. -/
inductive JsonFault where
  | rejected (cause : JsonCause) (offset : Nat)
  | numeralTooLong (digits : Nat)
  /-- Lists (`isList`) or objects nest too deeply. -/
  | nestedTooDeeply (isList : Bool)

namespace JsonFault

/-- What is told of a fault in `text`. -/
def report (text : List Char) : JsonFault → Report
  | rejected cause offset =>
    let place := Place.ofOffset text offset
    .host "JSONDecodeError" (cause.message ++ ": line " ++ toString place.line ++ " column " ++
      toString place.column ++ " (char " ++ toString offset ++ ")")
  | numeralTooLong digits => tooManyDigits digitLimit digits
  | nestedTooDeeply isList =>
    .host "RecursionError" ("maximum recursion depth exceeded while decoding a JSON " ++
      (if isList then "array" else "object") ++ " from a unicode string")

end JsonFault

/-- An offset, and the text from there on. -/
structure Cursor where
  offset : Nat
  rest : List Char

namespace Cursor

/-- How much text is left. -/
def size (c : Cursor) : Nat := c.rest.length

/-- The cursor `n` characters further on. -/
def drop (c : Cursor) (n : Nat) : Cursor := ⟨c.offset + n, c.rest.drop n⟩

/-- The cursor after the spaces ahead. -/
def skipSpaces (c : Cursor) : Cursor :=
  c.drop (c.rest.takeWhile fun x => x == ' ' || x == '\t' || x == '\n' || x == '\r').length

theorem size_drop (c : Cursor) (n : Nat) : (c.drop n).size = c.size - n := List.length_drop

theorem size_skipSpaces_le (c : Cursor) : c.skipSpaces.size ≤ c.size := by
  simp only [skipSpaces, size_drop]
  omega

theorem size_pos_of_rest_eq {c : Cursor} {x : Char} {xs : List Char} (h : c.rest = x :: xs) :
    0 < c.size := by
  simp [size, h]

end Cursor

/-- Something read, and the cursor after it, from where less than `bound` is left. -/
structure Scanned (α : Type) (bound : Nat) where
  value : α
  next : Cursor
  shorter : next.size < bound

namespace Scanned

variable {α β : Type} {m n : Nat}

def map (f : α → β) (s : Scanned α n) : Scanned β n := ⟨f s.value, s.next, s.shorter⟩

def widen (h : m ≤ n) (s : Scanned α m) : Scanned α n :=
  ⟨s.value, s.next, Nat.lt_of_lt_of_le s.shorter h⟩

/-- What was read in a text that is left from an earlier one. -/
def after (s : Scanned α m) {β : Type} (value : α → β) (h : m ≤ n) : Scanned β n :=
  (s.map value).widen h

end Scanned

namespace Json

/-! ## Strings -/

def hexDigit? (c : Char) : Option Nat :=
  if '0' ≤ c && c ≤ '9' then some (c.toNat - '0'.toNat)
  else if 'a' ≤ c && c ≤ 'f' then some (c.toNat - 'a'.toNat + 10)
  else if 'A' ≤ c && c ≤ 'F' then some (c.toNat - 'A'.toNat + 10)
  else none

/-- The number that the first four characters write in hexadecimal. At least one more character must
follow them. -/
def hex4? : List Char → Option Nat
  | a :: b :: c :: d :: _ :: _ => do
    return (((← hexDigit? a) * 16 + (← hexDigit? b)) * 16 + (← hexDigit? c)) * 16 + (← hexDigit? d)
  | _ => none

def isHighSurrogate (n : Nat) : Bool := 0xD800 ≤ n && n ≤ 0xDBFF

def isLowSurrogate (n : Nat) : Bool := 0xDC00 ≤ n && n ≤ 0xDFFF

/-- The code point of two surrogates. -/
def ofPair (high low : Nat) : CodePoint :=
  .ofNat (0x10000 + (high - 0xD800) * 0x400 + (low - 0xDC00))

/-- An escape by number, with the cursor at the letter `u`: the code point, and how long the escape is.
Two escapes that are the halves of a surrogate pair are taken together; one that stands alone is kept
as it is. -/
def codeEscape? (c : Cursor) : Except JsonFault (CodePoint × Nat) :=
  match hex4? (c.rest.drop 1) with
  | none => .error (.rejected .codeEscape c.offset)
  | some high =>
    match isHighSurrogate high, c.rest.drop 5 with
    | true, '\\' :: 'u' :: more =>
      if more.length ≤ 4 then .ok (.ofNat high, 5)
      else
        match hex4? more with
        | none => .error (.rejected .codeEscape (c.offset + 6))
        | some low =>
          if isLowSurrogate low then .ok (ofPair high low, 11) else .ok (.ofNat high, 5)
    | _, _ => .ok (.ofNat high, 5)

/-- The character of an escape by letter. -/
def letterEscape? : Char → Option Char
  | '"' => some '"'
  | '\\' => some '\\'
  | '/' => some '/'
  | 'b' => some '\x08'
  | 'f' => some '\x0c'
  | 'n' => some '\n'
  | 'r' => some '\r'
  | 't' => some '\t'
  | _ => none

/-- An escape of either kind, after the backslash: the code point, and how long the escape is. -/
def escape? (opened : Nat) (c : Cursor) : Except JsonFault (CodePoint × Nat) :=
  match c.rest with
  | [] => .error (.rejected .openString opened)
  | 'u' :: _ => codeEscape? c
  | letter :: _ =>
    match letterEscape? letter with
    | some char => .ok (.ofChar char, 1)
    | none => .error (.rejected .letterEscape (c.offset - 1))

/-- The rest of a string that was opened at `opened`; `done` holds its code points so far, the last
one first. -/
def scanString (opened : Nat) {bound : Nat} (done : List CodePoint) (c : Cursor) (h : c.size ≤ bound) :
    Except JsonFault (Scanned Text bound) :=
  match hc : c.rest with
  | [] => .error (.rejected .openString opened)
  | x :: _ =>
    have pos := Cursor.size_pos_of_rest_eq hc
    if x = '"' then
      .ok ⟨⟨done.reverse⟩, c.drop 1, by rw [Cursor.size_drop]; omega⟩
    else if x = '\\' then
      match escape? opened (c.drop 1) with
      | .ok (point, length) =>
        scanString opened (point :: done) (c.drop (1 + length)) (by rw [Cursor.size_drop]; omega)
      | .error fault => .error fault
    else if x.toNat < 0x20 then .error (.rejected .controlCharacter c.offset)
    else scanString opened (.ofChar x :: done) (c.drop 1) (by rw [Cursor.size_drop]; omega)
termination_by c.size
decreasing_by all_goals rw [Cursor.size_drop]; omega

/-! ## Numbers and words -/

/-- The parts of a number as it is written. The mark of a fraction or an exponent belongs to it. -/
structure NumberText where
  isNegative : Bool
  whole : List Char
  fraction : List Char
  exponent : List Char

namespace NumberText

/-- One zero, or digits that begin with another one. -/
def wholeOf : List Char → List Char
  | '0' :: _ => ['0']
  | text => text.takeWhile Char.isDigit

/-- A point and digits, if they come next. -/
def fractionOf : List Char → List Char
  | '.' :: text =>
    let digits := text.takeWhile Char.isDigit
    if digits.isEmpty then [] else '.' :: digits
  | _ => []

/-- The mark, the sign and the digits of an exponent, if they come next. -/
def exponentOf : List Char → List Char
  | [] => []
  | mark :: text =>
    let sign := (text.take 1).filter fun c => c == '+' || c == '-'
    let digits := (text.drop sign.length).takeWhile Char.isDigit
    if (mark == 'e' || mark == 'E') && !digits.isEmpty then mark :: sign ++ digits else []

/-- The longest number that a text begins with. -/
def ofText (text : List Char) : NumberText :=
  let isNegative := text.head? == some '-'
  let body := text.drop isNegative.toNat
  let whole := wholeOf body
  let fraction := fractionOf (body.drop whole.length)
  let exponent := exponentOf (body.drop (whole ++ fraction).length)
  { isNegative, whole, fraction, exponent }

def magnitude (n : NumberText) : List Char := n.whole ++ n.fraction ++ n.exponent

def length (n : NumberText) : Nat := n.isNegative.toNat + n.magnitude.length

/-- The number: an integer, unless it has a fraction or an exponent. -/
def value (n : NumberText) : Except JsonFault Json :=
  if n.fraction.isEmpty && n.exponent.isEmpty then
    if digitLimit < n.whole.length then .error (.numeralTooLong n.whole.length)
    else
      let magnitude : Int := Numeral.natOfDigits n.whole
      .ok (.int (if n.isNegative then -magnitude else magnitude))
  else
    let magnitude := (Numeral.readDigits? n.magnitude).getD 0
    .ok (.float (if n.isNegative then -magnitude else magnitude))

end NumberText

/-- The words that are values. -/
def words : List (String × Json) :=
  [("null", .null), ("true", .bool true), ("false", .bool false), ("NaN", .float (0.0 / 0.0)),
    ("Infinity", .float (1.0 / 0.0)), ("-Infinity", .float (-1.0 / 0.0))]

/-- A word or a number. -/
def scanScalar (c : Cursor) : Except JsonFault (Scanned Json c.size) :=
  let number := NumberText.ofText c.rest
  let (length, value) : Nat × Except JsonFault Json :=
    match words.find? fun (word, _) => word.toList.isPrefixOf c.rest with
    | some (word, value) => (word.length, .ok value)
    | none => (if number.whole.isEmpty then 0 else number.length, number.value)
  if h : 0 < length ∧ 0 < c.size then
    value.map fun value => ⟨value, c.drop length, by rw [Cursor.size_drop]; omega⟩
  else .error (.rejected .value c.offset)

/-! ## Lists, objects and values -/

/-- A way of reading a value. -/
abbrev Scanner := (c : Cursor) → Except JsonFault (Scanned Json c.size)

/-- A key and its value, from the key on. -/
def scanMember (value : Scanner) (c : Cursor) : Except JsonFault (Scanned (Text × Json) c.size) :=
  if c.rest.head? = some '"' then do
    let key ← scanString c.offset [] (c.drop 1) (Nat.le_refl _)
    let colon := key.next.skipSpaces
    if colon.rest.head? = some ':' then
      let value ← value (colon.drop 1).skipSpaces
      return value.after (key.value, ·) (by
        have := key.shorter
        have := Cursor.size_skipSpaces_le key.next
        have := Cursor.size_skipSpaces_le (colon.drop 1)
        simp only [Cursor.size_drop, colon] at *
        omega)
    else throw (.rejected .colon colon.offset)
  else .error (.rejected .key c.offset)

/-- Parts with commas between them, from the first part on, up to the character `close`; `done` holds
the parts before, the last one first. -/
def scanParts {α : Type} (part : (c : Cursor) → Except JsonFault (Scanned α c.size)) (close : Char)
    {bound : Nat} (done : List α) (c : Cursor) (h : c.size ≤ bound) :
    Except JsonFault (Scanned (List α) bound) :=
  match part c with
  | .error fault => .error fault
  | .ok first =>
    let next := first.next.skipSpaces
    have shorter : next.size < c.size :=
      Nat.lt_of_le_of_lt (Cursor.size_skipSpaces_le first.next) first.shorter
    have afterComma : (next.drop 1).skipSpaces.size < c.size := by
      have := Cursor.size_skipSpaces_le (next.drop 1)
      rw [Cursor.size_drop] at this
      omega
    if next.rest.head? = some close then
      .ok ⟨(first.value :: done).reverse, next.drop 1, by rw [Cursor.size_drop]; omega⟩
    else if next.rest.head? = some ',' then
      scanParts part close (first.value :: done) (next.drop 1).skipSpaces (by omega)
    else .error (.rejected .comma next.offset)
termination_by c.size

/-- What stands between an opening character, at which the cursor stands, and `close`. -/
def scanEnclosed {α : Type} (part : (c : Cursor) → Except JsonFault (Scanned α c.size))
    (close : Char) (c : Cursor) (h : 0 < c.size) : Except JsonFault (Scanned (List α) c.size) :=
  let inner := (c.drop 1).skipSpaces
  have smaller : inner.size < c.size := by
    have := Cursor.size_skipSpaces_le (c.drop 1)
    rw [Cursor.size_drop] at this
    simp only [inner]
    omega
  if inner.rest.head? = some close then
    .ok ⟨[], inner.drop 1, by rw [Cursor.size_drop]; omega⟩
  else scanParts part close [] inner (Nat.le_of_lt smaller)

/-- A value in which lists and objects nest no deeper than `levels`. -/
def scanValue (levels : Nat) : Scanner := fun c =>
  match hc : c.rest with
  | '"' :: _ => do
    let text ← scanString c.offset [] (c.drop 1) (Nat.le_refl _)
    return text.after .str (by rw [Cursor.size_drop]; omega)
  | '[' :: _ =>
    match levels with
    | 0 => .error (.nestedTooDeeply true)
    | levels + 1 =>
      (scanEnclosed (scanValue levels) ']' c (Cursor.size_pos_of_rest_eq hc)).map (·.map .arr)
  | '\x7b' :: _ =>
    match levels with
    | 0 => .error (.nestedTooDeeply false)
    | levels + 1 =>
      (scanEnclosed (scanMember (scanValue levels)) '\x7d' c (Cursor.size_pos_of_rest_eq hc)).map
        (·.map .object)
  | _ => scanScalar c

/-- Reads a text that holds one value and spaces around it. -/
def parse (levels : Nat) (text : List Char) : Except JsonFault Json :=
  if text.head? = some '\ufeff' then .error (.rejected .byteOrderMark 0)
  else do
    let value ← scanValue levels (Cursor.mk 0 text).skipSpaces
    let rest := value.next.skipSpaces
    if rest.rest.isEmpty then return value.value else throw (.rejected .extraData rest.offset)

end Json

end Abacus
