import Abacus.Report
import Abacus.Text.Quoted

/-!
# Bytes as text

`Utf8.decode` reads bytes as UTF-8. At the first place where they are not, it says which bytes are at
fault: a byte that begins no character, the beginning of a character whose next byte does not go on
with it, or a character that the bytes break off in. `unifyLineEnds` writes every line end as a
newline.
-/

namespace Abacus

/-- Why bytes are no text. -/
inductive Utf8Fault where
  | invalidStart (byte : UInt8) (position : Nat)
  /-- The first `count` bytes of a character are right and the next one is not. -/
  | invalidContinuation (byte : UInt8) (position count : Nat)
  /-- The bytes end after `count` bytes of a character. -/
  | unexpectedEnd (byte : UInt8) (position count : Nat)

namespace Utf8Fault

/-- The bytes at fault in words: one byte with its value, or the positions of several. -/
def bytesText (byte : UInt8) (position count : Nat) : String :=
  if count = 1 then
    "byte 0x" ++ hexPadded 2 byte.toNat ++ " in position " ++ toString position
  else
    "bytes in position " ++ toString position ++ "-" ++ toString (position + count - 1)

def report (fault : Utf8Fault) : Report :=
  let (bytes, reason) :=
    match fault with
    | invalidStart byte position => (bytesText byte position 1, "invalid start byte")
    | invalidContinuation byte position count =>
      (bytesText byte position count, "invalid continuation byte")
    | unexpectedEnd byte position count => (bytesText byte position count, "unexpected end of data")
  .host "UnicodeDecodeError" ("'utf-8' codec can't decode " ++ bytes ++ ": " ++ reason)

end Utf8Fault

namespace Utf8

/-- A byte that goes on with a character. -/
def isContinuation (b : UInt8) : Bool := 0x80 ≤ b && b ≤ 0xBF

/-- The number of bytes of the character that a byte begins. -/
def length? (b : UInt8) : Option Nat :=
  if b < 0x80 then some 1
  else if 0xC2 ≤ b && b ≤ 0xDF then some 2
  else if 0xE0 ≤ b && b ≤ 0xEF then some 3
  else if 0xF0 ≤ b && b ≤ 0xF4 then some 4
  else none

/-- Whether `second` may come after `first`: there are no overlong characters, no surrogates and
nothing above the last code point. -/
def isSecond (first second : UInt8) : Bool :=
  isContinuation second &&
    (if first = 0xE0 then 0xA0 ≤ second
    else if first = 0xED then second < 0xA0
    else if first = 0xF0 then 0x90 ≤ second
    else if first = 0xF4 then second < 0x90
    else true)

/-- How many of the bytes after `first`, at most `wanted`, go on with its character. -/
def countGood (first : UInt8) (wanted : Nat) (rest : List UInt8) : Nat :=
  match wanted, rest with
  | wanted + 1, second :: rest =>
    if isSecond first second then 1 + ((rest.take wanted).takeWhile isContinuation).length else 0
  | _, _ => 0

/-- The character of a first byte and the ones that go on with it. -/
def charOf (first : UInt8) (rest : List UInt8) : Char :=
  let lead : Nat :=
    match rest.length with
    | 0 => first.toNat
    | 1 => first.toNat % 0x20
    | 2 => first.toNat % 0x10
    | _ => first.toNat % 0x08
  Char.ofNat (rest.foldl (fun n b => n * 0x40 + b.toNat % 0x40) lead)

/-- Reads bytes from a position on; `done` holds the characters before it, the last one first. -/
def decodeFrom (position : Nat) (done : List Char) (bytes : List UInt8) :
    Except Utf8Fault (List Char) :=
  match bytes with
  | [] => .ok done.reverse
  | first :: rest =>
    match length? first with
    | none => .error (.invalidStart first position)
    | some size =>
      let good := countGood first (size - 1) rest
      if good = size - 1 then
        decodeFrom (position + size) (charOf first (rest.take good) :: done) (rest.drop good)
      else if rest.length = good then
        .error (.unexpectedEnd first position (good + 1))
      else
        .error (.invalidContinuation first position (good + 1))
termination_by bytes.length
decreasing_by simp only [List.length_cons, List.length_drop]; omega

/-- Reads bytes as UTF-8. -/
def decode (bytes : ByteArray) : Except Utf8Fault (List Char) :=
  decodeFrom 0 [] bytes.toList

end Utf8

/-- The text with every line end written as a newline. -/
def unifyLineEnds : List Char → List Char
  | '\r' :: '\n' :: rest => '\n' :: unifyLineEnds rest
  | '\r' :: rest => '\n' :: unifyLineEnds rest
  | c :: rest => c :: unifyLineEnds rest
  | [] => []

/-- The text of a file. -/
def readText (bytes : ByteArray) : Except Report (List Char) :=
  ((Utf8.decode bytes).map unifyLineEnds).mapError Utf8Fault.report

end Abacus
