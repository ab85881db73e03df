/-!
# Texts

A text is a row of code points. Nearly all of them are characters. A tree file can also spell out one
half of a surrogate pair, which is a code point and no character: such a text is a name like any other,
but it cannot be written to a file.
-/

namespace Abacus

/-- A character or a surrogate. -/
structure CodePoint where
  number : Nat
  valid : number < 0x110000
deriving DecidableEq

namespace CodePoint

def ofChar (c : Char) : CodePoint where
  number := c.toNat
  valid := by
    have h : c.toNat.isValidChar := c.valid
    simp only [Nat.isValidChar] at h
    omega

/-- The code point of a number. There are none from `0x110000` on; they are replaced. -/
def ofNat (n : Nat) : CodePoint :=
  if h : n < 0x110000 then ⟨n, h⟩ else ofChar '�'

/-- The character of a code point. A surrogate has none. -/
def char? (p : CodePoint) : Option Char :=
  if p.number.isValidChar then some (Char.ofNat p.number) else none

def isSurrogate (p : CodePoint) : Bool := p.char?.isNone

@[simp] theorem char?_ofChar (c : Char) : (ofChar c).char? = some c := by
  have h : c.toNat.isValidChar := c.valid
  show (if c.toNat.isValidChar then some (Char.ofNat c.toNat) else none) = some c
  rw [if_pos h, Char.ofNat_toNat]

end CodePoint

/-- A row of code points. -/
structure Text where
  points : List CodePoint
deriving DecidableEq

namespace Text

def ofString (s : String) : Text := ⟨s.toList.map .ofChar⟩

instance : Coe String Text := ⟨ofString⟩

instance : Inhabited Text := ⟨⟨[]⟩⟩

instance : Append Text := ⟨fun a b => ⟨a.points ++ b.points⟩⟩

def isEmpty (t : Text) : Bool := t.points.isEmpty

/-- Texts one after the other. -/
def join (texts : List Text) : Text := ⟨texts.flatMap points⟩

/-- Texts with another one between them. -/
def intercalate (between : Text) : List Text → Text
  | [] => ⟨[]⟩
  | [text] => text
  | text :: texts => text ++ between ++ intercalate between texts

/-- The characters of a text, without the surrogates. -/
def chars (t : Text) : List Char := t.points.filterMap CodePoint.char?

/-- A text as a string, if it has no surrogates. -/
def toString? (t : Text) : Option String :=
  if t.chars.length = t.points.length then some (String.ofList t.chars) else none

@[simp] theorem chars_ofString (s : String) : (ofString s).chars = s.toList := by
  have h : CodePoint.char? ∘ CodePoint.ofChar = some := funext CodePoint.char?_ofChar
  show (s.toList.map CodePoint.ofChar).filterMap CodePoint.char? = s.toList
  rw [List.filterMap_map, h, List.filterMap_some]

@[simp] theorem toString?_ofString (s : String) : (ofString s).toString? = some s := by
  have h : (ofString s).points.length = s.toList.length := List.length_map _
  rw [toString?, chars_ofString, if_pos h.symm, String.ofList_toList]

/-- Whether one row of code points does not come after another, in the order of their numbers. -/
def pointsNotAfter : List CodePoint → List CodePoint → Bool
  | [], _ => true
  | _ :: _, [] => false
  | a :: as, b :: bs =>
    a.number < b.number || (a.number == b.number && pointsNotAfter as bs)

def notAfter (a b : Text) : Bool := pointsNotAfter a.points b.points

/-- A text as it is shown where surrogates cannot be: `escape` says what stands for one. -/
def render (escape : Nat → String) (t : Text) : String :=
  String.join (t.points.map fun p =>
    match p.char? with
    | some c => c.toString
    | none => escape p.number)

/-- Surrogates that stand in a row: the first one, where it stands, and how many there are. -/
structure SurrogateRun where
  first : CodePoint
  position : Nat
  count : Nat

/-- The first surrogates of a text. -/
def surrogates? (t : Text) : Option SurrogateRun :=
  match t.points.dropWhile (!·.isSurrogate) with
  | [] => none
  | first :: rest => some {
      first
      position := t.points.length - (first :: rest).length
      count := 1 + (rest.takeWhile CodePoint.isSurrogate).length }

end Text

end Abacus
