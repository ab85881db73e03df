/-!
# Places in a text

A place is what a reader sees of an offset: a line and a column, both counted from one. Offsets and
columns count characters. An offset past the end goes on counting columns on the last line.
-/

namespace Abacus

/-- A line and a column of a text, both counted from one. -/
structure Place where
  line : Nat
  column : Nat
deriving DecidableEq

namespace Place

/-- The offset at which the last line of `text` begins. -/
def lastLineStart (text : List Char) : Nat :=
  text.length - (text.reverse.takeWhile (· != '\n')).length

/-- The place of `offset` in `text`. -/
def ofOffset (text : List Char) (offset : Nat) : Place :=
  let before := text.take offset
  { line := before.count '\n' + 1
    column := offset - lastLineStart before + 1 }

/-- How a message ends that speaks of an offset: `offset 4 (line 2, column 1)`. -/
def describe (text : List Char) (offset : Nat) : String :=
  let place := ofOffset text offset
  s!"offset {offset} (line {place.line}, column {place.column})"

end Place

end Abacus
