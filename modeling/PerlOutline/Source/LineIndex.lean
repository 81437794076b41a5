import PerlOutline.Source.Range

/-!
# Lines and columns

A line index knows where the lines of a text begin. Lines and columns count from zero, and
columns count bytes.
-/

namespace PerlOutline.Source

/-- A place in a text, as people read it. -/
structure LineCol where
  /-- Number of line ends before the place. -/
  line : Nat
  /-- Number of bytes between the start of the line and the place. -/
  col : Nat
  deriving DecidableEq, Repr

/-- Where the lines of a text begin. -/
structure LineIndex where
  /-- Offsets at which the lines begin, in ascending order. -/
  lineStarts : Array Nat
  /-- Number of bytes of the text. -/
  width : Nat
  deriving DecidableEq, Repr

namespace LineIndex

/-- Offsets just past the line ends of a text that begins at `offset`. -/
def lineStartsFrom (offset : Nat) : List Char → List Nat
  | [] => []
  | c :: cs =>
    let next := offset + c.utf8Size
    if c = '\n' then next :: lineStartsFrom next cs else lineStartsFrom next cs

/-- The line index of a text. -/
def ofText (text : List Char) : LineIndex where
  lineStarts := (0 :: lineStartsFrom 0 text).toArray
  width := byteWidth text

/-- The number of lines; a text without a line end has one. -/
def lineCount (index : LineIndex) : Nat :=
  index.lineStarts.size

/-- The first index from `low` up to `high` at which a test fails, by halving. The test has to hold
up to some index and to fail from there on. -/
def partitionPoint (holds : Nat → Bool) (low high : Nat) : Nat :=
  if low < high then
    let middle := (low + high) / 2
    if holds middle then partitionPoint holds (middle + 1) high
    else partitionPoint holds low middle
  else low
termination_by high - low

/-- Line and column of a byte offset. An offset past the end stands for the end. -/
def lineCol (index : LineIndex) (offset : Nat) : LineCol :=
  let place := min offset index.width
  let reached i := index.lineStarts.getD i 0 ≤ place
  let line := partitionPoint (reached ·) 0 index.lineStarts.size - 1
  { line, col := place - index.lineStarts.getD line 0 }

end LineIndex

end PerlOutline.Source
