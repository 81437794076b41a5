/-!
# Byte ranges

Positions in a text are byte offsets of its UTF-8 form. A text is a list of characters, and its
width is the number of bytes that it takes.
-/

namespace PerlOutline.Source

/-- The number of bytes that a text takes. -/
def byteWidth (text : List Char) : Nat :=
  text.foldl (fun n c => n + c.utf8Size) 0

/-- A half open range of byte offsets. -/
structure Range where
  /-- Offset of the first byte. -/
  start : Nat
  /-- Offset just past the last byte. -/
  stop : Nat
  deriving DecidableEq, Repr

namespace Range

/-- The range of `width` bytes at `start`. -/
def sized (start width : Nat) : Range :=
  ⟨start, start + width⟩

/-- The place between two bytes. -/
def empty (offset : Nat) : Range :=
  ⟨offset, offset⟩

/-- A range is written as its two offsets with two dots between them. -/
def label (r : Range) : String :=
  toString r.start ++ ".." ++ toString r.stop

instance : ToString Range := ⟨label⟩

end Range

/-! ## Width of a text -/

/-- A count that begins at `n` is `n` and the width of the text. -/
private theorem foldl_utf8Size (text : List Char) (n : Nat) :
    text.foldl (fun n c => n + c.utf8Size) n = n + byteWidth text := by
  induction text generalizing n with
  | nil => rfl
  -- The first character moves from the text to the count that it begins with.
  | cons c cs ih =>
    rw [byteWidth, List.foldl_cons, List.foldl_cons, ih, ih (0 + c.utf8Size)]
    omega

@[simp] theorem byteWidth_nil : byteWidth [] = 0 := rfl

/-- A character takes the bytes of its UTF-8 form. -/
@[simp] theorem byteWidth_cons (c : Char) (cs : List Char) :
    byteWidth (c :: cs) = c.utf8Size + byteWidth cs := by
  rw [byteWidth, List.foldl_cons, foldl_utf8Size]
  omega

@[simp] theorem byteWidth_append (a b : List Char) :
    byteWidth (a ++ b) = byteWidth a + byteWidth b := by
  induction a with
  | nil => simp
  | cons c cs ih => rw [List.cons_append, byteWidth_cons, byteWidth_cons, ih]; omega

/-- A text with a character in it takes at least one byte. -/
theorem byteWidth_pos {text : List Char} (h : text ≠ []) : 0 < byteWidth text := by
  cases text with
  | nil => exact absurd rfl h
  | cons c cs =>
    have := c.utf8Size_pos
    rw [byteWidth_cons]
    omega

end PerlOutline.Source
