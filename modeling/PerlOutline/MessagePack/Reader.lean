import PerlOutline.MessagePack.Writer

/-!
# Reading MessagePack

Natural numbers, texts and array headers, in any form that the format has for them: integers
signed or unsigned and of any width, texts as strings or as binary data, headers of any width. A
reader takes bytes from the front, or fails.

## Layers
- **Bytes** and big-endian numbers.
- **Headers**: what follows a marker byte.
- **Values**: numbers below a bound, texts, arrays.
-/

namespace PerlOutline.MessagePack

/-- A reader takes a value from the front of the bytes and leaves the rest. -/
abbrev Reader (α : Type) : Type :=
  StateT Bytes Option α

namespace Reader

variable {α : Type}

/-! ## Bytes -/

/-- Take `n` bytes, and fail if fewer are left. -/
def take (n : Nat) : Reader Bytes :=
  fun bytes =>
    let taken := bytes.take n
    if taken.length = n then some (taken, bytes.drop n) else none

/-- The number that bytes are, the highest first. -/
def ofBigEndian (bytes : Bytes) : Nat :=
  bytes.foldl (fun n b => n * 256 + b.toNat) 0

/-- Whether bytes are a negative number, when their highest bit is a sign. -/
def isNegative (bytes : Bytes) : Bool :=
  bytes.head?.any (0x80 ≤ ·)

/-- Take a number of `width` bytes. -/
def unsigned (width : Nat) : Reader Nat := do
  return ofBigEndian (← take width)

/-- Take a number of `width` bytes whose highest bit is a sign, and fail if it is negative. -/
def signed (width : Nat) : Reader Nat := do
  let bytes ← take width
  if isNegative bytes then failure else return ofBigEndian bytes

/-- Take a marker byte. -/
def marker : Reader Nat :=
  unsigned 1

/-! ## Headers -/

/-- The number that begins with the given marker. -/
def naturalAfter (marker : Nat) : Reader Nat :=
  -- The lowest markers are numbers themselves.
  if marker < 0x80 then return marker
  else if marker = 0xcc then unsigned 1
  else if marker = 0xcd then unsigned 2
  else if marker = 0xce then unsigned 4
  else if marker = 0xcf then unsigned 8
  else if marker = 0xd0 then signed 1
  else if marker = 0xd1 then signed 2
  else if marker = 0xd2 then signed 4
  else if marker = 0xd3 then signed 8
  else failure

/-- The length of a text whose header begins with the given marker. -/
def textLengthAfter (marker : Nat) : Reader Nat :=
  if 0xa0 ≤ marker ∧ marker < 0xc0 then return marker - 0xa0
  -- A text may also come with the header of a binary value, of the same width.
  else if marker = 0xd9 ∨ marker = 0xc4 then unsigned 1
  else if marker = 0xda ∨ marker = 0xc5 then unsigned 2
  else if marker = 0xdb ∨ marker = 0xc6 then unsigned 4
  else failure

/-- The number of values of an array whose header begins with the given marker. -/
def arraySizeAfter (marker : Nat) : Reader Nat :=
  if 0x90 ≤ marker ∧ marker < 0xa0 then return marker - 0x90
  else if marker = 0xdc then unsigned 2
  else if marker = 0xdd then unsigned 4
  else failure

/-! ## Values -/

/-- Take a number below `bound`. -/
def natural (bound : Nat) : Reader Nat := do
  let n ← naturalAfter (← marker)
  if n < bound then return n else failure

/-- The text that bytes are in UTF-8, if they are one. -/
def ofTextBytes? (bytes : Bytes) : Option String :=
  String.fromUTF8? ⟨bytes.toArray⟩

/-- Take a text, and fail if its bytes are no UTF-8. -/
def text : Reader String := do
  let length ← textLengthAfter (← marker)
  ofTextBytes? (← take length)

/-- Take the header of an array. -/
def arraySize : Reader Nat := do
  arraySizeAfter (← marker)

/-- Take the header of an array of exactly `n` values. -/
def arrayOf (n : Nat) : Reader Unit := do
  if (← arraySize) = n then return () else failure

/-- Take `n` values one after the other. -/
def times (item : Reader α) : Nat → Reader (List α)
  | 0 => return []
  | n + 1 => do
    let a ← item
    return a :: (← times item n)

/-- Take an array of any number of values. -/
def arrayWith (item : Reader α) : Reader (List α) := do
  times item (← arraySize)

end Reader

end PerlOutline.MessagePack
