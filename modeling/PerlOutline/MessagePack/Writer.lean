/-!
# Writing MessagePack

Natural numbers, texts and array headers, each in its shortest form: a marker byte, which holds a
small value itself, and else a big-endian number of one, two, four or eight bytes.
-/

namespace PerlOutline.MessagePack

/-- Bytes of a message. -/
abbrev Bytes : Type :=
  List UInt8

/-- A number in `width` bytes, the highest first. -/
def bigEndian (width n : Nat) : Bytes :=
  match width with
  | 0 => []
  -- The highest byte stands for the most; what does not fit in the width is left out.
  | width + 1 => UInt8.ofNat (n / 256 ^ width) :: bigEndian width n

/-- The shortest form of a number below 2^64. -/
def writeNatural (n : Nat) : Bytes :=
  -- A marker below 128 is the number itself, and each further marker tells a width.
  if n < 128 then [UInt8.ofNat n]
  else if n < 256 then 0xcc :: bigEndian 1 n
  else if n < 65536 then 0xcd :: bigEndian 2 n
  else if n < 4294967296 then 0xce :: bigEndian 4 n
  else 0xcf :: bigEndian 8 n

/-- The shortest header of a text of `n` bytes. -/
def writeTextHeader (n : Nat) : Bytes :=
  if n < 32 then [UInt8.ofNat (0xa0 + n)]
  else if n < 256 then 0xd9 :: bigEndian 1 n
  else if n < 65536 then 0xda :: bigEndian 2 n
  else 0xdb :: bigEndian 4 n

/-- A text in UTF-8. -/
def textBytes (s : String) : Bytes :=
  s.toByteArray.data.toList

/-- A text behind its header. -/
def writeText (s : String) : Bytes :=
  writeTextHeader (textBytes s).length ++ textBytes s

/-- The shortest header of an array of `n` values. -/
def writeArrayHeader (n : Nat) : Bytes :=
  if n < 16 then [UInt8.ofNat (0x90 + n)]
  else if n < 65536 then 0xdc :: bigEndian 2 n
  else 0xdd :: bigEndian 4 n

end PerlOutline.MessagePack
