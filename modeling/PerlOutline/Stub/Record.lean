import PerlOutline.MessagePack.Reader
import PerlOutline.Stub.Basic

/-!
# Records of stubs

The persisted form of stubs. A stub is an array of format, tag, name, package and flag bits. The
stubs of a file are an array of format, version of the text and the stubs in source order. Reading
takes the whole value first, then asks that no byte is left, and then checks field by field.

## Layers
- **Corruption**: why bytes are no stubs.
- **Records**: fields as they are written, and their stubs.
- **Bytes**: the records of one stub and of a file.
-/

namespace PerlOutline.Stub

open PerlOutline.MessagePack

/-- The format that is written, and the only one that is read. -/
def formatVersion : Nat :=
  1

/-! ## Corruption -/

/-- Why bytes are no stubs. -/
inductive Corruption where
  /-- They are no value of the right shape. -/
  | malformed
  | unsupportedFormat (found : Nat)
  | unknownKind (tag : Nat)
  | invalidFlags (bits : Nat)
  | emptyName
  /-- Bytes are left after the value. -/
  | trailingBytes (count : Nat)
  deriving DecidableEq, Repr

/-- The lowest `width` binary digits of a number, the highest first. -/
def binaryDigits (width n : Nat) : String :=
  String.ofList ((List.range width).reverse.map fun i => if n.testBit i then '1' else '0')

/-- Why the bytes are no stubs, in words. -/
def Corruption.message : Corruption → String
  | .malformed => "malformed stub record"
  | .unsupportedFormat found =>
    "unsupported stub format version " ++ toString found ++ " (expected " ++
      toString formatVersion ++ ")"
  | .unknownKind tag => "unknown stub kind tag " ++ toString tag
  | .invalidFlags bits => "undefined stub flag bits 0b" ++ binaryDigits 8 bits
  | .emptyName => "stub record has an empty name"
  | .trailingBytes count => toString count ++ " trailing bytes after stub record"

/-! ## Records -/

/-- The fields of a persisted stub. -/
structure Record where
  format : Nat
  tag : Nat
  name : String
  inPackage : String
  bits : Nat
  deriving DecidableEq, Repr

/-- The fields of a stub. -/
def record (s : Stub) : Record :=
  ⟨formatVersion, s.kind.tag, s.name, s.inPackage, s.flags.bits⟩

/-- Only one format is read. -/
def checkFormat (found : Nat) : Except Corruption Unit :=
  if found = formatVersion then .ok () else .error (.unsupportedFormat found)

/-- The stub of a record whose fields all make sense. -/
def Record.stub (r : Record) : Except Corruption Stub := do
  -- The order of the checks decides what is reported of a record that fails several.
  checkFormat r.format
  match DeclarationKind.ofTag? r.tag with
  | none => .error (.unknownKind r.tag)
  | some kind =>
    match Flags.ofBits? r.bits with
    | none => .error (.invalidFlags r.bits)
    | some flags =>
      if r.name.isEmpty then .error .emptyName else return ⟨kind, r.name, r.inPackage, flags⟩

/-- The fields of the persisted stubs of a file. -/
structure FileRecord where
  format : Nat
  version : UInt64
  records : List Record
  deriving DecidableEq, Repr

/-- The stubs of a file with the version of the text that they are of. -/
structure FileStubs where
  version : UInt64
  stubs : List Stub
  deriving DecidableEq, Repr

/-- The fields of the stubs of a file. -/
def FileStubs.record (f : FileStubs) : FileRecord :=
  ⟨formatVersion, f.version, f.stubs.map Stub.record⟩

/-- The stubs of a record whose fields all make sense. -/
def FileRecord.stubs (r : FileRecord) : Except Corruption FileStubs := do
  checkFormat r.format
  return ⟨r.version, ← r.records.mapM Record.stub⟩

/-! ## Writing -/

/-- A record is written as an array of its fields. -/
def Record.write (r : Record) : Bytes :=
  writeArrayHeader 5 ++ writeNatural r.format ++ writeNatural r.tag ++ writeText r.name ++
    writeText r.inPackage ++ writeNatural r.bits

/-- The records of a file are an array inside the array of its fields. -/
def FileRecord.write (r : FileRecord) : Bytes :=
  writeArrayHeader 3 ++ writeNatural r.format ++ writeNatural r.version.toNat ++
    writeArrayHeader r.records.length ++ (r.records.map Record.write).flatten

/-- The persisted form of a stub. -/
def encode (s : Stub) : Bytes :=
  s.record.write

/-- The persisted form of the stubs of a file. -/
def FileStubs.encode (f : FileStubs) : Bytes :=
  f.record.write

/-! ## Reading -/

/-- Take a record. -/
def Record.read : Reader Record := do
  Reader.arrayOf 5
  -- Numbers out of range are malformed; whether a number in range means something is checked later.
  let format ← Reader.natural 65536
  let tag ← Reader.natural 65536
  let name ← Reader.text
  let inPackage ← Reader.text
  let bits ← Reader.natural 256
  return ⟨format, tag, name, inPackage, bits⟩

/-- Take the record of a file. -/
def FileRecord.read : Reader FileRecord := do
  Reader.arrayOf 3
  let format ← Reader.natural 65536
  let version ← Reader.natural 18446744073709551616
  let records ← Reader.arrayWith Record.read
  return ⟨format, UInt64.ofNat version, records⟩

/-- The value that bytes are, with none left. -/
def readWhole {α : Type} (reader : Reader α) (bytes : Bytes) : Except Corruption α :=
  match reader bytes with
  | none => .error .malformed
  | some (a, []) => .ok a
  | some (_, rest) => .error (.trailingBytes rest.length)

/-- The stub that bytes are. -/
def decode (bytes : Bytes) : Except Corruption Stub := do
  (← readWhole Record.read bytes).stub

/-- The stubs of a file that bytes are. -/
def FileStubs.decode (bytes : Bytes) : Except Corruption FileStubs := do
  (← readWhole FileRecord.read bytes).stubs

end PerlOutline.Stub
