import PerlOutline.Proofs.Framing
import PerlOutline.Stub.Record

/-!
# Stubs come back from their bytes

Persisted stubs are read back as they were, in the same order. Bytes that were cut short are
malformed, and bytes that were added are counted as trailing. Only a name that is empty, and more
stubs than a header can count, keep stubs from coming back.

## Layers
- **Records** are read back whatever follows them.
- **`Framed`**: what reading says of a message, of its beginnings and of what is longer.
- **Stubs**: the checks that a record passes.
-/

namespace PerlOutline.Stub

open PerlOutline.MessagePack

/-- What two steps give is given by the second from what the first gives. -/
theorem bind_eq_ok {ε α β : Type} {x : Except ε α} {f : α → Except ε β} {b : β}
    (h : x >>= f = .ok b) : ∃ a, x = .ok a ∧ f a = .ok b := by
  cases x with
  | error e => cases h
  | ok a => exact ⟨a, rfl, h⟩

/-! ## Records -/

/-- The texts of a stub are as short as the header of a text asks for. -/
def Fits (s : Stub) : Prop :=
  s.name.utf8ByteSize < 4294967296 ∧ s.inPackage.utf8ByteSize < 4294967296

instance (s : Stub) : Decidable s.Fits :=
  inferInstanceAs (Decidable (_ ∧ _))

/-- The numbers and texts of a record are as small as its fields ask for. -/
structure Record.Fits (r : Record) : Prop where
  format : r.format < 65536
  tag : r.tag < 65536
  name : r.name.utf8ByteSize < 4294967296
  inPackage : r.inPackage.utf8ByteSize < 4294967296
  bits : r.bits < 256

/-- The record of a stub whose texts are short fits. -/
theorem Fits.record {s : Stub} (h : s.Fits) : s.record.Fits where
  format := show 1 < 65536 by decide
  tag := show s.kind.tag < 65536 by cases s.kind <;> decide
  name := h.1
  inPackage := h.2
  bits := Nat.lt_trans s.flags.bits_lt (by decide)

/-- A number below 2^16 has a form. -/
theorem takes_small {n bound : Nat} (fits : n < bound) (small : bound ≤ 65536) :
    Reader.Takes (Reader.natural bound) (writeNatural n) n :=
  Reader.takes_natural fits (Nat.lt_of_lt_of_le fits (Nat.le_trans small (by decide)))

/-- A record that fits is read back from what is written of it. -/
theorem Record.Fits.takes {r : Record} (h : r.Fits) : Reader.Takes Record.read r.write r := by
  simp only [Record.write, List.append_assoc]
  exact (Reader.takes_arrayOf (by decide)).bind <|
    (takes_small h.format (Nat.le_refl _)).bind <|
    (takes_small h.tag (Nat.le_refl _)).bind <|
    (Reader.takes_text h.name).bind <|
    (Reader.takes_text h.inPackage).bind <|
    (takes_small h.bits (by decide)).finish <| Reader.takes_pure r

/-- Whatever is read as a record is read as the same with more behind it. -/
theorem steady_record : Reader.Steady Record.read :=
  (Reader.steady_arrayOf 5).bind fun _ =>
    (Reader.steady_natural 65536).bind fun _ => (Reader.steady_natural 65536).bind fun _ =>
    Reader.steady_text.bind fun _ => Reader.steady_text.bind fun _ =>
    (Reader.steady_natural 256).bind fun _ => Reader.steady_pure _

/-- Whatever is read as the record of a file is read as the same with more behind it. -/
theorem steady_fileRecord : Reader.Steady FileRecord.read :=
  (Reader.steady_arrayOf 3).bind fun _ =>
    (Reader.steady_natural 65536).bind fun _ => (Reader.steady_natural _).bind fun _ =>
    steady_record.arrayWith.bind fun _ => Reader.steady_pure _

/-- As many records are read back as the header counts, and the others are left. -/
theorem read_fileRecord (version : UInt64) (front behind : List Record)
    (fits : ∀ r ∈ front, r.Fits)
    (counted : (front ++ behind).length % 4294967296 = front.length) (rest : Bytes) :
    FileRecord.read ((FileRecord.mk formatVersion version (front ++ behind)).write ++ rest) =
      some (⟨formatVersion, version, front⟩, (behind.map Record.write).flatten ++ rest) := by
  -- as many records as the header says, which counts no further than 2^32
  have records : Reader.Takes (Reader.arrayWith Record.read)
      (writeArrayHeader (front ++ behind).length ++ (front.map Record.write).flatten) front := by
    have header := Reader.takes_arraySize (front ++ behind).length
    rw [counted] at header
    exact header.bind (Reader.takes_times fun r hr => (fits r hr).takes)
  have whole : Reader.Takes FileRecord.read
      (writeArrayHeader 3 ++ (writeNatural formatVersion ++ (writeNatural version.toNat ++
        (writeArrayHeader (front ++ behind).length ++ (front.map Record.write).flatten))))
      ⟨formatVersion, version, front⟩ := by
    refine (Reader.takes_arrayOf (by decide)).bind <|
      (takes_small (by decide) (Nat.le_refl _)).bind <|
      (Reader.takes_natural version.toNat_lt version.toNat_lt).bind <| records.finish ?_
    rw [UInt64.ofNat_toNat]
    exact Reader.takes_pure _
  rw [← whole]
  simp only [FileRecord.write, List.map_append, List.flatten_append, List.append_assoc]

/-! ## Messages -/

/-- Reading a message gives `outcome`; a beginning of the message is malformed, and what follows it
is counted. -/
structure Framed {α : Type} (decode : Bytes → Except Corruption α) (bytes : Bytes)
    (outcome : Except Corruption α) : Prop where
  whole : decode bytes = outcome
  cut : ∀ p, p <+: bytes → p ≠ bytes → decode p = .error .malformed
  longer : ∀ extra, extra ≠ [] →
    decode (bytes ++ extra) = .error (.trailingBytes extra.length)

/-- Bytes that are left over are counted. -/
theorem readWhole_left {α : Type} {reader : Reader α} {bytes rest : Bytes} {a : α}
    (h : reader bytes = some (a, rest)) (left : rest ≠ []) :
    readWhole reader bytes = .error (.trailingBytes rest.length) := by
  cases rest with
  | nil => exact absurd rfl left
  | cons b rest => simp [readWhole, h]

/-- A message that a reader takes is framed, whatever is made of its value. -/
theorem framed_of_takes {α β : Type} {reader : Reader α} (steady : reader.Steady) {bytes : Bytes}
    {a : α} (h : reader.Takes bytes a) (make : α → Except Corruption β) :
    Framed (fun bytes => readWhole reader bytes >>= make) bytes (make a) where
  -- with nothing behind it all of it is read
  whole := by
    have all := h []
    rw [List.append_nil] at all
    simp only [readWhole, all]
    rfl
  -- a steady reader that took less would have taken the same of the whole
  cut p cut short := by
    simp only [readWhole, h.none_of_isPrefix steady cut short]
    rfl
  -- with more behind it the reader takes as much as without
  longer extra more := by
    simp only [readWhole_left (h extra) more]
    rfl

/-! ## Stubs -/

/-- A record passes all checks but that for its name. -/
theorem stub_record (s : Stub) :
    s.record.stub = if s.name = "" then .error .emptyName else .ok s := by
  simp [record, Record.stub, checkFormat, bind, Except.bind, pure, Except.pure,
    String.isEmpty_iff]

/-- Records of stubs pass their checks unless a name is empty. -/
theorem mapM_stub_record (stubs : List Stub) :
    (stubs.map record).mapM Record.stub =
      if ∃ s ∈ stubs, s.name = "" then .error .emptyName else .ok stubs := by
  induction stubs with
  | nil => simp [pure, Except.pure]
  | cons s stubs ih =>
    rw [List.map_cons, List.mapM_cons, stub_record, ih]
    -- the first empty name is reported, whether another one follows or not
    by_cases first : s.name = ""
    · simp [first, bind, Except.bind]
    · by_cases later : ∃ s ∈ stubs, s.name = ""
      · simp [first, later, bind, Except.bind]
      · simp [first, later, bind, Except.bind, pure, Except.pure]

/-- The record of a file passes its checks unless a name is empty. -/
theorem FileStubs.stubs_record (f : FileStubs) :
    f.record.stubs = if ∃ s ∈ f.stubs, s.name = "" then .error .emptyName else .ok f := by
  simp only [FileStubs.record, FileRecord.stubs, checkFormat, if_pos, mapM_stub_record]
  split <;> rfl

/-- Reading a stub gives what was written. -/
theorem framed_stub {s : Stub} (fits : s.Fits) :
    Framed decode s.encode (if s.name = "" then .error .emptyName else .ok s) := by
  rw [← stub_record]
  exact framed_of_takes steady_record fits.record.takes Record.stub

/-- Reading the stubs of a file gives what was written. -/
theorem framed_fileStubs {f : FileStubs} (fits : ∀ s ∈ f.stubs, s.Fits)
    (short : f.stubs.length < 4294967296) :
    Framed FileStubs.decode f.encode
      (if ∃ s ∈ f.stubs, s.name = "" then .error .emptyName else .ok f) := by
  rw [← FileStubs.stubs_record]
  refine framed_of_takes steady_fileRecord ?_ FileRecord.stubs
  intro rest
  have all := read_fileRecord f.version (f.stubs.map record) []
    (by simpa using fun s hs => (fits s hs).record) (by simpa using Nat.mod_eq_of_lt short) rest
  rwa [List.append_nil] at all

/-- Writing a record takes bytes. -/
theorem Record.write_ne_nil (r : Record) : r.write ≠ [] := by
  simp [Record.write, writeArrayHeader]

/-- The stubs that a header cannot count are left over. -/
theorem decode_of_long {f : FileStubs} (fits : ∀ s ∈ f.stubs, s.Fits)
    (long : 4294967296 ≤ f.stubs.length) :
    ∃ left, 0 < left ∧ FileStubs.decode f.encode = .error (.trailingBytes left) := by
  let counted := f.stubs.length % 4294967296
  -- the header says how many there are up to multiples of what it can count
  have fewer : counted < f.stubs.length := Nat.lt_of_lt_of_le (Nat.mod_lt _ (by decide)) long
  have parts : f.stubs.take counted ++ f.stubs.drop counted = f.stubs := List.take_append_drop ..
  have all := read_fileRecord f.version ((f.stubs.take counted).map record)
    ((f.stubs.drop counted).map record)
    (by
      intro r hr
      obtain ⟨s, hs, rfl⟩ := List.mem_map.mp hr
      exact (fits s (List.mem_of_mem_take hs)).record)
    (by
      rw [← List.map_append, parts, List.length_map, List.length_map,
        List.length_take_of_le (Nat.le_of_lt fewer)])
    []
  rw [← List.map_append, parts, List.append_nil, List.append_nil] at all
  -- The first stub that is not counted has bytes.
  have left : (((f.stubs.drop counted).map record).map Record.write).flatten ≠ [] := by
    rw [List.drop_eq_getElem_cons fewer, List.map_cons, List.map_cons, List.flatten_cons]
    exact List.append_ne_nil_of_left_ne_nil (Record.write_ne_nil _) _
  refine ⟨_, List.length_pos_iff.mpr left, ?_⟩
  have read : readWhole FileRecord.read f.encode = .error (.trailingBytes _) :=
    readWhole_left all left
  simp only [FileStubs.decode, read]
  rfl

/-- Persisted stubs are exact. Reading what was written gives the same stubs of the same version in
the same order, unless a name is empty, which is reported. No strict beginning of it is read, and
bytes that follow it are counted. The same holds of a single stub. More stubs than the header of an
array has room for are never mistaken for fewer. -/
theorem persisted_exact :
    (∀ s : Stub, s.Fits →
      Framed decode s.encode (if s.name = "" then .error .emptyName else .ok s)) ∧
    ∀ f : FileStubs, (∀ s ∈ f.stubs, s.Fits) →
      (f.stubs.length < 4294967296 →
        Framed FileStubs.decode f.encode
          (if ∃ s ∈ f.stubs, s.name = "" then .error .emptyName else .ok f)) ∧
      (4294967296 ≤ f.stubs.length →
        ∃ left, 0 < left ∧ FileStubs.decode f.encode = .error (.trailingBytes left)) :=
  ⟨fun _ fits => framed_stub fits,
    fun _ fits => ⟨framed_fileStubs fits, decode_of_long fits⟩⟩

/-- Sixteen stubs with names of 32 bytes need longer headers than fifteen stubs with names of 31. -/
theorem persisted_exact_long_headers :
    let stub : Stub := ⟨.hash, "éééééééééééééééé", "", ⟨true, false, false, true, false⟩⟩
    let file : FileStubs := ⟨18446744073709551615, List.replicate 16 stub⟩
    FileStubs.decode file.encode = .ok file ∧
      FileStubs.decode file.encode.dropLast = .error .malformed ∧
      FileStubs.decode (file.encode ++ [0]) = .error (.trailingBytes 1) ∧
      decode stub.encode = .ok stub := by
  intro stub file
  have fits : ∀ s ∈ file.stubs, s.Fits := by decide
  have framed := (persisted_exact.2 file fits).1 (by decide)
  rw [if_neg (by decide)] at framed
  have single := persisted_exact.1 stub (by decide)
  rw [if_neg (by decide)] at single
  refine ⟨framed.whole, framed.cut _ (List.dropLast_prefix _) ?_, framed.longer [0] (by decide),
    single.whole⟩
  decide +kernel

end PerlOutline.Stub
