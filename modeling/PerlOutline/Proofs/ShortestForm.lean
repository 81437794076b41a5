import Mathlib.Tactic.SplitIfs
import PerlOutline.Proofs.Codec

/-!
# What is written is the shortest of what is read

Numbers, texts and arrays have many forms, and all of them are read. Whatever form a value had, the
form that is written of it takes no more bytes. So stubs that were read from any bytes come back
from no more bytes, and all their fields make sense.

## Layers
- **`Spends`**: what a reader gives, with the number of bytes it was read from.
- **Widths** of what is written, for values that fit in a number of bytes.
- **Values** are read from at least as many bytes as they are written in.
- **Records**, and the stubs that are made of them.
-/

namespace PerlOutline.MessagePack

/-! ## Widths -/

/-- A number that fits in one of the widths is written in a marker and no more bytes than that. -/
def Short (write : Nat → Bytes) (widths : List Nat) : Prop :=
  ∀ width ∈ widths, ∀ n < 256 ^ width, (write n).length ≤ 1 + width

/-- Numbers come in four widths. -/
theorem short_writeNatural : Short writeNatural [1, 2, 4, 8] := by
  intro width known n fits
  unfold writeNatural
  simp only [List.mem_cons, List.not_mem_nil, or_false] at known
  -- The forms that are written are as narrow as any width that the number fits in.
  rcases known with rfl | rfl | rfl | rfl
  all_goals
    split_ifs
    all_goals
      simp only [List.length_cons, List.length_nil, length_bigEndian]
      omega

/-- Lengths of texts come in three widths, besides the length that is part of a marker. -/
theorem short_writeTextHeader : Short writeTextHeader [1, 2, 4] := by
  intro width known n fits
  unfold writeTextHeader
  simp only [List.mem_cons, List.not_mem_nil, or_false] at known
  rcases known with rfl | rfl | rfl
  all_goals
    split_ifs
    all_goals
      simp only [List.length_cons, List.length_nil, length_bigEndian]
      omega

/-- Sizes of arrays come in two widths, besides the size that is part of a marker. -/
theorem short_writeArrayHeader : Short writeArrayHeader [2, 4] := by
  intro width known n fits
  unfold writeArrayHeader
  simp only [List.mem_cons, List.not_mem_nil, or_false] at known
  rcases known with rfl | rfl
  all_goals
    split_ifs
    all_goals
      simp only [List.length_cons, List.length_nil, length_bigEndian]
      omega

/-- What is read in one of the widths takes at least what is written of it behind a marker. -/
theorem Short.within {write : Nat → Bytes} {widths : List Nat} (h : Short write widths)
    {width n used : Nat} (known : width ∈ widths) (cost : used = width ∧ n < 256 ^ width) :
    (write n).length ≤ 1 + used := by
  rw [cost.1]
  exact h width known n cost.2

/-- A marker byte alone is enough for small values. -/
theorem length_writeNatural_of_lt {n : Nat} (tiny : n < 128) : (writeNatural n).length = 1 := by
  rw [writeNatural, if_pos tiny]
  rfl

/-- So it is for short texts. -/
theorem length_writeTextHeader_of_lt {n : Nat} (tiny : n < 32) :
    (writeTextHeader n).length = 1 := by
  rw [writeTextHeader, if_pos tiny]
  rfl

/-- And for short arrays. -/
theorem length_writeArrayHeader_of_lt {n : Nat} (tiny : n < 16) :
    (writeArrayHeader n).length = 1 := by
  rw [writeArrayHeader, if_pos tiny]
  rfl

namespace Reader

variable {α β : Type} {reader : Reader α} {next : α → Reader β}

/-! ## What a value was read from -/

/-- Whatever the reader gives stands in the relation to the number of bytes that it takes. -/
def Spends (reader : Reader α) (costs : α → Nat → Prop) : Prop :=
  ∀ (bytes : Bytes) (a : α) (rest : Bytes), reader bytes = some (a, rest) →
    ∃ used, bytes.length = used + rest.length ∧ costs a used

variable {costs : α → Nat → Prop} {more : β → Nat → Prop}

/-- Less can be said of the cost. -/
theorem Spends.mono (h : Spends reader costs) {weaker : α → Nat → Prop}
    (weaken : ∀ a used, costs a used → weaker a used) : Spends reader weaker := by
  intro bytes a rest read
  obtain ⟨used, total, cost⟩ := h bytes a rest read
  exact ⟨used, total, weaken a used cost⟩

/-- A value that costs nothing. -/
theorem spends_pure {a : α} (h : costs a 0) : Spends (pure a : Reader α) costs := by
  intro bytes a' rest read
  obtain ⟨rfl, rfl⟩ := Prod.mk.inj (Option.some.inj read)
  exact ⟨0, (Nat.zero_add _).symm, h⟩

/-- What gives nothing costs whatever is asked. -/
theorem spends_failure : Spends (failure : Reader α) costs := by
  intro bytes a rest read
  exact absurd read (by rintro ⟨⟩)

/-- A choice, where each branch may use how the test came out. -/
theorem Spends.ite {p : Prop} [Decidable p] {other : Reader α} (h : p → Spends reader costs)
    (hother : ¬ p → Spends other costs) : Spends (if p then reader else other) costs := by
  split
  · next yes => exact h yes
  · next no => exact hother no

/-- Two readers in a row take the bytes of the one and of the other. -/
theorem Spends.bind (h : Spends reader costs)
    (hnext : ∀ a used, costs a used → Spends (next a) fun b later => more b (used + later)) :
    Spends (reader >>= next) more := by
  intro bytes b rest both
  obtain ⟨a, left, first, second⟩ := bind_eq_some.mp both
  -- What the second reader leaves is less by what it took than what the first one left.
  obtain ⟨used, total, cost⟩ := h _ _ _ first
  obtain ⟨later, remaining, all⟩ := hnext a used cost _ _ _ second
  exact ⟨used + later, by omega, all⟩

/-- A number of bytes costs that number. -/
theorem spends_take (n : Nat) :
    Spends (take n) fun taken used => used = n ∧ taken.length = n := by
  intro bytes taken rest read
  simp only [take] at read
  split at read
  · next enough =>
    obtain ⟨rfl, rfl⟩ := Prod.mk.inj (Option.some.inj read)
    refine ⟨n, ?_, rfl, enough⟩
    rw [List.length_take] at enough
    rw [List.length_drop]
    omega
  · contradiction

/-! ## Numbers -/

/-- A number that was read from bytes fits in them. -/
theorem ofBigEndian_lt (bytes : Bytes) : ofBigEndian bytes < 256 ^ bytes.length := by
  -- Each byte leaves room for the digits behind it.
  suffices onto : ∀ before, bytes.foldl (fun n b => n * 256 + b.toNat) before <
      (before + 1) * 256 ^ bytes.length by
    have whole := onto 0
    rwa [Nat.zero_add, Nat.one_mul] at whole
  induction bytes with
  | nil =>
    intro before
    rw [List.foldl_nil, List.length_nil, Nat.pow_zero]
    omega
  | cons b bytes ih =>
    intro before
    have digit : before * 256 + b.toNat + 1 ≤ (before + 1) * 256 := by
      have := b.toNat_lt
      omega
    calc (b :: bytes).foldl (fun n b => n * 256 + b.toNat) before
        < (before * 256 + b.toNat + 1) * 256 ^ bytes.length := ih _
      _ ≤ (before + 1) * 256 * 256 ^ bytes.length := Nat.mul_le_mul_right _ digit
      _ = (before + 1) * 256 ^ (b :: bytes).length := by
        rw [List.length_cons, Nat.pow_succ', Nat.mul_assoc]

/-- A number without a sign costs its width and fits in it. -/
theorem spends_unsigned (width : Nat) :
    Spends (unsigned width) fun n used => used = width ∧ n < 256 ^ width := by
  refine (spends_take width).bind fun taken used cost => spends_pure ?_
  have small := ofBigEndian_lt taken
  rw [cost.2] at small
  exact ⟨cost.1, small⟩

/-- So does a number with a sign, which is read only if it is not negative. -/
theorem spends_signed (width : Nat) :
    Spends (signed width) fun n used => used = width ∧ n < 256 ^ width := by
  refine (spends_take width).bind fun taken used cost =>
    .ite (fun _ => spends_failure) fun _ => spends_pure ?_
  have small := ofBigEndian_lt taken
  rw [cost.2] at small
  exact ⟨cost.1, small⟩

/-- A marker is one byte. -/
theorem spends_marker : Spends marker fun _ used => used = 1 :=
  (spends_unsigned 1).mono fun _ _ cost => cost.1

/-- Behind its marker a number takes at least what is written of it behind a marker. -/
theorem spends_naturalAfter (marker : Nat) :
    Spends (naturalAfter marker) fun n used => (writeNatural n).length ≤ 1 + used := by
  have unsigned {width : Nat} (known : width ∈ [1, 2, 4, 8]) :=
    (spends_unsigned width).mono fun _ _ => short_writeNatural.within known
  have signed {width : Nat} (known : width ∈ [1, 2, 4, 8]) :=
    (spends_signed width).mono fun _ _ => short_writeNatural.within known
  -- The cases follow the markers in the order in which they are told apart.
  unfold naturalAfter
  refine .ite (fun tiny => spends_pure ?_) fun _ => ?_
  · exact Nat.le_of_eq (length_writeNatural_of_lt tiny)
  refine .ite (fun _ => unsigned (by decide)) fun _ => ?_
  refine .ite (fun _ => unsigned (by decide)) fun _ => ?_
  refine .ite (fun _ => unsigned (by decide)) fun _ => ?_
  refine .ite (fun _ => unsigned (by decide)) fun _ => ?_
  refine .ite (fun _ => signed (by decide)) fun _ => ?_
  refine .ite (fun _ => signed (by decide)) fun _ => ?_
  refine .ite (fun _ => signed (by decide)) fun _ => ?_
  exact .ite (fun _ => signed (by decide)) fun _ => spends_failure

/-- A number is read from at least as many bytes as it is written in. -/
theorem spends_natural (bound : Nat) :
    Spends (natural bound) fun n used => (writeNatural n).length ≤ used ∧ n < bound := by
  refine spends_marker.bind fun m used marked => (spends_naturalAfter m).bind fun n later cost => ?_
  -- The marker is the byte that a written number may take more.
  refine .ite (fun fits => spends_pure ⟨?_, fits⟩) fun _ => spends_failure
  omega

/-! ## Texts and arrays -/

/-- Behind its marker the length of a text takes at least what is written of it behind a marker. -/
theorem spends_textLengthAfter (marker : Nat) :
    Spends (textLengthAfter marker) fun n used =>
      (writeTextHeader n).length ≤ 1 + used ∧ n < 4294967296 := by
  have wide {width : Nat} (known : width ∈ [1, 2, 4]) (room : 256 ^ width ≤ 4294967296) :=
    (spends_unsigned width).mono fun _ _ cost =>
      And.intro (short_writeTextHeader.within known cost) (Nat.lt_of_lt_of_le cost.2 room)
  unfold textLengthAfter
  refine .ite (fun tiny => spends_pure ⟨?_, by omega⟩) fun _ => ?_
  · exact Nat.le_of_eq (length_writeTextHeader_of_lt (by omega))
  refine .ite (fun _ => wide (by decide) (by decide)) fun _ => ?_
  refine .ite (fun _ => wide (by decide) (by decide)) fun _ => ?_
  exact .ite (fun _ => wide (by decide) (by decide)) fun _ => spends_failure

/-- Behind its marker the size of an array takes at least what is written of it behind a marker. -/
theorem spends_arraySizeAfter (marker : Nat) :
    Spends (arraySizeAfter marker) fun n used =>
      (writeArrayHeader n).length ≤ 1 + used ∧ n < 4294967296 := by
  have wide {width : Nat} (known : width ∈ [2, 4]) (room : 256 ^ width ≤ 4294967296) :=
    (spends_unsigned width).mono fun _ _ cost =>
      And.intro (short_writeArrayHeader.within known cost) (Nat.lt_of_lt_of_le cost.2 room)
  unfold arraySizeAfter
  refine .ite (fun tiny => spends_pure ⟨?_, by omega⟩) fun _ => ?_
  · exact Nat.le_of_eq (length_writeArrayHeader_of_lt (by omega))
  refine .ite (fun _ => wide (by decide) (by decide)) fun _ => ?_
  exact .ite (fun _ => wide (by decide) (by decide)) fun _ => spends_failure

/-- A text has the bytes that it was read from. -/
theorem textBytes_of_ofTextBytes? {bytes : Bytes} {s : String} (h : ofTextBytes? bytes = some s) :
    textBytes s = bytes := by
  rw [ofTextBytes?, String.fromUTF8?] at h
  split at h
  · cases h
    rfl
  · contradiction

/-- What was found before costs nothing. -/
theorem spends_lift {found : Option α} (h : ∀ a, found = some a → costs a 0) :
    Spends (liftM found : Reader α) costs := by
  cases found with
  | none => exact spends_failure
  | some a => exact spends_pure (h a rfl)

/-- A text is read from at least as many bytes as it is written in. -/
theorem spends_text :
    Spends text fun s used => (writeText s).length ≤ used ∧ s.utf8ByteSize < 4294967296 := by
  refine spends_marker.bind fun m used marked =>
    (spends_textLengthAfter m).bind fun n header sized =>
    (spends_take n).bind fun taken body took => spends_lift fun s found => ?_
  -- What was decoded has the bytes it was decoded from, so its header is that of their number.
  have same : (textBytes s).length = n := by rw [textBytes_of_ofTextBytes? found, took.2]
  have size : s.utf8ByteSize = n := same
  rw [writeText, List.length_append, same, size]
  omega

/-- A size is read from at least as many bytes as it is written in. -/
theorem spends_arraySize :
    Spends arraySize fun n used => (writeArrayHeader n).length ≤ used ∧ n < 4294967296 := by
  refine spends_marker.bind fun m used marked =>
    (spends_arraySizeAfter m).mono fun n later cost => ?_
  omega

/-- A header of a known size is, too. -/
theorem spends_arrayOf (n : Nat) :
    Spends (arrayOf n) fun _ used => (writeArrayHeader n).length ≤ used := by
  refine spends_arraySize.bind fun found used cost =>
    .ite (fun same => spends_pure ?_) fun _ => spends_failure
  rw [← same]
  exact cost.1

/-- If each of some values is read from at least as many bytes as it is written in, so are they in
a row. -/
theorem spends_times {write : α → Bytes} {fits : α → Prop}
    (each : Spends reader fun a used => (write a).length ≤ used ∧ fits a) (n : Nat) :
    Spends (times reader n) fun items used =>
      (items.map write).flatten.length ≤ used ∧ (∀ a ∈ items, fits a) ∧ items.length = n := by
  induction n with
  -- No values are written in no bytes.
  | zero => exact spends_pure ⟨Nat.le_refl _, fun _ none => absurd none List.not_mem_nil, rfl⟩
  | succ n ih =>
    refine each.bind fun a used first => ih.bind fun items later others => spends_pure ?_
    refine ⟨?_, List.forall_mem_cons.mpr ⟨first.2, others.2.1⟩, ?_⟩
    · rw [List.map_cons, List.flatten_cons, List.length_append]
      omega
    · rw [List.length_cons, others.2.2]

/-- Whole arrays are read from at least as many bytes as they are written in. -/
theorem spends_arrayWith {write : α → Bytes} {fits : α → Prop}
    (each : Spends reader fun a used => (write a).length ≤ used ∧ fits a) :
    Spends (arrayWith reader) fun items used =>
      (writeArrayHeader items.length ++ (items.map write).flatten).length ≤ used ∧
        (∀ a ∈ items, fits a) ∧ items.length < 4294967296 := by
  refine spends_arraySize.bind fun n used header =>
    (spends_times each n).mono fun items later others => ?_
  rw [others.2.2, List.length_append]
  exact ⟨Nat.add_le_add header.1 others.1, others.2.1, header.2⟩

end Reader

end PerlOutline.MessagePack

namespace PerlOutline.Stub

open PerlOutline.MessagePack

/-! ## Records -/

/-- A record is read from at least as many bytes as it is written in, and fits in the written form.
-/
theorem spends_record :
    Reader.Spends Record.read fun r used => r.write.length ≤ used ∧ r.Fits := by
  refine (Reader.spends_arrayOf 5).bind fun _ header headed =>
    (Reader.spends_natural 65536).bind fun format _ formatted =>
    (Reader.spends_natural 65536).bind fun tag _ tagged =>
    Reader.spends_text.bind fun name _ named =>
    Reader.spends_text.bind fun inPackage _ placed =>
    (Reader.spends_natural 256).bind fun bits _ flagged => Reader.spends_pure ⟨?_, ?_⟩
  · -- The bytes of the parts add up.
    simp only [Record.write, List.length_append]
    omega
  · exact ⟨formatted.2, tagged.2, named.2, placed.2, flagged.2⟩

/-- The same holds of the record of a file. -/
theorem spends_fileRecord :
    Reader.Spends FileRecord.read fun r used =>
      r.write.length ≤ used ∧ (∀ record ∈ r.records, record.Fits) ∧
        r.records.length < 4294967296 := by
  refine (Reader.spends_arrayOf 3).bind fun _ header headed =>
    (Reader.spends_natural 65536).bind fun format _ formatted =>
    (Reader.spends_natural _).bind fun version _ versioned =>
    (Reader.spends_arrayWith spends_record).bind fun records _ listed =>
      Reader.spends_pure ⟨?_, listed.2⟩
  -- The version is below the bound, so it is not cut to its bits.
  have same : (UInt64.ofNat version).toNat = version := UInt64.toNat_ofNat_of_lt' versioned.2
  have body := listed.1
  rw [List.length_append] at body
  simp only [FileRecord.write, List.length_append, same]
  omega

/-- Nothing is left over where a whole message was read. -/
theorem read_of_readWhole {α : Type} {reader : Reader α} {bytes : Bytes} {a : α}
    (h : readWhole reader bytes = .ok a) : reader bytes = some (a, []) := by
  unfold readWhole at h
  split at h
  · contradiction
  · next read =>
    cases h
    exact read
  · contradiction

/-! ## Stubs of records -/

/-- The fields of a record make sense: the format is the one that is read, the tag is one of a kind,
the name is not empty, and no bits are set but those of the flags. -/
structure Record.Sound (r : Record) : Prop where
  format : r.format = formatVersion
  tag : r.tag ∈ DeclarationKind.all.map DeclarationKind.tag
  name : r.name ≠ ""
  bits : r.bits < 32

/-- Flags come from their own bits. -/
theorem Flags.bits_of_ofBits? {n : Nat} {f : Flags} (h : ofBits? n = some f) : f.bits = n := by
  rw [ofBits?] at h
  split at h
  · next small =>
    cases h
    -- There are 32 values left to look at.
    revert n
    decide
  · contradiction

/-- Only the current format passes. -/
theorem format_of_checkFormat {found : Nat} {u : Unit} (h : checkFormat found = .ok u) :
    found = formatVersion := by
  rw [checkFormat] at h
  split at h
  · assumption
  · contradiction

/-- A record that has a stub is the record of that stub, and is sound. -/
theorem Record.record_of_stub {r : Record} {s : Stub} (h : r.stub = .ok s) :
    s.record = r ∧ s.record.Sound := by
  suffices same : s.record = r ∧ s.name ≠ "" by
    refine ⟨same.1, ⟨rfl, ?_, same.2, s.flags.bits_lt⟩⟩
    exact List.mem_map_of_mem (DeclarationKind.mem_all s.kind)
  rw [Record.stub] at h
  obtain ⟨_, checked, rest⟩ := bind_eq_ok h
  -- Tag, bits and name were all checked, or there would be no stub.
  cases tagged : DeclarationKind.ofTag? r.tag with
  | none => rw [tagged] at rest; contradiction
  | some kind =>
    cases flagged : Flags.ofBits? r.bits with
    | none => rw [tagged, flagged] at rest; contradiction
    | some flags =>
      simp only [tagged, flagged] at rest
      split at rest
      · contradiction
      · next named =>
        cases rest
        refine ⟨?_, fun none => named (String.isEmpty_iff.mpr none)⟩
        rw [record, ← format_of_checkFormat checked, DeclarationKind.tag_of_ofTag? tagged,
          Flags.bits_of_ofBits? flagged]

/-- Records that have stubs are the records of those stubs. -/
theorem map_record_of_mapM_stub {records : List Record} {stubs : List Stub}
    (h : records.mapM Record.stub = .ok stubs) :
    stubs.map record = records ∧ ∀ s ∈ stubs, s.record.Sound := by
  induction records generalizing stubs with
  | nil =>
    cases h
    exact ⟨rfl, fun _ none => absurd none List.not_mem_nil⟩
  | cons r records ih =>
    rw [List.mapM_cons] at h
    obtain ⟨s, made, rest⟩ := bind_eq_ok h
    obtain ⟨others, later, done⟩ := bind_eq_ok rest
    cases done
    obtain ⟨same, sound⟩ := Record.record_of_stub made
    obtain ⟨all, each⟩ := ih later
    exact ⟨by rw [List.map_cons, same, all], List.forall_mem_cons.mpr ⟨sound, each⟩⟩

/-- The record of a file that has stubs is the record of those stubs. -/
theorem FileRecord.record_of_stubs {r : FileRecord} {f : FileStubs} (h : r.stubs = .ok f) :
    f.record = r ∧ ∀ s ∈ f.stubs, s.record.Sound := by
  rw [FileRecord.stubs] at h
  obtain ⟨_, checked, rest⟩ := bind_eq_ok h
  obtain ⟨stubs, made, done⟩ := bind_eq_ok rest
  cases done
  obtain ⟨all, each⟩ := map_record_of_mapM_stub made
  exact ⟨by rw [FileStubs.record, ← format_of_checkFormat checked, all], each⟩

/-! ## Bytes of stubs -/

/-- A stub comes back as it was from the bytes that are written of it, and those are no more than
the bytes that it was read from. -/
theorem shortest_stub {bytes : Bytes} {s : Stub} (h : decode bytes = .ok s) :
    Record.read bytes = some (s.record, []) ∧ s.record.Sound ∧
      decode s.encode = .ok s ∧ s.encode.length ≤ bytes.length := by
  obtain ⟨r, whole, made⟩ := bind_eq_ok h
  obtain ⟨rfl, sound⟩ := Record.record_of_stub made
  have read := read_of_readWhole whole
  obtain ⟨used, total, written, fits⟩ := spends_record _ _ _ read
  refine ⟨read, sound, ?_, ?_⟩
  · -- What was read is short enough to be written, so what is written of it reads back.
    have whole := (framed_stub ⟨fits.name, fits.inPackage⟩).whole
    have named : s.name ≠ "" := sound.name
    rwa [if_neg named] at whole
  · rw [List.length_nil, Nat.add_zero] at total
    rw [total]
    exact written

/-- The stubs of a file come back from what is written of them, and that is no more than what they
were read from. -/
theorem shortest_fileStubs {bytes : Bytes} {f : FileStubs} (h : FileStubs.decode bytes = .ok f) :
    FileRecord.read bytes = some (f.record, []) ∧ (∀ s ∈ f.stubs, s.record.Sound) ∧
      FileStubs.decode f.encode = .ok f ∧ f.encode.length ≤ bytes.length := by
  obtain ⟨r, whole, made⟩ := bind_eq_ok h
  obtain ⟨rfl, sound⟩ := FileRecord.record_of_stubs made
  have read := read_of_readWhole whole
  obtain ⟨used, total, written, fits, short⟩ := spends_fileRecord _ _ _ read
  refine ⟨read, sound, ?_, ?_⟩
  · have each : ∀ s ∈ f.stubs, s.Fits := fun s member =>
      have own := fits s.record (List.mem_map_of_mem member)
      ⟨own.name, own.inPackage⟩
    have counted : f.stubs.length < 4294967296 := by
      rwa [FileStubs.record, List.length_map] at short
    have whole := (framed_fileStubs each counted).whole
    -- No stub that was read has an empty name.
    have named : ¬ ∃ s ∈ f.stubs, s.name = "" := by
      rintro ⟨s, member, empty⟩
      exact (sound s member).name empty
    rwa [if_neg named] at whole
  · rw [List.length_nil, Nat.add_zero] at total
    rw [total]
    exact written

/-- Only sound stubs are read, and no form of them is shorter than the one that is written. Stubs
that are read from bytes, whatever forms their numbers, texts and arrays have there, are what the
records in the bytes say, and every field of those makes sense. To write the stubs and to read them
again gives the same stubs of the same version, and takes no more bytes. The same holds of a single
stub. -/
theorem shortest_form :
    (∀ (bytes : Bytes) (s : Stub), decode bytes = .ok s →
      Record.read bytes = some (s.record, []) ∧ s.record.Sound ∧
        decode s.encode = .ok s ∧ s.encode.length ≤ bytes.length) ∧
    ∀ (bytes : Bytes) (f : FileStubs), FileStubs.decode bytes = .ok f →
      FileRecord.read bytes = some (f.record, []) ∧ (∀ s ∈ f.stubs, s.record.Sound) ∧
        FileStubs.decode f.encode = .ok f ∧ f.encode.length ≤ bytes.length :=
  ⟨fun _ _ h => shortest_stub h, fun _ _ h => shortest_fileStubs h⟩

/-- A result that is some value is that value. -/
theorem ok_of_toOption {ε α : Type} {x : Except ε α} {a : α} (h : x.toOption = some a) :
    x = .ok a := by
  cases x with
  | error e => cases h
  | ok b => exact congrArg _ (Option.some.inj h)

/-- A file with one stub, in headers and numbers of the widest forms and with binary texts, needs
less than half of the bytes. -/
theorem shortest_form_wide :
    let stub : Stub := ⟨.sub, "f", "main", ⟨false, false, false, false, true⟩⟩
    let wide : Bytes :=
      [0xdd, 0, 0, 0, 5, 0xcf, 0, 0, 0, 0, 0, 0, 0, 1, 0xd3, 0, 0, 0, 0, 0, 0, 0, 4,
       0xc6, 0, 0, 0, 1, 102, 0xdb, 0, 0, 0, 4, 109, 97, 105, 110, 0xcd, 0, 16]
    let bytes : Bytes :=
      [0xdc, 0, 3, 0xd1, 0, 1, 0xce, 0, 0, 0, 7, 0xdd, 0, 0, 0, 1] ++ wide
    decode wide = .ok stub ∧ FileStubs.decode bytes = .ok ⟨7, [stub]⟩ ∧
      decode stub.encode = .ok stub ∧ stub.encode.length = 11 ∧
      FileStubs.decode (FileStubs.encode ⟨7, [stub]⟩) = .ok ⟨7, [stub]⟩ ∧
      (FileStubs.encode ⟨7, [stub]⟩).length ≤ bytes.length := by
  intro stub wide bytes
  -- The wide forms decode, which is computed; that the written ones do follows.
  have single : decode wide = .ok stub := ok_of_toOption (by decide +kernel)
  have several : FileStubs.decode bytes = .ok ⟨7, [stub]⟩ := ok_of_toOption (by decide +kernel)
  have one := shortest_form.1 wide stub single
  have all := shortest_form.2 bytes _ several
  exact ⟨single, several, one.2.2.1, by decide +kernel, all.2.2⟩

end PerlOutline.Stub
