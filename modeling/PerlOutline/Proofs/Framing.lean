import Mathlib.Algebra.Group.Nat.Defs
import PerlOutline.MessagePack.Reader

/-!
# Where a message ends

What was written is read back, and no byte after it is looked at. So bytes after a message are left
over, and a message that is cut short is not read at all.

## Layers
- **`Steady`**: readers that do not mind what follows.
- **`Takes`**: readers that take exactly some bytes.
- **Numbers** in the forms that are written.
- **Texts and arrays**.
-/

namespace PerlOutline.MessagePack

/-! ## Big-endian numbers -/

/-- The digit that weighs most is written first. -/
theorem bigEndian_succ (width n : Nat) :
    bigEndian (width + 1) n = UInt8.ofNat (n / 256 ^ width) :: bigEndian width n := rfl

/-- A number takes as many bytes as it is given. -/
@[simp] theorem length_bigEndian (width n : Nat) : (bigEndian width n).length = width := by
  induction width with
  | zero => rfl
  | succ width ih => rw [bigEndian_succ, List.length_cons, ih]

/-- Only as much of a number is written as there is room for. -/
theorem ofBigEndian_bigEndian (width n : Nat) :
    Reader.ofBigEndian (bigEndian width n) = n % 256 ^ width := by
  -- Reading goes on from what the bytes before have given.
  suffices onto : ∀ before, (bigEndian width n).foldl (fun n b => n * 256 + b.toNat) before =
      before * 256 ^ width + n % 256 ^ width by
    have whole := onto 0
    rwa [Nat.zero_mul, Nat.zero_add] at whole
  -- Induction on the width: the digit written first is read first and is then worth `256 ^ width`.
  induction width with
  | zero =>
    intro before
    rw [Nat.pow_zero, Nat.mul_one, Nat.mod_one]
    rfl
  | succ width ih =>
    intro before
    calc (bigEndian (width + 1) n).foldl (fun n b => n * 256 + b.toNat) before
        = (before * 256 + n / 256 ^ width % 256) * 256 ^ width + n % 256 ^ width := by
          rw [bigEndian_succ, List.foldl_cons, ih, UInt8.toNat_ofNat']
      _ = before * 256 ^ (width + 1) +
            (n % 256 ^ width + 256 ^ width * (n / 256 ^ width % 256)) := by
          rw [Nat.pow_succ', Nat.add_mul, Nat.mul_assoc, Nat.mul_comm (n / 256 ^ width % 256),
            Nat.add_assoc, Nat.add_comm (n % 256 ^ width)]
      _ = before * 256 ^ (width + 1) + n % 256 ^ (width + 1) := by rw [Nat.mod_pow_succ]

namespace Reader

variable {α β : Type} {reader : Reader α} {next : α → Reader β}

/-! ## Steady readers -/

/-- A reader that succeeds does so whatever follows, and leaves what follows. -/
def Steady (reader : Reader α) : Prop :=
  ∀ (bytes : Bytes) (a : α) (rest : Bytes), reader bytes = some (a, rest) →
    ∀ more, reader (bytes ++ more) = some (a, rest ++ more)

/-- A sequence of readers reads what the first reads and then what the second reads of the rest. -/
theorem bind_eq_some {bytes : Bytes} {b : β} {rest : Bytes} :
    (reader >>= next) bytes = some (b, rest) ↔
      ∃ a left, reader bytes = some (a, left) ∧ next a left = some (b, rest) := by
  simp [StateT.bind, bind, Option.bind_eq_some_iff]

/-- A reader that reads no byte. -/
theorem steady_pure (a : α) : Steady (pure a : Reader α) := by
  intro bytes a' rest h more
  obtain ⟨rfl, rfl⟩ := Prod.mk.inj (Option.some.inj h)
  rfl

theorem steady_failure : Steady (failure : Reader α) := by
  intro bytes a rest h
  exact absurd h (by rintro ⟨⟩)

/-- A value that was found before anything is read, or not. -/
theorem steady_lift (found : Option α) : Steady (liftM found : Reader α) := by
  cases found with
  | none => exact steady_failure
  | some a => exact steady_pure a

/-- Readers in sequence, whatever the first one gives to the second. -/
theorem Steady.bind (h : Steady reader) (hnext : ∀ a, Steady (next a)) :
    Steady (reader >>= next) := by
  intro bytes b rest both more
  obtain ⟨a, left, first, second⟩ := bind_eq_some.mp both
  exact bind_eq_some.mpr ⟨a, left ++ more, h _ _ _ first more, hnext a _ _ _ second more⟩

/-- A choice between readers. -/
theorem Steady.ite {p : Prop} [Decidable p] {other : Reader α} (h : Steady reader)
    (hother : Steady other) : Steady (if p then reader else other) := by
  split
  · exact h
  · exact hother

theorem steady_take (n : Nat) : Steady (take n) := by
  intro bytes taken rest h more
  simp only [take] at h
  split at h
  · next enough =>
    obtain ⟨rfl, rfl⟩ := Prod.mk.inj (Option.some.inj h)
    -- There were enough bytes before, so none of those that follow is taken.
    have fits : n ≤ bytes.length := by
      rw [List.length_take] at enough
      omega
    simp only [take, List.take_append_of_le_length fits, List.drop_append_of_le_length fits,
      if_pos enough]
  · contradiction

/-- A number without a sign. -/
theorem steady_unsigned (width : Nat) : Steady (unsigned width) :=
  (steady_take width).bind fun _ => steady_pure _

/-- A number with a sign, which is refused where it is negative. -/
theorem steady_signed (width : Nat) : Steady (signed width) :=
  (steady_take width).bind fun _ => .ite steady_failure (steady_pure _)

/-- The byte that says what follows. -/
theorem steady_marker : Steady marker :=
  steady_unsigned 1

/-- A number behind its marker, in any of the forms a number can have. -/
theorem steady_naturalAfter (marker : Nat) : Steady (naturalAfter marker) :=
  .ite (steady_pure _) <|
  .ite (steady_unsigned 1) <| .ite (steady_unsigned 2) <|
  .ite (steady_unsigned 4) <| .ite (steady_unsigned 8) <|
  .ite (steady_signed 1) <| .ite (steady_signed 2) <|
  .ite (steady_signed 4) <| .ite (steady_signed 8) steady_failure

/-- The length of a text behind its marker. -/
theorem steady_textLengthAfter (marker : Nat) : Steady (textLengthAfter marker) :=
  .ite (steady_pure _) <|
  .ite (steady_unsigned 1) <| .ite (steady_unsigned 2) <| .ite (steady_unsigned 4) steady_failure

/-- The size of an array behind its marker. -/
theorem steady_arraySizeAfter (marker : Nat) : Steady (arraySizeAfter marker) :=
  .ite (steady_pure _) <| .ite (steady_unsigned 2) <| .ite (steady_unsigned 4) steady_failure

/-- A number below a bound. -/
theorem steady_natural (bound : Nat) : Steady (natural bound) :=
  steady_marker.bind fun m => (steady_naturalAfter m).bind fun _ =>
    .ite (steady_pure _) steady_failure

/-- A text with its header. Bytes that are no text fail without a look at what follows. -/
theorem steady_text : Steady text :=
  steady_marker.bind fun m => (steady_textLengthAfter m).bind fun length =>
    (steady_take length).bind fun _ => steady_lift _

/-- The header of an array. -/
theorem steady_arraySize : Steady arraySize :=
  steady_marker.bind steady_arraySizeAfter

/-- The header of an array of a given size. -/
theorem steady_arrayOf (n : Nat) : Steady (arrayOf n) :=
  steady_arraySize.bind fun _ => .ite (steady_pure _) steady_failure

/-- The same reader several times. -/
theorem Steady.times (h : Steady reader) (n : Nat) : Steady (times reader n) := by
  induction n with
  | zero => exact steady_pure []
  | succ n ih => exact h.bind fun _ => ih.bind fun _ => steady_pure _

/-- An array with its elements. -/
theorem Steady.arrayWith (h : Steady reader) : Steady (arrayWith reader) :=
  steady_arraySize.bind h.times

/-! ## What a reader takes -/

/-- The reader takes exactly `bytes`, whatever follows, and gives `a`. -/
def Takes (reader : Reader α) (bytes : Bytes) (a : α) : Prop :=
  ∀ rest, reader (bytes ++ rest) = some (a, rest)

variable {bytes more : Bytes} {a : α} {b : β}

/-- A value that costs no byte. -/
theorem takes_pure (a : α) : Takes (pure a : Reader α) [] a :=
  fun _ => rfl

/-- What two readers take stands side by side. -/
theorem Takes.bind (h : Takes reader bytes a) (hnext : Takes (next a) more b) :
    Takes (reader >>= next) (bytes ++ more) b := by
  intro rest
  rw [List.append_assoc]
  exact bind_eq_some.mpr ⟨a, more ++ rest, h _, hnext rest⟩

/-- What comes last takes nothing. -/
theorem Takes.finish (h : Takes reader bytes a) (hnext : Takes (next a) [] b) :
    Takes (reader >>= next) bytes b := by
  have both := h.bind hnext
  rwa [List.append_nil] at both

/-- A message that is cut short is not read. -/
theorem Takes.none_of_isPrefix (h : Takes reader bytes a) (steady : Steady reader)
    (cut : more <+: bytes) (short : more ≠ bytes) : reader more = none := by
  obtain ⟨missing, rfl⟩ := cut
  cases found : reader more with
  | none => rfl
  | some result =>
    -- If it were read, so would be the whole, with what was cut off left over.
    obtain ⟨a', rest⟩ := result
    have whole := steady _ _ _ found missing
    have all := h []
    rw [List.append_nil, whole] at all
    have left : rest ++ missing = [] := (Prod.mk.inj (Option.some.inj all)).2
    rw [(List.append_eq_nil_iff.mp left).2, List.append_nil] at short
    exact absurd rfl short

/-- As many bytes as there are. -/
theorem takes_take (bytes : Bytes) : Takes (take bytes.length) bytes bytes := by
  intro rest
  simp [take]

/-! ## Numbers -/

/-- A number is read back as far as there was room for it. -/
theorem takes_unsigned_mod (width n : Nat) :
    Takes (unsigned width) (bigEndian width n) (n % 256 ^ width) := by
  have taken := takes_take (bigEndian width n)
  rw [length_bigEndian] at taken
  refine taken.finish ?_
  rw [ofBigEndian_bigEndian]
  exact takes_pure _

/-- A number that fits into its bytes is read back. -/
theorem takes_unsigned {width n : Nat} (fits : n < 256 ^ width) :
    Takes (unsigned width) (bigEndian width n) n := by
  have taken := takes_unsigned_mod width n
  rwa [Nat.mod_eq_of_lt fits] at taken

/-- What follows a marker byte. -/
theorem takes_marked (m : UInt8) {after : Nat → Reader β} (h : Takes (after m.toNat) bytes b) :
    Takes (marker >>= after) (m :: bytes) b := by
  have marked : Takes marker [m] m.toNat := by
    refine (takes_take [m]).finish ?_
    rw [ofBigEndian, List.foldl_cons, List.foldl_nil, Nat.zero_mul, Nat.zero_add]
    exact takes_pure _
  exact marked.bind h

/-- A number is read back where its bound allows it. -/
theorem takes_natural {bound n : Nat} (fits : n < bound) (small : n < 18446744073709551616) :
    Takes (natural bound) (writeNatural n) n := by
  have checked : Takes (if n < bound then pure n else failure : Reader Nat) [] n := by
    rw [if_pos fits]
    exact takes_pure n
  -- One case for each width.
  unfold writeNatural
  split
  · next tiny =>
    refine takes_marked _ ?_
    -- A tiny number is its own marker.
    rw [UInt8.toNat_ofNat_of_lt' (show _ < 256 by omega), naturalAfter, if_pos tiny]
    exact (takes_pure n).bind checked
  split
  · next short => exact takes_marked 0xcc ((takes_unsigned short).finish checked)
  split
  · next short => exact takes_marked 0xcd ((takes_unsigned short).finish checked)
  split
  · next short => exact takes_marked 0xce ((takes_unsigned short).finish checked)
  · exact takes_marked 0xcf ((takes_unsigned small).finish checked)

/-! ## Texts and arrays -/

/-- The bytes of a text are the text again. -/
theorem ofTextBytes?_textBytes (s : String) : ofTextBytes? (textBytes s) = some s := by
  have same : (⟨(textBytes s).toArray⟩ : ByteArray) = s.toByteArray := by
    rw [textBytes, Array.toArray_toList]
  rw [ofTextBytes?, same, String.fromUTF8?, dif_pos s.isValidUTF8]
  rfl

/-- A text is read back if its header has room for its length. -/
theorem takes_text {s : String} (fits : (textBytes s).length < 4294967296) :
    Takes text (writeText s) s := by
  -- Whatever the header is, the bytes behind it are those of the text.
  have body : Takes (take (textBytes s).length >>= fun taken => liftM (ofTextBytes? taken))
      (textBytes s) s := by
    refine (takes_take (textBytes s)).finish ?_
    rw [ofTextBytes?_textBytes]
    exact takes_pure s
  unfold writeText writeTextHeader
  split
  · next tiny =>
    -- The length of a tiny text is part of its marker.
    refine takes_marked _ ?_
    rw [UInt8.toNat_ofNat_of_lt' (show _ < 256 by omega), textLengthAfter, if_pos (by omega),
      Nat.add_sub_cancel_left]
    exact (takes_pure _).bind body
  split
  · next short => exact takes_marked 0xd9 ((takes_unsigned short).bind body)
  split
  · next short => exact takes_marked 0xda ((takes_unsigned short).bind body)
  · exact takes_marked 0xdb ((takes_unsigned fits).bind body)

/-- The header of an array tells its size as far as it has room for it. -/
theorem takes_arraySize (n : Nat) :
    Takes arraySize (writeArrayHeader n) (n % 4294967296) := by
  unfold writeArrayHeader
  split
  · next tiny =>
    -- So is the size of a tiny array.
    refine takes_marked _ ?_
    rw [UInt8.toNat_ofNat_of_lt' (show _ < 256 by omega), arraySizeAfter, if_pos (by omega),
      Nat.add_sub_cancel_left, Nat.mod_eq_of_lt (by omega)]
    exact takes_pure n
  split
  · next short =>
    rw [Nat.mod_eq_of_lt (by omega)]
    exact takes_marked 0xdc (takes_unsigned short)
  · -- This header is the last resort, whether or not the size fits into its four bytes.
    exact takes_marked 0xdd (takes_unsigned_mod 4 n)

/-- The array of the size that was written is the one that is read. -/
theorem takes_arrayOf {n : Nat} (fits : n < 4294967296) :
    Takes (arrayOf n) (writeArrayHeader n) () := by
  refine (takes_arraySize n).finish ?_
  rw [Nat.mod_eq_of_lt fits, if_pos rfl]
  exact takes_pure ()

/-- Values that are read back one by one are read back in a row. -/
theorem takes_times {write : α → Bytes} {items : List α}
    (each : ∀ item ∈ items, Takes reader (write item) item) :
    Takes (times reader items.length) (items.map write).flatten items := by
  induction items with
  | nil => exact takes_pure []
  | cons item items ih =>
    have first := each item (List.mem_cons_self ..)
    have others := ih fun i hi => each i (List.mem_cons_of_mem _ hi)
    exact first.bind (others.finish (takes_pure _))

end Reader

end PerlOutline.MessagePack
