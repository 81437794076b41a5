import PerlOutline.Proofs.Accounting
import PerlOutline.Proofs.Placement

/-!
# Lines and columns are exact

A text is the bytes of its UTF-8 form. An offset is on the line that as many line ends come before,
and its column is its distance from the last of them. The line index finds both for every offset, on
a line end, behind one, at the end of the text and past it.

## Layers
- **Bytes**: a text as bytes, and which of them end a line.
- **Line starts**: those of a text are those of its bytes, and an offset splits them in two.
- **Halving** finds where they are split.
- **Positions** are exact, and later offsets have later positions.
- **Reports** of a text begin where they say.
-/

namespace PerlOutline.Source

/-! ## Bytes -/

/-- The bytes of a text in UTF-8. -/
def utf8 (text : List Char) : List UInt8 :=
  text.flatMap String.utf8EncodeChar

/-- The byte that ends a line. -/
def lineFeed : UInt8 := 10

theorem utf8_cons (c : Char) (cs : List Char) :
    utf8 (c :: cs) = String.utf8EncodeChar c ++ utf8 cs :=
  List.flatMap_cons

/-- A text is as long in bytes as its characters are wide. -/
theorem length_utf8 (text : List Char) : (utf8 text).length = byteWidth text := by
  induction text with
  | nil => rfl
  | cons c cs ih =>
    rw [utf8_cons, List.length_append, String.length_utf8EncodeChar, ih, byteWidth_cons]

/-- No byte of another character looks like a line end. -/
theorem lineFeed_notMem_utf8EncodeChar {c : Char} (other : c ≠ '\n') :
    lineFeed ∉ String.utf8EncodeChar c := by
  have value : c.val.toNat ≠ 10 := fun same =>
    other (Char.ext (UInt32.toNat_inj.mp same))
  have apart {n : Nat} (h : n % 256 ≠ 10) : lineFeed ≠ UInt8.ofNat n := by
    intro same
    have numbers := congrArg UInt8.toNat same
    rw [UInt8.toNat_ofNat'] at numbers
    exact h numbers.symm
  -- A character of one byte is told by its number; the bytes of wider ones are all above 127.
  simp only [String.utf8EncodeChar]
  split_ifs
  all_goals simp only [List.mem_cons, List.not_mem_nil, or_false, not_or]
  · exact apart (by omega)
  · exact ⟨apart (by omega), apart (by omega)⟩
  · exact ⟨apart (by omega), apart (by omega), apart (by omega)⟩
  · exact ⟨apart (by omega), apart (by omega), apart (by omega), apart (by omega)⟩

/-! ## Line starts -/

/-- The number of line ends before an offset. -/
def lineEndsBefore (bytes : List UInt8) (offset : Nat) : Nat :=
  (bytes.take offset).count lineFeed

/-- The offset just behind the last line end before an offset, or zero if there is none. -/
def lineStartBefore (bytes : List UInt8) : Nat → Nat
  | 0 => 0
  | offset + 1 =>
    if bytes[offset]? = some lineFeed then offset + 1 else lineStartBefore bytes offset

theorem lineStartBefore_le (bytes : List UInt8) (offset : Nat) :
    lineStartBefore bytes offset ≤ offset := by
  induction offset with
  | zero => exact Nat.le_refl 0
  | succ offset ih =>
    rw [lineStartBefore]
    split
    · exact Nat.le_refl _
    · exact Nat.le_succ_of_le ih

/-- Offsets just behind the line ends among bytes that begin at `base`. -/
def startsFrom (base : Nat) : List UInt8 → List Nat
  | [] => []
  | b :: bs =>
    if b = lineFeed then (base + 1) :: startsFrom (base + 1) bs else startsFrom (base + 1) bs

/-- The line starts of two pieces are those of each, counted on from the first. -/
theorem startsFrom_append (base : Nat) (as bs : List UInt8) :
    startsFrom base (as ++ bs) = startsFrom base as ++ startsFrom (base + as.length) bs := by
  induction as generalizing base with
  | nil => rfl
  | cons a as ih =>
    have total : base + (a :: as).length = base + 1 + as.length := by
      rw [List.length_cons]
      omega
    rw [List.cons_append, startsFrom, startsFrom, ih, total]
    split <;> rfl

/-- Bytes without a line end start no line. -/
theorem startsFrom_of_notMem {bs : List UInt8} (none : lineFeed ∉ bs) (base : Nat) :
    startsFrom base bs = [] := by
  induction bs generalizing base with
  | nil => rfl
  | cons b bs ih =>
    obtain ⟨here, later⟩ := not_or.mp (mt List.mem_cons.mpr none)
    rw [startsFrom, if_neg (Ne.symm here), ih later]

/-- The line starts of a text are those of its bytes. -/
theorem lineStartsFrom_eq (offset : Nat) (text : List Char) :
    LineIndex.lineStartsFrom offset text = startsFrom offset (utf8 text) := by
  induction text generalizing offset with
  | nil => rfl
  | cons c cs ih =>
    rw [LineIndex.lineStartsFrom, utf8_cons, startsFrom_append, String.length_utf8EncodeChar]
    -- A line end is one byte wide; the bytes of any other character start no line.
    by_cases ends : c = '\n'
    · subst ends
      simp only [if_true, ih]
      rfl
    · simp only [ends, if_false, ih, startsFrom_of_notMem (lineFeed_notMem_utf8EncodeChar ends),
        List.nil_append]

theorem length_startsFrom (base : Nat) (bs : List UInt8) :
    (startsFrom base bs).length = bs.count lineFeed := by
  induction bs generalizing base with
  | nil => rfl
  | cons b bs ih =>
    rw [startsFrom, List.count_cons]
    split <;> simp_all

/-- A line starts behind where the bytes begin, and not behind their end. -/
theorem bounds_startsFrom {base : Nat} {bs : List UInt8} {start : Nat}
    (member : start ∈ startsFrom base bs) : base < start ∧ start ≤ base + bs.length := by
  induction bs generalizing base with
  | nil => exact absurd member List.not_mem_nil
  | cons b bs ih =>
    -- What is known of the later bytes is counted from one byte further on.
    have later (h : start ∈ startsFrom (base + 1) bs) :
        base < start ∧ start ≤ base + (b :: bs).length := by
      have := ih h
      rw [List.length_cons]
      omega
    rw [startsFrom] at member
    split at member
    · rcases List.mem_cons.mp member with rfl | below
      · rw [List.length_cons]
        omega
      · exact later below
    · exact later member

/-- The last line start before an offset. -/
theorem getLastD_startsFrom_take {bytes : List UInt8} {offset : Nat}
    (within : offset ≤ bytes.length) :
    (startsFrom 0 (bytes.take offset)).getLastD 0 = lineStartBefore bytes offset := by
  induction offset with
  | zero => rfl
  | succ offset ih =>
    have here : bytes[offset]? = some bytes[offset] := List.getElem?_eq_getElem within
    have front : (bytes.take offset).length = offset := List.length_take_of_le (by omega)
    rw [List.take_add_one, here, Option.toList_some, startsFrom_append, front, Nat.zero_add,
      startsFrom, startsFrom, lineStartBefore, here]
    -- The byte in front of the offset ends a line, or the last line start is as before.
    by_cases ends : bytes[offset] = lineFeed
    · rw [if_pos ends, if_pos (congrArg some ends), List.getLastD_concat]
    · rw [if_neg ends, if_neg (fun same => ends (Option.some.inj same)), List.append_nil,
        ih (by omega)]

namespace LineIndex

/-! ## Halving -/

/-- Halving finds the index that splits those for which a test holds from the others. -/
theorem partitionPoint_eq {holds : Nat → Bool} {split low high : Nat} (above : low ≤ split)
    (below : split ≤ high) (h : ∀ i < high, holds i = true ↔ i < split) :
    partitionPoint holds low high = split := by
  -- The split stays between the two ends, which meet.
  fun_induction partitionPoint holds low high with
  | case1 low high gap middle passed ih =>
    -- The test holds at the middle, so the split is behind it.
    have := (h middle (by omega)).mp passed
    exact ih this below h
  | case2 low high gap middle failed ih =>
    -- The test fails at the middle, so the split is not behind it.
    have : ¬ middle < split := fun before => failed ((h middle (by omega)).mpr before)
    exact ih above (by omega) fun i hi => h i (by omega)
  | case3 low high closed => omega

/-- The line starts of a text are those up to an offset in it and those behind it. -/
theorem lineStarts_ofText {text : List Char} {offset : Nat} (within : offset ≤ (utf8 text).length) :
    (ofText text).lineStarts =
      ((0 :: startsFrom 0 ((utf8 text).take offset)) ++
        startsFrom offset ((utf8 text).drop offset)).toArray := by
  rw [ofText, lineStartsFrom_eq, List.cons_append]
  nth_rewrite 1 [← List.take_append_drop offset (utf8 text)]
  rw [startsFrom_append, Nat.zero_add, List.length_take_of_le within]

end LineIndex

/-! ## Positions -/

/-- Line and column of an offset, told from the bytes before it. -/
def positionIn (bytes : List UInt8) (offset : Nat) : LineCol :=
  ⟨lineEndsBefore bytes offset, offset - lineStartBefore bytes offset⟩

/-- The line index finds the position of every offset in its text, and that of the end for offsets
past it. -/
theorem LineIndex.lineCol_ofText (text : List Char) (offset : Nat) :
    (ofText text).lineCol offset = positionIn (utf8 text) (min offset (utf8 text).length) := by
  have width : (ofText text).width = (utf8 text).length := (length_utf8 text).symm
  have within : min offset (utf8 text).length ≤ (utf8 text).length := Nat.min_le_right ..
  rw [lineCol, width]
  generalize min offset (utf8 text).length = place at within
  rw [lineStarts_ofText within]
  set front := 0 :: startsFrom 0 ((utf8 text).take place) with hfront
  set back := startsFrom place ((utf8 text).drop place) with hback
  have count : front.length = lineEndsBefore (utf8 text) place + 1 := by
    rw [hfront, List.length_cons, length_startsFrom, lineEndsBefore]
  -- The lines that start up to the place are those in front, so halving counts them.
  have upTo : ∀ start ∈ front, start ≤ place := by
    refine List.forall_mem_cons.mpr ⟨Nat.zero_le _, fun start member => ?_⟩
    have := (bounds_startsFrom member).2
    rw [List.length_take_of_le within] at this
    omega
  have beyond : ∀ start ∈ back, place < start := fun start member => (bounds_startsFrom member).1
  have reached : ∀ i < (front ++ back).toArray.size,
      decide ((front ++ back).toArray.getD i 0 ≤ place) = true ↔ i < front.length := by
    intro i hi
    rw [List.size_toArray, List.length_append] at hi
    rw [decide_eq_true_iff, Array.getD_eq_getD_getElem?, List.getElem?_toArray]
    by_cases before : i < front.length
    · rw [List.getElem?_append_left before, List.getElem?_eq_getElem before, Option.getD_some]
      exact iff_of_true (upTo _ (List.getElem_mem _)) before
    · have behind : i - front.length < back.length := by omega
      rw [List.getElem?_append_right (Nat.le_of_not_lt before),
        List.getElem?_eq_getElem behind, Option.getD_some]
      exact iff_of_false (Nat.not_le_of_lt (beyond _ (List.getElem_mem _))) before
  -- The last of them is the start that the column is counted from.
  have last : (front ++ back).toArray.getD (lineEndsBefore (utf8 text) place) 0 =
      lineStartBefore (utf8 text) place := by
    rw [Array.getD_eq_getD_getElem?, List.getElem?_toArray, List.getElem?_append_left (by omega),
      ← Nat.add_sub_cancel (lineEndsBefore (utf8 text) place) 1, ← count,
      ← List.getLast?_eq_getElem?, ← List.getLastD_eq_getLast?, hfront, List.getLastD_cons,
      getLastD_startsFrom_take within]
  have size : front.length ≤ (front ++ back).toArray.size := by
    rw [List.size_toArray, List.length_append]
    omega
  simp only [partitionPoint_eq (Nat.zero_le _) size reached, count, Nat.add_sub_cancel, last,
    positionIn]

/-- The first character takes two bytes, and the second line is empty. -/
example : (LineIndex.ofText "é\n\nb".toList).lineCol 4 = ⟨2, 0⟩ := by
  rw [LineIndex.lineCol_ofText]
  decide

/-- The line of a position is one of the lines of the text. -/
theorem LineIndex.lineEndsBefore_lt_lineCount (text : List Char) (offset : Nat) :
    lineEndsBefore (utf8 text) offset < (ofText text).lineCount := by
  have fewer := (List.take_sublist offset (utf8 text)).count_le lineFeed
  rw [lineCount, ofText, List.size_toArray, List.length_cons, lineStartsFrom_eq, length_startsFrom,
    lineEndsBefore]
  omega

/-- One place comes before another, as people read: on an earlier line, or earlier on its line. -/
def LineCol.Before (a b : LineCol) : Prop :=
  a.line < b.line ∨ a.line = b.line ∧ a.col < b.col

namespace LineCol.Before

theorem trans {a b c : LineCol} (ab : a.Before b) (bc : b.Before c) : a.Before c := by
  unfold LineCol.Before at *
  omega

theorem ne {a b : LineCol} (h : a.Before b) : a ≠ b := by
  rintro rfl
  unfold LineCol.Before at h
  omega

end LineCol.Before

/-- The next offset is on the next line if a line end comes between, and else one column on. -/
theorem positionIn_succ {bytes : List UInt8} {offset : Nat} (within : offset < bytes.length) :
    positionIn bytes (offset + 1) =
      if bytes[offset] = lineFeed then ⟨(positionIn bytes offset).line + 1, 0⟩
      else ⟨(positionIn bytes offset).line, (positionIn bytes offset).col + 1⟩ := by
  have here : bytes[offset]? = some bytes[offset] := List.getElem?_eq_getElem within
  have before := lineStartBefore_le bytes offset
  simp only [positionIn, lineEndsBefore, List.take_add_one, lineStartBefore, here,
    Option.toList_some, List.count_append, List.count_singleton, beq_iff_eq, Option.some.injEq]
  split
  · rw [Nat.sub_self]
  · rw [Nat.add_zero, Nat.sub_add_comm before]

/-- Later offsets have later positions. -/
theorem positionIn_before {bytes : List UInt8} {a b : Nat} (earlier : a < b)
    (within : b ≤ bytes.length) : (positionIn bytes a).Before (positionIn bytes b) := by
  have step {offset : Nat} (inside : offset < bytes.length) :
      (positionIn bytes offset).Before (positionIn bytes (offset + 1)) := by
    rw [positionIn_succ inside]
    split
    · exact .inl (Nat.lt_succ_self _)
    · exact .inr ⟨rfl, Nat.lt_succ_self _⟩
  -- Induction on the distance: each offset has a later position than the one before it.
  induction earlier with
  | refl => exact step within
  | step _ ih => exact (ih (by omega)).trans (step within)

namespace LineIndex

variable {text : List Char}

theorem lineCol_of_le {offset : Nat} (within : offset ≤ (utf8 text).length) :
    (ofText text).lineCol offset = positionIn (utf8 text) offset := by
  rw [lineCol_ofText, Nat.min_eq_left within]

theorem lineCol_before {a b : Nat} (earlier : a < b) (within : b ≤ (utf8 text).length) :
    ((ofText text).lineCol a).Before ((ofText text).lineCol b) := by
  rw [lineCol_of_le (Nat.le_of_lt (Nat.lt_of_lt_of_le earlier within)), lineCol_of_le within]
  exact positionIn_before earlier within

/-- Two offsets in a text have different positions. -/
theorem eq_of_lineCol_eq {a b : Nat} (ha : a ≤ (utf8 text).length) (hb : b ≤ (utf8 text).length)
    (same : (ofText text).lineCol a = (ofText text).lineCol b) : a = b := by
  rcases Nat.lt_trichotomy a b with before | equal | behind
  · exact absurd same (lineCol_before before hb).ne
  · exact equal
  · exact absurd same.symm (lineCol_before behind ha).ne

end LineIndex

end PerlOutline.Source

/-! ## Reports -/

namespace PerlOutline.Index

open PerlOutline.Element (Node)
open PerlOutline.Source
open PerlOutline.Syntax (Parse SyntaxError Token tokenize spell_tokenize)

/-- A syntax error begins in the text. -/
theorem start_le_of_error {maxDepth : Nat} {text : List Char} {e : SyntaxError}
    (member : e ∈ (Parse.ofTextWithin maxDepth text).errors) :
    e.range.start ≤ byteWidth text := by
  have order := Grammar.finalState_inOrder maxDepth (tokenize text)
  have located := order.located e (List.mem_reverse.mp member)
  rw [spell_tokenize] at located
  -- An error is at a token of the text, or at its end.
  rcases located with ⟨p, hp, -, same⟩ | same
  · have inside := (Token.bounds_placed hp).2
    rw [spell_tokenize, Nat.zero_add] at inside
    rw [same]
    exact Nat.le_of_lt inside
  · rw [same]
    exact Nat.le_refl _

/-- A report about a text begins in the text, where it says. -/
theorem start_of_diagnostic {file : FileId} {text : List Char} {o : Outline}
    (outlined : Outline.ofText file text = .ok o) {d : Diagnostic} (member : d ∈ o.diagnostics) :
    d.range.start ≤ byteWidth text ∧
      d.start = (LineIndex.ofText text).lineCol d.range.start := by
  have each : ∀ n ∈ Node.allOf (Parse.ofText text).placed, Accounted n :=
    fun n listed => accounted_of_mem listed
  rw [Outline.ofText_eq, errors_summaries each] at outlined
  -- The outline is the one that was computed, so its reports are known.
  cases outlined
  -- A report is about a syntax error, or about a declaration that has no name.
  rcases List.mem_append.mp member with syntactic | structural
  · obtain ⟨e, reported, rfl⟩ := List.mem_map.mp syntactic
    exact ⟨start_le_of_error reported, rfl⟩
  · obtain ⟨n, nameless, rfl⟩ := List.mem_map.mp structural
    have inside := Node.within_text (List.mem_of_mem_filter nameless)
    exact ⟨Nat.le_trans inside.1 inside.2, rfl⟩

/-- Positions are exact. The line of an offset is the number of line ends before it and its column
is how far it is from the last of them, where an offset past the end stands for the end. The line is
one of the lines of the text, and neither number is more than the offset. Of two offsets in a text
the later one has the later position, so no two of them share one. Every report about a text begins
in it, at the position that it tells. -/
theorem positions_exact (file : FileId) (text : List Char) :
    let bytes := utf8 text
    let lines := LineIndex.ofText text
    bytes.length = byteWidth text ∧
    (∀ offset,
      let o := min offset bytes.length
      let position := lines.lineCol offset
      position = ⟨lineEndsBefore bytes o, o - lineStartBefore bytes o⟩ ∧
        position.line < lines.lineCount ∧ position.line ≤ o ∧ position.col ≤ o) ∧
    (∀ a b, a < b → b ≤ bytes.length → (lines.lineCol a).Before (lines.lineCol b)) ∧
    (∀ a b, a ≤ bytes.length → b ≤ bytes.length → lines.lineCol a = lines.lineCol b → a = b) ∧
    ∃ outline, Outline.ofText file text = .ok outline ∧
      ∀ d ∈ outline.diagnostics,
        d.range.start ≤ bytes.length ∧
          d.start = ⟨lineEndsBefore bytes d.range.start,
            d.range.start - lineStartBefore bytes d.range.start⟩ := by
  intro bytes lines
  have width : bytes.length = byteWidth text := length_utf8 text
  refine ⟨width, fun offset => ?_, fun a b => LineIndex.lineCol_before,
    fun a b ha hb => LineIndex.eq_of_lineCol_eq ha hb, ?_⟩
  · intro o position
    have found : position = positionIn bytes o := LineIndex.lineCol_ofText text offset
    refine ⟨found, ?_, ?_, ?_⟩
    · rw [found]
      exact LineIndex.lineEndsBefore_lt_lineCount text o
    · rw [found]
      exact Nat.le_trans List.count_le_length (List.length_take_le o bytes)
    · rw [found]
      exact Nat.sub_le ..
  · obtain ⟨outline, outlined⟩ := Outline.exists_ofText file text
    refine ⟨outline, outlined, fun d member => ?_⟩
    obtain ⟨within, start⟩ := start_of_diagnostic outlined member
    rw [← width] at within
    exact ⟨within, start.trans (LineIndex.lineCol_of_le within)⟩

end PerlOutline.Index
