import PerlOutline.Grammar.State
import PerlOutline.Proofs.Spacing

/-!
# Texts with a newline between them

No reading of a token looks past a newline unless the token goes past it, and only blanks, quoted
text and sections do. So where the tokens of a text and a newline end with blanks, the tokens of the
text stay the same whatever follows on the next line, and those of what follows are the same as in a
text of their own, but for the blanks between.

## Layers
- **`Seam`**: what may follow after the part of a text that is looked at.
- **Parts of lexemes** that end before a newline.
- **`Settled`**: readings that do not look past a newline, one lemma for each.
- **Tokens** of two texts with a newline between them.
-/

namespace PerlOutline.Syntax

open PerlOutline.Grammar.State (significant)

/-! ## Seams -/

/-- A text ends, or its line does. -/
inductive Seam : List Char → Prop where
  | text : Seam []
  | line (more : List Char) : Seam ('\n' :: more)

namespace Lexeme

variable {cs rest : List Char}

/-- A test of the first character that a newline fails sees nothing behind the seam. -/
theorem any_head?_seam (seam : Seam rest) (p : Char → Bool) (stops : p '\n' = false) :
    (cs ++ rest).head?.any p = cs.head?.any p := by
  cases cs with
  | cons c cs => rfl
  | nil => cases seam <;> simp [stops]

/-- A first character that is no newline stands before the seam. -/
theorem head?_seam (seam : Seam rest) {c : Char} (other : c ≠ '\n') :
    (cs ++ rest).head? = some c ↔ cs.head? = some c := by
  cases cs with
  | cons d cs => rfl
  | nil => cases seam <;> simp [other.symm]

/-! ## Parts of lexemes -/

/-- A run ends with its text at the latest. -/
theorem run_le (p : Char → Bool) (cs : List Char) : run p cs ≤ cs.length :=
  (List.takeWhile_sublist p).length_le

/-- A run that a newline ends does not depend on what follows. -/
theorem run_seam (seam : Seam rest) (p : Char → Bool) (stops : p '\n' = false) :
    run p (cs ++ rest) = run p cs := by
  rw [run, run, List.takeWhile_append]
  split
  -- The run passes all of `cs`, and the seam ends it.
  · next all => cases seam <;> simp [stops, all]
  · rfl

/-- Neither does any other run that ends before the newline. -/
theorem run_seam_of_le (seam : Seam rest) {p : Char → Bool}
    (inside : run p (cs ++ ['\n']) ≤ cs.length) : run p (cs ++ rest) = run p (cs ++ ['\n']) := by
  simp only [run, List.takeWhile_append] at inside ⊢
  split
  · next all =>
    rw [if_pos all, List.length_append] at inside
    -- It passes all of `cs` and still ends there, so the newline does not pass.
    have stops : p '\n' = false := by
      refine Bool.eq_false_iff.mpr fun passes => ?_
      rw [List.takeWhile_cons_of_pos passes, List.length_cons] at inside
      omega
    cases seam <;> simp [stops]
  · rfl

/-- A run that goes past newlines ends before one only where something else ends it. -/
theorem run_lt_of_le {p : Char → Bool} (passes : p '\n' = true)
    (inside : run p (cs ++ ['\n']) ≤ cs.length) : run p (cs ++ ['\n']) < cs.length := by
  have shorter := run_le p cs
  simp only [run, List.takeWhile_append] at inside shorter ⊢
  split at inside
  · rw [List.length_append, List.takeWhile_cons_of_pos passes, List.length_cons] at inside
    omega
  · next part =>
    rw [if_neg part]
    omega

/-- What is left after a part that ends before the newline. -/
theorem drop_seam {n : Nat} (inside : n ≤ cs.length) (rest : List Char) :
    (cs ++ rest).drop n = cs.drop n ++ rest :=
  List.drop_append_of_le_length inside

/-- A word without newlines is there before the seam, or it is not there. -/
theorem isPrefixOf_seam (seam : Seam rest) (cs : List Char) {p : List Char} (oneLine : '\n' ∉ p) :
    p.isPrefixOf (cs ++ rest) = p.isPrefixOf cs := by
  induction cs generalizing p with
  | nil =>
    cases p with
    | nil => simp
    | cons d ds =>
      have other : d ≠ '\n' := fun same => oneLine (same ▸ List.mem_cons_self ..)
      cases seam <;> simp [List.isPrefixOf, other]
  | cons c cs ih =>
    cases p with
    | nil => rfl
    | cons d ds =>
      have := ih (p := ds) fun member => oneLine (List.mem_cons_of_mem _ member)
      simp [List.isPrefixOf, this]

/-- A name does not go on behind a newline. -/
theorem nameTail_seam (seam : Seam rest) (cs : List Char) :
    nameTail (cs ++ rest) = nameTail cs := by
  -- Induction as names go on: by a character, or by two colons and the start of a segment.
  induction cs using nameTail.induct with
  | case1 =>
    cases seam with
    | text => rfl
    | line more =>
      rw [List.nil_append, nameTail.eq_def]
      simp [isNameChar, isNameStart, nameTail]
  | case2 c cs inside ih =>
    rw [List.cons_append, nameTail.eq_def, nameTail.eq_def (c :: cs)]
    simp only [inside, if_true, ih]
  | case3 d e es next outside ih =>
    simp only [List.cons_append, nameTail, outside, next, if_true, if_false, Bool.false_eq_true, ih]
  | case4 d e es other outside =>
    simp only [List.cons_append, nameTail, outside, other, if_true, if_false, Bool.false_eq_true]
  | case5 cs short outside =>
    cases seam with
    | text => simp
    | line more =>
      -- A newline is neither a colon nor the start of a segment.
      rcases cs with _ | ⟨d, _ | ⟨e, es⟩⟩
      · cases more <;> simp [nameTail, outside, isNameStart]
      · cases more <;> simp [nameTail, outside, isNameStart]
      · exact (short d e es rfl).elim
  | case6 c cs outside other =>
    rw [List.cons_append, nameTail.eq_def, nameTail.eq_def (c :: cs)]
    simp only [outside, other, if_false, Bool.false_eq_true]

/-- So it is of one length, whatever follows. -/
theorem nameLength_seam (seam : Seam rest) : nameLength (cs ++ rest) = nameLength cs := by
  cases cs with
  | cons c cs => simp only [List.cons_append, nameLength, nameTail_seam seam]
  | nil => cases seam <;> simp [nameLength, isNameStart]

/-- A name is inside of its text. -/
theorem nameTail_le (cs : List Char) : nameTail cs ≤ cs.length := by
  induction cs using nameTail.induct with
  | case1 => exact Nat.le_refl 0
  | case2 c cs inside ih =>
    rw [nameTail.eq_def]
    simpa only [inside, if_true, List.length_cons, Nat.add_le_add_iff_right] using ih
  | case3 d e es next outside ih =>
    simpa only [nameTail, outside, next, if_true, if_false, Bool.false_eq_true, List.length_cons,
      Nat.add_le_add_iff_right] using ih
  | case4 d e es other outside => simp [nameTail, outside, Bool.eq_false_iff.mpr other]
  | case5 cs short outside =>
    rw [nameTail.eq_def]
    simp [outside]
  | case6 c cs outside other =>
    rw [nameTail.eq_def]
    simp [outside, other]

/-- A fraction does not go on behind a newline. -/
theorem fraction_seam (seam : Seam rest) : fraction (cs ++ rest) = fraction cs := by
  match cs with
  | point :: d :: ds =>
    simp only [List.cons_append, fraction, run_seam seam isGroupedDigit (by decide)]
  -- Nothing is left before the seam for a digit to stand behind the point.
  | [] | [point] =>
    cases seam with
    | text => simp
    | line more => cases more <;> simp [fraction]

/-- Nor is a newline a sign. -/
theorem sign_seam (seam : Seam rest) : sign (cs ++ rest) = sign cs := by
  rw [sign, sign, any_head?_seam seam _ (by decide)]

/-- A sign is one character at most. -/
theorem sign_le (cs : List Char) : sign cs ≤ cs.length := by
  cases cs with
  | nil => exact Nat.le_refl 0
  | cons c cs =>
    unfold sign
    split <;> simp

/-- An exponent does not go on behind a newline. -/
theorem exponent_seam (seam : Seam rest) : exponent (cs ++ rest) = exponent cs := by
  cases cs with
  | nil => cases seam <;> simp [exponent]
  | cons c cs =>
    simp only [List.cons_append, exponent, sign_seam seam, drop_seam (sign_le cs)]
    rw [run_seam seam _ (by decide)]

/-- A fraction is inside of its text. -/
theorem fraction_le (cs : List Char) : fraction cs ≤ cs.length := by
  unfold fraction
  split
  · next point d ds =>
    have := run_le isGroupedDigit ds
    split <;> simp only [List.length_cons] <;> omega
  · exact Nat.zero_le _

/-- The three parts of a decimal number follow each other, and none sees the newline. -/
theorem decimalTail_seam (seam : Seam rest) : decimalTail (cs ++ rest) = decimalTail cs := by
  have whole := run_le isGroupedDigit cs
  have fractional := fraction_le (cs.drop (run isGroupedDigit cs))
  rw [List.length_drop] at fractional
  simp only [decimalTail]
  rw [run_seam seam _ (by decide), drop_seam whole, fraction_seam seam, drop_seam (by omega),
    exponent_seam seam]

/-- Neither do hexadecimal digits. -/
theorem hexTail_seam (seam : Seam rest) (c : Char) : hexTail c (cs ++ rest) = hexTail c cs := by
  cases cs with
  | nil => cases seam <;> simp [hexTail]
  | cons mark cs =>
    simp only [List.cons_append, hexTail]
    rw [run_seam seam _ (by decide)]

/-! ## Readings -/

section Unaffected

variable (seam : Seam rest) (c : Char)
include seam

/-- A comment ends before the newline. -/
theorem comment?_seam : comment? c (cs ++ rest) = comment? c cs := by
  rw [comment?, comment?, run_seam seam _ (by decide)]

/-- A word ends before it, and the colon after a label stands before it. -/
theorem word?_seam : word? c (cs ++ rest) = word? c cs := by
  have inside := nameTail_le cs
  have colon : (cs.drop (nameTail cs) ++ rest).head? = some ':' ↔
      (cs.drop (nameTail cs)).head? = some ':' := head?_seam seam (by decide)
  simp only [word?, nameTail_seam seam, drop_seam inside, colon,
    List.take_append_of_le_length inside]

/-- So does a number. -/
theorem number?_seam : number? c (cs ++ rest) = number? c cs := by
  rw [number?, number?, decimalTail_seam seam, hexTail_seam seam]

/-- So does the name of a scalar, whether a word, a digit or a brace comes after the sigil. -/
theorem scalar?_seam : scalar? (cs ++ rest) = scalar? cs := by
  cases cs with
  | nil => cases seam <;> simp [scalar?, isNameStart]
  | cons c cs =>
    simp only [List.cons_append, scalar?, nameTail_seam seam,
      run_seam seam Char.isDigit (by decide), run_seam seam isNameChar (by decide),
      any_head?_seam seam isNameStart (by decide)]
    cases cs with
    | nil => cases seam <;> simp
    | cons d ds =>
      simp only [List.cons_append, List.head?_cons, List.tail_cons,
        any_head?_seam seam isNameStart (by decide), run_seam seam isNameChar (by decide)]
      rfl

/-- So do other variables. -/
theorem sigiled?_seam : sigiled? c (cs ++ rest) = sigiled? c cs := by
  rw [sigiled?, sigiled?, scalar?_seam seam, nameLength_seam seam]

/-- No punctuation of the table has a newline in it. -/
theorem punctuation?_seam : punctuation? c (cs ++ rest) = punctuation? c cs := by
  have oneLine : ∀ e ∈ punctuationTable, '\n' ∉ e.1 := by decide
  have same : punctuationTable.find? (·.1.isPrefixOf (c :: cs ++ rest)) =
      punctuationTable.find? (·.1.isPrefixOf (c :: cs)) :=
    List.find?_congr fun e member => isPrefixOf_seam seam (c :: cs) (oneLine e member)
  rw [punctuation?, punctuation?, ← same, List.cons_append]

end Unaffected

/-- A reading does not look past a newline where its token ends before it. -/
def Settled (read : List Char → Option Lexeme) : Prop :=
  ∀ cs rest, Seam rest → (∀ l, read (cs ++ ['\n']) = some l → l.more ≤ cs.length) →
    read (cs ++ rest) = read (cs ++ ['\n'])

/-- A reading that does not depend on the seam at all is settled. -/
theorem Settled.of_seam {read : List Char → Option Lexeme}
    (same : ∀ {cs rest}, Seam rest → read (cs ++ rest) = read cs) : Settled read :=
  fun _ _ seam _ => (same seam).trans (same (.line [])).symm

/-- Two settled readings, the second where the first one fails, are settled. -/
theorem Settled.orElse {f g : List Char → Option Lexeme} (hf : Settled f) (hg : Settled g) :
    Settled fun cs => f cs <|> g cs := by
  intro cs rest seam inside
  have first : f (cs ++ rest) = f (cs ++ ['\n']) :=
    hf cs rest seam fun l found => inside l (by simp [found])
  cases found : f (cs ++ ['\n']) with
  | some l => simp [first, found]
  | none =>
    -- Only where the first reading fails does the second one count.
    have second : g (cs ++ rest) = g (cs ++ ['\n']) :=
      hg cs rest seam fun l found' => inside l (by simp [found, found'])
    simp [first, found, second]

/-- A line that ends before the newline of the seam has an end of its own. -/
theorem lineLength_seam (seam : Seam rest) (inside : lineLength (cs ++ ['\n']) ≤ cs.length) :
    lineLength (cs ++ rest) = lineLength (cs ++ ['\n']) := by
  have body {rest : List Char} (seam : Seam rest) :
      run (· ≠ '\n') (cs ++ rest) = run (· ≠ '\n') cs := run_seam seam _ (by decide)
  have shorter := run_le (· ≠ '\n') cs
  simp only [lineLength, body seam, body (.line []), List.length_append] at inside ⊢
  have here : run (· ≠ '\n') cs < cs.length + ['\n'].length := by
    rw [List.length_singleton]
    omega
  rw [if_pos here] at inside ⊢
  rw [if_pos (by omega)]

/-- Documentation that is closed before the seam is closed by a line of its own. -/
theorem documentationTail_seam (seam : Seam rest) (b : Bool) (count : Nat)
    (inside : documentationTail b count (cs ++ ['\n']) ≤ count + cs.length) :
    documentationTail b count (cs ++ rest) = documentationTail b count (cs ++ ['\n']) := by
  induction cs generalizing b count with
  | nil =>
    have open' : closingCommand.isPrefixOf ['\n'] = false := by decide
    exact absurd inside (by simp [documentationTail, open'])
  | cons c cs ih =>
    have closes {rest : List Char} (seam : Seam rest) :
        closingCommand.isPrefixOf (c :: (cs ++ rest)) = closingCommand.isPrefixOf (c :: cs) :=
      isPrefixOf_seam seam (c :: cs) (by decide)
    simp only [List.cons_append, documentationTail, closes seam, closes (.line [])] at inside ⊢
    split at inside
    · next closed =>
      rw [if_pos closed, if_pos closed]
      have short : lineLength (c :: cs ++ ['\n']) ≤ (c :: cs).length :=
        Nat.le_of_add_le_add_left inside
      exact congrArg _ (lineLength_seam seam short)
    · next goesOn =>
      rw [if_neg goesOn, if_neg goesOn]
      exact ih _ _ (by rw [List.length_cons] at inside; omega)

/-- Documentation is settled. Data are not closed by anything, so they go past the newline. -/
theorem settled_section (c : Char) : Settled (section? c) := by
  intro cs rest seam inside
  have markers {rest : List Char} (seam : Seam rest) :
      endMarkers.any (·.isPrefixOf (c :: (cs ++ rest))) =
        endMarkers.any (·.isPrefixOf (c :: cs)) := by
    have oneLine : ∀ m ∈ endMarkers, '\n' ∉ m := by decide
    have same (m : List Char) (member : m ∈ endMarkers) :
        m.isPrefixOf (c :: (cs ++ rest)) = m.isPrefixOf (c :: cs) :=
      isPrefixOf_seam seam (c :: cs) (oneLine m member)
    rw [Bool.eq_iff_iff, List.any_eq_true, List.any_eq_true]
    exact exists_congr fun m => and_congr_right fun member => by rw [same m member]
  simp only [section?, markers seam, markers (.line []),
    any_head?_seam seam Char.isAlpha (by decide),
    any_head?_seam (.line []) Char.isAlpha (by decide)] at inside ⊢
  split
  · next marked =>
    -- All the rest of the text would be data, and the newline too.
    have past : (cs ++ ['\n']).length ≤ cs.length := inside _ (if_pos marked)
    rw [List.length_append, List.length_singleton] at past
    omega
  · next unmarked =>
    split
    · next opens =>
      have short := inside _ ((if_neg unmarked).trans (if_pos opens))
      rw [documentationTail_seam seam false 0 (by simpa using short)]
    · rfl

/-- A string that is closed before the newline is the same whatever follows. -/
theorem stringTail_append {quote : Char} (other : quote ≠ '\n') (count : Nat)
    (inside : (stringTail quote count (cs ++ ['\n'])).more ≤ count + cs.length) :
    stringTail quote count (cs ++ rest) = stringTail quote count (cs ++ ['\n']) := by
  -- Induction as strings go on. One that is open at the newline goes past it.
  induction count, cs using stringTail.induct quote with
  | case1 count =>
    exact absurd inside (by simp [stringTail, other.symm])
  | case2 count ds =>
    rw [List.cons_append, List.cons_append, stringTail.eq_def,
      stringTail.eq_def quote count (quote :: (ds ++ ['\n']))]
    simp
  | case3 count escaped =>
    simp [stringTail, escaped] at inside
  | case4 count d ds escaped ih =>
    simp only [List.cons_append, stringTail, escaped, if_true, if_false, List.length_cons]
      at inside ⊢
    exact ih (by omega)
  | case5 count d ds open' plain ih =>
    rw [List.cons_append, stringTail.eq_def] at inside ⊢
    rw [List.cons_append, stringTail.eq_def quote count (d :: (ds ++ ['\n']))]
    simp only [open', plain, if_false, List.length_cons] at inside ⊢
    exact ih (by omega)

/-- A string either is closed or goes past the newline. -/
theorem settled_string (c : Char) : Settled (string? c) := by
  intro cs rest seam inside
  simp only [string?] at inside ⊢
  split
  · next quote =>
    -- No quote is a newline.
    have other : c ≠ '\n' := by rintro rfl; exact absurd quote (by decide)
    have short := inside _ (if_pos quote)
    rw [stringTail_append other 0 (by simpa using short)]
  · rfl

/-- A word list either is closed or goes past the newline; without delimiters it is a word. -/
theorem wordListTail?_seam (seam : Seam rest) {opened : Nat}
    (inside : ∀ l, wordListTail? opened (cs ++ ['\n']) = some l → l.more ≤ opened + cs.length) :
    wordListTail? opened (cs ++ rest) = wordListTail? opened (cs ++ ['\n']) := by
  have bare {rest : List Char} (seam : Seam rest) (cs : List Char)
      (none : (cs ++ rest).head?.bind closingDelimiter? = Option.none) :
      wordListTail? opened (cs ++ rest) =
        if opened = 1 then Option.none else some ⟨.ident, opened + nameTail cs⟩ := by
    simp only [wordListTail?, none, nameTail_seam seam]
  cases cs with
  | nil =>
    have none {rest : List Char} (seam : Seam rest) :
        ([] ++ rest).head?.bind closingDelimiter? = Option.none := by
      cases seam <;> simp [closingDelimiter?]
    rw [bare seam [] (none seam), bare (.line []) [] (none (.line []))]
  | cons d ds =>
    cases delimiter : closingDelimiter? d with
    | none =>
      rw [bare seam (d :: ds) delimiter, bare (.line []) (d :: ds) delimiter]
    | some close =>
      have other : close ≠ '\n' := by
        grind [closingDelimiter?]
      have delimited (rest : List Char) : wordListTail? opened (d :: ds ++ rest) =
          if run (· ≠ close) (ds ++ rest) < (ds ++ rest).length then
            some ⟨.qwList, opened + run (· ≠ close) (ds ++ rest) + 2⟩
          else some ⟨.error, opened + (d :: ds ++ rest).length⟩ := by
        simp [wordListTail?, delimiter]
      -- A list in delimiters goes to the next closing one, or to the end of the text.
      rw [delimited] at inside
      rw [delimited, delimited]
      by_cases short : run (· ≠ close) (ds ++ ['\n']) ≤ ds.length
      · have closed : run (· ≠ close) (ds ++ ['\n']) < ds.length :=
          run_lt_of_le (by simpa using other.symm) short
        rw [run_seam_of_le seam short, if_pos (by rw [List.length_append]; omega),
          if_pos (by rw [List.length_append]; omega)]
      · -- A list that is open at the newline goes past it.
        have past := inside _ (if_neg (by rw [List.length_append, List.length_singleton]; omega))
        simp only [List.length_append, List.length_singleton] at past
        omega

/-- The blanks before the delimiter of a word list do not go on behind a newline. -/
theorem settled_wordList (c : Char) : Settled (wordList? c) := by
  intro cs rest seam inside
  cases cs with
  | nil => cases seam <;> simp [wordList?]
  | cons w cs =>
    have parts {rest : List Char} (seam : Seam rest) : wordList? c (w :: cs ++ rest) =
        if c = 'q' ∧ w = 'w' then
          wordListTail? (1 + run isInlineBlank cs) (cs.drop (run isInlineBlank cs) ++ rest)
        else none := by
      simp [wordList?, run_seam seam isInlineBlank (by decide),
        drop_seam (run_le isInlineBlank cs)]
    rw [parts (.line [])] at inside
    rw [parts seam, parts (.line [])]
    split
    · next quoting =>
      rw [if_pos quoting] at inside
      refine wordListTail?_seam seam fun l found => ?_
      have short := inside l found
      have blanks := run_le isInlineBlank cs
      rw [List.length_cons] at short
      rw [List.length_drop]
      omega
    · rfl

/-- Blanks that end before the newline are ended by something else. -/
theorem settled_blanks (c : Char) : Settled (blanks? c) := by
  intro cs rest seam inside
  simp only [blanks?] at inside ⊢
  split
  · next blank => rw [run_seam_of_le seam (inside _ (if_pos blank))]
  · rfl

/-- A token that ends before a newline is the same whatever follows the newline, and where the text
ends there. -/
theorem scan_seam (seam : Seam rest) (b : Bool) (c : Char)
    (inside : (scan b c (cs ++ ['\n'])).more ≤ cs.length) :
    scan b c (cs ++ rest) = scan b c (cs ++ ['\n']) := by
  have first : Settled fun cs => if b then section? c cs else none := by
    cases b with
    -- The readings in the order in which they are tried.
    | true => exact settled_section c
    | false => exact fun _ _ _ _ => rfl
  have settled := first.orElse <| (settled_string c).orElse <| (settled_wordList c).orElse <|
    (settled_blanks c).orElse <| (Settled.of_seam (comment?_seam · c)).orElse <|
    (Settled.of_seam (word?_seam · c)).orElse <| (Settled.of_seam (number?_seam · c)).orElse <|
    (Settled.of_seam (sigiled?_seam · c)).orElse <| .of_seam (punctuation?_seam · c)
  let read (l : Option Lexeme) : Lexeme := l.getD ⟨.error, 0⟩
  refine congrArg read (settled cs rest seam fun l found => ?_)
  have same : scan b c (cs ++ ['\n']) = l := congrArg read found
  rwa [same] at inside

/-! ### Blanks -/

/-- What a run takes. -/
theorem take_run (p : Char → Bool) (cs : List Char) : cs.take (run p cs) = cs.takeWhile p :=
  List.prefix_iff_eq_take.mp (List.takeWhile_prefix p) |>.symm

/-- What a run leaves. -/
theorem drop_run (p : Char → Bool) (cs : List Char) : cs.drop (run p cs) = cs.dropWhile p := by
  calc cs.drop (run p cs)
      = (cs.takeWhile p ++ cs.dropWhile p).drop (cs.takeWhile p).length := by
        rw [List.takeWhile_append_dropWhile, run]
    _ = cs.dropWhile p := List.drop_left

/-- A blank is read as blanks, whichever other reading is tried first. -/
theorem scan_of_isBlank {c : Char} (blank : isBlank c = true) (b : Bool) (cs : List Char) :
    scan b c cs = ⟨.whitespace, run isBlank cs⟩ := by
  have other {d : Char} (outside : isBlank d = false) : c ≠ d := ne_of_class blank outside
  have here : scan false c cs = ⟨.whitespace, run isBlank cs⟩ := by
    simp [scan, string?, wordList?, blanks?, blank, other (d := '\'') (by decide),
      other (d := '"') (by decide), other (d := 'q') (by decide)]
  cases b with
  | false => exact here
  | true => rw [scan_atLineStart cs (other (by decide)) (other (by decide)), here]

/-- A reading gives no blanks. -/
def Solid (read : Option Lexeme) : Prop :=
  ∀ l, read = some l → l.kind ≠ .whitespace

/-- No blanks come from two readings that give none. -/
theorem Solid.orElse {f g : Option Lexeme} (hf : Solid f) (hg : Solid g) : Solid (f <|> g) := by
  intro l found
  cases first : f with
  | some l' => exact hf l (by simpa [first] using found)
  | none => exact hg l (by simpa [first] using found)

/-- The end of a string is no blank. -/
theorem kind_stringTail (quote : Char) (count : Nat) (text : List Char) :
    (stringTail quote count text).kind ≠ .whitespace := by
  fun_induction stringTail quote count text <;> simp_all

/-- Sections are no blanks. -/
theorem solid_section (c : Char) (cs : List Char) : Solid (section? c cs) := by
  intro l found
  grind [section?]

/-- Strings are no blanks. -/
theorem solid_string (c : Char) (cs : List Char) : Solid (string? c cs) := by
  intro l found
  grind [string?, kind_stringTail]

/-- Word lists are no blanks. -/
theorem solid_wordList (c : Char) (cs : List Char) : Solid (wordList? c cs) := by
  intro l found
  grind [wordList?, wordListTail?]

/-- Comments are no blanks. -/
theorem solid_comment (c : Char) (cs : List Char) : Solid (comment? c cs) := by
  intro l found
  grind [comment?]

/-- Words are no blanks. -/
theorem solid_word (c : Char) (cs : List Char) : Solid (word? c cs) := by
  have keyword (word : List Char) : (keyword? word).getD .ident ≠ .whitespace := by
    have others : ∀ e ∈ keywordTable, e.2 ≠ .whitespace := by decide
    cases entry : keywordTable.find? (·.1 = word) with
    | none => simp [keyword?, entry]
    | some e => simpa [keyword?, entry] using others e (List.mem_of_find?_eq_some entry)
  intro l found
  grind [word?]

/-- Numbers are no blanks. -/
theorem solid_number (c : Char) (cs : List Char) : Solid (number? c cs) := by
  intro l found
  grind [number?]

/-- Variables are no blanks. -/
theorem solid_sigiled (c : Char) (cs : List Char) : Solid (sigiled? c cs) := by
  intro l found
  grind [sigiled?, scalar?.eq_def]

/-- Punctuation is no blank. -/
theorem solid_punctuation (c : Char) (cs : List Char) : Solid (punctuation? c cs) := by
  intro l found
  obtain ⟨entry, listed, rfl⟩ := Option.map_eq_some_iff.mp found
  have others : ∀ e ∈ punctuationTable, e.2 ≠ .whitespace := by decide
  exact others entry (List.mem_of_find?_eq_some listed)

/-- Only what begins with a blank is read as blanks. -/
theorem isBlank_of_scan {b : Bool} {c : Char} (kind : (scan b c cs).kind = .whitespace) :
    isBlank c = true := by
  refine Decidable.byContradiction fun solid => ?_
  have first : Solid (if b then section? c cs else none) := by
    cases b with
    | true => exact solid_section c cs
    | false => exact nofun
  -- This is the one reading that could give blanks, and it fails.
  have blanks : Solid (blanks? c cs) := by simp [Solid, blanks?, solid]
  have all := first.orElse <| (solid_string c cs).orElse <| (solid_wordList c cs).orElse <|
    blanks.orElse <| (solid_comment c cs).orElse <| (solid_word c cs).orElse <|
    (solid_number c cs).orElse <| (solid_sigiled c cs).orElse (solid_punctuation c cs)
  cases found : (if b then section? c cs else none) <|> string? c cs <|> wordList? c cs <|>
      blanks? c cs <|> comment? c cs <|> word? c cs <|> number? c cs <|> sigiled? c cs <|>
      punctuation? c cs with
  | some l => exact all l found (by rwa [scan, found] at kind)
  | none => exact absurd (by rwa [scan, found] at kind) (by decide : Kind.error ≠ .whitespace)

end Lexeme

open Lexeme

/-! ## Tokens -/

/-- The tokens of a text; `atLineStart` says whether a line begins with it. -/
def tokensFrom (atLineStart : Bool) (text : List Char) : List Token :=
  tokenizeFrom atLineStart text.length text

/-- Where there is room for the whole text, more room changes nothing. -/
theorem tokenizeFrom_eq {size : Nat} {text : List Char} (enough : text.length ≤ size) (b : Bool) :
    tokenizeFrom b size text = tokensFrom b text := by
  have more (size' : Nat) (enough' : text.length ≤ size') :
      tokenizeFrom b size text = tokenizeFrom b size' text := by
    induction size generalizing b text size' with
    | zero =>
      rw [List.eq_nil_of_length_eq_zero (Nat.le_zero.mp enough)]
      cases size' <;> rfl
    | succ size ih =>
      cases text with
      | nil => cases size' <;> rfl
      | cons c cs =>
        obtain ⟨size', rfl⟩ : ∃ n, size' = n + 1 :=
          Nat.exists_eq_add_one.mpr (Nat.lt_of_lt_of_le (Nat.succ_pos _) enough')
        have left : (cs.drop ((Token.first b c cs).text.length - 1)).length ≤ cs.length :=
          (List.drop_sublist _ _).length_le
        rw [List.length_cons] at enough enough'
        simp only [tokenizeFrom]
        rw [ih (by omega) _ size' (by omega)]
  exact more text.length (Nat.le_refl _)

/-- The first token, and then the tokens of what it leaves. -/
theorem tokensFrom_cons (b : Bool) (c : Char) (cs : List Char) :
    tokensFrom b (c :: cs) =
      Token.first b c cs ::
        tokensFrom (Token.first b c cs).endsLine (cs.drop (scan b c cs).more) := by
  -- A token past the end of the text takes what there is, and the same is left.
  have left : cs.drop ((Token.first b c cs).text.length - 1) = cs.drop (scan b c cs).more := by
    simp only [Token.first, List.length_cons, Nat.add_sub_cancel, List.length_take]
    rcases Nat.le_total (scan b c cs).more cs.length with short | long
    · rw [Nat.min_eq_left short]
    · rw [Nat.min_eq_right long, List.drop_length, List.drop_of_length_le long]
  rw [tokensFrom, List.length_cons, tokenizeFrom]
  simp only [left]
  rw [tokenizeFrom_eq (List.drop_sublist _ _).length_le]

/-- Trivia in front does not count. -/
theorem significant_cons {t : Token} (trivia : t.isTrivia = true) (ts : List Token) :
    significant (t :: ts) = significant ts :=
  List.dropWhile_cons_of_pos trivia

/-- What begins with a blank is trivia. -/
theorem isTrivia_first {c : Char} (blank : isBlank c = true) (b : Bool) (cs : List Char) :
    (Token.first b c cs).isTrivia = true := by
  simp only [Token.isTrivia, Token.first, scan_of_isBlank blank]
  rfl

/-- A text that begins with blanks goes on after them. -/
theorem significant_of_isBlank {c : Char} (blank : isBlank c = true) (b : Bool) (cs : List Char) :
    significant (tokensFrom b (c :: cs)) =
      significant (tokensFrom (decide (((c :: cs).takeWhile isBlank).getLast? = some '\n'))
        ((c :: cs).dropWhile isBlank)) := by
  have read := scan_of_isBlank blank b cs
  have text : (Token.first b c cs).text = (c :: cs).takeWhile isBlank := by
    simp only [Token.first, read, take_run, List.takeWhile_cons_of_pos blank]
  rw [tokensFrom_cons, significant_cons (isTrivia_first blank b cs), Token.endsLine, text, read,
    drop_run, List.dropWhile_cons_of_pos blank]

/-- A line of blanks begins with one. -/
theorem exists_blank_cons {ws : List Char} (blank : ∀ c ∈ ws, isBlank c = true)
    (more : List Char) : ∃ c cs, ws ++ '\n' :: more = c :: cs ∧ isBlank c = true := by
  cases ws with
  | nil => exact ⟨'\n', more, rfl, by decide⟩
  | cons c ws => exact ⟨c, _, rfl, blank c (List.mem_cons_self ..)⟩

/-- Blanks that end with a newline do not count for the text that begins after them. -/
theorem significant_line {ws : List Char} (blank : ∀ c ∈ ws, isBlank c = true) (b : Bool)
    (more : List Char) :
    significant (tokensFrom b (ws ++ '\n' :: more)) = significant (tokensFrom true more) := by
  have newline : isBlank '\n' = true := by decide
  obtain ⟨c, cs, text, first⟩ := exists_blank_cons blank more
  have taken : (c :: cs).takeWhile isBlank = ws ++ '\n' :: more.takeWhile isBlank := by
    rw [← text, List.takeWhile_append_of_pos blank, List.takeWhile_cons_of_pos newline]
  have left : (c :: cs).dropWhile isBlank = more.dropWhile isBlank := by
    rw [← text, List.dropWhile_append_of_pos blank, List.dropWhile_cons_of_pos newline]
  rw [text, significant_of_isBlank first, taken, left]
  cases more with
  | nil => simp [tokensFrom, tokenizeFrom]
  | cons d ds =>
    cases further : isBlank d with
    | true =>
      -- The blanks of both lines are one token, which ends as those of the second line do.
      rw [significant_of_isBlank further true ds, List.takeWhile_cons_of_pos further]
      simp [List.getLast?_append, List.getLast?_cons]
    | false => simp [further]

/-- A token that ends before the newline is the same, and the tokens after it are those of what is
left. -/
theorem tokensFrom_cons_seam {cs rest : List Char} (seam : Seam rest) {b : Bool} {c : Char}
    (inside : (scan b c (cs ++ ['\n'])).more ≤ cs.length) :
    tokensFrom b (c :: cs ++ rest) = Token.first b c (cs ++ ['\n']) ::
      tokensFrom (Token.first b c (cs ++ ['\n'])).endsLine
        (cs.drop (scan b c (cs ++ ['\n'])).more ++ rest) := by
  have first : Token.first b c (cs ++ rest) = Token.first b c (cs ++ ['\n']) := by
    simp only [Token.first, scan_seam seam b c inside, List.take_append_of_le_length inside]
  rw [List.cons_append, tokensFrom_cons, first, scan_seam seam b c inside, drop_seam inside]

/-- A token that goes past the newline is made of blanks, if it is blanks at all. -/
theorem isBlank_of_past {cs : List Char} {b : Bool} {c : Char}
    (kind : (scan b c (cs ++ ['\n'])).kind = .whitespace)
    (past : cs.length < (scan b c (cs ++ ['\n'])).more) : ∀ d ∈ c :: cs, isBlank d = true := by
  have blank := isBlank_of_scan kind
  rw [scan_of_isBlank blank] at past
  simp only [run, List.takeWhile_append] at past
  -- The blanks go past the whole text, so it is made of them.
  split at past
  · next all =>
    have whole : cs.takeWhile isBlank = cs := (List.takeWhile_prefix isBlank).eq_of_length all
    intro d member
    rcases List.mem_cons.mp member with rfl | later
    · exact blank
    · rw [← whole] at later
      exact List.all_eq_true.mp List.all_takeWhile d later
  · -- Otherwise the blanks would end inside of the text.
    have := run_le isBlank cs
    exact absurd past (Nat.not_lt.mpr this)

/-- Blanks are one token. -/
theorem trivia_of_blank {text : List Char} (blank : ∀ d ∈ text, isBlank d = true) (b : Bool) :
    ∀ t ∈ tokensFrom b text, t.isTrivia = true := by
  cases text with
  | nil => exact List.forall_mem_nil _
  | cons c cs =>
    have read := scan_of_isBlank (blank c (List.mem_cons_self ..)) b cs
    have all : (cs ++ []).dropWhile isBlank = [] :=
      List.dropWhile_append_of_pos fun d member => blank d (List.mem_cons_of_mem _ member)
    rw [List.append_nil] at all
    rw [tokensFrom_cons, read, drop_run, all]
    intro t member
    obtain rfl := List.mem_singleton.mp member
    exact isTrivia_first (blank c (List.mem_cons_self ..)) b cs

/-- A text has a token. -/
theorem tokensFrom_ne_nil {b : Bool} {text : List Char} (some : text ≠ []) :
    tokensFrom b text ≠ [] := by
  obtain ⟨c, cs, rfl⟩ := List.exists_cons_of_ne_nil some
  rw [tokensFrom_cons]
  exact List.cons_ne_nil _ _

/-- Where the tokens of a text and a newline end with blanks, the tokens of the text are the same
before any other line. Blanks come behind them, and what follows is cut as in a text of its own. -/
theorem exists_shared_tokens {b : Bool} {a : List Char}
    (blanks : (tokensFrom b (a ++ ['\n'])).getLast?.map (·.kind) = some .whitespace) :
    ∃ shared before, tokensFrom b a = shared ++ before ∧ (∀ t ∈ before, t.isTrivia = true) ∧
      ∀ more, ∃ gap after, tokensFrom b (a ++ '\n' :: more) = shared ++ gap :: after ∧
        gap.isTrivia = true ∧ significant after = significant (tokensFrom true more) := by
  -- Blanks that end with a newline are one token, with the blanks that the next line begins with.
  have line {b : Bool} {ws : List Char} (blank : ∀ d ∈ ws, isBlank d = true) (more : List Char) :
      ∃ gap after, tokensFrom b (ws ++ '\n' :: more) = gap :: after ∧ gap.isTrivia = true ∧
        significant after = significant (tokensFrom true more) := by
    obtain ⟨c, cs, text, first⟩ := exists_blank_cons blank more
    have trivia := isTrivia_first first b cs
    have same := significant_line blank b more
    rw [text, tokensFrom_cons] at same ⊢
    exact ⟨_, _, rfl, trivia, by rw [← same, significant_cons trivia]⟩
  -- Induction on the length of the text, since a token takes any number of characters.
  generalize length : a.length = size
  induction size using Nat.strongRecOn generalizing a b with
  | ind size ih =>
    subst length
    cases a with
    | nil => exact ⟨[], [], rfl, List.forall_mem_nil _, line (List.forall_mem_nil _)⟩
    | cons c cs =>
      rcases Nat.lt_or_ge cs.length (scan b c (cs ++ ['\n'])).more with past | inside
      · -- The token takes the newline along, so it is the last one, and made of blanks.
        have single : tokensFrom b (c :: (cs ++ ['\n'])) = [Token.first b c (cs ++ ['\n'])] := by
          rw [tokensFrom_cons, List.drop_of_length_le (by rw [List.length_append]; exact past)]
          rfl
        rw [List.cons_append, single] at blanks
        have blank := isBlank_of_past (Option.some.inj blanks) past
        exact ⟨[], _, rfl, trivia_of_blank blank b, line blank⟩
      · -- The token ends before the newline, and what is left of the text is shorter.
        have some : cs.drop (scan b c (cs ++ ['\n'])).more ++ ['\n'] ≠ [] :=
          List.append_ne_nil_of_right_ne_nil _ (List.cons_ne_nil '\n' [])
        rw [tokensFrom_cons_seam (.line []) inside,
          List.getLast?_cons_of_ne_nil (tokensFrom_ne_nil some)] at blanks
        have shorter : (cs.drop (scan b c (cs ++ ['\n'])).more).length < (c :: cs).length := by
          rw [List.length_drop, List.length_cons]
          omega
        obtain ⟨shared, before, here, trivia, later⟩ := ih _ shorter blanks rfl
        refine ⟨Token.first b c (cs ++ ['\n']) :: shared, before, ?_, trivia, fun more => ?_⟩
        · rw [← List.append_nil (c :: cs), tokensFrom_cons_seam .text inside, List.append_nil, here]
          rfl
        · obtain ⟨gap, after, there, blank, same⟩ := later more
          refine ⟨gap, after, ?_, blank, same⟩
          rw [tokensFrom_cons_seam (.line more) inside, there]
          rfl

/-- Where the tokens of a text and a newline end with blanks, the tokens of the text are the same
before any other line, and what follows is cut as in a text of its own. -/
theorem tokensFrom_seam {b : Bool} {a : List Char}
    (blanks : (tokensFrom b (a ++ ['\n'])).getLast?.map (·.kind) = some .whitespace)
    (more : List Char) :
    ∃ shared before after, tokensFrom b a = shared ++ before ∧
      tokensFrom b (a ++ '\n' :: more) = shared ++ after ∧
      (∀ t ∈ before, t.isTrivia = true) ∧
      significant after = significant (tokensFrom true more) := by
  obtain ⟨shared, before, here, trivia, later⟩ := exists_shared_tokens blanks
  obtain ⟨gap, after, there, blank, same⟩ := later more
  exact ⟨shared, before, gap :: after, here, there, trivia,
    (significant_cons blank after).trans same⟩

/-- What is no trivia is not among the trivia in front. -/
theorem filter_significant (ts : List Token) :
    (significant ts).filter (!·.isTrivia) = ts.filter (!·.isTrivia) := by
  induction ts with
  | nil => rfl
  | cons t ts ih =>
    cases trivia : t.isTrivia with
    | true => simpa [significant, trivia] using ih
    | false => simp [significant, trivia]

/-- So what is no trivia comes from the one text and then from the other. -/
theorem filter_tokensFrom_seam {b : Bool} {a : List Char}
    (blanks : (tokensFrom b (a ++ ['\n'])).getLast?.map (·.kind) = some .whitespace)
    (more : List Char) :
    (tokensFrom b (a ++ '\n' :: more)).filter (!·.isTrivia) =
      (tokensFrom b (a ++ ['\n'])).filter (!·.isTrivia) ++
        (tokensFrom true more).filter (!·.isTrivia) := by
  obtain ⟨shared, -, -, -, later⟩ := exists_shared_tokens blanks
  have words (more : List Char) : (tokensFrom b (a ++ '\n' :: more)).filter (!·.isTrivia) =
      shared.filter (!·.isTrivia) ++ (tokensFrom true more).filter (!·.isTrivia) := by
    obtain ⟨gap, after, cut, trivia, same⟩ := later more
    rw [cut, List.filter_append, List.filter_cons_of_neg (by simp [trivia]),
      ← filter_significant after, same, filter_significant]
  rw [words more, words []]
  exact congrArg (· ++ _) (List.append_nil _).symm

end PerlOutline.Syntax
