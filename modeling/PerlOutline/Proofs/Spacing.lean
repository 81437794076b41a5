import Mathlib.Data.List.Find
import PerlOutline.Syntax.Tokenize

/-!
# Words with blanks between them

Where each word is followed by a blank or by the end of the text, a text is cut just between its
words. So a list of tokens, written with single blanks between them, is read back.

## Layers
- **`Stands`**: a token that is read back before a blank.
- **`spaced`**: the text of tokens with blanks between them.
- **Kinds of words**: names, numbers, variables, keywords and punctuation.
-/

namespace PerlOutline.Syntax

/-! ## Words -/

/-- A word ends where the text ends or a blank follows. -/
inductive EndsWord : List Char → Prop where
  | text : EndsWord []
  | blank (more : List Char) : EndsWord (' ' :: more)

namespace Token

/-- The token is read back wherever it is written as a word; `atLineStart` says whether a line
begins there. -/
structure Stands (atLineStart : Bool) (t : Token) : Prop where
  first : ∀ c cs, t.text = c :: cs → ∀ rest, EndsWord rest →
    Token.first atLineStart c (cs ++ rest) = t
  /-- It can be told from the blank before it. -/
  nonblank : ∀ c cs, t.text = c :: cs → Lexeme.isBlank c = false
  significant : t.isTrivia = false
  sameLine : t.endsLine = false

/-- The text of tokens with single blanks between them. -/
def spaced : List Token → List Char
  | [] => []
  | [t] => t.text
  | t :: ts => t.text ++ ' ' :: spaced ts

/-- A blank between words. -/
def blank : Token :=
  ⟨.whitespace, [' '], by simp⟩

end Token

open Token

/-- A blank before a word is a token of its own. -/
theorem first_blank {c : Char} {cs : List Char} (nonblank : Lexeme.isBlank c = false) :
    Token.first false ' ' (c :: cs) = blank := by
  have one : Lexeme.scan false ' ' (c :: cs) = ⟨.whitespace, 0⟩ := by
    simp [Lexeme.scan, Lexeme.string?, Lexeme.wordList?, Lexeme.blanks?, Lexeme.isBlank,
      Lexeme.run, List.takeWhile_cons]
    simpa [Lexeme.isBlank] using nonblank
  simp [Token.first, one, blank]

/-- A word is cut off before the rest of the text. -/
theorem tokenizeFrom_word {b : Bool} {t : Token} (stands : t.Stands b) {rest : List Char}
    (ended : EndsWord rest) {size : Nat} (enough : (t.text ++ rest).length ≤ size) :
    ∃ left, tokenizeFrom b size (t.text ++ rest) = t :: tokenizeFrom false left rest ∧
      rest.length ≤ left := by
  obtain ⟨c, cs, text⟩ := List.exists_cons_of_ne_nil t.text_ne_nil
  rw [text, List.cons_append, List.length_cons] at enough
  -- there is a character, so there is a step left
  obtain ⟨left, rfl⟩ : ∃ left, size = left + 1 := Nat.exists_eq_add_one.mpr (by omega)
  refine ⟨left, ?_, by rw [List.length_append] at enough; omega⟩
  rw [text, List.cons_append, tokenizeFrom, stands.first c cs text rest ended, stands.sameLine,
    text, List.length_cons, Nat.add_sub_cancel, List.drop_left]

/-- A blank between words is cut off before the word. -/
theorem tokenizeFrom_blank {c : Char} {cs : List Char} (nonblank : Lexeme.isBlank c = false)
    {size : Nat} (enough : (' ' :: c :: cs).length ≤ size) :
    ∃ left, tokenizeFrom false size (' ' :: c :: cs) =
      blank :: tokenizeFrom false left (c :: cs) ∧ (c :: cs).length ≤ left := by
  rw [List.length_cons] at enough
  obtain ⟨left, rfl⟩ : ∃ left, size = left + 1 := Nat.exists_eq_add_one.mpr (by omega)
  refine ⟨left, ?_, by omega⟩
  rw [tokenizeFrom, first_blank nonblank]
  rfl

/-- A list of words is written with the first character of its first word. -/
theorem exists_cons_spaced (t : Token) (ts : List Token) :
    ∃ c cs more, t.text = c :: cs ∧ spaced (t :: ts) = c :: more := by
  obtain ⟨c, cs, text⟩ := List.exists_cons_of_ne_nil t.text_ne_nil
  cases ts with
  | nil => exact ⟨c, cs, cs, text, text⟩
  | cons u us => exact ⟨c, cs, cs ++ ' ' :: spaced (u :: us), text, by simp [spaced, text]⟩

/-- What is written with single blanks is read back. -/
theorem tokenizeFrom_spaced {b : Bool} {t : Token} {ts : List Token} (stands : t.Stands b)
    (later : ∀ u ∈ ts, u.Stands false) {size : Nat}
    (enough : (spaced (t :: ts)).length ≤ size) :
    (tokenizeFrom b size (spaced (t :: ts))).filter (!·.isTrivia) = t :: ts := by
  induction ts generalizing b t size with
  | nil =>
    have written : spaced [t] = t.text ++ [] := (List.append_nil _).symm
    rw [written] at enough ⊢
    obtain ⟨left, cut, -⟩ := tokenizeFrom_word stands .text enough
    rw [cut]
    cases left <;> simp [tokenizeFrom, stands.significant]
  | cons u us ih =>
    have next : u.Stands false := later u (List.mem_cons_self ..)
    obtain ⟨c, cs, more, text, written⟩ := exists_cons_spaced u us
    -- the word, the blank after it, and what follows
    have parts : spaced (t :: u :: us) = t.text ++ ' ' :: spaced (u :: us) := rfl
    rw [parts] at enough ⊢
    obtain ⟨left, cut, enough⟩ := tokenizeFrom_word stands (.blank _) enough
    rw [written] at enough cut
    obtain ⟨left', cut', enough⟩ := tokenizeFrom_blank (next.nonblank c cs text) enough
    have rest := ih next (fun v hv => later v (List.mem_cons_of_mem _ hv)) (written ▸ enough)
    rw [written] at rest ⊢
    -- the word is kept and the blank is filtered out
    rw [cut, cut', List.filter_cons_of_pos (by simp [stands.significant]),
      List.filter_cons_of_neg (by simp [blank, isTrivia, Kind.isTrivia]), rest]

/-- The tokens of words with single blanks between them are the words and the blanks. -/
theorem tokenize_spaced {t : Token} {ts : List Token} (stands : t.Stands true)
    (later : ∀ u ∈ ts, u.Stands false) :
    (tokenize (spaced (t :: ts))).filter (!·.isTrivia) = t :: ts :=
  tokenizeFrom_spaced stands later (Nat.le_refl _)

/-! ## Kinds of words -/

namespace Lexeme

/-- What follows the first character of a name. -/
def isNameRest : List Char → Bool
  | [] => true
  | ':' :: ':' :: c :: cs => isNameStart c && isNameRest cs
  | c :: cs => isNameChar c && isNameRest cs

/-- A name: segments of letters, digits and underscores with two colons between them, none of which
begins with a digit. -/
def isName : List Char → Bool
  | [] => false
  | c :: cs => isNameStart c && isNameRest cs

/-- No name goes on where a word has ended. -/
theorem nameTail_of_endsWord {rest : List Char} (ended : EndsWord rest) : nameTail rest = 0 := by
  cases ended with
  | text => rfl
  | blank more =>
    -- neither a blank nor a colon that could be the first of two
    rw [nameTail.eq_def]
    simp [isNameChar, isNameStart]

/-- A name goes on to its end. -/
theorem nameTail_append {cs rest : List Char} (name : isNameRest cs = true)
    (ended : EndsWord rest) : nameTail (cs ++ rest) = cs.length := by
  induction cs using isNameRest.induct with
  | case1 => exact nameTail_of_endsWord ended
  -- two colons with the start of a segment behind them
  | case2 c cs ih =>
    obtain ⟨start, name⟩ := Bool.and_eq_true_iff.mp (by simpa [isNameRest] using name)
    simp only [List.cons_append, nameTail, List.length_cons, start, ih name]
    simp [isNameChar, isNameStart]
  -- one more character of the segment
  | case3 c cs other ih =>
    simp only [isNameRest, Bool.and_eq_true] at name
    rw [List.cons_append, nameTail.eq_def]
    simp only [name.1, if_true, List.length_cons, ih name.2]

/-- A character of a class is none outside of it. -/
theorem ne_of_class {p : Char → Bool} {c d : Char} (inside : p c = true) (outside : p d = false) :
    c ≠ d := by
  rintro rfl
  rw [inside] at outside
  contradiction

/-- Away from underscores and equals signs the start of a line is like any other place. -/
theorem scan_atLineStart {c : Char} (cs : List Char) (noMarker : c ≠ '_') (noEquals : c ≠ '=') :
    scan true c cs = scan false c cs := by
  -- none of the markers that are looked for at the start of a line begins with this character
  have none : section? c cs = none := by
    have markers : endMarkers.any (·.isPrefixOf (c :: cs)) = false := by
      simp [endMarkers, List.isPrefixOf, Ne.symm noMarker]
    simp [section?, markers, noEquals]
  simp [scan, none]

/-- A word that does not go on with a character does not, whatever follows the word. -/
theorem head?_append_ne {c : Char} {cs rest : List Char} (inside : cs.head? ≠ some c)
    (ended : EndsWord rest) (notBlank : c ≠ ' ') : (cs ++ rest).head? ≠ some c := by
  cases cs with
  | cons d ds => simpa using inside
  | nil =>
    cases ended with
    | text => simp
    | blank more => simpa using notBlank.symm

/-! ### Names and keywords -/

/-- Unless a colon comes first, the first character is one of names. -/
theorem isNameRest_cons {d : Char} (ds : List Char) (noColon : d ≠ ':') :
    isNameRest (d :: ds) = (isNameChar d && isNameRest ds) := by
  rw [isNameRest.eq_def]
  split <;> simp_all

/-- A name goes on with a character of names or with colons. -/
theorem head?_of_isNameRest {d : Char} {ds : List Char} (name : isNameRest (d :: ds) = true) :
    isNameChar d = true ∨ d = ':' := by
  by_cases colon : d = ':'
  · exact .inr colon
  · rw [isNameRest_cons ds colon] at name
    exact .inl (Bool.and_eq_true_iff.mp name).1

/-- What begins with this character is no blank, no comment and no string. -/
def isSolid (c : Char) : Bool :=
  !(isBlank c || c = '#' || c = '\'' || c = '"')

/-- No character of names is a blank, a comment or a string. -/
theorem isSolid_of_isNameChar {c : Char} (inside : isNameChar c = true) : isSolid c = true := by
  rw [← Bool.not_eq_false]
  intro notSolid
  simp only [isSolid, isBlank, Bool.not_eq_false', Bool.or_eq_true, decide_eq_true_eq] at notSolid
  -- the characters that are excluded are few, and none of them is one of names
  rcases notSolid with ((((((rfl | rfl) | rfl) | rfl) | rfl) | rfl) | rfl) | rfl <;>
    exact absurd inside (by decide)

/-- What is solid is no blank. -/
theorem isBlank_of_isSolid {c : Char} (solid : isSolid c = true) : isBlank c = false := by
  simp_all [isSolid]

/-- What is no blank, no comment and no string is a word, a number, a variable or punctuation. -/
theorem scan_of_isSolid {c : Char} {cs : List Char} (solid : isSolid c = true)
    (noList : wordList? c cs = none) :
    scan false c cs =
      (word? c cs <|> number? c cs <|> sigiled? c cs <|> punctuation? c cs).getD ⟨.error, 0⟩ := by
  simp only [isSolid, Bool.not_eq_true', Bool.or_eq_false_iff, decide_eq_false_iff_not] at solid
  obtain ⟨⟨⟨noBlank, noHash⟩, noQuote⟩, noDouble⟩ := solid
  simp [scan, string?, noQuote, noDouble, noList, blanks?, noBlank, comment?, noHash]

/-- No character of names is a blank of a line. -/
theorem isInlineBlank_of_isNameChar {c : Char} (inside : isNameChar c = true) :
    isInlineBlank c = false := by
  rw [← Bool.not_eq_true]
  intro blank
  simp only [isInlineBlank, Bool.or_eq_true, decide_eq_true_eq] at blank
  rcases blank with rfl | rfl <;> exact absurd inside (by decide)

/-- No character of names delimits a list. -/
theorem closingDelimiter?_of_isNameChar {c : Char} (inside : isNameChar c = true) :
    closingDelimiter? c = none := by
  have ne {d : Char} (outside : isNameChar d = false) : c ≠ d := ne_of_class inside outside
  unfold closingDelimiter?
  rw [if_neg (ne (by decide)), if_neg (ne (by decide)), if_neg (ne (by decide)),
    if_neg (ne (by decide))]

/-- What begins a name may be inside of it. -/
theorem isNameChar_of_isNameStart {c : Char} (start : isNameStart c = true) :
    isNameChar c = true := by
  rw [isNameChar, start, Bool.true_or]

/-- A list of words begins with `q`. -/
theorem wordList?_of_ne {c : Char} (cs : List Char) (other : c ≠ 'q') : wordList? c cs = none := by
  simp [wordList?, other]

/-- A name other than `qw` is no list of words. -/
theorem wordList?_of_isName {c : Char} {cs rest : List Char} (name : isName (c :: cs) = true)
    (other : c :: cs ≠ ['q', 'w']) (ended : EndsWord rest) : wordList? c (cs ++ rest) = none := by
  by_cases quoting : c = 'q' ∧ (cs ++ rest).head? = some 'w'
  · obtain ⟨rfl, second⟩ := quoting
    cases cs with
    -- the name is `q` alone, and what follows is no `w`
    | nil => exact absurd second (head?_append_ne (by simp) ended (by decide))
    | cons d ds =>
      obtain rfl : d = 'w' := by simpa using second
      cases ds with
      -- the name is `qw`, which was excluded
      | nil => exact absurd rfl other
      | cons e es =>
        -- A third character of a name neither delimits a list nor stands before one.
        have tail : isNameRest (e :: es) = true := by
          rw [isName, isNameRest_cons _ (by decide)] at name
          exact (Bool.and_eq_true_iff.mp (Bool.and_eq_true_iff.mp name).2).2
        have delimits : closingDelimiter? e = none ∧ isInlineBlank e = false := by
          rcases head?_of_isNameRest tail with inside | rfl
          · exact ⟨closingDelimiter?_of_isNameChar inside, isInlineBlank_of_isNameChar inside⟩
          · decide
        simp [wordList?, run, wordListTail?, delimits]
  · -- otherwise it does not even begin like a list
    have fails : (decide (c = 'q') && decide ((cs ++ rest).head? = some 'w')) = false := by
      simpa using quoting
    simp only [wordList?, fails]
    rfl

/-- A name is a keyword or an identifier, unless it quotes words. -/
theorem scan_name {c : Char} {cs rest : List Char} (name : isName (c :: cs) = true)
    (other : c :: cs ≠ ['q', 'w']) (ended : EndsWord rest) :
    scan false c (cs ++ rest) = ⟨(keyword? (c :: cs)).getD .ident, cs.length⟩ := by
  obtain ⟨start, tail⟩ := Bool.and_eq_true_iff.mp name
  -- neither a blank nor the end of the text goes on with the name
  have more : nameTail (cs ++ rest) = cs.length := nameTail_append tail ended
  have noColon : rest.head? ≠ some ':' := by cases ended <;> simp
  have solid : isSolid c = true := isSolid_of_isNameChar (isNameChar_of_isNameStart start)
  rw [scan_of_isSolid solid (wordList?_of_isName name other ended)]
  simp [word?, start, more, noColon]

/-! ### Numbers and variables -/

/-- A run of characters ends with the word. -/
theorem run_append {p : Char → Bool} {cs rest : List Char} (inside : cs.all p = true)
    (noBlank : p ' ' = false) (ended : EndsWord rest) : run p (cs ++ rest) = cs.length := by
  have all : ∀ c ∈ cs, p c = true := List.all_eq_true.mp inside
  rw [run, List.takeWhile_append_of_pos all]
  cases ended with
  | text => simp
  | blank more => simp [noBlank]

/-- No digit begins a name. -/
theorem isNameStart_of_isDigit {c : Char} (digit : c.isDigit = true) : isNameStart c = false := by
  have underscore : c ≠ '_' := ne_of_class digit (by decide)
  -- digits come before letters in the order of characters
  have noLetter : c.isAlpha = false := by
    have small : c.val ≤ 57 := of_decide_eq_true (Bool.and_eq_true_iff.mp digit).2
    have outside : ¬ (65 ≤ c.val ∧ c.val ≤ 90) ∧ ¬ 97 ≤ c.val := by grind
    change (decide (65 ≤ c.val ∧ c.val ≤ 90) || decide (97 ≤ c.val) && decide (c.val ≤ 122)) = false
    simp only [outside, decide_false, Bool.false_and, Bool.or_false]
  simp [isNameStart, noLetter, underscore]

/-- Digits go on to their end, and nothing follows them that a number may have. -/
theorem decimalTail_append {cs rest : List Char} (digits : cs.all Char.isDigit = true)
    (ended : EndsWord rest) : decimalTail (cs ++ rest) = cs.length := by
  have grouped : cs.all isGroupedDigit = true := by
    rw [List.all_eq_true] at digits ⊢
    intro c hc
    rw [isGroupedDigit, digits c hc, Bool.true_or]
  have whole : run isGroupedDigit (cs ++ rest) = cs.length := run_append grouped (by decide) ended
  simp only [decimalTail, whole, List.drop_left]
  -- neither a fraction nor an exponent begins where a word has ended
  cases ended with
  | text => simp [fraction, exponent]
  | blank more =>
    have noFraction : fraction (' ' :: more) = 0 := by cases more <;> simp [fraction]
    simp [noFraction, exponent]

/-- Digits are no prefix of a hexadecimal number. -/
theorem hexTail_append {c : Char} {cs rest : List Char} (digits : cs.all Char.isDigit = true)
    (ended : EndsWord rest) : hexTail c (cs ++ rest) = 0 := by
  -- behind the first digit there is none of the two marks
  have mark (x : Char) (outside : x.isDigit = false) (notBlank : x ≠ ' ') :
      (cs ++ rest).head? ≠ some x := by
    apply head?_append_ne ?_ ended notBlank
    intro first
    have := List.all_eq_true.mp digits x (List.mem_of_head? first)
    rw [outside] at this
    contradiction
  have small := mark 'x' (by decide) (by decide)
  have large := mark 'X' (by decide) (by decide)
  cases text : cs ++ rest with
  | nil => rfl
  | cons d ds =>
    rw [text] at small large
    simp_all [hexTail]

/-- Digits are a number. -/
theorem scan_digits {c : Char} {cs rest : List Char} (digit : c.isDigit = true)
    (digits : cs.all Char.isDigit = true) (ended : EndsWord rest) (b : Bool) :
    scan b c (cs ++ rest) = ⟨.number, cs.length⟩ := by
  have ne {d : Char} (outside : d.isDigit = false) : c ≠ d := ne_of_class digit outside
  have inside : isNameChar c = true := by rw [isNameChar, digit, Bool.or_true]
  -- nothing that is tried before a number begins with a digit
  have noList : wordList? c (cs ++ rest) = none := wordList?_of_ne _ (ne (by decide))
  have noWord : word? c (cs ++ rest) = none := by simp [word?, isNameStart_of_isDigit digit]
  have number : number? c (cs ++ rest) = some ⟨.number, cs.length⟩ := by
    simp [number?, digit, decimalTail_append digits ended, hexTail_append digits ended]
  have here : scan false c (cs ++ rest) = ⟨.number, cs.length⟩ := by
    rw [scan_of_isSolid (isSolid_of_isNameChar inside) noList]
    simp [noWord, number]
  -- digits are no marker, so the start of a line changes nothing
  cases b with
  | false => exact here
  | true => rw [scan_atLineStart _ (ne (by decide)) (ne (by decide)), here]

/-- What begins with a sigil is a variable, where that is seen. -/
theorem scan_of_sigiled? {c : Char} {cs : List Char} {lexeme : Lexeme}
    (sigil : c = '$' ∨ c = '@' ∨ c = '%') (name : sigiled? c cs = some lexeme) (b : Bool) :
    scan b c cs = lexeme := by
  cases b <;> rcases sigil with rfl | rfl | rfl <;>
    simp [scan, section?, endMarkers, string?, wordList?, blanks?, isBlank, comment?, word?,
      isNameStart, number?, name]

/-- A name that follows a sigil goes on to its end. -/
theorem nameLength_append {cs rest : List Char} (name : isName cs = true) (ended : EndsWord rest) :
    nameLength (cs ++ rest) = cs.length := by
  cases cs with
  | nil => exact absurd name (by decide)
  | cons c cs =>
    obtain ⟨start, tail⟩ := Bool.and_eq_true_iff.mp name
    simp [nameLength, start, nameTail_append tail ended]

/-- A dollar sign with a name is a scalar. -/
theorem scan_scalar {cs rest : List Char} (name : isName cs = true) (ended : EndsWord rest)
    (b : Bool) : scan b '$' (cs ++ rest) = ⟨.scalarName, cs.length⟩ := by
  apply scan_of_sigiled? (.inl rfl)
  cases cs with
  | nil => exact absurd name (by decide)
  | cons c cs =>
    obtain ⟨start, tail⟩ := Bool.and_eq_true_iff.mp name
    simp [sigiled?, scalar?, start, nameTail_append tail ended]

/-- An at sign with a name is an array. -/
theorem scan_array {cs rest : List Char} (name : isName cs = true) (ended : EndsWord rest)
    (b : Bool) : scan b '@' (cs ++ rest) = ⟨.arrayName, cs.length⟩ := by
  apply scan_of_sigiled? (.inr (.inl rfl))
  have positive : cs ≠ [] := by rintro rfl; exact absurd name (by decide)
  simp [sigiled?, nameLength_append name ended, List.length_pos_iff, positive]

/-- A percent sign with a name is a hash. -/
theorem scan_hash {cs rest : List Char} (name : isName cs = true) (ended : EndsWord rest)
    (b : Bool) : scan b '%' (cs ++ rest) = ⟨.hashName, cs.length⟩ := by
  apply scan_of_sigiled? (.inr (.inr rfl))
  have positive : cs ≠ [] := by rintro rfl; exact absurd name (by decide)
  simp [sigiled?, nameLength_append name ended, List.length_pos_iff, positive]

/-! ### Punctuation -/

/-- A word begins with punctuation just if it does in a text, since no punctuation has a blank. -/
theorem isPrefixOf_append_of_endsWord {p w rest : List Char} (solid : ' ' ∉ p)
    (ended : EndsWord rest) : p.isPrefixOf (w ++ rest) = p.isPrefixOf w := by
  induction w generalizing p with
  | nil =>
    cases p with
    | nil => simp
    | cons d ds =>
      -- a longer mark would have to go on with the blank
      have other : d ≠ ' ' := fun same => solid (same ▸ List.mem_cons_self ..)
      cases ended <;> simp [List.isPrefixOf, other]
  | cons c cs ih =>
    cases p with
    | nil => rfl
    | cons d ds =>
      have := ih (p := ds) fun member => solid (List.mem_cons_of_mem _ member)
      simp [List.isPrefixOf, this]

/-- The characters with which punctuation begins. -/
def isMark (c : Char) : Bool :=
  isSolid c && !isNameChar c

/-- A mark is the longest that stands there, and so it is the one that was written. -/
theorem punctuation?_append {c : Char} {cs rest : List Char} {k : Kind}
    (entry : (c :: cs, k) ∈ punctuationTable) (ended : EndsWord rest) :
    punctuation? c (cs ++ rest) = some ⟨k, cs.length⟩ := by
  have solid : ∀ e ∈ punctuationTable, ' ' ∉ e.1 := by decide
  -- no mark of the table comes before a longer one that begins with it
  have found : ∀ e ∈ punctuationTable,
      punctuationTable.find? (·.1.isPrefixOf e.1) = some e := by decide
  have same : punctuationTable.find? (·.1.isPrefixOf (c :: cs ++ rest)) =
      punctuationTable.find? (·.1.isPrefixOf (c :: cs)) := by
    apply List.find?_congr
    intro e member
    exact isPrefixOf_append_of_endsWord (solid e member) ended
  have here := same.trans (found _ entry)
  rw [List.cons_append] at here
  rw [punctuation?, here]
  rfl

/-- A sigil that stands alone is no variable. -/
theorem sigiled?_of_endsWord {rest : List Char} (ended : EndsWord rest) (c : Char) :
    sigiled? c rest = none := by
  cases ended with
  | text => simp [sigiled?, scalar?, nameLength]
  | blank more => simp [sigiled?, scalar?, nameLength, isNameStart]

/-- A mark is punctuation, unless it is an equals sign that begins a line. -/
theorem scan_punctuation {c : Char} {cs rest : List Char} {k : Kind}
    (entry : (c :: cs, k) ∈ punctuationTable) (ended : EndsWord rest) {b : Bool}
    (plain : b = true → c ≠ '=') : scan b c (cs ++ rest) = ⟨k, cs.length⟩ := by
  -- what is tried before punctuation begins with none of these characters
  have marks : ∀ e ∈ punctuationTable, e.1.head?.all isMark = true := by decide
  have alone : ∀ e ∈ punctuationTable,
      e.1.head?.all (fun d => d ≠ '$' && d ≠ '@' && d ≠ '%') = true ∨ e.1.length = 1 := by decide
  have mark : isMark c = true := marks _ entry
  obtain ⟨solid, noName⟩ : isSolid c = true ∧ isNameChar c = false := by simpa [isMark] using mark
  have ne {d : Char} (inside : isMark d = false) : c ≠ d := ne_of_class mark inside
  have noList : wordList? c (cs ++ rest) = none := wordList?_of_ne _ (ne (by decide))
  have noWord : word? c (cs ++ rest) = none := by simp_all [word?, isNameChar]
  have noNumber : number? c (cs ++ rest) = none := by simp_all [number?, isNameChar]
  -- only the sigils might begin a variable, and those are marks of one character
  have noVariable : sigiled? c (cs ++ rest) = none := by
    rcases alone _ entry with other | one
    · simp_all [sigiled?]
    · obtain rfl : cs = [] := by simpa using one
      exact sigiled?_of_endsWord ended c
  have here : scan false c (cs ++ rest) = ⟨k, cs.length⟩ := by
    rw [scan_of_isSolid solid noList]
    simp [noWord, noNumber, noVariable, punctuation?_append entry ended]
  cases b with
  | false => exact here
  | true => rw [scan_atLineStart _ (ne (by decide)) (plain rfl), here]

end Lexeme

/-! ## Words that stand -/

namespace Token

open Lexeme

variable {b : Bool} {t : Token}

/-- A token stands where its text is scanned to its end. -/
theorem stands_of_scan
    (scanned : ∀ c cs, t.text = c :: cs → ∀ rest, EndsWord rest →
      scan b c (cs ++ rest) = ⟨t.kind, cs.length⟩)
    (solid : ∀ c ∈ t.text, isBlank c = false) (significant : t.isTrivia = false) :
    t.Stands b where
  first c cs text rest ended := by
    -- the kind and the length are those of the token, so the cut is the token
    have here := scanned c cs text rest ended
    obtain ⟨kind, _, _⟩ := t
    subst text
    simp [Token.first, here]
  nonblank c cs text := solid c (text ▸ List.mem_cons_self ..)
  significant := significant
  sameLine := by
    -- a line end is a blank, and the token has none
    rw [endsLine, decide_eq_false_iff_not]
    intro last
    have := solid _ (List.mem_of_getLast? last)
    exact absurd this (by decide)

/-- What follows in a name has no blanks. -/
theorem solid_of_isNameRest {cs : List Char} (name : isNameRest cs = true) :
    ∀ c ∈ cs, isBlank c = false := by
  induction cs using isNameRest.induct with
  | case1 => exact nofun
  | case2 c cs ih =>
    obtain ⟨start, name⟩ := Bool.and_eq_true_iff.mp (by simpa [isNameRest] using name)
    have solid := isBlank_of_isSolid (isSolid_of_isNameChar (isNameChar_of_isNameStart start))
    -- the two colons and the character behind them
    simp only [List.forall_mem_cons]
    exact ⟨by decide, by decide, solid, ih name⟩
  | case3 c cs other ih =>
    simp only [isNameRest, Bool.and_eq_true] at name
    have solid := isBlank_of_isSolid (isSolid_of_isNameChar name.1)
    exact List.forall_mem_cons.mpr ⟨solid, ih name.2⟩

/-- A name has no blanks. -/
theorem solid_of_isName {cs : List Char} (name : isName cs = true) :
    ∀ c ∈ cs, isBlank c = false := by
  cases cs with
  | nil => exact nofun
  | cons c cs =>
    obtain ⟨start, tail⟩ := Bool.and_eq_true_iff.mp name
    have solid := isBlank_of_isSolid (isSolid_of_isNameChar (isNameChar_of_isNameStart start))
    exact List.forall_mem_cons.mpr ⟨solid, solid_of_isNameRest tail⟩

/-- An identifier stands away from the start of a line. -/
theorem stands_ident (name : isName t.text = true) (noKeyword : keyword? t.text = none)
    (noList : t.text ≠ ['q', 'w']) (kind : t.kind = .ident) : t.Stands false := by
  apply stands_of_scan ?_ (solid_of_isName name) (by rw [isTrivia, kind]; rfl)
  intro c cs text rest ended
  rw [text] at name noKeyword noList
  rw [scan_name name noList ended, noKeyword, kind]
  rfl

/-- A keyword stands everywhere. -/
theorem stands_keyword (entry : (t.text, t.kind) ∈ keywordTable) : t.Stands b := by
  -- each keyword is a name that is found in the table, and none begins like a marker
  have names : ∀ e ∈ keywordTable, isName e.1 = true ∧ keyword? e.1 = some e.2 ∧
      e.1 ≠ ['q', 'w'] ∧ e.1.head? ≠ some '_' ∧ e.1.head? ≠ some '=' ∧ e.2.isTrivia = false := by
    decide
  obtain ⟨name, keyword, noList, noMarker, noEquals, significant⟩ := names _ entry
  apply stands_of_scan ?_ (solid_of_isName name) significant
  intro c cs text rest ended
  simp only [text] at name keyword noList noMarker noEquals
  have here : scan false c (cs ++ rest) = ⟨t.kind, cs.length⟩ := by
    rw [scan_name name noList ended, keyword]
    rfl
  cases b with
  | false => exact here
  | true => rw [scan_atLineStart _ (by simpa using noMarker) (by simpa using noEquals), here]

/-- Punctuation stands everywhere, except for an equals sign that begins a line. -/
theorem stands_punctuation (entry : (t.text, t.kind) ∈ punctuationTable)
    (plain : b = true → t.text.head? ≠ some '=') : t.Stands b := by
  have solid : punctuationTable.all (fun e => e.1.all (!isBlank ·) && !e.2.isTrivia) = true := by
    decide
  have here := List.all_eq_true.mp solid _ entry
  simp only [Bool.and_eq_true, List.all_eq_true, Bool.not_eq_true'] at here
  apply stands_of_scan ?_ here.1 here.2
  intro c cs text rest ended
  rw [text] at entry plain
  exact scan_punctuation entry ended (by simpa using plain)

/-- A number stands everywhere. -/
theorem stands_number (digits : t.text.all Char.isDigit = true) (kind : t.kind = .number) :
    t.Stands b := by
  have digit : ∀ c ∈ t.text, c.isDigit = true := List.all_eq_true.mp digits
  apply stands_of_scan ?_ ?_ (by rw [isTrivia, kind]; rfl)
  · intro c cs text rest ended
    rw [text] at digits digit
    rw [kind]
    exact scan_digits (digit c (List.mem_cons_self ..))
      (List.all_eq_true.mpr fun d hd => digit d (List.mem_cons_of_mem _ hd)) ended b
  · intro c hc
    have inside : isNameChar c = true := by rw [isNameChar, digit c hc, Bool.or_true]
    exact isBlank_of_isSolid (isSolid_of_isNameChar inside)

/-- A sigil with a name stands. -/
theorem stands_variable {sigil : Char} {name : List Char} (text : t.text = sigil :: name)
    (isName : isName name = true)
    (known : (sigil, t.kind) ∈ [('$', Kind.scalarName), ('@', .arrayName), ('%', .hashName)]) :
    t.Stands b := by
  -- whichever sigil it is, it is no blank, and no variable is trivia
  have sigils : isBlank sigil = false ∧ t.kind.isTrivia = false := by
    simp only [List.mem_cons, Prod.mk.injEq, List.not_mem_nil, or_false] at known
    rcases known with ⟨rfl, kind⟩ | ⟨rfl, kind⟩ | ⟨rfl, kind⟩ <;> rw [kind] <;> decide
  apply stands_of_scan ?_ ?_ sigils.2
  · intro c cs text' rest ended
    obtain ⟨rfl, rfl⟩ := List.cons.inj (text.symm.trans text')
    simp only [List.mem_cons, Prod.mk.injEq, List.not_mem_nil, or_false] at known
    rcases known with ⟨rfl, kind⟩ | ⟨rfl, kind⟩ | ⟨rfl, kind⟩ <;> rw [kind]
    · exact scan_scalar isName ended b
    · exact scan_array isName ended b
    · exact scan_hash isName ended b
  · rw [text]
    exact List.forall_mem_cons.mpr ⟨sigils.1, solid_of_isName isName⟩

end Token

end PerlOutline.Syntax
