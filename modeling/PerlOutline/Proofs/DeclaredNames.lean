import PerlOutline.Proofs.Codec
import PerlOutline.Proofs.Gathering
import PerlOutline.Proofs.Spacing

/-!
# Names of declarations

Every stub of a text can be persisted: its name is not empty, and its texts are no longer than the
text. A name token never ends in a colon, so something follows the last pair of colons in it.

## Layers
- **`ProperName`**: texts with a character other than a colon at their end.
- **Lexemes** that name something do so properly.
- **Splitting** a proper name leaves a name.
- **Stubs** of texts.
-/

namespace PerlOutline.Syntax

open PerlOutline.Source (byteWidth)

/-! ## Proper names -/

/-- The text has a character at its end that is no colon. -/
def ProperName (name : List Char) : Prop :=
  ∃ before last, name = before ++ [last] ∧ last ≠ ':'

/-- A single character is a proper name unless it is a colon. -/
theorem properName_singleton {c : Char} (h : c ≠ ':') : ProperName [c] :=
  ⟨[], c, rfl, h⟩

/-- A proper name has a last character. -/
theorem ProperName.ne_nil {name : List Char} (h : ProperName name) : name ≠ [] := by
  obtain ⟨before, last, rfl, _⟩ := h
  simp

/-- The end of a name makes it proper, whatever stands before it. -/
theorem ProperName.append_left (before : List Char) {name : List Char} (h : ProperName name) :
    ProperName (before ++ name) := by
  obtain ⟨inner, last, rfl, other⟩ := h
  exact ⟨before ++ inner, last, (List.append_assoc ..).symm, other⟩

/-- What goes on a proper name without colons leaves it proper. -/
theorem ProperName.append {name : List Char} (h : ProperName name) {more : List Char}
    (noColon : ∀ c ∈ more, c ≠ ':') : ProperName (name ++ more) := by
  -- with nothing more the name ends as before, and otherwise with a character of the rest
  rcases List.eq_nil_or_concat more with rfl | ⟨inner, last, rfl⟩
  · rwa [List.append_nil]
  · rw [List.concat_eq_append, ← List.append_assoc]
    exact ⟨name ++ inner, last, rfl, noColon last (by simp)⟩

namespace Lexeme

/-- What goes on as names do does not end in a colon. -/
theorem properName_nameTail {name : List Char} (h : ProperName name) (cs : List Char) :
    ProperName (name ++ cs.take (nameTail cs)) := by
  induction cs using nameTail.induct generalizing name with
  | case1 => simpa using h
  -- one more character of the segment
  | case2 c cs inside ih =>
    have next : ProperName (name ++ [c]) := by
      apply h.append
      simpa using ne_of_class inside (by decide)
    rw [nameTail.eq_def]
    simpa [inside] using ih next
  -- two colons with the start of a segment behind them: the name ends with that start
  | case3 d e es segment _ ih =>
    have start : isNameStart e = true := (Bool.and_eq_true_iff.mp segment).2
    have next : ProperName (name ++ [':', d] ++ [e]) :=
      (properName_singleton (ne_of_class start (by decide))).append_left _
    rw [nameTail.eq_2, if_neg (by decide), if_pos rfl, if_pos segment]
    simpa using ih next
  -- Colons without a segment after them are not taken.
  | case4 d e es other outside =>
    rw [nameTail.eq_def]
    simpa [outside, other] using h
  | case5 cs short outside =>
    rw [nameTail.eq_3 _ _ short]
    simpa [outside] using h
  | case6 c cs outside other =>
    rw [nameTail.eq_def]
    simpa [outside, other] using h

/-- Characters of a class without colons go on a name. -/
theorem properName_run {name : List Char} (h : ProperName name) {p : Char → Bool}
    (noColon : p ':' = false) (cs : List Char) : ProperName (name ++ cs.take (run p cs)) := by
  rw [run, ← List.prefix_iff_eq_take.mp (List.takeWhile_prefix p)]
  apply h.append
  intro c member
  exact ne_of_class (List.all_eq_true.mp List.all_takeWhile c member) noColon

end Lexeme

/-! ## Lexemes -/

/-- How many characters stand before the name in a token of a kind that names something. -/
def sigilWidth? : Kind → Option Nat
  | .ident => some 0
  | .scalarName | .arrayName | .hashName => some 1
  | _ => none

namespace Lexeme

/-- If the lexeme of a text names something, it does so properly. -/
def Proper (c : Char) (cs : List Char) (lexeme : Lexeme) : Prop :=
  ∀ width, sigilWidth? lexeme.kind = some width →
    ProperName ((c :: cs.take lexeme.more).drop width)

variable {c : Char} {cs : List Char} {lexeme : Lexeme}

/-- Of a lexeme that names nothing there is nothing to show. -/
theorem proper_of_nameless (h : sigilWidth? lexeme.kind = none) : lexeme.Proper c cs := by
  intro width named
  rw [h] at named
  contradiction

/-- An identifier names all that it consists of. -/
theorem proper_ident {more : Nat} (h : ProperName (c :: cs.take more)) :
    Proper c cs ⟨.ident, more⟩ := by
  intro width named
  obtain rfl := Option.some.inj named
  exact h

/-- What begins with a sigil names what follows the sigil. -/
theorem proper_sigiled {kind : Kind} {more : Nat} (sigil : sigilWidth? kind = some 1)
    (h : ProperName (cs.take more)) : Proper c cs ⟨kind, more⟩ := by
  intro width named
  obtain rfl := Option.some.inj (sigil.symm.trans named)
  exact h

/-! ### Lexemes that name nothing -/

/-- Sections name nothing. -/
theorem nameless_section (h : section? c cs = some lexeme) : sigilWidth? lexeme.kind = none := by
  unfold section? at h
  split at h
  · rw [← Option.some.inj h]; rfl
  · obtain ⟨_, ⟨⟩⟩ := Option.ite_none_right_eq_some.mp h
    rfl

/-- However a string ends, it names nothing. -/
theorem nameless_stringTail (quote : Char) (count : Nat) (text : List Char) :
    sigilWidth? (stringTail quote count text).kind = none := by
  induction count, text using stringTail.induct quote with
  | case1 => rfl
  | _ => rw [stringTail.eq_def]; simp_all [sigilWidth?]

/-- Strings name nothing. -/
theorem nameless_string (h : string? c cs = some lexeme) : sigilWidth? lexeme.kind = none := by
  obtain ⟨_, ⟨⟩⟩ := Option.ite_none_right_eq_some.mp h
  exact nameless_stringTail c 0 cs

/-- Blanks name nothing. -/
theorem nameless_blanks (h : blanks? c cs = some lexeme) : sigilWidth? lexeme.kind = none := by
  obtain ⟨_, ⟨⟩⟩ := Option.ite_none_right_eq_some.mp h
  rfl

/-- Comments name nothing. -/
theorem nameless_comment (h : comment? c cs = some lexeme) : sigilWidth? lexeme.kind = none := by
  obtain ⟨_, ⟨⟩⟩ := Option.ite_none_right_eq_some.mp h
  rfl

/-- Numbers name nothing. -/
theorem nameless_number (h : number? c cs = some lexeme) : sigilWidth? lexeme.kind = none := by
  obtain ⟨_, ⟨⟩⟩ := Option.ite_none_right_eq_some.mp h
  rfl

/-- Punctuation names nothing, which is seen from its table. -/
theorem nameless_punctuation (h : punctuation? c cs = some lexeme) :
    sigilWidth? lexeme.kind = none := by
  obtain ⟨entry, found, rfl⟩ := Option.map_eq_some_iff.mp h
  have nameless : ∀ entry ∈ punctuationTable, sigilWidth? entry.2 = none := by decide
  exact nameless entry (List.mem_of_find?_eq_some found)

/-! ### Lexemes that may name something -/

/-- What is no list after all is a name. -/
theorem wordListTail?_cases {opened : Nat} (h : wordListTail? opened cs = some lexeme) :
    sigilWidth? lexeme.kind = none ∨ lexeme = ⟨.ident, opened + nameTail cs⟩ := by
  unfold wordListTail? at h
  split at h
  · -- a delimiter opens a list, whether it is closed or not
    next close _ =>
    left
    by_cases closed : run (· ≠ close) cs.tail < cs.tail.length
    · rw [← Option.some.inj ((if_pos closed).symm.trans h)]; rfl
    · rw [← Option.some.inj ((if_neg closed).symm.trans h)]; rfl
  · obtain ⟨_, ⟨⟩⟩ := Option.ite_none_left_eq_some.mp h
    exact .inr rfl

/-- Blanks after the quoting word belong to the name if no list is opened. -/
theorem proper_wordList (h : wordList? c cs = some lexeme) : lexeme.Proper c cs := by
  obtain ⟨quoting, read⟩ := Option.ite_none_right_eq_some.mp h
  simp only [Bool.and_eq_true, decide_eq_true_eq] at quoting
  obtain ⟨rfl, second⟩ := quoting
  obtain ⟨text, rfl⟩ := List.head?_eq_some_iff.mp second
  rcases wordListTail?_cases read with nameless | rfl
  · exact proper_of_nameless nameless
  · apply proper_ident
    -- the two letters, the blanks behind them, and how a name goes on from there
    have word : ProperName ['q', 'w'] := ⟨['q'], 'w', rfl, by decide⟩
    have blanks := properName_run word (p := isInlineBlank) (by decide) text
    have name := properName_nameTail blanks (text.drop (run isInlineBlank text))
    rw [List.append_assoc, ← List.take_add] at name
    have total (blanks tail : Nat) : 1 + blanks + tail = blanks + tail + 1 := by omega
    rw [List.tail_cons, total, List.take_succ_cons]
    exact name

/-- What a name begins with and how it goes on. -/
theorem properName_of_start (start : isNameStart c = true) (cs : List Char) :
    ProperName (c :: cs.take (nameTail cs)) :=
  properName_nameTail (properName_singleton (ne_of_class start (by decide))) cs

/-- A word is a name, or a keyword, which names nothing. -/
theorem word?_cases (h : word? c cs = some lexeme) :
    isNameStart c = true ∧
      (sigilWidth? lexeme.kind = none ∨ lexeme = ⟨.ident, nameTail cs⟩) := by
  obtain ⟨start, read⟩ := Option.ite_none_right_eq_some.mp h
  refine ⟨start, ?_⟩
  dsimp only at read
  split at read
  · exact .inr (Option.some.inj read).symm
  · rw [← Option.some.inj read]
    cases keyword : keyword? (c :: cs.take (nameTail cs)) with
    | none => exact .inr rfl
    | some kind =>
      obtain ⟨entry, found, rfl⟩ := Option.map_eq_some_iff.mp keyword
      have nameless : ∀ entry ∈ keywordTable, sigilWidth? entry.2 = none := by decide
      exact .inl (nameless entry (List.mem_of_find?_eq_some found))

/-- A word names properly or is a keyword. -/
theorem proper_word (h : word? c cs = some lexeme) : lexeme.Proper c cs := by
  obtain ⟨start, nameless | rfl⟩ := word?_cases h
  · exact proper_of_nameless nameless
  · exact proper_ident (properName_of_start start cs)

/-- Where a name has a length, it is proper. -/
theorem properName_nameLength (named : 0 < nameLength cs) :
    ProperName (cs.take (nameLength cs)) := by
  cases cs with
  | nil => simp [nameLength] at named
  | cons c cs =>
    by_cases start : isNameStart c = true
    · simp only [nameLength, start, if_true, List.take_succ_cons]
      exact properName_of_start start cs
    · simp [nameLength, start] at named

/-- What a dollar sign begins names properly, unless it asks for the last index of an array. -/
theorem proper_scalar (h : scalar? cs = some lexeme) : lexeme.Proper c cs := by
  cases cs with
  | nil => simp [scalar?] at h
  | cons d ds =>
    simp only [scalar?] at h
    split at h
    · -- a name behind the dollar sign
      next start =>
      rw [← Option.some.inj h]
      exact proper_sigiled rfl (properName_of_start start ds)
    split at h
    · -- digits, which name what was matched
      next digit =>
      rw [← Option.some.inj h]
      have first : ProperName [d] := properName_singleton (ne_of_class digit (by decide))
      exact proper_sigiled rfl (properName_run first (by decide) ds)
    split at h
    · -- one special character, of which none is a colon
      next special =>
      rw [← Option.some.inj h]
      have other : d ≠ ':' := by
        rintro rfl
        simp at special
      exact proper_sigiled rfl (properName_singleton other)
    split at h
    · rw [← Option.some.inj h]; exact proper_of_nameless rfl
    -- Two colons stand before a name of the main package.
    obtain ⟨main, ⟨⟩⟩ := Option.ite_none_right_eq_some.mp h
    simp only [Bool.and_eq_true, decide_eq_true_eq] at main
    obtain ⟨⟨rfl, second⟩, named⟩ := main
    obtain ⟨es, rfl⟩ := List.head?_eq_some_iff.mp second
    cases es with
    | nil => simp at named
    | cons e es =>
      have start : isNameStart e = true := by simpa using named
      have first : ProperName [':', ':', e] :=
        (properName_singleton (ne_of_class start (by decide))).append_left [':', ':']
      -- the name goes on with characters of names from its start, which is no colon
      have width : run isNameChar (e :: es) = run isNameChar es + 1 := by
        simp [run, isNameChar, start]
      apply proper_sigiled rfl
      rw [List.tail_cons, width]
      exact properName_run first (by decide) es

/-- A variable names something properly, whatever its sigil is. -/
theorem proper_sigiled? (h : sigiled? c cs = some lexeme) : lexeme.Proper c cs := by
  unfold sigiled? at h
  split at h
  · exact proper_scalar h
  split at h
  · next array =>
    rw [← Option.some.inj h]
    exact proper_sigiled rfl (properName_nameLength (by simp_all))
  · obtain ⟨hash, ⟨⟩⟩ := Option.ite_none_right_eq_some.mp h
    exact proper_sigiled rfl (properName_nameLength (by simp_all))

/-- What holds of a lexeme that names nothing, and of each one that may name something, holds of
whatever a text begins with. -/
theorem scan_cases {P : Lexeme → Prop} (nameless : ∀ l : Lexeme, sigilWidth? l.kind = none → P l)
    (wordList : ∀ l, wordList? c cs = some l → P l) (word : ∀ l, word? c cs = some l → P l)
    (sigiled : ∀ l, sigiled? c cs = some l → P l) (atLineStart : Bool) :
    P (scan atLineStart c cs) := by
  -- One reading after the other is tried, and the first that fits is taken.
  have orElse {first second : Option Lexeme} (h : ∀ l, first = some l → P l)
      (h' : ∀ l, second = some l → P l) : ∀ l, (first <|> second) = some l → P l := by
    intro l found
    cases first with
    | none => exact h' l found
    | some l' => exact h l found
  -- a section is looked for only where a line begins
  have sections : ∀ l, (if atLineStart then section? c cs else none) = some l → P l := by
    intro l found
    exact nameless l (nameless_section (Option.ite_none_right_eq_some.mp found).2)
  -- where nothing fits there is a token for the error, which names nothing
  have anything {found : Option Lexeme} (h : ∀ l, found = some l → P l) :
      P (found.getD ⟨.error, 0⟩) := by
    cases found with
    | none => exact nameless _ rfl
    | some l => exact h l rfl
  exact anything <| orElse sections <| orElse (fun l h => nameless l (nameless_string h)) <|
    orElse wordList <| orElse (fun l h => nameless l (nameless_blanks h)) <|
    orElse (fun l h => nameless l (nameless_comment h)) <| orElse word <|
    orElse (fun l h => nameless l (nameless_number h)) <| orElse sigiled
    (fun l h => nameless l (nameless_punctuation h))

/-- Whatever a text begins with names something properly or names nothing. -/
theorem proper_scan (atLineStart : Bool) (c : Char) (cs : List Char) :
    (scan atLineStart c cs).Proper c cs :=
  scan_cases (fun _ => proper_of_nameless) (fun _ => proper_wordList) (fun _ => proper_word)
    (fun _ => proper_sigiled?) atLineStart

end Lexeme

/-- A token of a text was the first one of what was left of the text. -/
theorem exists_first_of_mem_tokenizeFrom {atLineStart : Bool} {size : Nat} {text : List Char}
    {t : Token} (member : t ∈ tokenizeFrom atLineStart size text) :
    ∃ atLineStart c cs, t = Token.first atLineStart c cs := by
  induction size generalizing atLineStart text with
  | zero => simp [tokenizeFrom] at member
  | succ size ih =>
    cases text with
    | nil => simp [tokenizeFrom] at member
    | cons c cs =>
      rcases List.mem_cons.mp member with rfl | later
      · exact ⟨atLineStart, c, cs, rfl⟩
      · exact ih later

/-- The name in a token of a text is proper. -/
theorem properName_of_mem_tokenizeFrom {atLineStart : Bool} {size : Nat} {text : List Char}
    {t : Token} (member : t ∈ tokenizeFrom atLineStart size text) {width : Nat}
    (named : sigilWidth? t.kind = some width) : ProperName (t.text.drop width) := by
  obtain ⟨start, c, cs, rfl⟩ := exists_first_of_mem_tokenizeFrom member
  exact Lexeme.proper_scan start c cs width named

end PerlOutline.Syntax

/-! ## Splitting -/

namespace PerlOutline.Element.QualifiedName

open PerlOutline.Source (byteWidth byteWidth_append byteWidth_cons)
open PerlOutline.Syntax (ProperName)

/-- The bytes of a string are those of its characters. -/
theorem utf8ByteSize_ofList (cs : List Char) : (String.ofList cs).utf8ByteSize = byteWidth cs := by
  induction cs with
  | nil => rfl
  | cons c cs ih =>
    have first : String.ofList ([c] ++ cs) = String.ofList [c] ++ String.ofList cs :=
      String.ofList_append
    rw [List.singleton_append] at first
    rw [first, String.utf8ByteSize_append, ih, byteWidth_cons, ← String.singleton_eq_ofList,
      String.utf8ByteSize_singleton]

/-- What is left of a text is no wider than the text. -/
theorem byteWidth_drop_le (n : Nat) (cs : List Char) : byteWidth (cs.drop n) ≤ byteWidth cs := by
  have parts := byteWidth_append (cs.take n) (cs.drop n)
  rw [List.take_append_drop] at parts
  exact parts ▸ Nat.le_add_left ..

/-- The beginning of a text is no wider than the text. -/
theorem byteWidth_take_le (n : Nat) (cs : List Char) : byteWidth (cs.take n) ≤ byteWidth cs := by
  have parts := byteWidth_append (cs.take n) (cs.drop n)
  rw [List.take_append_drop] at parts
  exact parts ▸ Nat.le_add_right ..

/-- At the separator there are two colons. -/
theorem drop_lastSeparator? {name : List Char} {i : Nat} (h : lastSeparator? name = some i) :
    ∃ rest, name.drop i = ':' :: ':' :: rest := by
  induction name generalizing i with
  | nil => simp [lastSeparator?] at h
  | cons c cs ih =>
    unfold lastSeparator? at h
    split at h
    · -- the separator comes later
      next j later =>
      obtain ⟨rest, found⟩ := ih later
      exact ⟨rest, Option.some.inj h ▸ found⟩
    · -- the separator is here
      obtain ⟨here, ⟨⟩⟩ := Option.ite_none_right_eq_some.mp h
      simp only [Bool.and_eq_true, decide_eq_true_eq] at here
      obtain ⟨rfl, second⟩ := here
      obtain ⟨rest, rfl⟩ := List.head?_eq_some_iff.mp second
      exact ⟨rest, rfl⟩

/-- Something follows the last pair of colons in a proper name. -/
theorem drop_separator_ne_nil {name : List Char} (proper : ProperName name) {i : Nat}
    (h : lastSeparator? name = some i) : name.drop (i + 2) ≠ [] := by
  intro nothing
  obtain ⟨rest, found⟩ := drop_lastSeparator? h
  obtain ⟨before, last, rfl, other⟩ := proper
  -- were there nothing behind the colons, the name would end in one
  rw [← List.drop_drop, found] at nothing
  obtain rfl : rest = [] := nothing
  have whole := List.take_append_drop i (before ++ [last])
  rw [found] at whole
  have last_eq := congrArg List.getLast? whole
  simp at last_eq
  exact other last_eq.symm

/-- No part of a proper name that is split off as a name is empty. -/
theorem name_ofChars_ne {name : List Char} (proper : ProperName name) :
    (ofChars name).name ≠ "" := by
  unfold ofChars
  split
  · -- without a separator the whole name is the name
    exact mt String.ofList_eq_empty_iff.mp proper.ne_nil
  · next separator =>
    exact mt String.ofList_eq_empty_iff.mp (drop_separator_ne_nil proper separator)
  · next separator =>
    exact mt String.ofList_eq_empty_iff.mp (drop_separator_ne_nil proper separator)

/-- Splitting a name makes it no longer. -/
theorem utf8ByteSize_name_le (name : List Char) :
    (ofChars name).name.utf8ByteSize ≤ byteWidth name := by
  unfold ofChars
  split
  · exact Nat.le_of_eq (utf8ByteSize_ofList name)
  · rw [utf8ByteSize_ofList]
    exact byteWidth_drop_le ..
  · rw [utf8ByteSize_ofList]
    exact byteWidth_drop_le ..

/-- The package that is split off is no longer than the name, or it is the main one. -/
theorem utf8ByteSize_inPackage_le {name : List Char} {inPackage : String}
    (h : (ofChars name).inPackage = some inPackage) :
    inPackage = mainPackage ∨ inPackage.utf8ByteSize ≤ byteWidth name := by
  unfold ofChars at h
  split at h
  · simp at h
  · exact .inl (Option.some.inj h).symm
  · rw [← Option.some.inj h, utf8ByteSize_ofList]
    exact .inr (byteWidth_take_le ..)

end PerlOutline.Element.QualifiedName

/-! ## Stubs -/

namespace PerlOutline.Stub

open PerlOutline.Element
open PerlOutline.Source (FileId byteWidth)
open PerlOutline.Syntax

/-- The stub comes back from its bytes. -/
def Storable (s : Stub) : Prop :=
  s.Fits ∧ s.name ≠ ""

/-- The name is what a token of the text names. -/
def NameIn (ts : List Token) (name : String) : Prop :=
  ∃ t ∈ ts, ∃ width, sigilWidth? t.kind = some width ∧ name = String.ofList (t.text.drop width)

variable {text : List Char} {name inPackage : String}

/-- A token is no wider than its text. -/
theorem width_le_of_mem {t : Token} {ts : List Token} (member : t ∈ ts) :
    t.width ≤ byteWidth (Token.spell ts) := by
  induction ts with
  | nil => simp at member
  | cons u ts ih =>
    rw [Token.spell_cons, Source.byteWidth_append]
    rcases List.mem_cons.mp member with rfl | later
    · exact Nat.le_add_right ..
    · exact Nat.le_trans (ih later) (Nat.le_add_left ..)

/-- The tokens of a text are no wider than the text. -/
theorem width_le (small : byteWidth text < 4294967296) {t : Token} (member : t ∈ tokenize text) :
    byteWidth t.text < 4294967296 := by
  have le := width_le_of_mem member
  rw [spell_tokenize] at le
  exact Nat.lt_of_le_of_lt le small

/-- The name of an enclosing package is that of the main one or is written in the text. -/
theorem size_of_packageIn (small : byteWidth text < 4294967296)
    (h : Placed.PackageIn (tokenize text) inPackage) : inPackage.utf8ByteSize < 4294967296 := by
  rcases h with rfl | ⟨t, member, -, rfl⟩
  · decide
  · rw [Token.string, QualifiedName.utf8ByteSize_ofList]
    exact width_le small member

/-- A name in a text splits into a name and a package, both of which are short. -/
theorem split_of_nameIn (small : byteWidth text < 4294967296)
    (named : NameIn (tokenize text) name) :
    name ≠ "" ∧ name.utf8ByteSize < 4294967296 ∧ (QualifiedName.ofString name).name ≠ "" ∧
      (QualifiedName.ofString name).name.utf8ByteSize < 4294967296 ∧
      ∀ inPackage, (QualifiedName.ofString name).inPackage = some inPackage →
        inPackage.utf8ByteSize < 4294967296 := by
  obtain ⟨t, member, width, kind, rfl⟩ := named
  -- the name is the end of a token, which is proper and short
  have proper : ProperName (t.text.drop width) := properName_of_mem_tokenizeFrom member kind
  have short : byteWidth (t.text.drop width) < 4294967296 :=
    Nat.lt_of_le_of_lt (QualifiedName.byteWidth_drop_le ..) (width_le small member)
  rw [QualifiedName.ofString, String.toList_ofList, QualifiedName.utf8ByteSize_ofList]
  refine ⟨mt String.ofList_eq_empty_iff.mp proper.ne_nil, short,
    QualifiedName.name_ofChars_ne proper,
    Nat.lt_of_le_of_lt (QualifiedName.utf8ByteSize_name_le _) short, ?_⟩
  intro inPackage written
  rcases QualifiedName.utf8ByteSize_inPackage_le written with rfl | le
  · decide
  · exact Nat.lt_of_le_of_lt le short

/-! ### Names of nodes -/

/-- A name in tokens is a name in more tokens. -/
theorem NameIn.mono {ts us : List Token} (h : NameIn ts name) (sub : ∀ t ∈ ts, t ∈ us) :
    NameIn us name :=
  h.imp fun t named => ⟨sub t named.1, named.2⟩

variable {n : Node} {maxDepth : Nat}

/-- The kind of the token that names what is declared. -/
def DeclarationKind.nameKind : DeclarationKind → Kind
  | .scalar => .scalarName
  | .array => .arrayName
  | .hash => .hashName
  | .sub | .package => .ident

/-- How many characters stand before the name in that token. -/
def DeclarationKind.sigilWidth (k : DeclarationKind) : Nat :=
  if k.declaresVariable then 1 else 0

/-- The name that is written in a declaration, without a sigil. -/
def writtenName? (k : DeclarationKind) (n : Node) : Option String :=
  (n.token? k.nameKind).map fun t => String.ofList (t.token.text.drop k.sigilWidth)

/-- The name that is written is that of a token of the node. -/
theorem nameIn_of_written {k : DeclarationKind} (h : writtenName? k n = some name) :
    NameIn n.ownTokens name := by
  obtain ⟨t, found, rfl⟩ := Option.map_eq_some_iff.mp h
  have same : t.token.kind = k.nameKind := by
    have wanted := List.find?_some found
    exact beq_iff_eq.mp wanted
  have named : sigilWidth? k.nameKind = some k.sigilWidth := by cases k <;> rfl
  exact ⟨t.token, List.mem_map_of_mem (List.mem_of_find?_eq_some found), _, same ▸ named, rfl⟩

/-- A part that is required and found is there. -/
theorem eq_some_of_require {α : Type} {part : Part} {found : Option α} {a : α}
    (h : n.require part found = .ok a) : found = some a := by
  rw [← Node.toOption_require n part found, h]
  rfl

/-- A result was mapped where there was a result. -/
theorem exists_of_map_eq_ok {ε α β : Type} {x : Except ε α} {f : α → β} {b : β}
    (h : x.map f = .ok b) : ∃ a, x = .ok a ∧ f a = b := by
  cases x with
  | error e => cases h
  | ok a => exact ⟨a, rfl, Except.ok.inj h⟩

/-- A variable that is declared is filed by the name behind its sigil. -/
theorem written_of_variable {k : DeclarationKind} {s : Stub} (kind : n.kind = k.nodeKind)
    (declares : k.declaresVariable = true) (h : summarizeVariable k n = .ok s) :
    s.kind = k ∧ ∃ written, writtenName? k n = some written ∧
      (s.name, s.inPackage) = placeName n written := by
  -- the steps of a summary, each of which succeeded
  obtain ⟨v, viewed, h⟩ := bind_eq_ok h
  obtain ⟨declaration, -, h⟩ := bind_eq_ok h
  obtain ⟨name, named, h⟩ := bind_eq_ok h
  obtain ⟨declarator, -, h⟩ := bind_eq_ok h
  obtain rfl := Except.ok.inj h
  refine ⟨rfl, name, ?_, rfl⟩
  -- the view is of the node, and its name stands behind the sigil in the token of its kind
  obtain rfl : v.node = n := View.node_of_ofNode? (eq_some_of_require viewed)
  obtain ⟨t, found, rfl⟩ := exists_of_map_eq_ok named
  have token : variableTokenKind v.node.kind = k.nameKind ∧ v.sigil.length = k.sigilWidth := by
    rw [Variable.sigil, kind]
    cases k with
    | scalar | array | hash => exact ⟨rfl, rfl⟩
    | sub | package => cases declares
  rw [writtenName?, ← token.1, ← token.2, eq_some_of_require found]
  rfl

/-- A sub is filed by the name that is written in its definition. -/
theorem written_of_sub {s : Stub} (h : summarizeSub n = .ok s) :
    s.kind = .sub ∧ ∃ written, writtenName? .sub n = some written ∧
      (s.name, s.inPackage) = placeName n written := by
  obtain ⟨d, viewed, h⟩ := bind_eq_ok h
  obtain ⟨name, named, h⟩ := bind_eq_ok h
  obtain rfl := Except.ok.inj h
  refine ⟨rfl, name, ?_, rfl⟩
  obtain rfl : d.node = n := View.node_of_ofNode? (eq_some_of_require viewed)
  obtain ⟨t, found, rfl⟩ := exists_of_map_eq_ok named
  rw [writtenName?, DeclarationKind.nameKind, eq_some_of_require found]
  rfl

/-- A package is filed by the whole name that is written, and not by its last part. -/
theorem written_of_package {s : Stub} (h : summarizePackage n = .ok s) :
    s.kind = .package ∧ writtenName? .package n = some s.name ∧
      s.inPackage = (QualifiedName.ofString s.name).inPackage.getD mainPackage := by
  obtain ⟨p, viewed, h⟩ := bind_eq_ok h
  obtain ⟨name, named, h⟩ := bind_eq_ok h
  obtain rfl := Except.ok.inj h
  refine ⟨rfl, ?_, rfl⟩
  obtain rfl : p.node = n := View.node_of_ofNode? (eq_some_of_require viewed)
  obtain ⟨t, found, rfl⟩ := exists_of_map_eq_ok named
  rw [writtenName?, DeclarationKind.nameKind, eq_some_of_require found]
  rfl

/-! ### Stubs of texts -/

/-- A package is short, whether it is written or the one around. -/
theorem getD_lt {found : Option String}
    (written : ∀ p, found = some p → p.utf8ByteSize < 4294967296)
    (around : inPackage.utf8ByteSize < 4294967296) :
    (found.getD inPackage).utf8ByteSize < 4294967296 := by
  cases found with
  | none => exact around
  | some p => exact written p rfl

/-- The stub of a node in a text can be stored, and its name is directly under the node. -/
theorem storable_of_summarize (small : byteWidth text < 4294967296)
    (member : n ∈ Node.allOf (Parse.ofTextWithin maxDepth text).placed) {k : DeclarationKind}
    (declares : k.declares n = true) {s : Stub} (h : k.summarize n = .ok s) :
    s.Storable ∧ n.ownTokens ≠ [] := by
  -- the tokens of the node are tokens of the text, and so are those of what contains it
  have inText (t : Token) (own : t ∈ n.ownTokens) : t ∈ tokenize text :=
    Node.mem_tokenize member own
  have around : n.enclosingPackage.utf8ByteSize < 4294967296 :=
    size_of_packageIn small (Node.packageIn_enclosingPackage member)
  have some_ {name : String} (named : NameIn n.ownTokens name) : n.ownTokens ≠ [] :=
    List.ne_nil_of_mem named.choose_spec.1
  -- a name that is split is short in both of its parts
  have placed {name : String} (named : NameIn n.ownTokens name)
      (same : (s.name, s.inPackage) = placeName n name) : s.Storable := by
    obtain ⟨-, -, notEmpty, short, written⟩ := split_of_nameIn small (named.mono inText)
    obtain ⟨hname, hpackage⟩ := Prod.mk.inj same
    rw [← hname] at notEmpty short
    exact ⟨⟨short, hpackage ▸ getD_lt written around⟩, notEmpty⟩
  simp only [DeclarationKind.declares, Bool.and_eq_true, beq_iff_eq] at declares
  -- a variable
  cases k with
  | scalar | array | hash =>
    obtain ⟨-, written, named, same⟩ := written_of_variable declares.1 rfl h
    have named := nameIn_of_written named
    exact ⟨placed named same, some_ named⟩
  | sub =>
    obtain ⟨-, written, named, same⟩ := written_of_sub h
    have named := nameIn_of_written named
    exact ⟨placed named same, some_ named⟩
  -- a package has its whole name, and only the package in front of it is split off
  | package =>
    obtain ⟨-, named, same⟩ := written_of_package h
    have named := nameIn_of_written named
    obtain ⟨notEmpty, short, -, -, written⟩ := split_of_nameIn small (named.mono inText)
    exact ⟨⟨⟨short, same ▸ getD_lt written (by decide)⟩, notEmpty⟩, some_ named⟩

end PerlOutline.Stub

namespace PerlOutline.Index

open PerlOutline.Element
open PerlOutline.Source (FileId byteWidth)
open PerlOutline.Syntax
open PerlOutline.Stub

variable {text : List Char}

/-- The stub of a declaration in a text can be stored. -/
theorem storable_of_stubOf? (small : byteWidth text < 4294967296) {n : Node}
    (member : n ∈ Node.allOf (Parse.ofText text).placed) {s : Stub} (h : stubOf? n = some s) :
    s.Storable ∧ n.ownTokens ≠ [] := by
  obtain ⟨summary, declared, made⟩ := Option.bind_eq_some_iff.mp h
  obtain ⟨k, -, declared⟩ := Option.bind_eq_some_iff.mp declared
  obtain ⟨declares, ⟨⟩⟩ := Option.ite_none_right_eq_some.mp declared
  refine storable_of_summarize small member declares ?_
  cases summary : k.summarize n with
  | error e => rw [summary] at made; cases made
  | ok s' => rw [summary] at made; exact congrArg _ (Option.some.inj made)

/-- Each stub is of a node with a token of its own, so a text has no more stubs than tokens. -/
theorem length_stubs_le (nodes : List Node)
    (owns : ∀ n ∈ nodes, ∀ s, stubOf? n = some s → n.ownTokens ≠ []) :
    (nodes.filterMap stubOf?).length ≤ (nodes.flatMap Node.ownTokens).length := by
  induction nodes with
  | nil => simp
  | cons n nodes ih =>
    have later := ih fun m hm => owns m (List.mem_cons_of_mem _ hm)
    rw [List.flatMap_cons, List.length_append]
    cases stub : stubOf? n with
    -- no stub, and perhaps no token either
    | none =>
      rw [List.filterMap_cons_none stub]
      omega
    -- a stub, and the token that names it
    | some s =>
      have own := List.length_pos_iff.mpr (owns n (List.mem_cons_self ..) s stub)
      rw [List.filterMap_cons_some stub, List.length_cons]
      omega

/-- A token has at least one byte. -/
theorem length_le_byteWidth (ts : List Token) : ts.length ≤ byteWidth (Token.spell ts) := by
  induction ts with
  | nil => simp
  | cons t ts ih =>
    have width := Source.byteWidth_pos t.text_ne_nil
    rw [List.length_cons, Token.spell_cons, Source.byteWidth_append]
    omega

/-- Whatever a text is, its stubs can be stored, and there are not too many of them. -/
theorem storable_stubs (small : byteWidth text < 4294967296) (file : FileId) :
    let stubs := (Outline.ofText file text).toOption.elim [] (·.stubs)
    (∀ s ∈ stubs, s.Storable) ∧ stubs.length < 4294967296 := by
  intro stubs
  -- the stubs are those of the declarations among the nodes
  have gathered : stubs = (Node.allOf (Parse.ofText text).placed).filterMap stubOf? :=
    Outline.stubs_ofText file text
  rw [gathered]
  constructor
  · intro s hs
    obtain ⟨n, member, stub⟩ := List.mem_filterMap.mp hs
    exact (storable_of_stubOf? small member stub).1
  · -- there are no more stubs than tokens, and no more tokens than bytes
    have fewer := length_stubs_le (Node.allOf (Parse.ofText text).placed) fun n member s stub =>
      (storable_of_stubOf? small member stub).2
    have tokens := (Node.perm_tokenize Grammar.defaultMaxDepth text).length_eq
    have width := length_le_byteWidth (tokenize text)
    rw [spell_tokenize] at width
    exact Nat.lt_of_le_of_lt (Nat.le_trans fewer (tokens ▸ width)) small

end PerlOutline.Index
