import PerlOutline.Proofs.Restyling
import PerlOutline.Proofs.Seam

/-!
# Sections that are no program

A block of documentation that begins a line is one token of trivia, whatever is written in it, and
so is a data section. What stands before it ends with blanks, and what stands behind it begins a
line, so a text with such a section is the same program as the text without it.

## Layers
- **Layout behind a line**: texts that are cut alike stay so behind a text that ends a line.
- **`Documentation`**: blocks of documentation, and the token that each of them is.
- **`SameProgram`**: texts that differ in trivia alone.
- **Texts** with sections and without.
-/

namespace PerlOutline.Syntax

open PerlOutline.Grammar.State (significant)
open Lexeme

/-! ## Layout behind a line -/

namespace Token

theorem layoutFrom_append (gap : Bool) (ts us : List Token) {t : Token}
    (trivia : t.isTrivia = true) :
    layoutFrom gap (ts ++ t :: us) = layoutFrom gap ts ++ layoutFrom true us := by
  induction ts generalizing gap with
  | nil => simp [layoutFrom, trivia]
  | cons u ts ih =>
    simp only [List.cons_append, layoutFrom, ih]
    split <;> rfl

/-- Behind trivia, more trivia does not count. -/
theorem layoutFrom_significant (ts : List Token) :
    layoutFrom true (significant ts) = layoutFrom true ts := by
  induction ts with
  | nil => rfl
  | cons t ts ih =>
    cases trivia : t.isTrivia with
    | true => simpa [significant, layoutFrom, trivia] using ih
    | false => simp [significant, trivia]

theorem Alike.of_layoutFrom {gap : Bool} {a b : List Token}
    (same : layoutFrom gap a = layoutFrom gap b) : Alike a b where
  tokens := by rw [← layoutFrom_snd gap a, same, layoutFrom_snd]
  gaps := by
    -- Whether trivia came before shows in the first gap only, and that one is dropped here.
    have tails (ts : List Token) : (layout ts).tail = (layoutFrom gap ts).tail := by
      rw [layoutFrom_tail]
      exact layoutFrom_tail false ts
    simp only [Token.gaps, tails, same]

end Token

/-- A text is empty, or its last token is blanks that end with a newline. -/
def EndsLine (a : List Char) : Prop :=
  a = [] ∨ ∃ t, (tokenize a).getLast? = some t ∧ t.kind = .whitespace ∧ t.text.getLast? = some '\n'

/-- What begins a line is cut the same behind any text that ends one. -/
theorem EndsLine.alike {a x y : List Char} (ends : EndsLine a)
    (same : Token.layoutFrom true (tokensFrom true x) = Token.layoutFrom true (tokensFrom true y)) :
    Token.Alike (tokenize (a ++ x)) (tokenize (a ++ y)) := by
  rcases ends with rfl | ⟨t, last, kind, newline⟩
  · exact .of_layoutFrom same
  · -- The text ends with a newline, and it is cut there alike whatever comes behind it.
    obtain ⟨ts, tokens⟩ := List.getLast?_eq_some_iff.mp last
    obtain ⟨init, text⟩ := List.getLast?_eq_some_iff.mp newline
    have spelled : a = (Token.spell ts ++ init) ++ ['\n'] := by
      rw [← spell_tokenize a, tokens, Token.spell_append, List.append_assoc, ← text]
      simp [Token.spell]
    have blanks : (tokensFrom true ((Token.spell ts ++ init) ++ ['\n'])).getLast?.map (·.kind) =
        some .whitespace := by
      rw [← spelled, ← kind]
      exact congrArg _ last
    obtain ⟨shared, -, -, -, behind⟩ := exists_shared_tokens blanks
    -- The layout of the whole is that of the text that ends the line, and then that of the rest.
    have layout (more : List Char) : Token.layoutFrom false (tokenize (a ++ more)) =
        Token.layoutFrom false shared ++ Token.layoutFrom true (tokensFrom true more) := by
      obtain ⟨gap, after, cut, trivia, later⟩ := behind more
      have whole : tokenize (a ++ more) = shared ++ gap :: after := by
        rw [spelled, List.append_assoc]
        exact cut
      rw [whole, Token.layoutFrom_append false shared after trivia, ← Token.layoutFrom_significant,
        later, Token.layoutFrom_significant]
    have whole : Token.layoutFrom false (tokenize (a ++ x)) =
        Token.layoutFrom false (tokenize (a ++ y)) := by
      rw [layout, layout, same]
    exact .of_layoutFrom whole

/-! ## Documentation -/

/-- A block of documentation: a line that begins with an equals sign and a letter, lines of which
none begins with the closing command, and a line that does. -/
structure Documentation where
  letter : Char
  /-- What stands behind the letter. -/
  title : List Char
  lines : List (List Char)
  /-- What stands behind the closing command. -/
  closing : List Char
  isAlpha_letter : letter.isAlpha = true
  title_line : '\n' ∉ title
  lines_line : ∀ line ∈ lines, '\n' ∉ line
  lines_open : ∀ line ∈ lines, ¬ closingCommand <+: line
  closing_line : '\n' ∉ closing

namespace Documentation

/-- The lines behind the first one. -/
def body (d : Documentation) : List Char :=
  d.lines.flatMap (· ++ ['\n']) ++ (closingCommand ++ d.closing ++ ['\n'])

def text (d : Documentation) : List Char :=
  '=' :: d.letter :: d.title ++ '\n' :: d.body

end Documentation

namespace Lexeme

theorem lineLength_append {line : List Char} (oneLine : '\n' ∉ line) (rest : List Char) :
    lineLength (line ++ '\n' :: rest) = line.length + 1 := by
  have inside : ∀ c ∈ line, decide (c ≠ '\n') = true := fun c member =>
    decide_eq_true fun same => oneLine (same ▸ member)
  -- The newline ends the run, for there is none in the line.
  have body : run (· ≠ '\n') (line ++ '\n' :: rest) = line.length := by
    rw [run, List.takeWhile_append_of_pos inside, List.takeWhile_cons_of_neg (by decide),
      List.append_nil]
  rw [lineLength, body, if_pos (by rw [List.length_append, List.length_cons]; omega)]

/-- A block goes on behind a line that does not close it. -/
theorem documentationTail_line {b : Bool} {line : List Char} (oneLine : '\n' ∉ line)
    (stays : b = true → ¬ closingCommand <+: line) (count : Nat) (rest : List Char) :
    documentationTail b count (line ++ '\n' :: rest) =
      documentationTail true (count + (line.length + 1)) rest := by
  -- The closing command has no newline in it, so it would have to be in this line.
  have closed : (b && closingCommand.isPrefixOf (line ++ '\n' :: rest)) = false := by
    rw [isPrefixOf_seam (.line rest) line (by decide)]
    cases b with
    | false => rfl
    | true =>
      rw [Bool.true_and, Bool.eq_false_iff, Ne, List.isPrefixOf_iff_prefix]
      exact stays rfl
  induction line generalizing b count with
  | nil =>
    rw [List.nil_append] at closed ⊢
    rw [documentationTail, closed]
    rfl
  | cons c line ih =>
    -- Behind the first character no command can begin before the next line.
    have other : c ≠ '\n' := fun same => oneLine (same ▸ List.mem_cons_self ..)
    have further := ih (b := false) (fun member => oneLine (List.mem_cons_of_mem _ member))
      (fun same => Bool.noConfusion same) (count + 1) rfl
    rw [List.cons_append] at closed ⊢
    rw [documentationTail, closed]
    simp only [Bool.false_eq_true, if_false, decide_eq_false other, further, List.length_cons]
    congr 1
    omega

/-- A block goes on behind lines that do not close it. -/
theorem documentationTail_lines {lines : List (List Char)} (oneLine : ∀ line ∈ lines, '\n' ∉ line)
    (stays : ∀ line ∈ lines, ¬ closingCommand <+: line) (count : Nat) (rest : List Char) :
    documentationTail true count (lines.flatMap (· ++ ['\n']) ++ rest) =
      documentationTail true (count + (lines.flatMap (· ++ ['\n'])).length) rest := by
  induction lines generalizing count with
  | nil => rfl
  | cons line lines ih =>
    obtain ⟨first, later⟩ := List.forall_mem_cons.mp oneLine
    obtain ⟨firstStays, laterStay⟩ := List.forall_mem_cons.mp stays
    have whole : (line :: lines).flatMap (· ++ ['\n']) ++ rest =
        line ++ '\n' :: (lines.flatMap (· ++ ['\n']) ++ rest) := by
      simp
    rw [whole, documentationTail_line first (fun _ => firstStays), ih later laterStay]
    congr 1
    simp only [List.flatMap_cons, List.length_append, List.length_singleton]
    omega

/-- A block ends with the line that closes it. -/
theorem documentationTail_closing {closing : List Char} (oneLine : '\n' ∉ closing) (count : Nat)
    (rest : List Char) :
    documentationTail true count (closingCommand ++ closing ++ '\n' :: rest) =
      count + (closingCommand ++ closing ++ ['\n']).length := by
  have oneLine' : '\n' ∉ closingCommand ++ closing := by
    rw [List.mem_append, not_or]
    exact ⟨by decide, oneLine⟩
  -- The line that closes begins with the command.
  have closes : closingCommand.isPrefixOf (closingCommand ++ closing ++ '\n' :: rest) = true := by
    rw [List.isPrefixOf_iff_prefix, List.append_assoc]
    exact List.prefix_append ..
  have length := lineLength_append oneLine' rest
  obtain ⟨c, cs, text⟩ : ∃ c cs, closingCommand ++ closing ++ '\n' :: rest = c :: cs :=
    ⟨'=', _, rfl⟩
  rw [text] at closes length ⊢
  rw [documentationTail, closes, Bool.and_self, if_pos rfl, length]
  simp only [List.length_append, List.length_singleton]

end Lexeme

/-- A token that is known to be a part of the text leaves the rest of the text. -/
theorem exists_token_of_scan {b : Bool} {c : Char} {cs rest : List Char} {k : Kind}
    (read : scan b c (cs ++ rest) = ⟨k, cs.length⟩) :
    ∃ t : Token, t.kind = k ∧ t.text = c :: cs ∧
      tokensFrom b (c :: (cs ++ rest)) = t :: tokensFrom t.endsLine rest := by
  have cut := tokensFrom_cons b c (cs ++ rest)
  rw [read, List.drop_left] at cut
  refine ⟨_, ?_, ?_, cut⟩
  · simp only [Token.first, read]
  · simp only [Token.first, read, List.take_left]

namespace Documentation

/-- A block that begins a line is one token. -/
theorem scan_text (d : Documentation) (rest : List Char) :
    scan true '=' (d.letter :: d.title ++ '\n' :: d.body ++ rest) =
      ⟨.pod, (d.letter :: d.title ++ '\n' :: d.body).length⟩ := by
  -- The letter is not the newline, so the first line goes on to the end of the title.
  have oneLine : '\n' ∉ d.letter :: d.title := by
    rw [List.mem_cons, not_or]
    refine ⟨fun same => ?_, d.title_line⟩
    have alpha := d.isAlpha_letter
    rw [← same] at alpha
    exact absurd alpha (by decide)
  have tail : documentationTail false 0 (d.letter :: d.title ++ '\n' :: d.body ++ rest) =
      (d.letter :: d.title ++ '\n' :: d.body).length := by
    have whole : d.letter :: d.title ++ '\n' :: d.body ++ rest =
        (d.letter :: d.title) ++ '\n' :: (d.lines.flatMap (· ++ ['\n']) ++
          (closingCommand ++ d.closing ++ '\n' :: rest)) := by
      simp [body]
    rw [whole, documentationTail_line oneLine (fun h => Bool.noConfusion h),
      documentationTail_lines d.lines_line d.lines_open, documentationTail_closing d.closing_line,
      body]
    simp only [List.length_append, List.length_cons, List.length_nil]
    omega
  have opens : section? '=' (d.letter :: d.title ++ '\n' :: d.body ++ rest) =
      some ⟨.pod, (d.letter :: d.title ++ '\n' :: d.body).length⟩ := by
    have noMarker : endMarkers.any
        (·.isPrefixOf ('=' :: (d.letter :: d.title ++ '\n' :: d.body ++ rest))) = false := by
      simp [endMarkers, List.isPrefixOf]
    rw [section?, noMarker, tail]
    simp [d.isAlpha_letter]
  rw [scan, opens]
  rfl

/-- What stands behind a block that begins a line begins a line. -/
theorem tokensFrom_text (d : Documentation) (rest : List Char) :
    ∃ t : Token, t.isTrivia = true ∧
      tokensFrom true (d.text ++ rest) = t :: tokensFrom true rest := by
  obtain ⟨t, kind, text, cut⟩ := exists_token_of_scan (d.scan_text rest)
  -- The token ends with the newline of its last line.
  have ends : t.endsLine = true := by
    have last : t.text = ('=' :: d.letter :: d.title ++ '\n' :: (d.lines.flatMap (· ++ ['\n']) ++
        (closingCommand ++ d.closing))) ++ ['\n'] := by
      rw [text, body]
      simp
    rw [Token.endsLine, last, List.getLast?_concat]
    rfl
  rw [ends] at cut
  exact ⟨t, by rw [Token.isTrivia, kind]; rfl, cut⟩

end Documentation

/-- A marker that begins a line ends the program. -/
theorem tokensFrom_marker {marker : List Char} (marks : marker ∈ endMarkers) (rest : List Char) :
    ∃ t : Token, t.isTrivia = true ∧ tokensFrom true (marker ++ rest) = [t] := by
  have some : marker ≠ [] := by
    rintro rfl
    exact absurd marks (by decide)
  obtain ⟨c, cs, rfl⟩ := List.exists_cons_of_ne_nil some
  have read : scan true c (cs ++ rest ++ []) = ⟨.dataSection, (cs ++ rest).length⟩ := by
    -- The marker stands at the start of a line, so all that follows is data.
    have found : endMarkers.any (·.isPrefixOf (c :: (cs ++ rest))) = true :=
      List.any_eq_true.mpr ⟨_, marks, List.isPrefixOf_iff_prefix.mpr (List.prefix_append ..)⟩
    rw [List.append_nil, scan, if_pos rfl, section?, found]
    rfl
  obtain ⟨t, kind, -, cut⟩ := exists_token_of_scan read
  rw [List.append_nil] at cut
  exact ⟨t, by rw [Token.isTrivia, kind]; rfl, cut⟩

/-! ## Programs -/

open PerlOutline.Source (FileId)
open PerlOutline.Index (Outline)

/-- Two texts have the same tokens that are no trivia, the same tree without trivia, the same errors
but for their places, and the same stubs. -/
structure SameProgram (a b : List Char) : Prop where
  tokens : (tokenize a).filter (!·.isTrivia) = (tokenize b).filter (!·.isTrivia)
  tree : (Parse.ofText a).tree.bare = (Parse.ofText b).tree.bare
  errors : (Parse.ofText a).errors.map (fun e => (e.code, e.message)) =
    (Parse.ofText b).errors.map (fun e => (e.code, e.message))
  stubs : ∀ file file' : FileId, ∃ o o', Outline.ofText file a = .ok o ∧
    Outline.ofText file' b = .ok o' ∧ o.stubs = o'.stubs

theorem SameProgram.of_alike {a b : List Char} (alike : Token.Alike (tokenize a) (tokenize b)) :
    SameProgram a b := by
  have step := Grammar.finalState_inStep alike Grammar.defaultMaxDepth
  have tree : (Parse.ofText a).tree.bare = (Parse.ofText b).tree.bare :=
    Parse.bare_congr alike Grammar.defaultMaxDepth
  obtain ⟨notes, errors, errors'⟩ := step.notes
  refine ⟨alike.tokens, tree, ?_, fun file file' => ?_⟩
  · -- Errors are the same notes, and only the places of notes depend on the text.
    have told (ts : List Token) : (notes.map (·.errorIn ts)).map (fun e => (e.code, e.message)) =
        notes.map fun n => (n.code, n.problem.message) := by
      rw [List.map_map]
      rfl
    have first : (Parse.ofText a).errors = (notes.map (·.errorIn (tokenize a))).reverse :=
      congrArg List.reverse errors
    have second : (Parse.ofText b).errors = (notes.map (·.errorIn (tokenize b))).reverse :=
      congrArg List.reverse errors'
    rw [first, second, List.map_reverse, List.map_reverse, told, told]
  · -- Stubs are read off the tree without trivia and places.
    have placed : (Parse.ofText a).placed.bare = (Parse.ofText b).placed.bare := by
      rw [Parse.placed, Parse.placed, Placed.bare_ofTree, Placed.bare_ofTree, tree]
    obtain ⟨o, found, stubs⟩ :=
      Outline.stubs_ofParse file (.ofText a) Grammar.defaultMaxDepth a
    obtain ⟨o', found', stubs'⟩ :=
      Outline.stubs_ofParse file' (.ofText b) Grammar.defaultMaxDepth b
    exact ⟨o, o', found, found', stubs.trans ((Index.stubs_congr placed).trans stubs'.symm)⟩

/-- Sections are inert. Behind a text that is empty or ends with a newline in blanks, a block of
documentation may be left out, whatever follows, and so may all that begins with an end marker. -/
theorem sections_inert {a : List Char} (ends : EndsLine a) :
    (∀ (d : Documentation) (b : List Char), SameProgram (a ++ d.text ++ b) (a ++ b)) ∧
      ∀ marker ∈ ["__END__".toList, "__DATA__".toList], ∀ rest : List Char,
        SameProgram (a ++ (marker ++ rest)) a := by
  refine ⟨fun d b => .of_alike ?_, fun marker marks rest => .of_alike ?_⟩
  · obtain ⟨t, trivia, cut⟩ := d.tokensFrom_text b
    rw [List.append_assoc]
    refine ends.alike ?_
    -- The block is one trivia token, and the layout does not count it.
    rw [cut, Token.layoutFrom, if_pos trivia]
  · obtain ⟨t, trivia, cut⟩ := tokensFrom_marker marks rest
    have alike := ends.alike (x := marker ++ rest) (y := []) (by
      rw [cut, Token.layoutFrom, if_pos trivia]
      rfl)
    rwa [List.append_nil] at alike

/-- Code in a block of documentation declares nothing, and the block ends where it is closed. -/
theorem sections_inert_code_in_block :
    let a := "my $x;\n".toList
    let d : Documentation :=
      ⟨'p', "od".toList, ["sub f \x7b my $z".toList, [], "=cu".toList], " here".toList,
        by decide, by decide, by decide, by decide, by decide⟩
    let b := "our $y;".toList
    EndsLine a ∧ SameProgram (a ++ d.text ++ b) (a ++ b) ∧
      SameProgram (a ++ ("__END__".toList ++ b)) a ∧
      ((Outline.ofText ⟨1⟩ (a ++ d.text ++ b)).toOption.map fun o => o.stubs.map (·.name)) =
        some ["x", "y"] := by
  intro a d b
  have ends : EndsLine a :=
    .inr ⟨⟨.whitespace, ['\n'], List.cons_ne_nil _ _⟩, by decide +kernel, rfl, rfl⟩
  obtain ⟨documentation, data⟩ := sections_inert ends
  exact ⟨ends, documentation d b, data _ (List.mem_cons_self ..) b, by decide +kernel⟩

end PerlOutline.Syntax
