import PerlOutline.Proofs.Restyling
import PerlOutline.Proofs.Seam
import PerlOutline.Proofs.Swallowing

/-!
# Parentheses past the nesting limit

A declaration whose value stands in more parentheses than are followed is reported once. Whatever is
in the parentheses, if only its brackets are balanced, it declares nothing, and what stands behind
the declaration is read as if nothing had happened.

## Layers
- **Tokens** of a text with such a declaration.
- **Stubs**: what is given up declares nothing.
- **Nesting past the limit** is contained.
-/

namespace PerlOutline.Syntax

open Lexeme
open PerlOutline.Program (word)

/-! ## Tokens -/

/-- Nothing goes on behind a parenthesis, so each is a token of its own. -/
theorem tokensFrom_parens {c : Char} {k : Kind}
    (paren : (c, k) ∈ [('(', Kind.lParen), (')', .rParen)]) (n : Nat) (b : Bool) (cs : List Char) :
    ∃ b', tokensFrom b (List.replicate n c ++ cs) =
      List.replicate n (word k c []) ++ tokensFrom b' cs := by
  -- The scanner tries all else before a parenthesis, and none of it begins with one.
  have read (b : Bool) (cs : List Char) : scan b c cs = ⟨k, 0⟩ := by
    have known : c = '(' ∧ k = .lParen ∨ c = ')' ∧ k = .rParen := by simpa using paren
    rcases known with ⟨rfl, rfl⟩ | ⟨rfl, rfl⟩ <;> cases b <;>
      simp [scan, section?, endMarkers, string?, wordList?, blanks?, isBlank, comment?, word?,
        isNameStart, number?, sigiled?, punctuation?, punctuationTable, List.isPrefixOf]
  have first (b : Bool) (cs : List Char) : Token.first b c cs = word k c [] := by
    simp only [Token.first, read, List.take_zero]
    rfl
  induction n generalizing b with
  | zero => exact ⟨b, rfl⟩
  | succ n ih =>
    obtain ⟨b', later⟩ := ih (word k c []).endsLine
    refine ⟨b', ?_⟩
    rw [List.replicate_succ, List.cons_append, tokensFrom_cons, first, read, List.drop_zero, later]
    rfl

/-- A newline is read alike at the start of a line and behind it. -/
theorem tokensFrom_newline (b : Bool) (cs : List Char) :
    tokensFrom b ('\n' :: cs) = tokensFrom true ('\n' :: cs) := by
  have first : Token.first b '\n' cs = Token.first true '\n' cs := by
    -- A newline is blank at any place, so no section can begin there.
    simp only [Token.first, scan_of_isBlank (c := '\n') (by decide)]
  rw [tokensFrom_cons, tokensFrom_cons true, first]
  simp only [scan_of_isBlank (c := '\n') (by decide)]

/-- A word and the blank behind it. -/
theorem tokensFrom_word {b : Bool} {t : Token} (stands : t.Stands b) {c : Char} {cs : List Char}
    (solid : isBlank c = false) :
    tokensFrom b (t.text ++ ' ' :: c :: cs) = t :: Token.blank :: tokensFrom false (c :: cs) := by
  obtain ⟨left, cut, enough⟩ := tokenizeFrom_word stands (.blank (c :: cs)) (Nat.le_refl _)
  obtain ⟨left', cut', enough'⟩ := tokenizeFrom_blank solid enough
  rw [tokensFrom, cut, cut', tokenizeFrom_eq enough']

end PerlOutline.Syntax

namespace PerlOutline.Program

open PerlOutline.Syntax (Kind Token Tree Parse tokenize tokensFrom tokensFrom_parens
  tokensFrom_newline tokensFrom_word filter_tokensFrom_seam)
open PerlOutline.Syntax.Lexeme (isName isNameStart)
open PerlOutline.Grammar

theorem isName_of_isNameStart {c : Char} (start : isNameStart c = true) : isName [c] = true := by
  rw [isName, start]
  rfl

/-- The name of one letter. -/
def Name.letter (c : Char) (start : isNameStart c = true) : Name :=
  ⟨[c], isName_of_isNameStart start⟩

/-- The variable that is declared with a nest. -/
def nestVariable : Name :=
  .letter 'x' rfl

/-- The variable that is declared behind it. -/
def laterVariable : Name :=
  .letter 'y' rfl

def myDeclaration (v : Name) : Declaration :=
  ⟨⟨myWord, List.mem_cons_self ..⟩, .one ⟨.scalar, v⟩⟩

/-- Two declarations. The value of the first one is `w`, on lines of its own, in `n` parentheses. -/
def nestText (n : Nat) (w : List Char) : List Char :=
  "my $x = ".toList ++ (List.replicate n '(' ++ ('\n' :: w ++ '\n' :: (List.replicate n ')' ++
    ";\nmy $y;".toList)))

/-- What stands before the nest is read before any parenthesis. -/
theorem tokens_before_nest (cs : List Char) :
    (tokensFrom true ("my $x = ".toList ++ '(' :: cs)).filter (!·.isTrivia) =
      (myDeclaration nestVariable).words ++ equals :: (tokensFrom false ('(' :: cs)).filter
        (!·.isTrivia) := by
  -- Word by word, each with the blank behind it.
  have my : tokensFrom true ("my $x = ".toList ++ '(' :: cs) = myWord :: Token.blank ::
      tokensFrom false ("$x = ".toList ++ '(' :: cs) :=
    tokensFrom_word (t := myWord) (written_of_isFixed (by decide) true fun _ => by decide)
      (by decide)
  have name : tokensFrom false ("$x = ".toList ++ '(' :: cs) = nestVariable.scalar :: Token.blank ::
      tokensFrom false ("= ".toList ++ '(' :: cs) :=
    tokensFrom_word (t := nestVariable.scalar) (nestVariable.written false nofun) (by decide)
  have sign : tokensFrom false ("= ".toList ++ '(' :: cs) = equals :: Token.blank ::
      tokensFrom false ('(' :: cs) :=
    tokensFrom_word (t := equals) (written_of_isFixed (by decide) false nofun) (by decide)
  rw [my, name, sign]
  rfl

/-- What stands behind the nest is read alike on any line. -/
theorem tokens_behind_nest (b : Bool) :
    (tokensFrom b ";\nmy $y;".toList).filter (!·.isTrivia) =
      semicolon :: wordsOf [.declaration (myDeclaration laterVariable) none] := by
  cases b <;> decide +kernel

/-- The tokens of the text but for trivia. -/
theorem tokens_nestText {n : Nat} (positive : 0 < n) {w : List Char}
    (blanks : (tokenize ('\n' :: w ++ ['\n'])).getLast?.map (·.kind) = some .whitespace) :
    (tokenize (nestText n w)).filter (!·.isTrivia) =
      (myDeclaration nestVariable).words ++ equals ::
        (nestedIn n ((tokenize ('\n' :: w ++ ['\n'])).filter (!·.isTrivia)) ++
          semicolon :: wordsOf [.declaration (myDeclaration laterVariable) none]) := by
  -- No bracket is trivia, so none is lost when trivia is left out.
  have brackets {k : Kind} {c : Char} (m : Nat) (solid : k.isTrivia = false) :
      (List.replicate m (word k c [])).filter (!·.isTrivia) = List.replicate m (word k c []) :=
    List.filter_eq_self.mpr fun t member => by
      rw [List.eq_of_mem_replicate member]
      simpa [Token.isTrivia, word] using solid
  obtain ⟨m, rfl⟩ : ∃ m, n = m + 1 := Nat.exists_eq_add_one.mpr positive
  obtain ⟨before, opened⟩ := tokensFrom_parens (c := '(') (k := .lParen) (by decide) (m + 1) false
    ('\n' :: w ++ '\n' :: (List.replicate (m + 1) ')' ++ ";\nmy $y;".toList))
  obtain ⟨behind, closed⟩ := tokensFrom_parens (c := ')') (k := .rParen) (by decide) (m + 1) true
    ";\nmy $y;".toList
  -- From behind: the closing parentheses, the words inside, which end with blanks, and the rest.
  have whole := tokens_before_nest
    (List.replicate m '(' ++ ('\n' :: w ++ '\n' :: (List.replicate (m + 1) ')' ++
      ";\nmy $y;".toList)))
  have inner := filter_tokensFrom_seam (b := true) blanks
    (List.replicate (m + 1) ')' ++ ";\nmy $y;".toList)
  rw [closed, List.filter_append, brackets _ rfl, tokens_behind_nest] at inner
  rw [← List.cons_append, ← List.replicate_succ, opened, List.filter_append, brackets _ rfl,
    List.cons_append, tokensFrom_newline, ← List.cons_append, inner] at whole
  rw [nestedIn_eq, List.append_assoc, List.append_assoc]
  exact whole

/-- The text is parsed with one error, at the nesting limit, and both declarations are read. -/
theorem parse_nestText {n : Nat} (deep : defaultMaxDepth ≤ n) {w : List Char}
    (blanks : (tokenize ('\n' :: w ++ ['\n'])).getLast?.map (·.kind) = some .whitespace)
    (balanced : Balanced (tokenize ('\n' :: w ++ ['\n']))) :
    let parse := Parse.ofText (nestText n w)
    ∃ k inner, (∀ u ∈ inner, u.isTrivia = false) ∧
      parse.errors.map (fun e => (e.problem, e.code)) = [(.tooDeep defaultMaxDepth, .e0205)] ∧
      parse.tree.bare = [.node .sourceFile
        (nestStatement (myDeclaration nestVariable) k inner ::
          treesOf [.declaration (myDeclaration laterVariable) none])] := by
  -- The inner text is balanced, and leaving out its trivia changes no level.
  have level : levelBehind 0 ((tokenize ('\n' :: w ++ ['\n'])).filter (!·.isTrivia)) = some 0 := by
    rw [levelBehind_filter]
    exact balanced.levelBehind
  have plain : ∀ u ∈ (tokenize ('\n' :: w ++ ['\n'])).filter (!·.isTrivia), u.isTrivia = false :=
    fun u member => by simpa using (List.mem_filter.mp member).2
  -- Of all parentheses `k + 1` are read, the next one is given up, and `m` are inside of it.
  obtain ⟨k, limit⟩ : ∃ k, k + 3 = defaultMaxDepth := ⟨253, rfl⟩
  obtain ⟨m, rfl⟩ : ∃ m, n = k + 1 + (1 + m) := ⟨n - (k + 2), by omega⟩
  have words := tokens_nestText (n := k + 1 + (1 + m)) (by omega) blanks
  rw [nestedIn_add (k + 1), nestedIn_add 1, ← List.cons_append, ← List.append_assoc] at words
  exact ⟨k, _, plain_nestedIn plain m, parse_nestWords _ (plain_nestedIn plain m)
    (levelBehind_nestedIn level m) words limit (by decide)⟩

end PerlOutline.Program

namespace PerlOutline.Program

open PerlOutline.Syntax (Kind Token Tree Placed)
open PerlOutline.Element
open PerlOutline.Index (stubOf? summaryOf?)
open PerlOutline.Stub

/-! ## Stubs -/

/-- The kinds of the nodes in a nest. They declare nothing. -/
def nestKinds : List Kind :=
  [.listExpr, .error]

/-- A nest is built of the kinds that declare nothing. -/
theorem built_nestTree (inner : List Token) (k : Nat) :
    (nestTree k (.node .error (inner.map .token))).Built (· ∈ nestKinds) := by
  induction k with
  | zero =>
    refine Tree.built_node (by decide) fun t member => ?_
    obtain ⟨u, -, rfl⟩ := List.mem_map.mp member
    trivial
  | succ k ih => exact ⟨by decide, trivial, ih, trivial, trivial⟩

/-- There is no trivia in a nest. -/
theorem bare_nestTree {inner : List Token} (plain : ∀ u ∈ inner, u.isTrivia = false) (k : Nat) :
    (nestTree k (.node .error (inner.map .token))).bare =
      [nestTree k (.node .error (inner.map .token))] := by
  induction k with
  | zero => rw [nestTree, Tree.bare, Tree.bareForest_tokens plain]
  | succ k ih =>
    simp only [nestTree, Tree.bare, Tree.bareForest, ih]
    rfl

/-- No node of a nest has a stub. -/
theorem stubOf?_quiet (n : Node) (h : n.kind ∈ nestKinds) : stubOf? n = none := by
  have none : ∀ k ∈ nestKinds, DeclarationKind.ofNodeKind? k = none := by decide
  rw [stubOf?, summaryOf?, none _ h]
  rfl

/-- The stub of a scalar that `my` declares in the main package, outside of all blocks. -/
def fileScalar (name : String) : Stub :=
  ⟨.scalar, name, "main", (Flags.ofDeclarator .my).union (Flags.atFileScope true)⟩

/-- What `my` declares at file scope has the stub that the name tells. -/
theorem stubOf?_my {n : Node} {t : Token} {name : String} (kind : n.kind = .scalarVariable)
    (declared : introducedBy? n = some (some .my))
    (named : (n.token? .scalarName).map (·.token) = some t)
    (plain : QualifiedName.ofString (String.ofList (t.text.drop 1)) = ⟨none, name⟩)
    (main : n.enclosingPackage = "main") (header : isInHeader n = false)
    (file : n.isFileScope = true) : stubOf? n = some (fileScalar name) := by
  -- The name has no qualifier, so the enclosing package is its namespace.
  have placed : placeName n (String.ofList (t.text.drop 1)) = (name, "main") := by
    rw [placeName, plain, main]
    rfl
  have width : "$".length = 1 := rfl
  have isVariable : n.kind.isVariable = true := by rw [kind]; rfl
  -- The summary is computed from the parts of the declaration, each of which is known.
  have summary : (summarizeVariable .scalar n).toOption = some (fileScalar name) := by
    rw [toOption_summarizeVariable, if_pos isVariable, declared, kind]
    simp only [Option.bind_some, variableTokenKind, variableSigil, named]
    rw [width, placed, header, file]
    rfl
  have declares : DeclarationKind.scalar.declares n = true := by
    rw [DeclarationKind.declares, isDeclaredVariable_eq, kind, declared]
    rfl
  have found : summaryOf? n = some (summarizeVariable .scalar n) := by
    rw [summaryOf?, kind]
    exact if_pos declares
  rw [stubOf?, found]
  exact summary

/-- The declaration of a scalar, wherever it stands. -/
def placedDeclaration (v : Name) : Placed :=
  .node .variableDeclaration ⟨0, 0⟩
    [.token 0 myWord, .node .scalarVariable ⟨0, 0⟩ [.token 0 v.scalar]]

/-- Two declarations, the first one with a value, wherever they stand. -/
def placedStatements (value : Tree) : Placed :=
  .node .sourceFile ⟨0, 0⟩
    [.node .exprStatement ⟨0, 0⟩
      [.node .assignExpr ⟨0, 0⟩
        [placedDeclaration nestVariable, .token 0 equals, .ofTree 0 value],
       .token 0 semicolon],
     .node .exprStatement ⟨0, 0⟩ [placedDeclaration laterVariable, .token 0 semicolon]]

section

variable {k : Nat} {inner : List Token}

theorem bare_placedStatements (plain : ∀ u ∈ inner, u.isTrivia = false) :
    (placedStatements (nestTree (k + 1) (.node .error ((parenthesized inner).map .token)))).bare =
      [.node .sourceFile (nestStatement (myDeclaration nestVariable) k inner ::
        treesOf [.declaration (myDeclaration laterVariable) none])] := by
  have whole : ∀ u ∈ parenthesized inner, u.isTrivia = false := plain_nestedIn plain 1
  rw [placedStatements]
  simp only [Placed.bare, Placed.bareForest, Placed.bare_ofTree, bare_nestTree whole]
  rfl

theorem stubs_placedStatements :
    (Node.allOf (placedStatements
      (nestTree (k + 1) (.node .error ((parenthesized inner).map .token))))).filterMap stubOf? =
      [fileScalar "x", fileScalar "y"] := by
  have built := built_nestTree (parenthesized inner) (k + 1)
  rw [nestTree] at built ⊢
  simp only [Node.allOf, placedStatements, placedDeclaration, Node.forestNodesOnto, Node.nodesOnto]
  -- the nodes in order: those around the first variable, the variable, the nest, and the others
  iterate 4 rw [List.filterMap_cons_none rfl]
  rw [List.filterMap_cons_some (b := fileScalar "x")
      (stubOf?_my rfl rfl rfl (by decide) rfl rfl rfl),
    Node.filterMap_nodesOnto stubOf?_quiet built]
  iterate 2 rw [List.filterMap_cons_none rfl]
  rw [List.filterMap_cons_some (b := fileScalar "y")
      (stubOf?_my rfl rfl rfl (by decide) rfl rfl rfl)]
  rfl

/-- Besides the two statements, no node is an expression statement. -/
theorem statements_placedStatements :
    ((Node.allOf (placedStatements (nestTree (k + 1)
      (.node .error ((parenthesized inner).map .token))))).map Node.kind).count .exprStatement =
        2 := by
  -- Counting is written as a walk that keeps something of some nodes, as that of the stubs is.
  let statement? (n : Node) : Option Unit := if n.kind = .exprStatement then some () else none
  have counted (nodes : List Node) :
      (nodes.map Node.kind).count .exprStatement = (nodes.filterMap statement?).length := by
    rw [List.length_filterMap_eq_countP, List.count, List.countP_map]
    congr 1
    funext n
    by_cases kind : n.kind = .exprStatement <;> simp [statement?, kind]
  have silent (n : Node) (h : n.kind ∈ nestKinds) : statement? n = none := by
    have other : ∀ k ∈ nestKinds, k ≠ .exprStatement := by decide
    exact if_neg (other _ h)
  have built := built_nestTree (parenthesized inner) (k + 1)
  rw [counted]
  rw [nestTree] at built ⊢
  simp only [Node.allOf, placedStatements, placedDeclaration, Node.forestNodesOnto, Node.nodesOnto]
  rw [List.filterMap_cons_none rfl, List.filterMap_cons_some (f := statement?) (b := ()) rfl]
  iterate 3 rw [List.filterMap_cons_none rfl]
  rw [Node.filterMap_nodesOnto silent built]
  rfl

end

end PerlOutline.Program

namespace PerlOutline.Syntax.Parse

open PerlOutline.Program (nestText fileScalar parse_nestText placedStatements bare_placedStatements
  stubs_placedStatements statements_placedStatements nestTree)
open PerlOutline.Element (Node)
open PerlOutline.Grammar (Balanced defaultMaxDepth)
open PerlOutline.Index (Outline)
open PerlOutline.Source (FileId)

/-- Nesting past the limit is contained, whatever is in it. There is one error, both declarations
around are statements of their own, and they alone declare something. -/
theorem deep_nesting_contained {n : Nat} (deep : 256 ≤ n) (w : List Char)
    (blanks : (tokenize ('\n' :: w ++ ['\n'])).getLast?.map (·.kind) = some .whitespace)
    (balanced : Balanced (tokenize ('\n' :: w ++ ['\n']))) :
    let parse := Parse.ofText (nestText n w)
    parse.errors.map (fun e => (e.problem, e.code)) = [(.tooDeep 256, .e0205)] ∧
      (∃ first second, parse.tree.bare =
        [.node .sourceFile [.node .exprStatement first, .node .exprStatement second]]) ∧
      ((Node.allOf parse.placed).map Node.kind).count .exprStatement = 2 ∧
      ∀ file : FileId, ∃ o, Outline.ofText file (nestText n w) = .ok o ∧
        o.stubs = [fileScalar "x", fileScalar "y"] := by
  obtain ⟨k, inner, plain, errors, tree⟩ := parse_nestText deep blanks balanced
  have same : (Parse.ofText (nestText n w)).placed.bare = (placedStatements (nestTree (k + 1)
      (.node .error ((Program.parenthesized inner).map .token)))).bare := by
    rw [placed, Placed.bare_ofTree, tree, bare_placedStatements plain]
  refine ⟨errors, ⟨_, _, tree⟩, ?_, fun file => ?_⟩
  · rw [Node.kinds_allOf same]
    exact statements_placedStatements
  · obtain ⟨o, found, stubs⟩ :=
      Outline.stubs_ofParse file (.ofText (nestText n w)) defaultMaxDepth (nestText n w)
    exact ⟨o, found, stubs.trans ((Index.stubs_congr same).trans stubs_placedStatements)⟩

/-- Brackets of other kinds may close each other in what is given up, and statements may begin
there. -/
theorem deep_nesting_contained_mixed_brackets :
    let w := "my $z; ( package P; ] sub f \x7b if ; § )".toList
    (tokenize ('\n' :: w ++ ['\n'])).getLast?.map (·.kind) = some .whitespace ∧
      Balanced (tokenize ('\n' :: w ++ ['\n'])) ∧
      (Parse.ofText (nestText 300 w)).errors.map (·.code) = [.e0205] ∧
      ∀ file : FileId, ∃ o, Outline.ofText file (nestText 300 w) = .ok o ∧
        o.stubs = [fileScalar "x", fileScalar "y"] := by
  intro w
  have blanks : (tokenize ('\n' :: w ++ ['\n'])).getLast?.map (·.kind) = some .whitespace := by
    decide +kernel
  have balanced : Balanced (tokenize ('\n' :: w ++ ['\n'])) := by decide +kernel
  obtain ⟨errors, -, -, stubs⟩ := deep_nesting_contained (by decide : 256 ≤ 300) w blanks balanced
  have codes := congrArg (List.map Prod.snd) errors
  rw [List.map_map] at codes
  exact ⟨blanks, balanced, codes, stubs⟩

end PerlOutline.Syntax.Parse
