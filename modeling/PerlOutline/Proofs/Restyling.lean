import PerlOutline.Proofs.Gathering
import PerlOutline.Proofs.Layout

/-!
# Restyling a text

To change the comments and the layout of a text does not change its outline. What is said of a
node comes from what it and its ancestors show when trivia is dropped, so equal trees without
trivia have equal stubs.

## Layers
- **`Sight`**: what a node shows of itself and of what stands before it.
- **Sights of a tree** are decided by the tree without trivia.
- **Packages**, ancestors and parents as the sights show them.
- **Stubs** of nodes with equal sights.
- **Texts** that are alike.
-/

namespace PerlOutline

open PerlOutline.Syntax (Kind Token Tree Placed Parse)
open PerlOutline.Element

/-! ## Sights -/

/-- What a step shows when trivia and places are dropped. -/
structure Element.Sight where
  kind : Kind
  content : List Tree
  /-- The nodes before it under the same parent, nearest first. -/
  before : List Tree

namespace Element

/-- What a step shows. -/
def Step.sight (s : Step) : Sight :=
  ⟨s.kind, Placed.bareForest s.children, Placed.bareForest s.preceding⟩

/-- What a node and its ancestors show, nearest first. -/
def Node.sights (n : Node) : List Sight :=
  (n.here :: n.above).map Step.sight

namespace Sight

mutual

/-- The sights of the nodes of a tree in preorder, with `rest` after them. -/
def nodesOnto (above : List Sight) (before : List Tree) (rest : List (List Sight)) :
    Tree → List (List Sight)
  | .token _ => rest
  | .node k ts =>
    (⟨k, ts, before⟩ :: above) :: forestNodesOnto (⟨k, ts, before⟩ :: above) [] rest ts

/-- The sights of the nodes of a list of trees in preorder, with `rest` after them. -/
def forestNodesOnto (above : List Sight) (before : List Tree) (rest : List (List Sight)) :
    List Tree → List (List Sight)
  | [] => rest
  | .token _ :: ts => forestNodesOnto above before rest ts
  | .node k us :: ts =>
    nodesOnto above before (forestNodesOnto above (.node k us :: before) rest ts) (.node k us)

end

end Sight

namespace Node

mutual

/-- What the nodes of a tree show is decided by the tree without its trivia. -/
theorem sights_nodesOnto (above : List Step) (preceding : List Placed) (rest : List Node)
    (t : Placed) :
    (nodesOnto above preceding rest t).map sights =
      Sight.forestNodesOnto (above.map Step.sight) (Placed.bareForest preceding)
        (rest.map sights) t.bare := by
  match t with
  | .token start t =>
    -- No node comes of a token, whether it is left out or not.
    cases trivia : t.isTrivia <;>
      simp [nodesOnto, Placed.bare, trivia, Sight.forestNodesOnto]
  | .node k r cs =>
    have below := sights_forestNodesOnto (⟨k, r, cs, preceding⟩ :: above) [] rest cs
    simp only [nodesOnto, Placed.bare, Sight.forestNodesOnto, Sight.nodesOnto, List.map_cons, below]
    rfl

/-- What the nodes of trees show is decided by the trees without their trivia. -/
theorem sights_forestNodesOnto (above : List Step) (preceding : List Placed) (rest : List Node)
    (ts : List Placed) :
    (forestNodesOnto above preceding rest ts).map sights =
      Sight.forestNodesOnto (above.map Step.sight) (Placed.bareForest preceding)
        (rest.map sights) (Placed.bareForest ts) := by
  match ts with
  | [] => rfl
  | .token start t :: ts =>
    -- a token does not become one of the nodes before, whether it is left out or not
    have later := sights_forestNodesOnto above preceding rest ts
    cases trivia : t.isTrivia <;>
      simp [forestNodesOnto, nodesOnto, Placed.bareForest, Placed.bare, trivia,
        Sight.forestNodesOnto, later]
  | .node k r cs :: ts =>
    -- the first tree is one of the nodes before the later ones
    have first := sights_nodesOnto above preceding
      (forestNodesOnto above (.node k r cs :: preceding) rest ts) (.node k r cs)
    have later := sights_forestNodesOnto above (.node k r cs :: preceding) rest ts
    simp only [forestNodesOnto]
    rw [first, later]
    simp [Placed.bareForest, Placed.bare, Sight.forestNodesOnto]

end

/-- Trees that are the same without trivia have nodes with the same sights. -/
theorem sights_allOf {t u : Placed} (same : t.bare = u.bare) :
    (allOf t).map sights = (allOf u).map sights := by
  rw [allOf, allOf, sights_nodesOnto, sights_nodesOnto, same]

/-- Trees that are the same without trivia have nodes of the same kinds. -/
theorem kinds_allOf {t u : Placed} (same : t.bare = u.bare) :
    (allOf t).map kind = (allOf u).map kind := by
  -- the kind is part of what is seen
  have kinds (nodes : List Node) : nodes.map kind =
      (nodes.map sights).map fun sights => (sights.head?.map Sight.kind).getD .error := by
    rw [List.map_map]
    rfl
  rw [kinds, kinds, sights_allOf same]

end Node

/-! ## Packages -/

namespace Sight

/-- The first name among the tokens in a list of trees. -/
def firstName? (ts : List Tree) : Option String :=
  ((ts.filterMap Tree.token?).find? (·.kind == .ident)).map (·.string)

/-- There is a block among the trees. -/
def hasBlock (ts : List Tree) : Bool :=
  ts.any (Tree.isNodeOf (· == .block))

/-- The package behind trees, nearest first: the nearest package statement without a block gives it,
or else it is `entry`. -/
def packageBehind (entry : String) : List Tree → String
  | [] => entry
  | .token _ :: ts => packageBehind entry ts
  | .node k us :: ts =>
    if k = .packageStatement ∧ hasBlock us = false then (firstName? us).getD entry
    else packageBehind entry ts

/-- The package that the innermost of some steps gives to what is in it. -/
def entryPackage : List Sight → String
  | [] => mainPackage
  | s :: above =>
    let current := packageBehind (entryPackage above) s.before
    if s.kind = .packageStatement ∧ hasBlock s.content = true then
      (firstName? s.content).getD current
    else current

/-- The first name is found without trivia and places. -/
theorem firstName?_bareForest (ts : List Placed) :
    firstName? (Placed.bareForest ts) = Placed.firstName? ts := by
  induction ts with
  | nil => rfl
  | cons t ts ih =>
    cases t with
    | node k r cs => simpa [firstName?, Placed.firstName?, Placed.bareForest, Placed.bare] using ih
    | token start t =>
      by_cases name : t.kind = .ident
      · -- a name is never left out
        have significant : t.isTrivia = false := by rw [Token.isTrivia, name]; rfl
        simp [firstName?, Placed.firstName?, Placed.bareForest, Placed.bare, name, significant]
      · cases trivia : t.isTrivia <;>
          simpa [firstName?, Placed.firstName?, Placed.bareForest, Placed.bare, name, trivia]
            using ih

/-- A block is found without trivia and places. -/
theorem hasBlock_bareForest (ts : List Placed) :
    hasBlock (Placed.bareForest ts) = Placed.hasBlock ts := by
  induction ts with
  | nil => rfl
  | cons t ts ih =>
    cases t with
    | node k r cs =>
      have block := congrArg (k == .block || ·) ih
      simpa [hasBlock, Placed.hasBlock, Placed.bareForest, Placed.bare] using block
    | token start t =>
      cases trivia : t.isTrivia <;>
        simpa [hasBlock, Placed.hasBlock, Placed.bareForest, Placed.bare, trivia] using ih

end Sight

namespace Node

/-- The package behind some trees is seen without trivia and places. -/
theorem packageBehind_eq (above : List Step) (preceding : List Placed) :
    packageBehind above preceding =
      Sight.packageBehind (entryPackage above) (Placed.bareForest preceding) := by
  induction preceding with
  | nil => exact packageBehind_nil
  | cons t ts ih =>
    cases t with
    | token start t =>
      have passed : packageBehind above (.token start t :: ts) = packageBehind above ts := rfl
      cases trivia : t.isTrivia <;>
        simp [passed, ih, Placed.bareForest, Placed.bare, trivia, Sight.packageBehind]
    | node k r cs =>
      simp only [packageBehind_cons, Placed.packageAfter, Placed.bareForest, Placed.bare,
        List.singleton_append, Sight.packageBehind, Sight.hasBlock_bareForest,
        Sight.firstName?_bareForest, ih]

/-- The package that steps give to what is in them is seen without trivia and places. -/
theorem entryPackage_eq (above : List Step) :
    entryPackage above = Sight.entryPackage (above.map Step.sight) := by
  induction above with
  | nil => rfl
  | cons step above ih =>
    obtain ⟨k, r, cs, preceding⟩ := step
    simp only [entryPackage_cons, List.map_cons, Sight.entryPackage, ← ih, packageBehind_eq,
      Placed.packageInside, Step.sight, Sight.hasBlock_bareForest, Sight.firstName?_bareForest]

/-! ## Nodes with equal sights -/

section Observations

variable {n n' : Node}

/-- Nodes with equal sights are in the same package. -/
theorem enclosingPackage_congr (h : n.sights = n'.sights) :
    n.enclosingPackage = n'.enclosingPackage := by
  obtain ⟨here, above⟩ := List.cons.inj h
  have before : Placed.bareForest n.here.preceding = Placed.bareForest n'.here.preceding :=
    congrArg Sight.before here
  rw [enclosingPackage_eq, enclosingPackage_eq, packageBehind_eq, packageBehind_eq,
    entryPackage_eq, entryPackage_eq, above, before]

/-- Nodes with equal sights have the same kind. -/
theorem kind_congr (h : n.sights = n'.sights) : n.kind = n'.kind :=
  congrArg Sight.kind (List.cons.inj h).1

/-- Nodes with equal sights hold the same, up to trivia and places. -/
theorem content_congr (h : n.sights = n'.sights) : n.content = n'.content :=
  congrArg Sight.content (List.cons.inj h).1

/-- The parents of nodes with equal sights have equal sights. -/
theorem sights_parent? (h : n.sights = n'.sights) :
    n.parent?.map sights = n'.parent?.map sights := by
  -- the sights of the parent are the others after the first
  have parent (n : Node) :
      n.parent?.map sights =
        if n.above.map Step.sight = [] then none else some (n.above.map Step.sight) := by
    unfold parent?
    cases n.above <;> rfl
  rw [parent, parent, (List.cons.inj h).2]

/-- The ancestors of nodes with equal sights have the same kinds. -/
theorem ancestorKinds_congr (h : n.sights = n'.sights) :
    n.ancestors.map kind = n'.ancestors.map kind := by
  have kinds (above : List Step) :
      (ofSteps above).map kind = (above.map Step.sight).map Sight.kind := by
    induction above with
    | nil => rfl
    | cons step above ih => simp only [ofSteps, List.map_cons, ih]; rfl
  rw [ancestors, ancestors, kinds, kinds, (List.cons.inj h).2]

/-- A node is at file scope just if no ancestor is a block. -/
theorem isFileScope_eq (n : Node) :
    n.isFileScope = !(n.ancestors.map kind).contains .block := by
  rw [isFileScope, enclosingBlock?]
  induction n.ancestors with
  | nil => rfl
  | cons a ancestors ih =>
    by_cases block : a.kind = .block
    · simp [View.ofNode?, block]
    · simpa [View.ofNode?, block, Ne.symm block] using ih

/-- Nodes with equal sights are both at file scope or neither. -/
theorem isFileScope_congr (h : n.sights = n'.sights) : n.isFileScope = n'.isFileScope := by
  rw [isFileScope_eq, isFileScope_eq, ancestorKinds_congr h]

/-- The first token of a kind is the same, up to its place. -/
theorem token?_congr (h : n.sights = n'.sights) {k : Kind} (significant : k.isTrivia = false) :
    (n.token? k).map (·.token) = (n'.token? k).map (·.token) := by
  rw [token_token? n k significant, token_token? n' k significant, content_congr h]

/-- The first tokens of nodes with equal sights are the same, up to their places. -/
theorem firstToken?_congr (h : n.sights = n'.sights) :
    n.firstToken?.map (·.token) = n'.firstToken?.map (·.token) := by
  rw [token_firstToken?, token_firstToken?, content_congr h]

end Observations

end Node

end Element

/-! ## Stubs of nodes with equal sights -/

namespace Stub

variable {n n' : Node}

/-- Nodes with equal sights are both in a header or neither. -/
theorem isInHeader_congr (h : n.sights = n'.sights) : isInHeader n = isInHeader n' := by
  -- only the kinds of the ancestors are looked at, up to the next block
  have kinds (n : Node) : isInHeader n =
      ((n.ancestors.map Node.kind).takeWhile (· != .block)).any fun k =>
        k == .condition || k == .forStatement := by
    rw [List.takeWhile_map, List.any_map]
    rfl
  rw [kinds, kinds, Node.ancestorKinds_congr h]

/-- A name is placed alike at nodes with equal sights. -/
theorem placeName_congr (h : n.sights = n'.sights) (name : String) :
    placeName n name = placeName n' name := by
  rw [placeName, placeName, Node.enclosingPackage_congr h]

/-- The steps of a result are those of its value, where it has one. -/
theorem toOption_bind {ε α β : Type} (x : Except ε α) (f : α → Except ε β) :
    (x >>= f).toOption = x.toOption.bind fun a => (f a).toOption := by
  cases x <;> rfl

/-- The word of the declaration that introduces a node, if one does. -/
def introducedBy? (n : Node) : Option (Option Declarator) :=
  n.parent?.bind fun p =>
    if p.kind = .variableDeclaration then
      some ((p.firstToken?.map (·.token)).bind fun t => Declarator.ofKind? t.kind)
    else none

/-- Nodes with equal sights are introduced by the same word. -/
theorem introducedBy?_congr (h : n.sights = n'.sights) : introducedBy? n = introducedBy? n' := by
  have parents := Node.sights_parent? h
  unfold introducedBy?
  cases hp : n.parent? with
  | none =>
    rw [hp] at parents
    rw [Option.map_eq_none_iff.mp parents.symm]
  -- both have a parent, and the parents have equal sights
  | some p =>
    rw [hp] at parents
    obtain ⟨p', hp', same⟩ := Option.map_eq_some_iff.mp parents.symm
    simp only [hp', Option.bind_some, Node.kind_congr same, Node.firstToken?_congr same]

/-- A node is a declared variable just if it is a variable that a declaration introduces. -/
theorem isDeclaredVariable_eq (n : Node) :
    isDeclaredVariable n = (n.kind.isVariable && (introducedBy? n).isSome) := by
  rw [isDeclaredVariable, variableOf?, View.ofNode?]
  by_cases isVariable : n.kind.isVariable = true
  · simp only [isVariable, dite_true, Option.bind_some, Bool.true_and, Variable.declaration?,
      introducedBy?]
    cases n.parent? with
    | none => rfl
    | some p => by_cases declares : p.kind = .variableDeclaration <;> simp [View.ofNode?, declares]
  · simp [isVariable]

/-- The stub of a variable, from what its node shows. -/
theorem toOption_summarizeVariable (k : DeclarationKind) (n : Node) :
    (summarizeVariable k n).toOption =
      if n.kind.isVariable then
        (introducedBy? n).bind fun word =>
          ((n.token? (variableTokenKind n.kind)).map (·.token)).bind fun t =>
            let placed := placeName n (String.ofList (t.text.drop (variableSigil n.kind).length))
            word.map fun word =>
              ⟨k, placed.1, placed.2,
                (Flags.ofDeclarator word).union
                  (Flags.atFileScope (!isInHeader n && n.isFileScope))⟩
      else none := by
  -- The parts are looked up one after the other, and each may be missing.
  simp only [summarizeVariable, toOption_bind, Node.toOption_require, variableOf?, View.ofNode?]
  by_cases isVariable : n.kind.isVariable = true
  · simp only [isVariable, dite_true, Option.bind_some, if_true, Variable.declaration?,
      introducedBy?]
    cases n.parent? with
    | none => rfl
    | some p =>
      by_cases declares : p.kind = .variableDeclaration
      · simp only [View.ofNode?, declares, beq_self_eq_true, dite_true, if_true, Option.bind_some,
          Variable.name, Variable.nameToken, Variable.sigil, VariableDeclaration.declarator]
        cases n.token? (variableTokenKind n.kind) with
        | none => rfl
        | some t =>
          cases p.firstToken? with
          | none => rfl
          | some first =>
            simp only [Option.bind_some, Option.map_some, PlacedToken.kind]
            cases Declarator.ofKind? first.token.kind <;> rfl
      · simp [View.ofNode?, declares]
  · simp [isVariable]

/-- The stub of a sub, from what its node shows. -/
theorem toOption_summarizeSub (n : Node) :
    (summarizeSub n).toOption =
      if n.kind = .subDefinition then
        ((n.token? .ident).map (·.token)).map fun t =>
          ⟨.sub, (placeName n t.string).1, (placeName n t.string).2,
            Flags.atFileScope n.isFileScope⟩
      else none := by
  simp only [summarizeSub, toOption_bind, Node.toOption_require, View.ofNode?]
  by_cases sub : n.kind = .subDefinition
  · simp only [sub, beq_self_eq_true, dite_true, if_true, Option.bind_some, SubDefinition.name,
      SubDefinition.nameToken]
    cases n.token? .ident <;> rfl
  · simp [sub]

/-- The stub of a package, from what its node shows. -/
theorem toOption_summarizePackage (n : Node) :
    (summarizePackage n).toOption =
      if n.kind = .packageStatement then
        ((n.token? .ident).map (·.token)).map fun t =>
          ⟨.package, t.string, (QualifiedName.ofString t.string).inPackage.getD mainPackage,
            Flags.atFileScope n.isFileScope⟩
      else none := by
  simp only [summarizePackage, toOption_bind, Node.toOption_require, View.ofNode?]
  by_cases package : n.kind = .packageStatement
  · simp only [package, beq_self_eq_true, dite_true, if_true, Option.bind_some,
      PackageStatement.name, PackageStatement.nameToken]
    cases n.token? .ident <;> rfl
  · simp [package]

/-- The token of a variable is no trivia. -/
theorem variableTokenKind_significant (k : Kind) : (variableTokenKind k).isTrivia = false := by
  cases k <;> rfl

/-- Nodes with equal sights have the same stub, taken for the same kind of declaration. -/
theorem summarize_congr (h : n.sights = n'.sights) (k : DeclarationKind) :
    (k.summarize n).toOption = (k.summarize n').toOption := by
  have kind := Node.kind_congr h
  have file := Node.isFileScope_congr h
  have ident : (n.token? .ident).map (·.token) = (n'.token? .ident).map (·.token) :=
    Node.token?_congr h rfl
  have named (k : Kind) := Node.token?_congr h (variableTokenKind_significant k)
  -- what a summary asks of its node is the same, and the token that names it is the same up to its
  -- place
  have ofVariable (k : DeclarationKind) :
      (summarizeVariable k n).toOption = (summarizeVariable k n').toOption := by
    simp only [toOption_summarizeVariable, placeName_congr h, isInHeader_congr h,
      introducedBy?_congr h, file, named, kind]
  cases k with
  | scalar => exact ofVariable .scalar
  | array => exact ofVariable .array
  | hash => exact ofVariable .hash
  | sub =>
    simp only [DeclarationKind.summarize, toOption_summarizeSub, placeName_congr h, file, ident,
      kind]
  | package => simp only [DeclarationKind.summarize, toOption_summarizePackage, file, ident, kind]

end Stub

namespace Index

open PerlOutline.Source (FileId LineIndex)
open PerlOutline.Stub (DeclarationKind isDeclaredVariable_eq introducedBy?_congr)

/-- Nodes with equal sights have the same stub. -/
theorem stubOf?_congr {n n' : Node} (h : n.sights = n'.sights) : stubOf? n = stubOf? n' := by
  -- whether a kind of declaration is meant depends on the kind of the node and of its parent
  have declared (k : DeclarationKind) : k.declares n = k.declares n' := by
    rw [DeclarationKind.declares, DeclarationKind.declares, isDeclaredVariable_eq,
      isDeclaredVariable_eq, Node.kind_congr h, introducedBy?_congr h]
  simp only [stubOf?, summaryOf?, Node.kind_congr h, declared, Option.bind_assoc]
  congr 1
  funext k
  split
  · exact Stub.summarize_congr h k
  · rfl

/-- Trees that are the same without trivia have the same stubs. -/
theorem stubs_congr {t u : Placed} (same : t.bare = u.bare) :
    (Node.allOf t).filterMap stubOf? = (Node.allOf u).filterMap stubOf? := by
  -- The nodes stand in rows of equal length, with equal sights at each place.
  have alike := Node.sights_allOf same
  generalize Node.allOf t = nodes at alike ⊢
  generalize Node.allOf u = nodes' at alike ⊢
  induction nodes generalizing nodes' with
  | nil =>
    rw [List.map_eq_nil_iff.mp alike.symm]
  | cons n nodes ih =>
    obtain ⟨n', nodes', rfl, first, later⟩ := List.map_eq_cons_iff.mp alike.symm
    rw [List.filterMap_cons, List.filterMap_cons, stubOf?_congr first, ih nodes' later.symm]

end Index

/-! ## Texts -/

namespace Syntax.Parse

open PerlOutline.Source (FileId LineIndex)
open PerlOutline.Index (Outline)

/-- Trees of texts in the same tokens differ in trivia alone. -/
theorem bare_congr {a b : List Token} (alike : Token.Alike a b) (maxDepth : Nat) :
    (ofTokensWithin maxDepth a).tree.bare = (ofTokensWithin maxDepth b).tree.bare := by
  have step := Grammar.finalState_inStep alike maxDepth
  simp only [ofTokensWithin, tree, Tree.bare, Tree.bareForest_reverse, step.out]

/-- Comments and layout do not influence a parse. Texts with the same tokens and with trivia between
the same of them have the same tree when trivia is dropped, the same errors at the same tokens, and
the same stubs. -/
theorem restyled (maxDepth : Nat) {a b : List Char}
    (alike : Token.Alike (tokenize a) (tokenize b)) :
    let p := ofTextWithin maxDepth a
    let q := ofTextWithin maxDepth b
    p.tree.bare = q.tree.bare ∧
      (∃ notes : List Note,
        p.errors = notes.map (·.errorIn (tokenize a)) ∧
          q.errors = notes.map (·.errorIn (tokenize b))) ∧
      ∀ (file file' : FileId) (lines lines' : LineIndex), ∃ o o',
        Outline.ofParse file lines p = .ok o ∧ Outline.ofParse file' lines' q = .ok o' ∧
          o.stubs = o'.stubs := by
  intro p q
  -- the two parses were in step from the first token to the last
  have step := Grammar.finalState_inStep alike maxDepth
  have trees : p.tree.bare = q.tree.bare := bare_congr alike maxDepth
  obtain ⟨notes, errors, errors'⟩ := step.notes
  -- errors are noted last first
  refine ⟨trees, ⟨notes.reverse, ?_, ?_⟩, ?_⟩
  · rw [List.map_reverse, ← errors]
    rfl
  · rw [List.map_reverse, ← errors']
    rfl
  · intro file file' lines lines'
    -- placing the trees adds no more than their trivia and their places
    have placed : p.placed.bare = q.placed.bare := by
      rw [placed, placed, Placed.bare_ofTree, Placed.bare_ofTree, trees]
    obtain ⟨o, found, stubs⟩ := Outline.stubs_ofParse file lines maxDepth a
    obtain ⟨o', found', stubs'⟩ := Outline.stubs_ofParse file' lines' maxDepth b
    exact ⟨o, o', found, found', by rw [stubs, stubs', Index.stubs_congr placed]⟩

/-- A missing operand is reported at the same semicolon, wherever that stands. -/
theorem restyled_missing_operand :
    let a := "my $x = 1 + ; # sum".toList
    let b := "# sum\nmy\t$x\n=  1\n+\n;".toList
    Token.Alike (tokenize a) (tokenize b) ∧
      (ofText a).tree.bare = (ofText b).tree.bare ∧
      (ofText a).errors.map (·.range.start) = [12, 12] ∧
      (ofText b).errors.map (·.range.start) = [19, 19] := by
  intro a b
  have alike : Token.Alike (tokenize a) (tokenize b) :=
    ⟨by decide +kernel, by decide +kernel⟩
  have same := restyled Grammar.defaultMaxDepth alike
  exact ⟨alike, same.1, by decide +kernel, by decide +kernel⟩

end Syntax.Parse

end PerlOutline
