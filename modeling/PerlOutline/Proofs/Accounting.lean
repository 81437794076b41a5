import PerlOutline.Proofs.DeclaredNames
import PerlOutline.Proofs.Nameless
import PerlOutline.Proofs.Parts
import PerlOutline.Proofs.Restyling

/-!
# Every declaration is accounted for

An outline has one stub for each declaration of its text that has a name, and one warning for each
that has none. Only packages can lack their name, however broken the text is, and a package without
a name is a syntax error of its own. So nothing that is declared in a text without errors is lost.

## Layers
- **Declarations** among the nodes of a text, told from kinds and parents.
- **Summaries**: a node has a stub, or it is a package without a name, or it declares nothing.
- **Source order**: nodes in preorder begin one after the other.
- **Outlines** of texts.
-/

namespace PerlOutline.Element

open PerlOutline.Syntax (Kind Parse tokenize)
open PerlOutline.Grammar (Holding Limits finalState)

/-! ## Declarations -/

/-- A node that declares something: a variable under a declaration, a sub with a name, or a
package. -/
def Node.isDeclaration (n : Node) : Bool :=
  ([Kind.scalarVariable, .arrayVariable, .hashVariable].contains n.kind &&
      n.parent?.any (·.kind == .variableDeclaration)) ||
    n.kind == .subDefinition || n.kind == .packageStatement

/-- Every element of a text has the parts that are never missing. -/
theorem hasSureParts_of_mem {maxDepth : Nat} {text : List Char} {e : Element}
    (member : e.node ∈ Node.allOf (Parse.ofTextWithin maxDepth text).placed) : e.HasSureParts := by
  have surveyed : ¬ (finalState maxDepth (tokenize text)).Spoiled (Holding.survey false)
      (Limits.forTokens maxDepth (tokenize text)) :=
    -- a survey of all parses is spoiled by none that was fed
    Grammar.State.not_spoiled (Grammar.finalState_not_starved ..) (absurd · (by decide))
      (absurd · (by decide))
  have fits := Node.fits_content (Holding.survey_checks false) (by decide) surveyed member
  exact hasSureParts_of_sure (Bool.and_eq_true_iff.mp fits).1

end PerlOutline.Element

/-! ## Summaries -/

namespace PerlOutline.Stub

open PerlOutline.Element
open PerlOutline.Syntax (Kind Parse)

variable {maxDepth : Nat} {text : List Char} {n : Node}

/-- A result that is no error has a value. -/
theorem exists_ok {ε α : Type} {x : Except ε α} (h : x.isOk = true) : ∃ a, x = .ok a := by
  cases x with
  | ok a => exact ⟨a, rfl⟩
  | error e => cases h

/-- A variable of a text that is declared has a stub. -/
theorem exists_summarizeVariable
    (member : n ∈ Node.allOf (Parse.ofTextWithin maxDepth text).placed) {k : DeclarationKind}
    (introduces : k.declaresVariable = true) (kind : n.kind = k.nodeKind) {p : Node}
    (parent : n.parent? = some p) (declares : p.kind = .variableDeclaration) :
    ∃ s, summarizeVariable k n = .ok s := by
  have isVariable : n.kind.isVariable = true := by
    rw [kind]
    cases k with
    | scalar | array | hash => rfl
    | sub | package => cases introduces
  let v : Variable := ⟨n, isVariable⟩
  -- the declaration above the variable is its parent
  let d : VariableDeclaration := ⟨p, beq_iff_eq.mpr declares⟩
  have viewed : variableOf? n = some v := dif_pos isVariable
  have declared : Variable.declaration? v = some d := by
    have same : v.node.parent? = some p := parent
    rw [Variable.declaration?, same, Option.bind_some, View.ofNode?,
      dif_pos (beq_iff_eq.mpr declares)]
  -- the kind of the node says which element it is, and each of these has a name for sure
  have sure : (Variable.name v).isOk = true := by
    cases k with
    | scalar => exact (hasSureParts_of_mem (e := .scalarVariable ⟨n, beq_iff_eq.mpr kind⟩) member).2
    | array => exact (hasSureParts_of_mem (e := .arrayVariable ⟨n, beq_iff_eq.mpr kind⟩) member).2
    | hash => exact (hasSureParts_of_mem (e := .hashVariable ⟨n, beq_iff_eq.mpr kind⟩) member).2
    | sub | package => cases introduces
  obtain ⟨name, named⟩ := exists_ok sure
  have above : d.node ∈ Node.allOf (Parse.ofTextWithin maxDepth text).placed :=
    (Node.parent_mem_allOf member parent).1
  obtain ⟨declarator, introduced⟩ :=
    exists_ok (hasSureParts_of_mem (e := .variableDeclaration d) above)
  rw [summarizeVariable, viewed, Node.require]
  -- so none of the four steps of the summary fails
  simp only [bind, Except.bind, declared, Node.require, named, introduced]
  exact ⟨_, rfl⟩

/-- A sub of a text has a stub, since only a sub with a name is one. -/
theorem exists_summarizeSub (member : n ∈ Node.allOf (Parse.ofTextWithin maxDepth text).placed)
    (kind : n.kind = .subDefinition) : ∃ s, summarizeSub n = .ok s := by
  let d : SubDefinition := ⟨n, beq_iff_eq.mpr kind⟩
  have viewed : (View.ofNode? n : Option SubDefinition) = some d := dif_pos (beq_iff_eq.mpr kind)
  obtain ⟨name, named⟩ := exists_ok (hasSureParts_of_mem (e := .subDefinition d) member).2
  rw [summarizeSub, viewed, Node.require]
  simp only [bind, Except.bind, named]
  exact ⟨_, rfl⟩

/-- A package has a stub just if it has a name. -/
theorem summarizePackage_cases (kind : n.kind = .packageStatement) :
    (n.isNameless = true ∧ summarizePackage n = .error (n.lacks .packageName)) ∨
      (n.isNameless = false ∧ ∃ s, summarizePackage n = .ok s) := by
  let p : PackageStatement := ⟨n, beq_iff_eq.mpr kind⟩
  have viewed : (View.ofNode? n : Option PackageStatement) = some p :=
    dif_pos (beq_iff_eq.mpr kind)
  -- the name is the first identifier directly under the node
  have lacks : n.isNameless = (n.token? .ident).isNone := by
    rw [Node.isNameless, beq_iff_eq.mpr kind, Bool.true_and]
  rw [lacks, summarizePackage, viewed, Node.require]
  simp only [bind, Except.bind, PackageStatement.name, PackageStatement.nameToken]
  have same : p.node = n := rfl
  rw [same]
  cases n.token? .ident with
  | none => exact .inl ⟨rfl, rfl⟩
  | some t => exact .inr ⟨rfl, _, rfl⟩

end PerlOutline.Stub

namespace PerlOutline.Index

open PerlOutline.Element
open PerlOutline.Source (FileId LineIndex)
open PerlOutline.Stub (DeclarationKind isDeclaredVariable_eq introducedBy?)
open PerlOutline.Syntax (Kind Parse)

/-- What an outline makes of a node. A declaration has a stub if it has a name, and is reported if
it is a package without one. -/
inductive Accounted (n : Node) : Prop where
  | stub {k : DeclarationKind} {s : Stub} (declaration : n.isDeclaration = true)
      (named : n.isNameless = false) (kind : k.nodeKind = n.kind) (made : k.summarize n = .ok s)
      (summary : summaryOf? n = some (.ok s))
  | warning (declaration : n.isDeclaration = true) (nameless : n.isNameless = true)
      (summary : summaryOf? n = some (.error (n.lacks .packageName)))
  | nothing (declaration : n.isDeclaration = false) (named : n.isNameless = false)
      (summary : summaryOf? n = none)

/-- What is said of a node is asked of the kind of declaration that its kind may make. -/
theorem summaryOf?_of_kind {n : Node} (k : DeclarationKind) (kind : n.kind = k.nodeKind) :
    summaryOf? n = if k.declares n then some (k.summarize n) else none := by
  rw [summaryOf?, kind, DeclarationKind.ofNodeKind?_nodeKind, Option.bind_some]

/-- Only a package can be without a name. -/
theorem isNameless_of_ne {n : Node} (other : n.kind ≠ .packageStatement) :
    n.isNameless = false := by
  rw [Node.isNameless, beq_false_of_ne other, Bool.false_and]

/-- A variable declares just under a declaration, and then it has a stub. -/
theorem accounted_of_variable {maxDepth : Nat} {text : List Char} {n : Node}
    (member : n ∈ Node.allOf (Parse.ofTextWithin maxDepth text).placed) {k : DeclarationKind}
    (introduces : k.declaresVariable = true) (kind : n.kind = k.nodeKind) : Accounted n := by
  -- the kinds of variables are those of no other declaration
  have listed : [Kind.scalarVariable, .arrayVariable, .hashVariable].contains n.kind = true ∧
      n.kind.isVariable = true ∧ n.kind ≠ .subDefinition ∧ n.kind ≠ .packageStatement := by
    rw [kind]
    cases k with
    | scalar | array | hash => decide
    | sub | package => cases introduces
  obtain ⟨counted, isVariable, notSub, notPackage⟩ := listed
  have declaration :
      n.isDeclaration = n.parent?.any (·.kind == .variableDeclaration) := by
    rw [Node.isDeclaration, counted, beq_false_of_ne notSub, beq_false_of_ne notPackage,
      Bool.true_and, Bool.or_false, Bool.or_false]
  -- whether it declares depends on its parent alone
  have declares : k.declares n = n.parent?.any (·.kind == .variableDeclaration) := by
    rw [DeclarationKind.declares, beq_iff_eq.mpr kind, introduces, isDeclaredVariable_eq,
      isVariable, introducedBy?]
    cases n.parent? with
    | none => rfl
    | some p => by_cases declares : p.kind = .variableDeclaration <;> simp [declares]
  have summary := summaryOf?_of_kind k kind
  rw [declares] at summary
  cases parent : n.parent? with
  | none =>
    rw [parent] at declaration summary
    exact .nothing declaration (isNameless_of_ne notPackage) summary
  | some p =>
    rw [parent, Option.any_some] at declaration summary
    cases above : p.kind == .variableDeclaration with
    | false =>
      rw [above] at declaration summary
      exact .nothing declaration (isNameless_of_ne notPackage) summary
    | true =>
      rw [above] at declaration summary
      obtain ⟨s, made⟩ :=
        Stub.exists_summarizeVariable member introduces kind parent (beq_iff_eq.mp above)
      have made : k.summarize n = .ok s := by
        cases k with
        | scalar | array | hash => exact made
        | sub | package => cases introduces
      exact .stub declaration (isNameless_of_ne notPackage) kind.symm made
        (by rw [summary, made]; rfl)

/-- Every node of a text is accounted for, however broken the text is. -/
theorem accounted_of_mem {maxDepth : Nat} {text : List Char} {n : Node}
    (member : n ∈ Node.allOf (Parse.ofTextWithin maxDepth text).placed) : Accounted n := by
  cases found : DeclarationKind.ofNodeKind? n.kind with
  -- a node of another kind declares nothing
  | none =>
    have other (k : DeclarationKind) : n.kind ≠ k.nodeKind := by
      intro kind
      rw [kind, DeclarationKind.ofNodeKind?_nodeKind] at found
      cases found
    refine .nothing ?_ (isNameless_of_ne (other .package)) (by rw [summaryOf?, found]; rfl)
    have none : n.kind ≠ .scalarVariable ∧ n.kind ≠ .arrayVariable ∧ n.kind ≠ .hashVariable ∧
        n.kind ≠ .subDefinition ∧ n.kind ≠ .packageStatement :=
      ⟨other .scalar, other .array, other .hash, other .sub, other .package⟩
    simp [Node.isDeclaration, none]
  | some k =>
    have kind := (DeclarationKind.nodeKind_of_ofNodeKind? found).symm
    cases k with
    | scalar | array | hash => exact accounted_of_variable member rfl kind
    | sub =>
      -- a sub is told by its name, so it has one
      obtain ⟨s, made⟩ := Stub.exists_summarizeSub member kind
      have summary := summaryOf?_of_kind .sub kind
      rw [DeclarationKind.declares, beq_iff_eq.mpr kind] at summary
      have sub : n.kind = .subDefinition := kind
      have named : n.isNameless = false := isNameless_of_ne (by rw [sub]; decide)
      exact .stub (k := .sub) (by simp [Node.isDeclaration, sub]) named kind.symm made
        (by rw [summary]; exact congrArg some made)
    | package =>
      have summary := summaryOf?_of_kind .package kind
      rw [DeclarationKind.declares, beq_iff_eq.mpr kind] at summary
      have package : n.kind = .packageStatement := kind
      have declaration : n.isDeclaration = true := by simp [Node.isDeclaration, package]
      -- a package may lack its name
      rcases Stub.summarizePackage_cases kind with ⟨nameless, lacking⟩ | ⟨named, s, made⟩
      · exact .warning declaration nameless (by rw [summary]; exact congrArg some lacking)
      · exact .stub (k := .package) declaration named kind.symm made
          (by rw [summary]; exact congrArg some made)

/-- The stubs among the summaries of nodes are those of the declarations that have a name. -/
theorem forall₂_stubs {nodes : List Node} (each : ∀ n ∈ nodes, Accounted n) :
    List.Forall₂ (fun n s => ∃ k : DeclarationKind, k.nodeKind = n.kind ∧ k.summarize n = .ok s)
      (nodes.filter fun n => n.isDeclaration && !n.isNameless)
      ((nodes.filterMap summaryOf?).filterMap (·.toOption)) := by
  induction nodes with
  | nil => exact .nil
  | cons n nodes ih =>
    obtain ⟨here, later⟩ := List.forall_mem_cons.mp each
    have rest := ih later
    cases here with
    -- a stub, which is the next one
    | stub declaration named kind made summary =>
      rw [List.filterMap_cons_some summary]
      simp only [List.filter_cons, declaration, named]
      exact .cons ⟨_, kind, made⟩ rest
    -- a report, but no stub
    | warning declaration nameless summary =>
      rw [List.filterMap_cons_some summary]
      simp only [List.filter_cons, declaration, nameless]
      exact rest
    -- neither
    | nothing declaration named summary =>
      rw [List.filterMap_cons_none summary]
      simp only [List.filter_cons, declaration]
      exact rest

/-- The report of a declaration that cannot be summarised. -/
def warningOf? (file : FileId) (lines : LineIndex) : Except StructuralError Stub → Option Diagnostic
  | .error e => some (Diagnostic.ofStructuralError file lines e)
  | .ok _ => none

/-- The reports of the summaries of nodes are those of the packages without a name. -/
theorem errors_summaries {nodes : List Node} (each : ∀ n ∈ nodes, Accounted n)
    (file : FileId) (lines : LineIndex) :
    (nodes.filterMap summaryOf?).filterMap (warningOf? file lines) =
      (nodes.filter Node.isNameless).map fun n =>
        Diagnostic.ofStructuralError file lines (n.lacks .packageName) := by
  induction nodes with
  | nil => rfl
  | cons n nodes ih =>
    obtain ⟨here, later⟩ := List.forall_mem_cons.mp each
    have rest := ih later
    cases here with
    -- a stub, but no report
    | stub declaration named kind made summary =>
      rw [List.filterMap_cons_some summary, List.filter_cons, named]
      exact rest
    -- a report, which is the next one
    | warning declaration nameless summary =>
      rw [List.filterMap_cons_some summary, List.filter_cons, nameless]
      exact congrArg _ rest
    | nothing declaration named summary =>
      rw [List.filterMap_cons_none summary, List.filter_cons, named]
      exact rest

end PerlOutline.Index

/-! ## Source order -/

namespace PerlOutline.Element.Node

open PerlOutline.Syntax (Tree Placed)

mutual

/-- The nodes of a placed tree begin one after the other in preorder, and not before the tree. -/
theorem pairwise_nodesOnto (above : List Step) (preceding : List Placed) (rest : List Node)
    (start : Nat) (t : Tree) (ordered : rest.Pairwise (·.range.start ≤ ·.range.start))
    (behind : ∀ n ∈ rest, (Placed.ofTree start t).range.stop ≤ n.range.start) :
    (nodesOnto above preceding rest (.ofTree start t)).Pairwise (·.range.start ≤ ·.range.start) ∧
      ∀ n ∈ nodesOnto above preceding rest (.ofTree start t), start ≤ n.range.start := by
  have stop := Placed.range_stop_ofTree start t
  match t with
  | .token t =>
    refine ⟨ordered, fun n member => ?_⟩
    -- a token has no nodes, and what comes after it stands behind its end
    have := behind n member
    omega
  | .node k children =>
    -- what is inside of the node begins no earlier than the node
    obtain ⟨pairwise, inside⟩ := pairwise_forestNodesOnto
      (⟨k, ⟨start, (Placed.ofForest start children).2⟩, (Placed.ofForest start children).1,
        preceding⟩ :: above) [] rest start children ordered behind
    exact ⟨List.pairwise_cons.mpr ⟨inside, pairwise⟩,
      List.forall_mem_cons.mpr ⟨Nat.le_refl _, inside⟩⟩

/-- The nodes of placed trees begin one after the other in preorder, and not before the trees. -/
theorem pairwise_forestNodesOnto (above : List Step) (preceding : List Placed) (rest : List Node)
    (start : Nat) (ts : List Tree) (ordered : rest.Pairwise (·.range.start ≤ ·.range.start))
    (behind : ∀ n ∈ rest, (Placed.ofForest start ts).2 ≤ n.range.start) :
    (forestNodesOnto above preceding rest (Placed.ofForest start ts).1).Pairwise
        (·.range.start ≤ ·.range.start) ∧
      ∀ n ∈ forestNodesOnto above preceding rest (Placed.ofForest start ts).1,
        start ≤ n.range.start := by
  match ts with
  | [] => exact ⟨ordered, behind⟩
  | t :: ts =>
    -- What comes behind the first tree begins where it ends.
    obtain ⟨later, beyond⟩ := pairwise_forestNodesOnto above
      (match Placed.ofTree start t with
        | .token .. => preceding
        | .node .. => Placed.ofTree start t :: preceding)
      rest (Placed.ofTree start t).range.stop ts ordered behind
    exact pairwise_nodesOnto above preceding _ start t later beyond

end

/-- The nodes of a text begin one after the other in preorder. -/
theorem pairwise_allOf (start : Nat) (t : Tree) :
    (allOf (.ofTree start t)).Pairwise (·.range.start ≤ ·.range.start) :=
  (pairwise_nodesOnto [] [] [] start t .nil (fun _ none => absurd none List.not_mem_nil)).1

end PerlOutline.Element.Node

/-! ## Outlines -/

namespace PerlOutline.Index

open PerlOutline.Element (Node)
open PerlOutline.Source (FileId LineIndex)
open PerlOutline.Stub (DeclarationKind)
open PerlOutline.Syntax (Parse SyntaxError tokenize)

/-- An outline holds the summaries of nodes in preorder, the stubs apart from the reports. -/
theorem Outline.ofText_eq (file : FileId) (text : List Char) :
    let summaries := (Node.allOf (Parse.ofText text).placed).filterMap summaryOf?
    Outline.ofText file text = .ok
      { stubs := summaries.filterMap (·.toOption)
        diagnostics :=
          (Parse.ofText text).errors.map
              (Diagnostic.ofSyntaxError file (LineIndex.ofText text)) ++
            summaries.filterMap (warningOf? file (LineIndex.ofText text)) } := by
  intro summaries
  -- walking over the root gathers the summaries last first
  have gathered : summaryCollector.walk (Node.root (Parse.ofText text)) [] =
      .ok summaries.reverse :=
    walk_summaryCollector Grammar.defaultMaxDepth text
  simp only [Outline.ofText, Outline.ofParse, gathered, bind, Except.bind, pure, Except.pure,
    List.reverse_reverse]
  rfl

/-- Outlines account for every declaration exactly once, in source order. The nodes that are looked
at are the root and, child by child, all that is below it; every token of the text is directly under
one of them. Each declaration that has a name has its stub, and there are no other stubs. The
reports are the syntax errors and then a warning for each package without a name; each of these
packages has a syntax error of its own as well, where the name should stand. So without syntax
errors every declaration has its stub, and there is nothing to report. -/
theorem Outline.accounts_for_declarations (file : FileId) (text : List Char) :
    let parse := Parse.ofText text
    let lines := LineIndex.ofText text
    let nodes := Node.allOf parse.placed
    let declarations := nodes.filter Node.isDeclaration
    let nameless := nodes.filter Node.isNameless
    nodes = (Node.root parse).descendants ∧
    (∀ n : Node, n.descendants = n :: n.children.flatMap Node.descendants) ∧
    (nodes.flatMap Node.ownTokens).Perm (tokenize text) ∧
    nodes.Pairwise (·.range.start ≤ ·.range.start) ∧
    ∃ o, Outline.ofText file text = .ok o ∧
      List.Forall₂ (fun n s => ∃ k : DeclarationKind, k.nodeKind = n.kind ∧ k.summarize n = .ok s)
        (declarations.filter (!·.isNameless)) o.stubs ∧
      o.diagnostics = parse.errors.map (Diagnostic.ofSyntaxError file lines) ++
        nameless.map (fun n => Diagnostic.ofStructuralError file lines (n.lacks .packageName)) ∧
      (∃ own : List SyntaxError, own.Sublist parse.errors ∧
        List.Forall₂ (fun n e => e.Misses (tokenize text) n.range.start) nameless own) ∧
      (parse.ok = true →
        o.diagnostics = [] ∧ declarations.filter (!·.isNameless) = declarations) := by
  intro parse lines nodes declarations nameless
  -- whatever a node is, its outcome is known, and the two lists are sorted by it
  have each : ∀ n ∈ nodes, Accounted n := fun n member => accounted_of_mem member
  have stubs := forall₂_stubs each
  rw [← List.filter_filter] at stubs
  have warnings := errors_summaries each file lines
  obtain ⟨own, among, missed⟩ := Parse.nameless_reported Grammar.defaultMaxDepth text
  refine ⟨Node.allOf_placed parse, Node.descendants_eq, Node.perm_tokenize _ text,
    Node.pairwise_allOf 0 parse.tree, _, Outline.ofText_eq file text, ?_,
    congrArg _ warnings, ⟨own, among, missed⟩, fun clean => ?_⟩
  · -- the declarations that have a name, in either order of the two conditions
    rw [List.filter_filter, List.filter_congr (fun n _ => Bool.and_comm _ _), ← List.filter_filter]
    exact stubs
  · -- Without errors no package can lack its name.
    have quiet : parse.errors = [] := List.isEmpty_iff.mp clean
    have none : nameless = [] := by
      have sub : own.Sublist parse.errors := among
      rw [quiet, List.sublist_nil] at sub
      rw [sub] at missed
      exact List.forall₂_nil_right_iff.mp missed
    refine ⟨?_, List.filter_eq_self.mpr fun n member => ?_⟩
    · have warned : _ = nameless.map _ := warnings
      rw [none] at warned
      exact List.append_eq_nil_iff.mpr ⟨by rw [quiet]; rfl, warned⟩
    · have named := List.filter_eq_nil_iff.mp none n (List.mem_of_mem_filter member)
      rw [Bool.not_eq_true] at named
      rw [named]
      rfl

end PerlOutline.Index
