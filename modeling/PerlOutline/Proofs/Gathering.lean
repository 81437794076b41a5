import PerlOutline.Proofs.Bare
import PerlOutline.Proofs.Lossless
import PerlOutline.Proofs.Outlining
import PerlOutline.Proofs.Packages

/-!
# What an outline gathers

The stubs of a text are the summaries of its nodes in preorder. All that a summary says comes from
tokens of the text: those directly under a node, and the name of the package around it.

## Layers
- **Preorder**: a node, and then what is below its children one after the other.
- **Stubs** of a text as a list over its nodes.
- **Tokens under nodes**: every token is directly under one node.
- **Packages around nodes**: the main one, or a name in the text.
-/

namespace PerlOutline

open PerlOutline.Syntax (Kind Token Tree Placed Parse)
open PerlOutline.Element (Node Step Factory Visitor View StructuralError mainPackage)
open PerlOutline.Source (FileId LineIndex Range)

/-! ## Preorder -/

namespace Element.Node

mutual

/-- What comes after a tree comes after its nodes. -/
theorem nodesOnto_append (above : List Step) (preceding : List Placed) (rest : List Node)
    (t : Placed) :
    nodesOnto above preceding rest t = nodesOnto above preceding [] t ++ rest := by
  match t with
  | .token .. => rfl
  | .node k r cs =>
    rw [nodesOnto, nodesOnto, forestNodesOnto_append _ [] rest cs, List.cons_append]

/-- What comes after trees comes after their nodes. -/
theorem forestNodesOnto_append (above : List Step) (preceding : List Placed) (rest : List Node)
    (ts : List Placed) :
    forestNodesOnto above preceding rest ts = forestNodesOnto above preceding [] ts ++ rest := by
  match ts with
  | [] => rfl
  | t :: ts =>
    simp only [forestNodesOnto]
    rw [forestNodesOnto_append _ _ rest ts, nodesOnto_append above preceding (_ ++ rest),
      nodesOnto_append above preceding (forestNodesOnto ..), List.append_assoc]

end

/-- What is below nodes under one parent comes one after the other. -/
theorem forestNodesOnto_eq (above : List Step) (preceding ts : List Placed) :
    forestNodesOnto above preceding [] ts =
      (childrenFrom above preceding ts).flatMap descendants := by
  induction ts generalizing preceding with
  | nil => rfl
  | cons t ts ih =>
    cases t with
    | token start t => exact ih preceding
    -- the node goes before the later ones, and is one of the nodes that stand before them
    | node k r cs =>
      simp only [forestNodesOnto, childrenFrom, List.flatMap_cons]
      rw [nodesOnto_append, ih]
      rfl

/-- A node comes before all that is below it, and what is below its children comes child by
child. -/
theorem descendants_eq (n : Node) : n.descendants = n :: n.children.flatMap descendants := by
  rw [children, ← forestNodesOnto_eq, descendants, nodesOnto]
  rfl

end Element.Node

/-! ## Stubs -/

/-- To view a node does not change it. -/
theorem Element.View.node_of_ofNode? {accepts : Kind → Bool} {n : Node} {v : View accepts}
    (h : View.ofNode? n = some v) : v.node = n := by
  obtain ⟨_, ⟨⟩⟩ := Option.dite_none_right_eq_some.mp h
  rfl

/-- To see a node as an element does not change it. -/
theorem Element.node_of_ofNode? {n : Node} {e : Element} (h : Element.ofNode? n = some e) :
    e.node = n := by
  -- each constructor of an element takes over the node that is viewed
  have viewed {accepts : Kind → Bool} {make : View accepts → Element}
      (made : ∀ v, (make v).node = v.node) (h : (View.ofNode? n).map make = some e) :
      e.node = n := by
    obtain ⟨v, found, rfl⟩ := Option.map_eq_some_iff.mp h
    rw [made, View.node_of_ofNode? found]
  unfold Element.ofNode? at h
  -- one case for each kind of node, and one for the kinds that are none
  split at h
  all_goals first
    | exact viewed (fun _ => rfl) h
    | simp at h

/-- The standard factory makes an element of every node. -/
theorem Element.Factory.create_standard {n : Node} (h : n.kind ∈ Kind.nodeKinds) :
    ∃ e, Factory.standard.create n = .ok e ∧ e.node = n := by
  obtain ⟨e, made⟩ := Option.isSome_iff_exists.mp (isSome_ofNode? h)
  exact ⟨e, by simp [create, constructor?_standard h, made], node_of_ofNode? made⟩

namespace Index

/-- The stub of a node that declares something, if it can be summarised. -/
def stubOf? (n : Node) : Option Stub :=
  (summaryOf? n).bind (·.toOption)

/-- The collector gathers the summaries of nodes, the last one first. -/
theorem visitAll_summaryCollector {nodes : List Node} (kinds : ∀ n ∈ nodes, n.kind ∈ Kind.nodeKinds)
    (gathered : List (Except StructuralError Stub)) :
    summaryCollector.visitAll nodes gathered =
      .ok ((nodes.filterMap summaryOf?).reverse ++ gathered) := by
  induction nodes generalizing gathered with
  | nil => rfl
  | cons n nodes ih =>
    obtain ⟨e, made, same⟩ := Factory.create_standard (kinds n (List.mem_cons_self ..))
    -- Only the widest method is handled, so every element is passed on to it.
    have visited : summaryCollector.visit e gathered =
        (summaryOf? e.node).toList ++ gathered := by
      rw [Visitor.visit]
      cases e.method with
      | ofKind kind =>
        simp only [Visitor.visitBy, Visitor.handleOr, Visitor.visitWider, summaryCollector]
        split <;> rfl
      | _ => rfl
    -- what is gathered of the later nodes comes on top of what the first one gave
    have later := ih (fun m hm => kinds m (List.mem_cons_of_mem _ hm))
      (summaryCollector.visit e gathered)
    rw [visited, same] at later
    rw [Visitor.visitAll, List.foldlM_cons, made]
    refine Eq.trans ?_ (later.trans ?_)
    · rw [← same, ← visited]
      rfl
    · cases found : summaryOf? n <;> simp [found]

/-- The nodes of a text have kinds of nodes. -/
theorem kind_of_mem_allOf {maxDepth : Nat} {text : List Char} {n : Node}
    (member : n ∈ Node.allOf (Parse.ofTextWithin maxDepth text).placed) :
    n.kind ∈ Kind.nodeKinds := by
  -- all nodes of a parse are built by the grammar, which builds no others
  have built : (Parse.ofTextWithin maxDepth text).tree.Built (· ∈ Kind.nodeKinds) := by
    apply Tree.built_node (by decide)
    intro t ht
    exact Grammar.finalState_built maxDepth _ t (List.mem_reverse.mp ht)
  rcases Node.kind_of_mem_nodesOnto built member with none | kind
  · exact absurd none List.not_mem_nil
  · exact kind

/-- The walk over a text gathers the summaries of all its nodes, the last one first. -/
theorem walk_summaryCollector (maxDepth : Nat) (text : List Char) :
    let parse := Parse.ofTextWithin maxDepth text
    summaryCollector.walk (Node.root parse) [] =
      .ok ((Node.allOf parse.placed).filterMap summaryOf?).reverse := by
  intro parse
  have kinds : ∀ n ∈ Node.allOf parse.placed, n.kind ∈ Kind.nodeKinds :=
    fun n member => kind_of_mem_allOf member
  -- the walk visits the nodes that are listed, one after the other
  rw [Visitor.walk_eq_visitAll, ← Node.allOf_placed, visitAll_summaryCollector kinds,
    List.append_nil]

/-- The outline of a parsed text has the stubs of its nodes, in preorder. -/
theorem Outline.stubs_ofParse (file : FileId) (lines : LineIndex) (maxDepth : Nat)
    (text : List Char) :
    ∃ o, Outline.ofParse file lines (Parse.ofTextWithin maxDepth text) = .ok o ∧
      o.stubs = (Node.allOf (Parse.ofTextWithin maxDepth text).placed).filterMap stubOf? := by
  rw [ofParse, walk_summaryCollector]
  refine ⟨_, rfl, ?_⟩
  simp only [List.reverse_reverse, List.filterMap_filterMap]
  rfl

/-- The stubs of a text are those of its nodes, in preorder. -/
theorem Outline.stubs_ofText (file : FileId) (text : List Char) :
    (Outline.ofText file text).toOption.elim [] (·.stubs) =
      (Node.allOf (Parse.ofText text).placed).filterMap stubOf? := by
  obtain ⟨o, found, stubs⟩ :=
    Outline.stubs_ofParse file (LineIndex.ofText text) Grammar.defaultMaxDepth text
  have outlined : Outline.ofText file text = .ok o := found
  rw [outlined]
  exact stubs

end Index

/-! ## Tokens under nodes -/

namespace Element.Node

/-- The tokens directly under a node, without their places. -/
def ownTokens (n : Node) : List Token :=
  n.tokens.map (·.token)

/-- The tokens under a node that holds placed trees are the tokens among the trees. -/
theorem ownTokens_ofForest (k : Kind) (r : Range) (start : Nat) (ts : List Tree)
    (preceding : List Placed) (above : List Step) :
    ownTokens ⟨⟨k, r, (Placed.ofForest start ts).1, preceding⟩, above⟩ =
      ts.filterMap Tree.token? := by
  simp only [ownTokens, tokens]
  induction ts generalizing start with
  | nil => rfl
  | cons t ts ih =>
    cases t with
    | token t => simpa [Placed.ofForest, Placed.ofTree] using ih _
    | node k children =>
      simpa [Placed.ofForest, Placed.ofTree, List.filterMap_cons] using ih _

mutual

/-- The tokens of a tree are those that are directly under its nodes, each under one. -/
theorem perm_nodesOnto (above : List Step) (preceding : List Placed) (rest : List Node)
    (start : Nat) (t : Tree) :
    ((nodesOnto above preceding rest (.ofTree start t)).flatMap ownTokens ++
      t.token?.toList).Perm (t.leaves ++ rest.flatMap ownTokens) := by
  match t with
  -- a token has no node of its own
  | .token t => exact List.perm_append_comm
  | .node k children =>
    -- its own tokens are the tokens among its children, and all others are below them
    have below := perm_forestNodesOnto
      (⟨k, ⟨start, (Placed.ofForest start children).2⟩, (Placed.ofForest start children).1,
        preceding⟩ :: above) [] rest start children
    simp only [Placed.ofTree, nodesOnto, List.flatMap_cons, ownTokens_ofForest,
      Tree.token?_node, Option.toList_none, List.append_nil, Tree.leaves_node]
    exact List.perm_append_comm.trans below

/-- The tokens of trees are those that are directly under their nodes and those that are trees of
their own. -/
theorem perm_forestNodesOnto (above : List Step) (preceding : List Placed) (rest : List Node)
    (start : Nat) (ts : List Tree) :
    ((forestNodesOnto above preceding rest (Placed.ofForest start ts).1).flatMap ownTokens ++
      ts.filterMap Tree.token?).Perm (Tree.forestLeaves ts ++ rest.flatMap ownTokens) := by
  match ts with
  | [] => simp [Placed.ofForest, forestNodesOnto]
  | t :: ts =>
    obtain ⟨passed, step⟩ : ∃ passed,
        forestNodesOnto above preceding rest (Placed.ofForest start (t :: ts)).1 =
          nodesOnto above preceding (forestNodesOnto above passed rest
            (Placed.ofForest (Placed.ofTree start t).range.stop ts).1) (.ofTree start t) :=
      ⟨_, rfl⟩
    have first := perm_nodesOnto above preceding (forestNodesOnto above passed rest
      (Placed.ofForest (Placed.ofTree start t).range.stop ts).1) start t
    have later := perm_forestNodesOnto above passed rest (Placed.ofTree start t).range.stop ts
    -- a tree that is a token stands for itself
    have single :
        (t :: ts).filterMap Tree.token? = t.token?.toList ++ ts.filterMap Tree.token? := by
      cases t <;> rfl
    rw [step, single, ← List.append_assoc, Tree.forestLeaves_cons, List.append_assoc t.leaves]
    refine (first.append_right _).trans ?_
    rw [List.append_assoc]
    exact later.append_left _

end

/-- Every token of a text is directly under one node of its tree. -/
theorem perm_tokenize (maxDepth : Nat) (text : List Char) :
    ((allOf (Parse.ofTextWithin maxDepth text).placed).flatMap ownTokens).Perm
      (Syntax.tokenize text) := by
  -- the root is no token, and after its tree there is nothing
  have all := perm_nodesOnto [] [] [] 0 (Parse.ofTextWithin maxDepth text).tree
  have leaves : (Parse.ofTextWithin maxDepth text).tree.leaves = Syntax.tokenize text :=
    Grammar.finalState_leaves maxDepth _
  have node : (Parse.ofTextWithin maxDepth text).tree.token? = none := rfl
  rw [leaves, node, Option.toList_none, List.append_nil, List.flatMap_nil, List.append_nil] at all
  exact all

/-- What stands directly under a node is in the text. -/
theorem mem_tokenize {maxDepth : Nat} {text : List Char} {n : Node}
    (member : n ∈ allOf (Parse.ofTextWithin maxDepth text).placed) {t : Token}
    (own : t ∈ n.ownTokens) : t ∈ Syntax.tokenize text :=
  (perm_tokenize maxDepth text).mem_iff.mp (List.mem_flatMap.mpr ⟨n, member, own⟩)

end Element.Node

/-! ## Packages around nodes -/

namespace Syntax.Placed

/-- A name is that of a token. -/
theorem mem_of_firstName? {start : Nat} {ts : List Tree} {name : String}
    (h : firstName? (ofForest start ts).1 = some name) :
    ∃ t ∈ Tree.forestLeaves ts, t.kind = .ident ∧ t.string = name := by
  induction ts generalizing start with
  | nil => simp [ofForest, firstName?] at h
  | cons t ts ih =>
    have later (h : firstName? (ofForest (ofTree start t).range.stop ts).1 = some name) :
        ∃ t' ∈ Tree.forestLeaves (t :: ts), t'.kind = .ident ∧ t'.string = name := by
      obtain ⟨t', member, named⟩ := ih h
      exact ⟨t', by simp [member], named⟩
    cases t with
    -- a name in a node is no name directly in the list
    | node k children => exact later h
    | token t =>
      simp only [ofForest, ofTree, firstName?] at h
      split at h
      · next ident => exact ⟨t, by simp, ident, Option.some.inj h⟩
      · exact later h

/-- The package is the main one or has a name that is among the tokens. -/
def PackageIn (ts : List Token) (name : String) : Prop :=
  name = mainPackage ∨ ∃ t ∈ ts, t.kind = .ident ∧ t.string = name

/-- Where a name may be missing, the package is in the tokens anyway. -/
theorem packageIn_getD {start : Nat} {ts : List Tree} {toks : List Token} {current : String}
    (sub : ∀ t ∈ Tree.forestLeaves ts, t ∈ toks) (here : PackageIn toks current) :
    PackageIn toks ((firstName? (ofForest start ts).1).getD current) := by
  cases name : firstName? (ofForest start ts).1 with
  | none => exact here
  | some name =>
    obtain ⟨t, member, named⟩ := mem_of_firstName? name
    exact .inr ⟨t, sub t member, named⟩

mutual

/-- The walk hands out packages with names that are among the tokens. -/
theorem packageIn_packages {toks : List Token} {current : String} (here : PackageIn toks current)
    {start : Nat} {t : Tree} (sub : ∀ u ∈ t.leaves, u ∈ toks) {entry : Kind × Range × String}
    (member : entry ∈ (ofTree start t).packages current) : PackageIn toks entry.2.2 := by
  match t with
  | .token t => simp [ofTree, packages] at member
  | .node k children =>
    simp only [ofTree, packages, List.mem_cons] at member
    -- a package with a block gives its name to what is inside
    have inside : PackageIn toks (packageInside current k (ofForest start children).1) := by
      unfold packageInside
      split
      · exact packageIn_getD sub here
      · exact here
    rcases member with rfl | below
    · exact here
    · exact packageIn_forestPackages inside inside sub below

/-- The walk over trees hands out packages with names that are among the tokens. -/
theorem packageIn_forestPackages {toks : List Token} {entry current : String}
    (atEntry : PackageIn toks entry) (here : PackageIn toks current) {start : Nat}
    {ts : List Tree} (sub : ∀ u ∈ Tree.forestLeaves ts, u ∈ toks)
    {found : Kind × Range × String}
    (member : found ∈ forestPackages entry current (ofForest start ts).1) :
    PackageIn toks found.2.2 := by
  match ts with
  | [] => simp [ofForest, forestPackages] at member
  | t :: ts =>
    simp only [Tree.forestLeaves_cons, List.mem_append] at sub
    simp only [ofForest, forestPackages, List.mem_append] at member
    rcases member with first | later
    · exact packageIn_packages here (fun u hu => sub u (.inl hu)) first
    · refine packageIn_forestPackages atEntry ?_ (fun u hu => sub u (.inr hu)) later
      -- what the later trees are in depends on whether the first one opens a package
      cases t with
      | token t => exact here
      | node k children =>
        simp only [ofTree, packageAfter]
        split
        · exact packageIn_getD (fun u hu => sub u (.inl hu)) atEntry
        · exact here

end

end Syntax.Placed

/-- The package around a node is the main one or has its name in the text. -/
theorem Element.Node.packageIn_enclosingPackage {maxDepth : Nat} {text : List Char} {n : Node}
    (member : n ∈ allOf (Parse.ofTextWithin maxDepth text).placed) :
    Placed.PackageIn (Syntax.tokenize text) n.enclosingPackage := by
  -- the package around the node is the one that the walk hands out there
  have walked := map_nodesOnto [] [] [] (Parse.ofTextWithin maxDepth text).placed
  have here : n.inPackage ∈ (Parse.ofTextWithin maxDepth text).placed.packages mainPackage := by
    rw [← List.append_nil (Placed.packages _ _)]
    exact walked ▸ List.mem_map_of_mem member
  refine Placed.packageIn_packages (.inl rfl) ?_ here
  intro t ht
  have leaves : (Parse.ofTextWithin maxDepth text).tree.leaves = Syntax.tokenize text :=
    Grammar.finalState_leaves maxDepth _
  exact leaves ▸ ht

end PerlOutline
