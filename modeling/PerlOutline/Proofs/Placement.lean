import PerlOutline.Proofs.Lossless
import PerlOutline.Proofs.Survey
import PerlOutline.Element.Node

/-!
# Nodes stand where their tokens stand

The tokens of a node are a stretch of the tokens of the text. The node begins where the tokens
before it end, and reaches as far as its own tokens do.

## Layers
- **`Extends`**: a node of placed trees, and the trees it holds.
- **Listing**: all nodes of a placed tree extend over tokens of it.
- **Texts**: where nodes begin and end.
-/

namespace PerlOutline.Element.Node

open PerlOutline.Source (Range byteWidth byteWidth_append)
open PerlOutline.Syntax (Kind Token Tree Placed Parse tokenize spell_tokenize)

/-- The node is one of `ts`, which are placed at `start`, or below one of them: it holds `children`,
with `before` and `after` as the tokens of `ts` that are not its own. -/
inductive Extends (start : Nat) (ts : List Tree) (n : Node) : Prop where
  | intro (before after : List Token) (children : List Tree)
    (split : Tree.forestLeaves ts = before ++ (Tree.forestLeaves children ++ after))
    (begins : n.range.start = start + byteWidth (Token.spell before))
    (holds : Placed.ofForest n.range.start children = (n.here.children, n.range.stop))
    (throughout : ∀ P, Tree.ForestThroughout P ts → P n.kind children)

namespace Extends

variable {start : Nat} {n : Node}

/-- A node below a later tree is a node of all the trees. -/
theorem later {t : Tree} {ts : List Tree} (h : n.Extends (start + byteWidth t.text) ts) :
    n.Extends start (t :: ts) := by
  obtain ⟨before, after, children, split, begins, holds, throughout⟩ := h
  refine ⟨t.leaves ++ before, after, children, ?_, ?_, holds, fun P each => throughout P each.2⟩
  · -- the leaves of the first tree come before those that were before
    rw [Tree.forestLeaves_cons, split, List.append_assoc]
  · rw [begins, Token.spell_append, byteWidth_append, Tree.text, Nat.add_assoc]

/-- A node of the first of some trees is a node of all of them. -/
theorem first {t : Tree} (h : n.Extends start [t]) (ts : List Tree) :
    n.Extends start (t :: ts) := by
  -- the leaves of the later trees come after those that were after
  obtain ⟨before, after, children, split, begins, holds, throughout⟩ := h
  refine ⟨before, after ++ Tree.forestLeaves ts, children, ?_, begins, holds,
    fun P each => throughout P ⟨each.1, trivial⟩⟩
  rw [Tree.forestLeaves_cons, Tree.forestLeaves_nil, List.append_nil] at split
  rw [Tree.forestLeaves_cons, split, List.append_assoc, List.append_assoc]

/-- A node below a node is a node of the tree. -/
theorem below {kind : Kind} {children : List Tree} (h : n.Extends start children) :
    n.Extends start [.node kind children] := by
  obtain ⟨before, after, own, split, begins, holds, throughout⟩ := h
  refine ⟨before, after, own, ?_, begins, holds, fun P each => throughout P each.1.2⟩
  rw [Tree.forestLeaves_cons, Tree.forestLeaves_nil, List.append_nil, Tree.leaves_node, split]

end Extends

/-! ## Listing -/

mutual

/-- A node that is listed of a placed tree is a node of the tree. -/
theorem extends_of_mem_nodesOnto {above : List Step} {preceding : List Placed} {rest : List Node}
    {start : Nat} {t : Tree} {n : Node}
    (member : n ∈ nodesOnto above preceding rest (.ofTree start t)) :
    n ∈ rest ∨ n.Extends start [t] := by
  match t with
  | .token _ => exact .inl member
  | .node k children =>
    simp only [Placed.ofTree, nodesOnto, List.mem_cons] at member
    rcases member with rfl | below
    · -- the node of the tree itself, which holds all of its leaves
      refine .inr ⟨[], [], children, ?_, rfl, rfl, fun P each => each.1.1⟩
      rw [Tree.forestLeaves_cons]
      rfl
    · exact (extends_of_mem_forestNodesOnto below).imp_right Extends.below

/-- The nodes that are listed of placed trees are nodes of the trees. -/
theorem extends_of_mem_forestNodesOnto {above : List Step} {preceding : List Placed}
    {rest : List Node} {start : Nat} {ts : List Tree} {n : Node}
    (member : n ∈ forestNodesOnto above preceding rest (Placed.ofForest start ts).1) :
    n ∈ rest ∨ n.Extends start ts := by
  match ts with
  | [] => exact .inl member
  | t :: ts =>
    simp only [Placed.ofForest, forestNodesOnto] at member
    rcases extends_of_mem_nodesOnto member with later | here
    · -- the later trees are placed where the first one ends
      rw [Placed.range_stop_ofTree] at later
      exact (extends_of_mem_forestNodesOnto later).imp_right Extends.later
    · exact .inr (here.first ts)

end

/-- A node of trees lies where they lie. -/
theorem Extends.within {start : Nat} {ts : List Tree} {n : Node} (h : n.Extends start ts) :
    start ≤ n.range.start ∧ n.range.start ≤ n.range.stop ∧
      n.range.stop ≤ start + byteWidth (Token.spell (Tree.forestLeaves ts)) := by
  obtain ⟨before, after, children, split, begins, holds, -⟩ := h
  -- the node reaches as far as its children do
  have stop := Placed.ofForest_stop n.range.start children
  rw [holds] at stop
  simp only [split, Token.spell_append, byteWidth_append]
  omega

/-- The tokens of a node in source order, each with its offset. -/
def leaves (n : Node) : List (Nat × Token) :=
  Placed.forestLeavesOnto [] n.here.children

/-- The tokens of a node are a stretch of the tokens of the trees it is in. -/
theorem Extends.leaves {start : Nat} {ts : List Tree} {n : Node} (h : n.Extends start ts) :
    n.leaves <:+: Token.placed start (Tree.forestLeaves ts) ∧
      ∃ children, n.leaves = Token.placed n.range.start (Tree.forestLeaves children) ∧
        n.range.stop = n.range.start + byteWidth (Token.spell (Tree.forestLeaves children)) ∧
        ∀ P, Tree.ForestThroughout P ts → P n.kind children := by
  obtain ⟨before, after, children, split, begins, holds, throughout⟩ := h
  have stop := Placed.ofForest_stop n.range.start children
  -- the leaves of the children are placed from where the node begins
  have own : n.leaves = Token.placed n.range.start (Tree.forestLeaves children) := by
    have all := Placed.forestLeavesOnto_ofForest [] n.range.start children
    rwa [holds, List.append_nil] at all
  rw [holds] at stop
  refine ⟨⟨Token.placed start before, Token.placed n.range.stop after, ?_⟩, children, own, stop,
    throughout⟩
  rw [split, Token.placed_append, Token.placed_append, ← begins, own, ← stop, List.append_assoc]

/-! ## Texts -/

/-- The tree of a text holds its tokens. -/
theorem leaves_tree (maxDepth : Nat) (text : List Char) :
    (Parse.ofTextWithin maxDepth text).tree.leaves = tokenize text :=
  Grammar.finalState_leaves maxDepth (tokenize text)

/-- A node of a text lies in the text. -/
theorem within_text {maxDepth : Nat} {text : List Char} {n : Node}
    (member : n ∈ allOf (Parse.ofTextWithin maxDepth text).placed) :
    n.range.start ≤ n.range.stop ∧ n.range.stop ≤ byteWidth text := by
  -- the whole text is one tree, which is placed at its start
  have listed : n.Extends 0 [(Parse.ofTextWithin maxDepth text).tree] :=
    (extends_of_mem_nodesOnto member).resolve_left List.not_mem_nil
  obtain ⟨-, ascending, inside⟩ := listed.within
  rw [Tree.forestLeaves_cons, Tree.forestLeaves_nil, List.append_nil, leaves_tree, spell_tokenize,
    Nat.zero_add] at inside
  exact ⟨ascending, inside⟩

end PerlOutline.Element.Node
