import PerlOutline.Syntax.Tree

/-!
# Trees in their text

A placed tree is a syntax tree whose tokens and nodes know their byte ranges. It is made in one
walk from left to right: a token takes its width, and a node reaches from where its first child
begins to where its last child ends.
-/

namespace PerlOutline.Syntax

open PerlOutline.Source (Range)

/-- A token or a node with its place in the text. -/
inductive Placed where
  | token (start : Nat) (t : Token)
  | node (kind : Kind) (range : Range) (children : List Placed)

namespace Placed

/-- The kind of the root of a placed tree. -/
def kind : Placed → Kind
  | .token _ t => t.kind
  | .node k _ _ => k

/-- The range of the root of a placed tree. -/
def range : Placed → Range
  | .token start t => Range.sized start t.width
  | .node _ r _ => r

mutual

/-- A tree placed at `start`. -/
def ofTree (start : Nat) : Tree → Placed
  | .token t => .token start t
  | .node k children =>
    -- A node begins where its first child would, so a node without children is empty.
    let placed := ofForest start children
    .node k ⟨start, placed.2⟩ placed.1

/-- Trees placed one after the other from `start`, and the offset at which they end. -/
def ofForest (start : Nat) : List Tree → List Placed × Nat
  | [] => ([], start)
  | t :: ts =>
    let first := ofTree start t
    -- What stands behind a tree begins where the tree ends.
    let rest := ofForest first.range.stop ts
    (first :: rest.1, rest.2)

end

/-! ## Listing -/

/-- One line of a listing of a tree: how deep it stands, whether it is a token, and what and where
it is. -/
structure Entry where
  depth : Nat
  isToken : Bool
  kind : Kind
  range : Range
  deriving DecidableEq, Repr

mutual

/-- The listing of a placed tree in preorder, with `rest` after it. -/
def entriesOnto (depth : Nat) (rest : List Entry) : Placed → List Entry
  | .token start t => ⟨depth, true, t.kind, Range.sized start t.width⟩ :: rest
  | .node k r children => ⟨depth, false, k, r⟩ :: forestEntriesOnto (depth + 1) rest children

/-- The listing of placed trees in preorder, with `rest` after it. -/
def forestEntriesOnto (depth : Nat) (rest : List Entry) : List Placed → List Entry
  | [] => rest
  | t :: ts => entriesOnto depth (forestEntriesOnto depth rest ts) t

end

/-- The listing of a placed tree in preorder. -/
def entries (t : Placed) : List Entry :=
  entriesOnto 0 [] t

end Placed

end PerlOutline.Syntax
