import PerlOutline.Syntax.Parse

/-!
# Nodes in their tree

A node of a placed tree together with the way up to the root. From it one sees the children, the
siblings before it and all its ancestors.

## Layers
- **`Step`**: one node and the siblings before it.
- **`Node`**: a step with the steps above it, nearest first.
- **Walks**: children, ancestors, siblings before a node, descendants.
- **Root** of a parse.
-/

namespace PerlOutline.Element

open PerlOutline.Source (Range)
open PerlOutline.Syntax (Kind Token Placed Parse)

/-- A node and the nodes before it under the same parent, nearest first. -/
structure Step where
  kind : Kind
  range : Range
  children : List Placed
  preceding : List Placed

/-- A node with the nodes that contain it, nearest first. -/
structure Node where
  here : Step
  above : List Step

/-- A token with the offset at which it begins. -/
structure PlacedToken where
  start : Nat
  token : Token

namespace PlacedToken

def kind (t : PlacedToken) : Kind :=
  t.token.kind

def range (t : PlacedToken) : Range :=
  Range.sized t.start t.token.width

def string (t : PlacedToken) : String :=
  t.token.string

end PlacedToken

namespace Node

def kind (n : Node) : Kind :=
  n.here.kind

def range (n : Node) : Range :=
  n.here.range

/-! ## Direct children -/

/-- The tokens directly under a node, in source order. -/
def tokens (n : Node) : List PlacedToken :=
  n.here.children.filterMap fun child =>
    match child with
    | .token start t => some ⟨start, t⟩
    | .node .. => none

/-- The first token of the given kind directly under a node. -/
def token? (n : Node) (kind : Kind) : Option PlacedToken :=
  n.tokens.find? (·.kind == kind)

/-- The first token directly under a node that is no trivia. -/
def firstToken? (n : Node) : Option PlacedToken :=
  n.tokens.find? (!·.token.isTrivia)

/-- The nodes among `children`, where `preceding` are the nodes before them and `above` the steps
above them. -/
def childrenFrom (above : List Step) (preceding : List Placed) : List Placed → List Node
  | [] => []
  | .token .. :: rest => childrenFrom above preceding rest
  | .node k r cs :: rest =>
    ⟨⟨k, r, cs, preceding⟩, above⟩ :: childrenFrom above (.node k r cs :: preceding) rest

/-- The nodes directly under a node, in source order. -/
def children (n : Node) : List Node :=
  childrenFrom (n.here :: n.above) [] n.here.children

/-! ## Ways up and back -/

/-- The node that contains a node, if it is not the root. -/
def parent? (n : Node) : Option Node :=
  match n.above with
  | [] => none
  | step :: steps => some ⟨step, steps⟩

/-- The nodes of a list of steps, each with the steps after it above it. -/
def ofSteps : List Step → List Node
  | [] => []
  | step :: steps => ⟨step, steps⟩ :: ofSteps steps

/-- The nodes that contain a node, nearest first. -/
def ancestors (n : Node) : List Node :=
  ofSteps n.above

/-- What `search` says of the nearest preceding sibling of which it says something. -/
def searchBack {α : Type} (above : List Step) (search : Node → Option α) :
    List Placed → Option α
  | [] => none
  | .token .. :: rest => searchBack above search rest
  | .node k r cs :: rest => search ⟨⟨k, r, cs, rest⟩, above⟩ <|> searchBack above search rest

/-- What `search` says of the nearest node before a node, under the same parent, of which it says
something. -/
def nearestBefore? {α : Type} (n : Node) (search : Node → Option α) : Option α :=
  searchBack n.above search n.here.preceding

/-! ## Preorder -/

mutual

/-- The nodes of a placed tree in preorder, with `rest` after them. -/
def nodesOnto (above : List Step) (preceding : List Placed) (rest : List Node) :
    Placed → List Node
  | .token .. => rest
  | .node k r cs =>
    let step : Step := ⟨k, r, cs, preceding⟩
    ⟨step, above⟩ :: forestNodesOnto (step :: above) [] rest cs

/-- The nodes of placed trees in preorder, with `rest` after them. -/
def forestNodesOnto (above : List Step) (preceding : List Placed) (rest : List Node) :
    List Placed → List Node
  | [] => rest
  | t :: ts =>
    let passed :=
      match t with
      | .token .. => preceding
      | .node .. => t :: preceding
    nodesOnto above preceding (forestNodesOnto above passed rest ts) t

end

/-- All nodes of a placed tree in preorder. -/
def allOf (t : Placed) : List Node :=
  nodesOnto [] [] [] t

/-- A node and all nodes below it, in preorder. -/
def descendants (n : Node) : List Node :=
  nodesOnto n.above n.here.preceding [] (.node n.kind n.range n.here.children)

/-! ## Root -/

/-- The node of the whole text of a parse. -/
def root (p : Parse) : Node :=
  let placed := Placed.ofForest 0 p.items
  ⟨⟨.sourceFile, ⟨0, placed.2⟩, placed.1, []⟩, []⟩

end Node

end PerlOutline.Element
