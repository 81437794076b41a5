import PerlOutline.Element.Part

/-!
# Views

A view is a node of which a class of kinds is known. Views hold nothing of their own, so two views
of one node are equal. Elements, expressions, statements and variables are views.
-/

namespace PerlOutline.Element

open PerlOutline.Syntax (Kind)

/-- A node whose kind is in a class. -/
structure View (accepts : Kind → Bool) where
  /-- The node that is viewed. -/
  node : Node
  /-- Its kind is in the class. -/
  accepted : accepts node.kind = true

/-- A node of one kind. -/
abbrev Typed (kind : Kind) : Type :=
  View (· == kind)

/-- Any expression; variables and their declarations are expressions. -/
abbrev Expression : Type :=
  View Kind.isExpression

/-- Any statement. -/
abbrev Statement : Type :=
  View Kind.isStatement

/-- Any variable. -/
abbrev Variable : Type :=
  View Kind.isVariable

namespace View

variable {accepts : Kind → Bool}

/-- View a node, if its kind is in the class. -/
def ofNode? (n : Node) : Option (View accepts) :=
  if h : accepts n.kind = true then some ⟨n, h⟩ else none

end View

namespace Node

variable {accepts : Kind → Bool}

/-- The children of a class, in source order. -/
def childViews (n : Node) : List (View accepts) :=
  n.children.filterMap View.ofNode?

/-- The first child of a class. -/
def childView? (n : Node) : Option (View accepts) :=
  n.children.findSome? View.ofNode?

/-- The first child of a class, which every well formed node has. -/
def childView (n : Node) (part : Part) : Except StructuralError (View accepts) :=
  n.require part n.childView?

/-- The child of a class that has `i` such children before it. -/
def nthChildView? (n : Node) (i : Nat) : Option (View accepts) :=
  n.childViews[i]?

/-- The child of a class that has `i` such children before it, which every well formed node
has. -/
def nthChildView (n : Node) (i : Nat) (part : Part) : Except StructuralError (View accepts) :=
  n.require part (n.nthChildView? i)

/-- Whether a token of the given kind is directly under a node. -/
def hasToken (n : Node) (kind : Kind) : Bool :=
  (n.token? kind).isSome

/-- Whether the first token under a node that is no trivia has the given kind. -/
def beginsWith (n : Node) (kind : Kind) : Bool :=
  n.firstToken?.any (·.kind == kind)

/-- The text of the token of the given kind directly under a node. -/
def tokenString? (n : Node) (kind : Kind) : Option String :=
  (n.token? kind).map (·.string)

/-- The operator of a node is its first token that is no trivia, since operands are nodes. -/
def operator (n : Node) : Except StructuralError Kind :=
  n.require .operator (n.firstToken?.map (·.kind))

end Node

end PerlOutline.Element
