import PerlOutline.Element.Statement
import PerlOutline.Element.QualifiedName

/-!
# Scope of a node

The package and the block in which a node stands. A package statement with a block covers what is
in its block. One without covers what follows it, to the end of the block or text in which it
stands.
-/

namespace PerlOutline.Element

open PerlOutline.Syntax (Kind)

namespace Node

/-- A node as a package statement, if it is one. -/
def asPackage? (n : Node) : Option PackageStatement :=
  View.ofNode? n

/-- The package that a node gives to what it contains. -/
def packageInside? (n : Node) : Option String :=
  n.asPackage?.bind fun p =>
    if (PackageStatement.block? p).isSome then (PackageStatement.name p).toOption else none

/-- A node as a package statement without a block, if it is one. -/
def asOpenPackage? (n : Node) : Option PackageStatement :=
  n.asPackage?.filter fun p => (PackageStatement.block? p).isNone

/-- The package that the last package statement without a block gives to its later siblings. -/
def packageBefore? (n : Node) : Option String :=
  -- The nearest one decides, even if it has no name.
  (n.nearestBefore? asOpenPackage?).bind fun p => (PackageStatement.name p).toOption

/-- The package in which a node stands. -/
def enclosingPackage (n : Node) : String :=
  -- What stands nearer in the text decides: first siblings, then level by level what is around.
  (n.packageBefore? <|>
    n.ancestors.findSome? fun a => a.packageInside? <|> a.packageBefore?).getD mainPackage

/-- The innermost block that contains a node. -/
def enclosingBlock? (n : Node) : Option Block :=
  n.ancestors.findSome? View.ofNode?

/-- Whether a node stands outside every block. -/
def isFileScope (n : Node) : Bool :=
  n.enclosingBlock?.isNone

end Node

end PerlOutline.Element
