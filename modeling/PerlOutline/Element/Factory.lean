import PerlOutline.Element.Basic

/-!
# Factories of elements

A factory has a constructor for some kinds and makes elements of nodes with it. The standard
factory has one for each kind that a node can have.
-/

namespace PerlOutline.Element

open PerlOutline.Syntax (Kind)

/-- No element can be made of a node of this kind. -/
structure UnknownKind where
  kind : Kind
  deriving DecidableEq, Repr

/-- The error in words. -/
def UnknownKind.message (e : UnknownKind) : String :=
  "no element type registered for " ++ e.kind.label

/-- A way to make an element of a node. -/
abbrev Constructor : Type :=
  Node → Option Element

/-- Constructors by kind. -/
structure Factory where
  constructor? : Kind → Option Constructor

namespace Factory

/-- The factory that makes nothing. -/
def empty : Factory :=
  ⟨fun _ => none⟩

/-- Register a constructor in place of the one that its kind had. -/
def register (f : Factory) (kind : Kind) (make : Constructor) : Factory :=
  ⟨fun k => if k = kind then some make else f.constructor? k⟩

/-- The factory that makes an element of every node. -/
def standard : Factory :=
  Kind.nodeKinds.foldl (fun f k => f.register k Element.ofNode?) empty

/-- Whether the factory has a constructor for a kind. -/
def knows (f : Factory) (kind : Kind) : Bool :=
  (f.constructor? kind).isSome

/-- The number of kinds that have a constructor. -/
def size (f : Factory) : Nat :=
  (Kind.all.filter f.knows).length

/-- Whether no kind has a constructor. -/
def isEmpty (f : Factory) : Bool :=
  f.size == 0

/-- Check that each of the kinds has a constructor; the first without one is reported. -/
def validate (f : Factory) (kinds : List Kind) : Except UnknownKind Unit :=
  match kinds.find? (!f.knows ·) with
  | some k => .error ⟨k⟩
  | none => .ok ()

/-- Check that the standard factory lacks no kind that a node can have. -/
def checkStandard : Except UnknownKind Unit :=
  standard.validate Kind.nodeKinds

/-- The element of a node, unless its kind has no constructor or the constructor refuses the node.
-/
def create (f : Factory) (n : Node) : Except UnknownKind Element :=
  match (f.constructor? n.kind).bind (· n) with
  | some e => .ok e
  | none => .error ⟨n.kind⟩

end Factory

end PerlOutline.Element
