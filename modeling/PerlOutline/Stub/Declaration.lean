import PerlOutline.Stub.Summary

/-!
# Declarations, live and detached

A declaration is either live, a node of a tree, or detached, made of its stub alone. Both answer
what the stub holds. What needs the tree, only a live declaration can answer.
-/

namespace PerlOutline.Stub

open PerlOutline.Source (Range)
open PerlOutline.Element

/-- A declaration of a kind, by its node or by its stub. -/
inductive Declaration where
  | live (kind : DeclarationKind) (view : Typed kind.nodeKind)
  | detached (kind : DeclarationKind) (stub : Stub)

/-- A question about a declaration that only its tree answers. -/
inductive TreeQuestion where
  | enclosingBlock
  | textRange
  deriving DecidableEq, Repr

/-- What a question is called in messages. -/
def TreeQuestion.label : TreeQuestion → String
  | .enclosingBlock => "enclosing_block"
  | .textRange => "text_range"

/-- A question about the tree was put to a declaration without one. -/
structure DetachedError where
  /-- What was asked. -/
  question : TreeQuestion
  name : String
  deriving DecidableEq, Repr

/-- The words for a question without an answer. -/
def DetachedError.message (e : DetachedError) : String :=
  "`" ++ e.question.label ++ "` is unavailable on detached element `" ++ e.name ++ "`"

namespace Declaration

/-- The live declaration that a node is, if it is one. -/
def ofNode? (n : Node) : Option Declaration :=
  (DeclarationKind.ofNodeKind? n.kind).bind fun k =>
    if k.declares n then (View.ofNode? n).map (.live k) else none

/-- The detached declaration of a stub. -/
def ofStub (s : Stub) : Declaration :=
  .detached s.kind s

/-- What is declared. -/
def kind : Declaration → DeclarationKind
  | .live k _ => k
  | .detached k _ => k

/-- Whether there is no node to ask. -/
def isDetached : Declaration → Bool
  | .live .. => false
  | .detached .. => true

/-- The node of a live declaration. -/
def node? : Declaration → Option Node
  | .live _ v => some v.node
  | .detached .. => none

/-- The stub of a detached declaration. -/
def heldStub? : Declaration → Option Stub
  | .live .. => none
  | .detached _ s => some s

/-! ## What the stub answers -/

/-- The stub: held when detached, else summarised from the node. -/
def toStub : Declaration → Except StructuralError Stub
  | .live k v => k.summarize v.node
  | .detached _ s => .ok s

/-- The name without sigil and package; a package has its full name. -/
def name (d : Declaration) : Except StructuralError String :=
  d.toStub.map (·.name)

/-- The package to which the declaration belongs. -/
def inPackage (d : Declaration) : Except StructuralError String :=
  d.toStub.map (·.inPackage)

/-- What is known of the scope. -/
def flags (d : Declaration) : Except StructuralError Flags :=
  d.toStub.map (·.flags)

/-- The name with the package before it. -/
def qualifiedName (d : Declaration) : Except StructuralError String :=
  d.toStub.map (·.qualifiedName)

/-! ## What the tree answers -/

/-- Ask the node of a live declaration. -/
def ask {α : Type} (question : TreeQuestion) (answer : Node → α) :
    Declaration → Except DetachedError α
  | .live _ v => .ok (answer v.node)
  | .detached _ s => .error ⟨question, s.name⟩

/-- The innermost block around the declaration; at file scope there is none. -/
def enclosingBlock? (d : Declaration) : Except DetachedError (Option Block) :=
  d.ask .enclosingBlock Node.enclosingBlock?

/-- Where the declaration stands in its text. -/
def textRange (d : Declaration) : Except DetachedError Range :=
  d.ask .textRange Node.range

end Declaration

end PerlOutline.Stub
