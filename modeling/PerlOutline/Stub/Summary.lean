import PerlOutline.Element.Scope
import PerlOutline.Stub.Basic

/-!
# Summaries of declarations

Which nodes declare something, and the stub of each.

## Layers
- **`declares`**: variables declare under a declaration, subs and packages always.
- **Scope flags**: a variable in the header of a statement belongs to that statement, so it is not
  at file scope.
- **`summarize`**: the stub of a node.
-/

namespace PerlOutline.Stub

open PerlOutline.Element
open PerlOutline.Syntax (Kind)

/-! ## Which nodes declare -/

/-- A node as a variable, if it is one. -/
def variableOf? (n : Node) : Option Variable :=
  View.ofNode? n

/-- Whether a node is a variable that a declaration introduces. -/
def isDeclaredVariable (n : Node) : Bool :=
  ((variableOf? n).bind Variable.declaration?).isSome

namespace DeclarationKind

/-- Whether a kind is that of a variable, which declares only where a declaration introduces it. -/
def declaresVariable : DeclarationKind → Bool
  | .scalar | .array | .hash => true
  | .sub | .package => false

/-- Whether a node declares what the kind says. -/
def declares (k : DeclarationKind) (n : Node) : Bool :=
  n.kind == k.nodeKind && (!k.declaresVariable || isDeclaredVariable n)

end DeclarationKind

/-! ## Scope flags -/

/-- The flags of a declaration outside every block. -/
def Flags.atFileScope (holds : Bool) : Flags :=
  { Flags.empty with fileScope := holds }

/-- The flags that the declaring word gives. -/
def Flags.ofDeclarator : Declarator → Flags
  | .my => { Flags.empty with lexical := true }
  | .our => { Flags.empty with package := true }
  | .localized => { Flags.empty with localized := true }
  | .state => { Flags.empty with lexical := true, state := true }

/-- Whether a node stands in the header of a statement, with no block between. -/
def isInHeader (n : Node) : Bool :=
  (n.ancestors.takeWhile (·.kind != .block)).any fun a =>
    a.kind == .condition || a.kind == .forStatement

/-! ## The stub of a node -/

/-- Give a name the package that is written before it, or else the package around the node. -/
def placeName (n : Node) (name : String) : String × String :=
  let q := QualifiedName.ofString name
  (q.name, q.inPackage.getD n.enclosingPackage)

/-- The stub of a variable, filed under kind `k`. -/
def summarizeVariable (k : DeclarationKind) (n : Node) : Except StructuralError Stub := do
  let v ← n.require .variable (variableOf? n)
  let declaration ← n.require .enclosingDeclaration (Variable.declaration? v)
  let (name, inPackage) := placeName n (← Variable.name v)
  let introduced := Flags.ofDeclarator (← VariableDeclaration.declarator declaration)
  -- A variable in a header belongs to the statement, even if that is outside every block.
  let scope := Flags.atFileScope (!isInHeader n && n.isFileScope)
  return ⟨k, name, inPackage, introduced.union scope⟩

/-- The stub of a sub. -/
def summarizeSub (n : Node) : Except StructuralError Stub := do
  let d : SubDefinition ← n.require .sub (View.ofNode? n)
  let (name, inPackage) := placeName n (← SubDefinition.name d)
  return ⟨.sub, name, inPackage, Flags.atFileScope n.isFileScope⟩

/-- The stub of a package, which keeps its full name and belongs to the package before its last
colons. -/
def summarizePackage (n : Node) : Except StructuralError Stub := do
  let p : PackageStatement ← n.require .package (View.ofNode? n)
  let name ← PackageStatement.name p
  -- The name is split just for its parent, and is not shortened.
  let parent := (QualifiedName.ofString name).inPackage.getD mainPackage
  return ⟨.package, name, parent, Flags.atFileScope n.isFileScope⟩

/-- The stub of a node, taken for a declaration of kind `k`. -/
def DeclarationKind.summarize (k : DeclarationKind) (n : Node) : Except StructuralError Stub :=
  match k with
  | .scalar | .array | .hash => summarizeVariable k n
  | .sub => summarizeSub n
  | .package => summarizePackage n

end PerlOutline.Stub
