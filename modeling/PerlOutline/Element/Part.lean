import PerlOutline.Element.Node
import PerlOutline.Syntax.Kind.Label

/-!
# Missing parts

Every well formed element has its parts. In the tree of a broken text a part can be missing, and
whoever asks for it gets an error that names the element, its place and the part.
-/

namespace PerlOutline.Element

open PerlOutline.Source (Range)
open PerlOutline.Syntax (Kind)

/-- A part that an element should have. -/
inductive Part where
  | packageName
  | subName
  | variableName
  | word
  | condition
  | conditionExpression
  | block
  | loopHeader
  | loopBody
  | subBody
  | statementExpression
  | modifierKeyword
  | modifierExpression
  | declarator
  | operator
  | operand
  | leftOperand
  | rightOperand
  | assignmentOperator
  | assignmentTarget
  | assignedValue
  | thenBranch
  | elseBranch
  | subscriptedValue
  | invocant
  | methodName
  | literalToken
  | variable
  | enclosingDeclaration
  | sub
  | package
  deriving DecidableEq, Repr

/-- How a part is called in messages. -/
def Part.label : Part → String
  | .packageName => "package name"
  | .subName => "sub name"
  | .variableName => "variable name"
  | .word => "bareword"
  | .condition => "condition"
  | .conditionExpression => "condition expression"
  | .block => "block"
  | .loopHeader => "loop header"
  | .loopBody => "loop body"
  | .subBody => "sub body"
  | .statementExpression => "expression"
  | .modifierKeyword => "modifier keyword"
  | .modifierExpression => "modifier expression"
  | .declarator => "declarator keyword"
  | .operator => "operator"
  | .operand => "operand"
  | .leftOperand => "left operand"
  | .rightOperand => "right operand"
  | .assignmentOperator => "assignment operator"
  | .assignmentTarget => "assignment target"
  | .assignedValue => "assigned value"
  | .thenBranch => "then branch"
  | .elseBranch => "else branch"
  | .subscriptedValue => "subscripted value"
  | .invocant => "invocant"
  | .methodName => "method name"
  | .literalToken => "literal token"
  | .variable => "variable"
  | .enclosingDeclaration => "enclosing declaration"
  | .sub => "sub"
  | .package => "package"

/-- An element lacks a part. -/
structure StructuralError where
  kind : Kind
  /-- The place of the element. -/
  range : Range
  /-- What it lacks. -/
  part : Part
  deriving DecidableEq, Repr

/-- An error in words: what lacks which part, and where. -/
def StructuralError.message (e : StructuralError) : String :=
  e.kind.label ++ " at " ++ e.range.label ++ " is missing its " ++ e.part.label

/-- The error that a node lacks a part. -/
def Node.lacks (n : Node) (part : Part) : StructuralError :=
  ⟨n.kind, n.range, part⟩

/-- A part that was looked up, or the error that `n` lacks it. -/
def Node.require {α : Type} (n : Node) (part : Part) : Option α → Except StructuralError α
  | some a => .ok a
  | none => .error (n.lacks part)

end PerlOutline.Element
