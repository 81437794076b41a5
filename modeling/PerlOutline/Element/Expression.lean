import PerlOutline.Element.Statement

/-!
# Expressions

The parts of expressions. Operands are found by their place among the expressions under a node,
and operators are the first token.

## Layers
- **Operators**.
- **Chains**: subscripts, methods and calls.
- **Terms**.
-/

namespace PerlOutline.Element

open PerlOutline.Syntax (Kind)

/-! ## Lists -/

/-- Expressions with commas between them, in parentheses or not. -/
abbrev ListExpr : Type :=
  Typed .listExpr

namespace ListExpr

/-- The items of the list, in source order. -/
def items (l : ListExpr) : List Expression :=
  l.node.childViews

/-- Whether the list stands in parentheses. -/
def isParenthesized (l : ListExpr) : Bool :=
  l.node.hasToken .lParen

end ListExpr

/-- The items of a comma list; any other expression is one item. -/
def flattenList : Option Expression → List Expression
  | none => []
  | some e =>
    match (View.ofNode? e.node : Option ListExpr) with
    -- Parentheses keep a list together as one item.
    | some l => if ListExpr.isParenthesized l then [e] else ListExpr.items l
    | none => [e]

/-! ## Operators -/

/-- An assignment. -/
abbrev AssignExpr : Type :=
  Typed .assignExpr

namespace AssignExpr

/-- What is assigned to: the first operand. -/
def lhs (e : AssignExpr) : Except StructuralError Expression :=
  e.node.nthChildView 0 .assignmentTarget

/-- What is assigned: the second operand. -/
def rhs (e : AssignExpr) : Except StructuralError Expression :=
  e.node.nthChildView 1 .assignedValue

/-- The operator, which may compute with the old value. -/
def op (e : AssignExpr) : Except StructuralError Kind :=
  e.node.require .assignmentOperator
    ((e.node.tokens.map (·.kind)).find? Kind.isAssignmentOperator)

end AssignExpr

/-- A choice between two expressions. -/
abbrev TernaryExpr : Type :=
  Typed .ternaryExpr

namespace TernaryExpr

/-- The first operand. -/
def condition (e : TernaryExpr) : Except StructuralError Expression :=
  e.node.nthChildView 0 .condition

/-- What is chosen if the condition holds. -/
def thenBranch (e : TernaryExpr) : Except StructuralError Expression :=
  e.node.nthChildView 1 .thenBranch

/-- What is chosen if the condition does not hold. -/
def elseBranch (e : TernaryExpr) : Except StructuralError Expression :=
  e.node.nthChildView 2 .elseBranch

end TernaryExpr

/-- A binary operator with its operands. -/
abbrev BinaryExpr : Type :=
  Typed .binaryExpr

namespace BinaryExpr

/-- The operand before the operator. -/
def lhs (e : BinaryExpr) : Except StructuralError Expression :=
  e.node.nthChildView 0 .leftOperand

/-- The operand after the operator. -/
def rhs (e : BinaryExpr) : Except StructuralError Expression :=
  e.node.nthChildView 1 .rightOperand

def op (e : BinaryExpr) : Except StructuralError Kind :=
  e.node.operator

end BinaryExpr

/-- A prefix operator with its operand. -/
abbrev UnaryExpr : Type :=
  Typed .unaryExpr

namespace UnaryExpr

/-- The operator before the operand. -/
def op (e : UnaryExpr) : Except StructuralError Kind :=
  e.node.operator

def operand (e : UnaryExpr) : Except StructuralError Expression :=
  e.node.childView .operand

end UnaryExpr

/-- An increment or decrement before its operand. -/
abbrev Op3PrefixExpr : Type :=
  Typed .op3PrefixExpr

namespace Op3PrefixExpr

def expr (e : Op3PrefixExpr) : Except StructuralError Expression :=
  e.node.childView .operand

/-- Whether the operand is counted up. -/
def isIncrement (e : Op3PrefixExpr) : Bool :=
  e.node.hasToken .plusPlus

end Op3PrefixExpr

/-- An increment or decrement after its operand. -/
abbrev Op3SuffixExpr : Type :=
  Typed .op3SuffixExpr

namespace Op3SuffixExpr

def expr (e : Op3SuffixExpr) : Except StructuralError Expression :=
  e.node.childView .operand

/-- Whether the operand is counted up. -/
def isIncrement (e : Op3SuffixExpr) : Bool :=
  e.node.hasToken .plusPlus

end Op3SuffixExpr

/-! ## Chains -/

/-- Arguments of a call. -/
abbrev ArgList : Type :=
  Typed .argList

namespace ArgList

/-- The block before the arguments, if there is one. -/
def block? (a : ArgList) : Option Block :=
  a.node.childView?

/-- The arguments, in source order. -/
def args (a : ArgList) : List Expression :=
  flattenList a.node.childView?

/-- Whether the arguments stand in parentheses. -/
def isParenthesized (a : ArgList) : Bool :=
  a.node.hasToken .lParen

end ArgList

/-- An element of an array or a hash. -/
abbrev ElementExpr : Type :=
  Typed .elementExpr

namespace ElementExpr

/-- The array or hash, or what refers to it. -/
def base (e : ElementExpr) : Except StructuralError Expression :=
  e.node.nthChildView 0 .subscriptedValue

/-- The index or key, if it is written. -/
def index? (e : ElementExpr) : Option Expression :=
  e.node.nthChildView? 1

/-- Whether the subscript is an index and no key. -/
def isArraySubscript (e : ElementExpr) : Bool :=
  e.node.hasToken .lBracket

/-- Whether an arrow stands before the subscript. -/
def hasArrow (e : ElementExpr) : Bool :=
  e.node.hasToken .arrow

end ElementExpr

/-- A method call. -/
abbrev MethodCallExpr : Type :=
  Typed .methodCallExpr

namespace MethodCallExpr

/-- The object or class before the arrow. -/
def receiver (e : MethodCallExpr) : Except StructuralError Expression :=
  e.node.childView .invocant

/-- The token after the arrow: a name, or a scalar that holds one. -/
def methodName (e : MethodCallExpr) : Except StructuralError PlacedToken :=
  e.node.require .methodName
    -- The arrow comes first there, so the second token is the one behind it.
    (((e.node.tokens.filter (!·.token.isTrivia)).dropWhile (·.kind != .arrow))[1]?)

/-- The arguments in parentheses, if there are any. -/
def args? (e : MethodCallExpr) : Option ArgList :=
  e.node.childView?

end MethodCallExpr

/-- A call of a function or of a code reference. -/
abbrev CallExpr : Type :=
  Typed .callExpr

namespace CallExpr

/-- The name of the function; a call of a code reference has none. -/
def name? (e : CallExpr) : Option String :=
  e.node.tokenString? .ident <|> e.node.tokenString? .returnKw

/-- What refers to the code that is called. -/
def callee? (e : CallExpr) : Option Expression :=
  e.node.childView?

/-- The arguments, if there are any. -/
def args? (e : CallExpr) : Option ArgList :=
  e.node.childView?

end CallExpr

/-! ## Terms -/

/-- A new array. -/
abbrev AnonArrayExpr : Type :=
  Typed .anonArrayExpr

/-- The items of a new array. -/
def AnonArrayExpr.items (e : AnonArrayExpr) : List Expression :=
  flattenList e.node.childView?

/-- A new hash. -/
abbrev AnonHashExpr : Type :=
  Typed .anonHashExpr

/-- The keys and values of a new hash, in turn. -/
def AnonHashExpr.items (e : AnonHashExpr) : List Expression :=
  flattenList e.node.childView?

/-- A sub without a name. -/
abbrev AnonSubExpr : Type :=
  Typed .anonSubExpr

/-- The body of a sub without a name. -/
def AnonSubExpr.body (e : AnonSubExpr) : Except StructuralError Block :=
  e.node.childView .subBody

/-- A dereference. -/
abbrev DerefExpr : Type :=
  Typed .derefExpr

namespace DerefExpr

/-- The sigil tells what the reference refers to. -/
def sigil (e : DerefExpr) : Except StructuralError Kind :=
  e.node.operator

/-- The reference, unless a block computes it. -/
def target? (e : DerefExpr) : Option Expression :=
  e.node.childView?

/-- The block that computes the reference, if there is one. -/
def block? (e : DerefExpr) : Option Block :=
  e.node.childView?

end DerefExpr

/-- What a literal denotes. -/
inductive LiteralKind where
  | number
  | string
  | wordList
  deriving DecidableEq, Repr

/-- A literal. -/
abbrev Literal : Type :=
  Typed .literal

namespace Literal

/-- The token that the literal is. -/
def token (l : Literal) : Except StructuralError PlacedToken :=
  l.node.require .literalToken l.node.firstToken?

/-- What the literal denotes, told by its token. -/
def literalKind (l : Literal) : Except StructuralError LiteralKind := do
  let t ← l.token
  match t.kind with
  | .number => .ok .number
  | .string => .ok .string
  | .qwList => .ok .wordList
  | _ => .error (l.node.lacks .literalToken)

end Literal

/-- A word that is no call. -/
abbrev Bareword : Type :=
  Typed .barewordExpr

/-- The word. -/
def Bareword.name (b : Bareword) : Except StructuralError String :=
  b.node.require .word (b.node.tokenString? .ident)

end PerlOutline.Element
