import PerlOutline.Element.Expression

/-!
# Elements

An element is a node seen as what its kind says it is: one constructor for each kind that a node
can have.
-/

namespace PerlOutline

open PerlOutline.Element
open PerlOutline.Syntax (Kind)

/-- A node seen as what its kind says it is. -/
inductive Element where
  | sourceFile (view : SourceFile)
  | block (view : Block)
  | packageStatement (view : PackageStatement)
  | useStatement (view : UseStatement)
  | subDefinition (view : SubDefinition)
  | prototype (view : Prototype)
  | ifStatement (view : IfStatement)
  | elsifClause (view : ElsifClause)
  | elseClause (view : ElseClause)
  | condition (view : Condition)
  | whileStatement (view : WhileStatement)
  | forStatement (view : ForStatement)
  | returnStatement (view : ReturnStatement)
  | exprStatement (view : ExprStatement)
  | statementModifier (view : StatementModifier)
  | variableDeclaration (view : VariableDeclaration)
  | scalarVariable (view : ScalarVariable)
  | arrayVariable (view : ArrayVariable)
  | hashVariable (view : HashVariable)
  | arrayIndexVariable (view : ArrayIndexVariable)
  | assignExpr (view : AssignExpr)
  | ternaryExpr (view : TernaryExpr)
  | binaryExpr (view : BinaryExpr)
  | unaryExpr (view : UnaryExpr)
  | op3PrefixExpr (view : Op3PrefixExpr)
  | op3SuffixExpr (view : Op3SuffixExpr)
  | elementExpr (view : ElementExpr)
  | methodCallExpr (view : MethodCallExpr)
  | callExpr (view : CallExpr)
  | argList (view : ArgList)
  | listExpr (view : ListExpr)
  | anonArrayExpr (view : AnonArrayExpr)
  | anonHashExpr (view : AnonHashExpr)
  | anonSubExpr (view : AnonSubExpr)
  | derefExpr (view : DerefExpr)
  | literal (view : Literal)
  | bareword (view : Bareword)
  | error (view : ErrorNode)

namespace Element

/-- The node that an element is. -/
def node : Element → Node
  | .sourceFile v => v.node
  | .block v => v.node
  | .packageStatement v => v.node
  | .useStatement v => v.node
  | .subDefinition v => v.node
  | .prototype v => v.node
  | .ifStatement v => v.node
  | .elsifClause v => v.node
  | .elseClause v => v.node
  | .condition v => v.node
  | .whileStatement v => v.node
  | .forStatement v => v.node
  | .returnStatement v => v.node
  | .exprStatement v => v.node
  | .statementModifier v => v.node
  | .variableDeclaration v => v.node
  | .scalarVariable v => v.node
  | .arrayVariable v => v.node
  | .hashVariable v => v.node
  | .arrayIndexVariable v => v.node
  | .assignExpr v => v.node
  | .ternaryExpr v => v.node
  | .binaryExpr v => v.node
  | .unaryExpr v => v.node
  | .op3PrefixExpr v => v.node
  | .op3SuffixExpr v => v.node
  | .elementExpr v => v.node
  | .methodCallExpr v => v.node
  | .callExpr v => v.node
  | .argList v => v.node
  | .listExpr v => v.node
  | .anonArrayExpr v => v.node
  | .anonHashExpr v => v.node
  | .anonSubExpr v => v.node
  | .derefExpr v => v.node
  | .literal v => v.node
  | .bareword v => v.node
  | .error v => v.node

/-- What an element is called. -/
def typeName : Element → String
  | .sourceFile _ => "SourceFile"
  | .block _ => "Block"
  | .packageStatement _ => "PackageStatement"
  | .useStatement _ => "UseStatement"
  | .subDefinition _ => "SubDefinition"
  | .prototype _ => "Prototype"
  | .ifStatement _ => "IfStatement"
  | .elsifClause _ => "ElsifClause"
  | .elseClause _ => "ElseClause"
  | .condition _ => "Condition"
  | .whileStatement _ => "WhileStatement"
  | .forStatement _ => "ForStatement"
  | .returnStatement _ => "ReturnStatement"
  | .exprStatement _ => "ExprStatement"
  | .statementModifier _ => "StatementModifier"
  | .variableDeclaration _ => "VariableDeclaration"
  | .scalarVariable _ => "ScalarVariable"
  | .arrayVariable _ => "ArrayVariable"
  | .hashVariable _ => "HashVariable"
  | .arrayIndexVariable _ => "ArrayIndexVariable"
  | .assignExpr _ => "AssignExpr"
  | .ternaryExpr _ => "TernaryExpr"
  | .binaryExpr _ => "BinaryExpr"
  | .unaryExpr _ => "UnaryExpr"
  | .op3PrefixExpr _ => "Op3PrefixExpr"
  | .op3SuffixExpr _ => "Op3SuffixExpr"
  | .elementExpr _ => "ElementExpr"
  | .methodCallExpr _ => "MethodCallExpr"
  | .callExpr _ => "CallExpr"
  | .argList _ => "ArgList"
  | .listExpr _ => "ListExpr"
  | .anonArrayExpr _ => "AnonArrayExpr"
  | .anonHashExpr _ => "AnonHashExpr"
  | .anonSubExpr _ => "AnonSubExpr"
  | .derefExpr _ => "DerefExpr"
  | .literal _ => "Literal"
  | .bareword _ => "Bareword"
  | .error _ => "Error"

/-- The element that a node is, if its kind is one of a node. -/
def ofNode? (n : Node) : Option Element :=
  -- The kind of a node decides; what is no kind of a node makes no element.
  match n.kind with
  | .sourceFile => (View.ofNode? n).map .sourceFile
  | .block => (View.ofNode? n).map .block
  | .packageStatement => (View.ofNode? n).map .packageStatement
  | .useStatement => (View.ofNode? n).map .useStatement
  | .subDefinition => (View.ofNode? n).map .subDefinition
  | .prototype => (View.ofNode? n).map .prototype
  | .ifStatement => (View.ofNode? n).map .ifStatement
  | .elsifClause => (View.ofNode? n).map .elsifClause
  | .elseClause => (View.ofNode? n).map .elseClause
  | .condition => (View.ofNode? n).map .condition
  | .whileStatement => (View.ofNode? n).map .whileStatement
  | .forStatement => (View.ofNode? n).map .forStatement
  | .returnStatement => (View.ofNode? n).map .returnStatement
  | .exprStatement => (View.ofNode? n).map .exprStatement
  | .statementModifier => (View.ofNode? n).map .statementModifier
  | .variableDeclaration => (View.ofNode? n).map .variableDeclaration
  | .scalarVariable => (View.ofNode? n).map .scalarVariable
  | .arrayVariable => (View.ofNode? n).map .arrayVariable
  | .hashVariable => (View.ofNode? n).map .hashVariable
  | .arrayIndexVariable => (View.ofNode? n).map .arrayIndexVariable
  | .assignExpr => (View.ofNode? n).map .assignExpr
  | .ternaryExpr => (View.ofNode? n).map .ternaryExpr
  | .binaryExpr => (View.ofNode? n).map .binaryExpr
  | .unaryExpr => (View.ofNode? n).map .unaryExpr
  | .op3PrefixExpr => (View.ofNode? n).map .op3PrefixExpr
  | .op3SuffixExpr => (View.ofNode? n).map .op3SuffixExpr
  | .elementExpr => (View.ofNode? n).map .elementExpr
  | .methodCallExpr => (View.ofNode? n).map .methodCallExpr
  | .callExpr => (View.ofNode? n).map .callExpr
  | .argList => (View.ofNode? n).map .argList
  | .listExpr => (View.ofNode? n).map .listExpr
  | .anonArrayExpr => (View.ofNode? n).map .anonArrayExpr
  | .anonHashExpr => (View.ofNode? n).map .anonHashExpr
  | .anonSubExpr => (View.ofNode? n).map .anonSubExpr
  | .derefExpr => (View.ofNode? n).map .derefExpr
  | .literal => (View.ofNode? n).map .literal
  | .barewordExpr => (View.ofNode? n).map .bareword
  | .error => (View.ofNode? n).map .error
  | _ => none

/-- The kind of the node of an element. -/
def kind (e : Element) : Kind :=
  e.node.kind

/-- An element as an expression, if it is one. -/
def asExpression? (e : Element) : Option Expression :=
  View.ofNode? e.node

/-- An element as a statement, if it is one. -/
def asStatement? (e : Element) : Option Statement :=
  View.ofNode? e.node

end Element

end PerlOutline
