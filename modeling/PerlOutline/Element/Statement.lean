import PerlOutline.Element.Variable

/-!
# Statements

The parts of statements, and of the pieces that only statements have.

## Layers
- **Files and blocks**.
- **Declarations** of packages, modules and subs.
- **Control flow**.
- **Simple statements** with their modifiers.
-/

namespace PerlOutline.Element

open PerlOutline.Syntax (Kind)

/-! ## Files and blocks -/

/-- A whole text. -/
abbrev SourceFile : Type :=
  Typed .sourceFile

/-- The statements of a text, in source order. -/
def SourceFile.statements (f : SourceFile) : List Statement :=
  f.node.childViews

/-- Text that is no program. -/
abbrev ErrorNode : Type :=
  Typed .error

/-- Statements in braces. -/
abbrev Block : Type :=
  Typed .block

namespace Block

/-- The statements in the braces, in source order. -/
def statements (b : Block) : List Statement :=
  b.node.childViews

/-- Whether the closing brace is there. -/
def isClosed (b : Block) : Bool :=
  b.node.hasToken .rBrace

end Block

/-! ## Declarations -/

/-- A package statement, with a block or without. -/
abbrev PackageStatement : Type :=
  Typed .packageStatement

namespace PackageStatement

/-- The token with the name of the package. -/
def nameToken (p : PackageStatement) : Except StructuralError PlacedToken :=
  p.node.require .packageName (p.node.token? .ident)

/-- The name of the package, with all its segments. -/
def name (p : PackageStatement) : Except StructuralError String :=
  p.nameToken.map (·.string)

/-- The version of the package, if it is written. -/
def version? (p : PackageStatement) : Option PlacedToken :=
  p.node.token? .number

/-- The block that the package covers; without one it covers what follows. -/
def block? (p : PackageStatement) : Option Block :=
  p.node.childView?

end PackageStatement

/-- Use of a module or of a version, or the opposite. -/
abbrev UseStatement : Type :=
  Typed .useStatement

namespace UseStatement

/-- Whether the module is switched off. -/
def isNo (u : UseStatement) : Bool :=
  u.node.beginsWith .noKw

/-- The name of the module; a bare version has none. -/
def moduleName? (u : UseStatement) : Option String :=
  u.node.tokenString? .ident

/-- The version that is asked for, of the module or of the language. -/
def version? (u : UseStatement) : Option PlacedToken :=
  u.node.token? .number

/-- What is to be imported, if anything is written. -/
def imports? (u : UseStatement) : Option Expression :=
  u.node.childView?

end UseStatement

/-- Raw tokens in parentheses after the name of a sub. -/
abbrev Prototype : Type :=
  Typed .prototype

/-- What stands in the parentheses, without its trivia. -/
def Prototype.text (p : Prototype) : String :=
  String.join ((p.node.tokens.filter fun t => t.kind != .lParen && t.kind != .rParen).map
    (·.string))

/-- A named sub. -/
abbrev SubDefinition : Type :=
  Typed .subDefinition

namespace SubDefinition

/-- The token with the name of the sub. -/
def nameToken (d : SubDefinition) : Except StructuralError PlacedToken :=
  d.node.require .subName (d.node.token? .ident)

/-- The name of the sub, with its package if one is written. -/
def name (d : SubDefinition) : Except StructuralError String :=
  d.nameToken.map (·.string)

/-- The prototype, if there is one. -/
def prototype? (d : SubDefinition) : Option Prototype :=
  d.node.childView?

/-- The body; a sub that is only announced has none. -/
def body? (d : SubDefinition) : Option Block :=
  d.node.childView?

end SubDefinition

/-! ## Control flow -/

/-- What stands in parentheses after the word that opens a statement. -/
abbrev Condition : Type :=
  Typed .condition

namespace Condition

/-- The first expression of the header. -/
def expr (c : Condition) : Except StructuralError Expression :=
  c.node.childView .conditionExpression

/-- All expressions; the header of a counting loop has up to three. -/
def exprs (c : Condition) : List Expression :=
  c.node.childViews

/-- Whether semicolons make the header that of a counting loop. -/
def isCounting (c : Condition) : Bool :=
  c.node.hasToken .semicolon

end Condition

/-- A further condition with its block. -/
abbrev ElsifClause : Type :=
  Typed .elsifClause

namespace ElsifClause

/-- The condition of the clause. -/
def condition (c : ElsifClause) : Except StructuralError Condition :=
  c.node.childView .condition

/-- The block that runs if the condition holds. -/
def block (c : ElsifClause) : Except StructuralError Block :=
  c.node.childView .block

end ElsifClause

/-- The last block, for when no condition held. -/
abbrev ElseClause : Type :=
  Typed .elseClause

/-- The block that runs if no condition held. -/
def ElseClause.block (c : ElseClause) : Except StructuralError Block :=
  c.node.childView .block

/-- A choice between blocks. -/
abbrev IfStatement : Type :=
  Typed .ifStatement

namespace IfStatement

/-- Whether the first condition is negated. -/
def isUnless (s : IfStatement) : Bool :=
  s.node.beginsWith .unlessKw

/-- The first condition. -/
def condition (s : IfStatement) : Except StructuralError Condition :=
  s.node.childView .condition

/-- The block that runs if the first condition holds. -/
def thenBlock (s : IfStatement) : Except StructuralError Block :=
  s.node.childView .block

/-- Further conditions with their blocks, in source order. -/
def elsifClauses (s : IfStatement) : List ElsifClause :=
  s.node.childViews

/-- The last block, if there is one. -/
def elseClause? (s : IfStatement) : Option ElseClause :=
  s.node.childView?

end IfStatement

/-- A loop with a condition. -/
abbrev WhileStatement : Type :=
  Typed .whileStatement

namespace WhileStatement

/-- Whether the condition is negated. -/
def isUntil (s : WhileStatement) : Bool :=
  s.node.beginsWith .untilKw

/-- The condition under which the loop goes on. -/
def condition (s : WhileStatement) : Except StructuralError Condition :=
  s.node.childView .condition

/-- The block that is repeated. -/
def body (s : WhileStatement) : Except StructuralError Block :=
  s.node.childView .loopBody

end WhileStatement

/-- A loop over a list, or one that counts. -/
abbrev ForStatement : Type :=
  Typed .forStatement

namespace ForStatement

/-- The declaration of the loop variable, if it is declared in the loop. -/
def declaration? (s : ForStatement) : Option VariableDeclaration :=
  s.node.childView?

/-- The loop variable, declared in the loop or before. -/
def iterator? (s : ForStatement) : Option ScalarVariable :=
  match s.declaration? with
  | some d => (VariableDeclaration.declared d).findSome? fun v => View.ofNode? v.node
  | none => s.node.childView?

/-- What stands in the parentheses. -/
def header (s : ForStatement) : Except StructuralError Condition :=
  s.node.childView .loopHeader

/-- The block that is repeated. -/
def body (s : ForStatement) : Except StructuralError Block :=
  s.node.childView .loopBody

end ForStatement

/-! ## Simple statements -/

/-- A modifier after a statement. -/
abbrev StatementModifier : Type :=
  Typed .statementModifier

namespace StatementModifier

/-- The word that opens the modifier. -/
def keyword (m : StatementModifier) : Except StructuralError Kind :=
  m.node.require .modifierKeyword (m.node.firstToken?.map (·.kind))

/-- The condition, or the list to loop over. -/
def condition (m : StatementModifier) : Except StructuralError Expression :=
  m.node.childView .modifierExpression

end StatementModifier

/-- A return. -/
abbrev ReturnStatement : Type :=
  Typed .returnStatement

namespace ReturnStatement

/-- The value that is returned, if one is written. -/
def value? (s : ReturnStatement) : Option Expression :=
  s.node.childView?

/-- The modifier of the statement, if there is one. -/
def modifier? (s : ReturnStatement) : Option StatementModifier :=
  s.node.childView?

end ReturnStatement

/-- An expression that stands alone. -/
abbrev ExprStatement : Type :=
  Typed .exprStatement

namespace ExprStatement

/-- The expression that the statement consists of. -/
def expr (s : ExprStatement) : Except StructuralError Expression :=
  s.node.childView .statementExpression

/-- The modifier of the statement, if there is one. -/
def modifier? (s : ExprStatement) : Option StatementModifier :=
  s.node.childView?

end ExprStatement

end PerlOutline.Element
