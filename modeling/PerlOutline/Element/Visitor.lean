import PerlOutline.Element.Factory

/-!
# Visitors

A visitor handles some methods: one for each kind of element, one for variables, one for
expressions, one for statements, and one for all elements. An element goes to its own method; a
method that is not handled passes it on to the next wider one, so each element is handled at most
once, by the narrowest method that the visitor has.

```text
kind of a variable ──→ variable ──┐
kind of an expression ────────────┴→ expression ──┐
kind of a statement ──────────────→ statement ────┼→ element
any other kind ───────────────────────────────────┘
```
-/

namespace PerlOutline.Element

open PerlOutline.Syntax (Kind)

/-- A method of a visitor. -/
inductive Method where
  /-- For what no other method handles. -/
  | element
  | expression
  | statement
  | variable
  /-- For elements of one kind. -/
  | ofKind (kind : Kind)
  deriving DecidableEq, Repr

/-- How a method is called. -/
def Method.label : Method → String
  | .element => "visit_element"
  | .expression => "visit_expr"
  | .statement => "visit_stmt"
  | .variable => "visit_variable"
  | .ofKind .barewordExpr => "visit_bareword"
  | .ofKind k => "visit_" ++ k.label.map Char.toLower

/-- The method of an element. -/
def method : Element → Method
  | .sourceFile _ => .ofKind .sourceFile
  | .block _ => .ofKind .block
  | .packageStatement _ => .ofKind .packageStatement
  | .useStatement _ => .ofKind .useStatement
  | .subDefinition _ => .ofKind .subDefinition
  | .prototype _ => .ofKind .prototype
  | .ifStatement _ => .ofKind .ifStatement
  | .elsifClause _ => .ofKind .elsifClause
  | .elseClause _ => .ofKind .elseClause
  | .condition _ => .ofKind .condition
  | .whileStatement _ => .ofKind .whileStatement
  | .forStatement _ => .ofKind .forStatement
  | .returnStatement _ => .ofKind .returnStatement
  | .exprStatement _ => .ofKind .exprStatement
  | .statementModifier _ => .ofKind .statementModifier
  | .variableDeclaration _ => .ofKind .variableDeclaration
  | .scalarVariable _ => .ofKind .scalarVariable
  | .arrayVariable _ => .ofKind .arrayVariable
  | .hashVariable _ => .ofKind .hashVariable
  | .arrayIndexVariable _ => .ofKind .arrayIndexVariable
  | .assignExpr _ => .ofKind .assignExpr
  | .ternaryExpr _ => .ofKind .ternaryExpr
  | .binaryExpr _ => .ofKind .binaryExpr
  | .unaryExpr _ => .ofKind .unaryExpr
  | .op3PrefixExpr _ => .ofKind .op3PrefixExpr
  | .op3SuffixExpr _ => .ofKind .op3SuffixExpr
  | .elementExpr _ => .ofKind .elementExpr
  | .methodCallExpr _ => .ofKind .methodCallExpr
  | .callExpr _ => .ofKind .callExpr
  | .argList _ => .ofKind .argList
  | .listExpr _ => .ofKind .listExpr
  | .anonArrayExpr _ => .ofKind .anonArrayExpr
  | .anonHashExpr _ => .ofKind .anonHashExpr
  | .anonSubExpr _ => .ofKind .anonSubExpr
  | .derefExpr _ => .ofKind .derefExpr
  | .literal _ => .ofKind .literal
  | .bareword _ => .ofKind .barewordExpr
  | .error _ => .ofKind .error

/-- What to do with nodes, where `σ` is what is gathered on the way. -/
structure Visitor (σ : Type) where
  /-- What the visitor does for a method, if it handles it. -/
  handler? : Method → Option (Node → σ → σ)

namespace Visitor

variable {σ : Type}

/-- Handle a node by one method, or pass it on. -/
def handleOr (v : Visitor σ) (m : Method) (wider : Node → σ → σ) (n : Node) (s : σ) : σ :=
  -- A visitor that handles a node does not pass it on.
  match v.handler? m with
  | some handle => handle n s
  | none => wider n s

/-- The widest method; what it does not handle is passed over. -/
def visitElement (v : Visitor σ) : Node → σ → σ :=
  v.handleOr .element fun _ s => s

/-- The method of expressions. -/
def visitExpression (v : Visitor σ) : Node → σ → σ :=
  v.handleOr .expression v.visitElement

/-- The method of statements. -/
def visitStatement (v : Visitor σ) : Node → σ → σ :=
  v.handleOr .statement v.visitElement

/-- The method of variables; a variable is an expression as well. -/
def visitVariable (v : Visitor σ) : Node → σ → σ :=
  v.handleOr .variable v.visitExpression

/-- Where the method of a kind passes its elements on to. -/
def visitWider (v : Visitor σ) : Kind → Node → σ → σ
  | .block | .packageStatement | .useStatement | .subDefinition | .ifStatement | .whileStatement
  | .forStatement | .returnStatement | .exprStatement => v.visitStatement
  | .scalarVariable | .arrayVariable | .hashVariable | .arrayIndexVariable => v.visitVariable
  | .variableDeclaration | .assignExpr | .ternaryExpr | .binaryExpr | .unaryExpr | .op3PrefixExpr
  | .op3SuffixExpr | .elementExpr | .methodCallExpr | .callExpr | .listExpr | .anonArrayExpr
  | .anonHashExpr | .anonSubExpr | .derefExpr | .literal | .barewordExpr => v.visitExpression
  | _ => v.visitElement

/-- Visit a node by a method. -/
def visitBy (v : Visitor σ) : Method → Node → σ → σ
  | .element => v.visitElement
  | .expression => v.visitExpression
  | .statement => v.visitStatement
  | .variable => v.visitVariable
  | .ofKind kind => v.handleOr (.ofKind kind) (v.visitWider kind)

/-- Visit an element by its own method. -/
def visit (v : Visitor σ) (e : Element) (s : σ) : σ :=
  v.visitBy e.method e.node s

/-- Visit nodes one after the other. -/
def visitAll (v : Visitor σ) (nodes : List Node) (s : σ) : Except UnknownKind σ :=
  nodes.foldlM (fun s n => (Factory.standard.create n).map (v.visit · s)) s

/-- Visit a node and all nodes below it in preorder, if the standard factory lacks no kind. -/
def walk (v : Visitor σ) (root : Node) (s : σ) : Except UnknownKind σ := do
  -- A kind that the factory lacks would be noticed before the first node.
  Factory.checkStandard
  v.visitAll root.descendants s

/-- The visitor that handles the given methods and lists its calls, last first. -/
def recording (handles : Method → Bool) : Visitor (List (Method × Node)) :=
  ⟨fun m => if handles m then some fun n calls => (m, n) :: calls else none⟩

end Visitor

end PerlOutline.Element
