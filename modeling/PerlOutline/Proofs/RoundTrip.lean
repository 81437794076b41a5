import PerlOutline.Proofs.Acceptance
import PerlOutline.Proofs.Lossless
import PerlOutline.Proofs.ReadBack

/-!
# Programs read back from their trees

A program is read back from a syntax tree with the accessors of its elements alone. To print a
program, to parse the text, and to read the tree gives the program that was printed.

## Layers
- **Reading** of statements and of whole parses.
- **Lists and parts** that the trees of programs show.
- **Reading back**, by induction on the statement.
- **Round trips** of expressions and of programs.
-/

namespace PerlOutline.Program

open PerlOutline.Syntax (Kind Token Tree Parse)
open PerlOutline.Syntax.Lexeme (keyword?)
open PerlOutline.Element

/-! ## Reading -/

/-- The name that a string is, unless it means something else. -/
def Identifier.ofString? (s : String) : Option Identifier :=
  (Name.ofString? s).bind fun name =>
    if h : keyword? name.text = none ∧ name.text ≠ ['q', 'w'] then some ⟨name, h.1, h.2⟩ else none

/-- The sigil that a string is. -/
def Sigil.ofString? (s : String) : Option Sigil :=
  [scalar, array, hash].find? fun sigil => String.singleton sigil.char = s

/-- The variable that an element is: its sigil and its name. -/
def SigiledName.ofVariable? (v : Variable) : Option SigiledName := do
  return ⟨← Sigil.ofString? (Variable.sigil v), ← Name.ofString? (← (Variable.name v).toOption)⟩

/-- What a declaration declares. Without a list it is exactly one variable. -/
def Declared.ofVariables? (isList : Bool) (vs : List SigiledName) : Option Declared :=
  match isList, vs with
  | true, vs => some (.several vs)
  | false, [v] => some (.one v)
  | false, _ => none

/-- The declaration that an element is. -/
def Declaration.ofElement? (d : VariableDeclaration) : Option Declaration := do
  let declarator ← pick (Declarator.ofKind? ·.kind) declaringWords
    (← (VariableDeclaration.declarator d).toOption)
  let vs ← (VariableDeclaration.declared d).mapM SigiledName.ofVariable?
  return ⟨declarator, ← Declared.ofVariables? (VariableDeclaration.isList d) vs⟩

section Reading

variable (readExpr : Expression → Option Expr) (readStmt : Statement → Option Stmt)

/-- A declaration, with its first value if it has one. -/
def readValued? (x : Expression) : Option (Declaration × Option Expr) :=
  -- a declaration alone
  (do
    let d : VariableDeclaration ← View.ofNode? x.node
    return (← Declaration.ofElement? d, none)) <|>
  -- the declaration stands on the left of an assignment, and only a plain one gives a first value
  (do
    let a : AssignExpr ← View.ofNode? x.node
    guard ((← (AssignExpr.op a).toOption) = .eq)
    let d : VariableDeclaration ← View.ofNode? (← (AssignExpr.lhs a).toOption).node
    return (← Declaration.ofElement? d, some (← readExpr (← (AssignExpr.rhs a).toOption))))

/-- The modifier that an element is: its keyword and its condition. -/
def readModifier? (m : StatementModifier) : Option Modifier := do
  return ⟨← pick (·.kind) modifyingWords (← (StatementModifier.keyword m).toOption),
    ← readExpr (← (StatementModifier.condition m).toOption)⟩

/-- The expression of a condition. -/
def readCondition? (c : Condition) : Option Expr := do
  readExpr (← (Condition.expr c).toOption)

/-- The statements of a block. -/
def readBlock? (b : Block) : Option (List Stmt) :=
  (Block.statements b).mapM readStmt

/-- An `elsif` clause: its condition and its block. -/
def readClause? (c : ElsifClause) : Option (Expr × List Stmt) := do
  return (← readCondition? readExpr (← (ElsifClause.condition c).toOption),
    ← readBlock? readStmt (← (ElsifClause.block c).toOption))

/-- The block of an `else` clause. -/
def readLast? (c : ElseClause) : Option (List Stmt) := do
  readBlock? readStmt (← (ElseClause.block c).toOption)

/-- What a loop runs over: a list for a variable that it declares, or three expressions. -/
def readHeader? (loop : ForStatement) : Option Header := do
  let header ← (ForStatement.header loop).toOption
  match ForStatement.declaration? loop, Condition.isCounting header with
  | some d, false => do
    -- only `my` declares the variable of a loop
    guard ((← (VariableDeclaration.declarator d).toOption) = .my)
    let v : Variable ← View.ofNode? (← ForStatement.iterator? loop).node
    return .each (← Name.ofString? (← (Variable.name v).toOption))
      (← readCondition? readExpr header)
  | none, true =>
    match Condition.exprs header with
    | [start, test, step] => do
      return .count (← readExpr start) (← readExpr test) (← readExpr step)
    | _ => none
  | _, _ => none

/-- The statement that an element is, where the readers read its parts. -/
def Stmt.ofElement? : Element → Option Stmt
  | .packageStatement p => do
    let name ← Identifier.ofString? (← (PackageStatement.name p).toOption)
    match PackageStatement.block? p with
    | none => return .package name
    | some b => return .packageBlock name (← readBlock? readStmt b)
  | .useStatement u => do
    -- a printed `use` has neither `no` nor a list of imports
    guard (!UseStatement.isNo u && (UseStatement.imports? u).isNone)
    return .moduleUse (← Identifier.ofString? (← UseStatement.moduleName? u))
  | .subDefinition d => do
    let name ← Identifier.ofString? (← (SubDefinition.name d).toOption)
    match SubDefinition.body? d with
    | none => return .forward name
    | some b => return .sub name (← readBlock? readStmt b)
  | .ifStatement s => do
    return .conditional (IfStatement.isUnless s)
      (← readCondition? readExpr (← (IfStatement.condition s).toOption))
      (← readBlock? readStmt (← (IfStatement.thenBlock s).toOption))
      (← (IfStatement.elsifClauses s).mapM (readClause? readExpr readStmt))
      (← (IfStatement.elseClause? s).mapM (readLast? readStmt))
  | .whileStatement s => do
    return .whileLoop (WhileStatement.isUntil s)
      (← readCondition? readExpr (← (WhileStatement.condition s).toOption))
      (← readBlock? readStmt (← (WhileStatement.body s).toOption))
  | .forStatement s => do
    return .forLoop (s.node.beginsWith .foreachKw) (← readHeader? readExpr s)
      (← readBlock? readStmt (← (ForStatement.body s).toOption))
  | .returnStatement s => do
    return .returning (← (ReturnStatement.value? s).mapM readExpr)
      (← (ReturnStatement.modifier? s).mapM (readModifier? readExpr))
  | .block b => do
    return .block (← readBlock? readStmt b)
  | .exprStatement s => do
    let x ← (ExprStatement.expr s).toOption
    -- a declaration is no expression that is read, so the two readers do not overlap
    let modifier ← (ExprStatement.modifier? s).mapM (readModifier? readExpr)
    match readExpr x, modifier with
    | some e, modifier => return .expression e modifier
    | none, none => do
      let (d, value) ← readValued? readExpr x
      return .declaration d value
    | none, some _ => none
  | _ => none

end Reading

/-- The statement that a node is, where its parts are looked for `fuel` levels deep. -/
def Stmt.read? : Nat → Statement → Option Stmt
  | 0, _ => none
  | fuel + 1, x =>
    (Element.ofNode? x.node).bind (Stmt.ofElement? (Expr.read? fuel) (Stmt.read? fuel))

/-- The root of the tree of a parse. -/
def root? (parse : Parse) : Option SourceFile :=
  (Node.allOf parse.placed).head?.bind View.ofNode?

/-- The program that was parsed. -/
def ofParse? (parse : Parse) : Option (List Stmt) := do
  (SourceFile.statements (← root? parse)).mapM (Stmt.read? parse.tree.leaves.length)

/-- The expression of which the program that was parsed consists. -/
def Expr.ofParse? (parse : Parse) : Option Expr := do
  match SourceFile.statements (← root? parse) with
  | [only] => do
    let statement : ExprStatement ← View.ofNode? only.node
    guard (ExprStatement.modifier? statement).isNone
    Expr.read? parse.tree.leaves.length (← (ExprStatement.expr statement).toOption)
  | _ => none

/-! ## Lists and parts -/

section Parts

variable {accepts : Kind → Bool} {β : Type} {read : View accepts → Option β} {n : Node}
  {t : Tree} {trees : List Tree} {b : β} {bs : List β}

/-- A view that shows the tree is read as `b`. -/
def ReadsAs (read : View accepts → Option β) (t : Tree) (b : β) : Prop :=
  ∀ v, v.node.shown = t → read v = some b

/-- Views that show the trees are read one by one. -/
def ReadsAll (read : View accepts → Option β) (trees : List Tree) (bs : List β) : Prop :=
  ∀ vs : List (View accepts), vs.map (·.node.shown) = trees → vs.mapM read = some bs

/-- No views show no trees. -/
theorem ReadsAll.nil : ReadsAll read [] [] := by
  intro vs shown
  rw [List.map_eq_nil_iff.mp shown]
  rfl

/-- The first view and the others are read apart. -/
theorem ReadsAll.cons (first : ReadsAs read t b) (more : ReadsAll read trees bs) :
    ReadsAll read (t :: trees) (b :: bs) := by
  intro vs shown
  obtain ⟨v, others, rfl, here, rest⟩ := List.map_eq_cons_iff.mp shown
  simp [first v here, more others rest]

/-- The child views of a kind are read, where the trees of the kind are those that are read. -/
theorem ReadsAll.children (h : ReadsAll read trees bs)
    (shown : n.content.filter (Tree.isNodeOf accepts) = trees) :
    n.childViews.mapM read = some bs :=
  h n.childViews (n.shown_childViews.trans shown)

/-- The first child view of a kind is read. -/
theorem ReadsAs.child (h : ReadsAs read t b)
    (first : (n.content.filter (Tree.isNodeOf accepts)).head? = some t) :
    ∃ v : View accepts, n.childView? = some v ∧ read v = some b := by
  obtain ⟨v, found, shown⟩ := Node.childView?_of_content first
  exact ⟨v, found, h v shown⟩

/-- A part that may be left out is read where it is. -/
theorem ReadsAs.optional {treeOf : β → Tree} {part : Option β}
    (h : ∀ b ∈ part, ReadsAs read (treeOf b) b)
    (shown : n.content.filter (Tree.isNodeOf accepts) = optionalTrees treeOf part) :
    n.childView?.mapM read = some part := by
  cases part with
  | none => rw [Node.childView?_eq_none shown]; rfl
  | some b =>
    obtain ⟨v, found, readIt⟩ := (h b rfl).child (by rw [shown]; rfl)
    rw [found, Option.mapM_some, readIt]
    rfl

end Parts

/-- Every expression is printed as a node of an expression. -/
@[simp] theorem isNodeOf_tree (e : Expr) : e.tree.isNodeOf Kind.isExpression = true :=
  isOperand_tree e

/-- Every statement is printed as a node of a statement. -/
theorem isStatement_trees (body : List Stmt) :
    ∀ t ∈ treesOf body, t.isNodeOf Kind.isStatement = true := by
  induction body with
  | nil => exact nofun
  | cons s rest ih =>
    have here : s.tree.isNodeOf Kind.isStatement = true := by cases s <;> rfl
    exact List.forall_mem_cons.mpr ⟨here, ih⟩

/-- An identifier is read from its text. -/
theorem Identifier.ofString?_text (name : Identifier) :
    ofString? (String.ofList name.text) = some name := by
  simp [ofString?, Name.ofString?_text, name.noKeyword, name.noList]

/-- A variable is read from its tree. -/
theorem readsAs_variable (v : SigiledName) : ReadsAs SigiledName.ofVariable? v.tree v := by
  intro x shown
  have kind := Node.kind_of_shown shown
  -- the kind of the node gives the sigil, and the only token the name
  have tokenKind : variableTokenKind x.node.kind = v.word.kind := by
    rw [kind]
    cases v with
    | mk sigil name => cases sigil <;> rfl
  have sigil : variableSigil x.node.kind = String.singleton v.sigil.char := by
    rw [kind]
    cases v.sigil <;> decide
  have named := name_of_content (Node.content_of_shown shown) tokenKind
    (by rw [sigil, String.toList_singleton]) rfl
  have known : Sigil.ofString? (String.singleton v.sigil.char) = some v.sigil := by
    cases v.sigil <;> decide
  simp [SigiledName.ofVariable?, named, Variable.sigil, sigil, known, Name.ofString?_text,
    Except.toOption]

/-- The variables of a declaration. -/
def Declared.members : Declared → List SigiledName
  | .one v => [v]
  | .several vs => vs

/-- A printed variable is a node of a variable. -/
theorem SigiledName.isVariable_tree (v : SigiledName) :
    v.tree.isNodeOf Kind.isVariable = true := by
  cases v with
  | mk sigil name => cases sigil <;> rfl

/-- The commas between variables are no variables. -/
theorem filter_intersperse (vs : List SigiledName) :
    ((vs.map SigiledName.tree).intersperse (.token comma)).filter (Tree.isNodeOf Kind.isVariable) =
      vs.map SigiledName.tree := by
  induction vs with
  | nil => rfl
  | cons v vs ih =>
    -- a comma stands only between two
    cases vs with
    | nil => simp [v.isVariable_tree]
    | cons w ws => simpa [v.isVariable_tree] using ih

/-- Parts are read one by one where each of them is. -/
theorem ReadsAll.map {accepts : Kind → Bool} {β : Type} {read : View accepts → Option β}
    {treeOf : β → Tree} {bs : List β} (h : ∀ b ∈ bs, ReadsAs read (treeOf b) b) :
    ReadsAll read (bs.map treeOf) bs := by
  induction bs with
  | nil => exact .nil
  | cons b bs ih =>
    obtain ⟨first, more⟩ := List.forall_mem_cons.mp h
    exact .cons first (ih more)

/-- A declaration is read from its tree, by the word in front and the variables after it. -/
theorem readsAs_declaration (d : Declaration) : ReadsAs Declaration.ofElement? d.tree d := by
  intro v shown
  have content := Node.content_of_shown shown
  -- the word in front
  have first : v.node.firstToken?.map (·.token) = some d.declarator.val := by
    rw [v.node.token_firstToken?, content]
    rfl
  obtain ⟨t, foundFirst, same⟩ := Option.map_eq_some_iff.mp first
  have kind : t.kind = d.declarator.val.kind := by rw [PlacedToken.kind, same]
  have declares : ∀ t ∈ declaringWords, (Declarator.ofKind? t.kind).isSome = true := by decide
  obtain ⟨word, hword⟩ := Option.isSome_iff_exists.mp (declares _ d.declarator.property)
  have declarator : VariableDeclaration.declarator v = .ok word := by
    simp [VariableDeclaration.declarator, foundFirst, kind, hword, Node.require]
  have picked : pick (Declarator.ofKind? ·.kind) declaringWords (some word) =
      some d.declarator := by
    rw [← hword]
    exact pick_self (by decide) d.declarator
  -- the variables, without the commas and parentheses around them
  have introduced : (VariableDeclaration.declared v).mapM SigiledName.ofVariable? =
      some d.declared.members := by
    apply (ReadsAll.map fun v _ => readsAs_variable v).children
    rw [content]
    cases d.declared with
    | one v => simp [Declared.trees, Declared.members, v.isVariable_tree]
    | several vs => simp [Declared.trees, Declared.members, filter_intersperse]
  -- a parenthesis makes a list, and no declaring word is one
  have isList : Declared.ofVariables? (VariableDeclaration.isList v) d.declared.members =
      some d.declared := by
    have noParen : ∀ t ∈ declaringWords, (t.kind == .lParen) = false := by decide
    have other := noParen _ d.declarator.property
    rw [VariableDeclaration.isList, v.node.hasToken_eq .lParen rfl, content]
    cases d.declared with
    | one v => simp [Declared.trees, other, SigiledName.tree]; rfl
    | several vs => simp [Declared.trees, other]; rfl
  simp [Declaration.ofElement?, declarator, picked, introduced, isList, Except.toOption]

section Readers

variable {readExpr : Expression → Option Expr} {readStmt : Statement → Option Stmt}

/-- The condition of a statement is read where its expression is. -/
theorem readsAs_condition {condition : Expr} (h : ReadsAs readExpr condition.tree condition) :
    ReadsAs (readCondition? readExpr) (conditionTree condition) condition := by
  intro v shown
  have content := Node.content_of_shown shown
  obtain ⟨x, found, readIt⟩ := h.child (n := v.node) (by simp [content])
  simp [readCondition?, Condition.expr, Node.childView, found, readIt, Node.require,
    Except.toOption]

/-- A block is read where its statements are. -/
theorem readsAs_block {body : List Stmt} (h : ReadsAll readStmt (treesOf body) body) :
    ReadsAs (readBlock? readStmt) (blockTree (treesOf body)) body := by
  intro v shown
  have content := Node.content_of_shown shown
  apply h.children
  simp [content, List.filter_eq_self.mpr (isStatement_trees body)]

/-- An `elsif` clause is read where its two parts are. -/
theorem readsAs_clause {condition : Expr} {body : List Stmt}
    (h : ReadsAs readExpr condition.tree condition) (h' : ReadsAll readStmt (treesOf body) body) :
    ReadsAs (readClause? readExpr readStmt)
      (.node .elsifClause [.token elsifWord, conditionTree condition, blockTree (treesOf body)])
      (condition, body) := by
  intro v shown
  have content := Node.content_of_shown shown
  obtain ⟨c, foundCondition, readCondition⟩ := (readsAs_condition h).child (n := v.node)
    (by simp [content, conditionTree])
  obtain ⟨b, foundBlock, readBlock⟩ := (readsAs_block h').child (n := v.node)
    (by simp [content, conditionTree, blockTree])
  simp [readClause?, ElsifClause.condition, ElsifClause.block, Node.childView, foundCondition,
    readCondition, foundBlock, readBlock, Node.require, Except.toOption]

/-- An `else` clause is read where its block is. -/
theorem readsAs_last {body : List Stmt} (h : ReadsAll readStmt (treesOf body) body) :
    ReadsAs (readLast? readStmt) (.node .elseClause [.token elseWord, blockTree (treesOf body)])
      body := by
  intro v shown
  have content := Node.content_of_shown shown
  obtain ⟨b, found, readIt⟩ := (readsAs_block h).child (n := v.node)
    (by simp [content, blockTree])
  simp [readLast?, ElseClause.block, Node.childView, found, readIt, Node.require, Except.toOption]

/-- A modifier is read where its condition is. -/
theorem readsAs_modifier {modifier : Modifier}
    (h : ReadsAs readExpr modifier.condition.tree modifier.condition) :
    ReadsAs (readModifier? readExpr) modifier.tree modifier := by
  intro v shown
  have content := Node.content_of_shown shown
  obtain ⟨x, found, readIt⟩ := h.child (n := v.node) (by simp [content])
  -- the keyword stands in front
  have first : v.node.firstToken?.map (·.token) = some modifier.keyword.val := by
    rw [v.node.token_firstToken?, content]
    rfl
  obtain ⟨t, foundFirst, same⟩ := Option.map_eq_some_iff.mp first
  have keyword : pick (·.kind) modifyingWords t.kind = some modifier.keyword := by
    rw [PlacedToken.kind, same]
    exact pick_self (by decide) modifier.keyword
  simp [readModifier?, StatementModifier.keyword, StatementModifier.condition, Node.childView,
    found, readIt, foundFirst, keyword, Node.require, Except.toOption]

/-- Where a node shows a tree of a kind, it can be viewed so. -/
theorem ofNode?_of_shown {n : Node} {k : Kind} {children : List Tree}
    (shown : n.shown = .node k children) :
    ∃ v : Typed k, (View.ofNode? n : Option (Typed k)) = some v ∧ v.node = n := by
  have kind := Node.kind_of_shown shown
  exact ⟨⟨n, beq_iff_eq.mpr kind⟩, dif_pos (beq_iff_eq.mpr kind), rfl⟩

/-- Where a node shows a tree of another kind, it cannot be viewed so. -/
theorem ofNode?_of_other {n : Node} {k other : Kind} {children : List Tree}
    (shown : n.shown = .node k children) (ne : k ≠ other) :
    (View.ofNode? n : Option (Typed other)) = none := by
  have kind := Node.kind_of_shown shown
  exact dif_neg (by simp [kind, ne])

/-- A declaration is no expression that is read. -/
theorem read?_declaration {x : Expression} {d : Declaration} (shown : x.node.shown = d.tree)
    (fuel : Nat) : Expr.read? fuel x = none := by
  cases fuel with
  | zero => rfl
  | succ left =>
    obtain ⟨v, element, -⟩ := element_of_shown .variableDeclaration
      (fun n kind => by simp only [Element.ofNode?, kind]) shown
    rw [Expr.read?, element]
    rfl

/-- The parts of a declaration with a first value. -/
theorem valued_parts {a : AssignExpr} {d : Declaration} {least : Level} {e : Expr}
    (content : a.node.content = [d.tree, .token equals, enclosed least e.level e.tree]) :
    ∃ y z, AssignExpr.lhs a = .ok y ∧ AssignExpr.rhs a = .ok z ∧ y.node.shown = d.tree ∧
      z.node.shown = enclosed least e.level e.tree ∧ AssignExpr.op a = .ok .eq := by
  -- both sides are expressions, so the two operands are the first and the second expression child
  have isDeclaration : IsOperand d.tree := rfl
  have isValue := isOperand_enclosed least e
  have operands : a.node.content.filter (Tree.isNodeOf Kind.isExpression) =
      [d.tree, enclosed least e.level e.tree] := by
    simp [content, isDeclaration, isValue]
  have tokens : a.node.content.filterMap Tree.token? = [equals] := by
    simp [content, Tree.token?_of_isNodeOf isDeclaration, Tree.token?_of_isNodeOf isValue]
  obtain ⟨y, hy, shownLeft⟩ :=
    Node.nthChildView_of_content (congrArg (·[0]?) operands) .assignmentTarget
  obtain ⟨z, hz, shownRight⟩ :=
    Node.nthChildView_of_content (congrArg (·[1]?) operands) .assignedValue
  exact ⟨y, z, hy, hz, shownLeft, shownRight, Expr.assignOp_of_content (by decide) tokens⟩

/-- A declaration is read with its first value, where the value is read as it is enclosed. -/
theorem readsAs_valued (d : Declaration) (value : Option Expr)
    (h : ∀ e ∈ value, ReadsAs readExpr (enclosed .assignment e.level e.tree) e) :
    ReadsAs (readValued? readExpr) (valuedTree d value) (d, value) := by
  intro x shown
  cases value with
  | none =>
    obtain ⟨v, view, same⟩ := ofNode?_of_shown shown
    have declared := readsAs_declaration d v (same ▸ shown)
    simp [readValued?, view, declared]
  | some value =>
    obtain ⟨a, view, same⟩ := ofNode?_of_shown shown
    -- the right side of the assignment is the value, the left side the declaration
    have content := Node.content_of_shown (same ▸ shown)
    obtain ⟨y, z, hy, hz, shownLeft, shownRight, op⟩ := valued_parts content
    obtain ⟨v, viewLeft, sameLeft⟩ := ofNode?_of_shown shownLeft
    have declared := readsAs_declaration d v (sameLeft ▸ shownLeft)
    -- an assignment is no declaration itself, so the first way of reading fails
    have noDeclaration : (View.ofNode? x.node : Option VariableDeclaration) = none :=
      ofNode?_of_other shown (by decide)
    simp [readValued?, noDeclaration, view, op, hy, hz, viewLeft, declared,
      h value rfl z shownRight, guard, Except.toOption]

/-- A declaration with a first value is no expression that is read. -/
theorem read?_valued {x : Expression} {d : Declaration} {value : Option Expr}
    (shown : x.node.shown = valuedTree d value) (fuel : Nat) : Expr.read? fuel x = none := by
  cases value with
  | none => exact read?_declaration shown fuel
  | some value =>
    cases fuel with
    | zero => rfl
    | succ left =>
      obtain ⟨a, element, content⟩ := element_of_shown .assignExpr
        (fun n kind => by simp only [Element.ofNode?, kind]) shown
      -- its left side is a declaration, which no expression begins with
      obtain ⟨y, -, hy, -, shownLeft, -⟩ := valued_parts content
      rw [Expr.read?, element]
      simp [Expr.ofElement?, hy, read?_declaration shownLeft, Except.toOption]

/-- A list that is looped over, with the variable that the loop declares. -/
theorem readHeader?_each {loop : ForStatement} {w : Token} {name : Name} {list : Expr}
    {body : List Tree} (h : ReadsAs readExpr list.tree list)
    (content : loop.node.content =
      .token w :: ((Header.each name list).trees ++ [blockTree body])) :
    readHeader? readExpr loop = some (.each name list) := by
  obtain ⟨c, foundHeader, shownHeader⟩ : ∃ c : Condition, loop.node.childView? = some c ∧
      c.node.shown = conditionTree list :=
    Node.childView?_of_content (by simp [content, Header.trees, conditionTree])
  -- without a semicolon in the parentheses the loop does not count
  have counting : Condition.isCounting c = false := by
    rw [Condition.isCounting, c.node.hasToken_eq .semicolon rfl, Node.content_of_shown shownHeader]
    simp [Tree.token?_of_isNodeOf (isOperand_tree list)]
    decide
  have listed := readsAs_condition h c shownHeader
  -- the declaration with its one variable
  obtain ⟨d, foundDeclaration, shownDeclaration⟩ :
      ∃ d : VariableDeclaration, loop.node.childView? = some d ∧
        d.node.shown = .node .variableDeclaration
          [.token myWord, .node .scalarVariable [.token name.scalar]] :=
    Node.childView?_of_content (by simp [content, Header.trees])
  -- the word in front of it is `my`
  have first := d.node.token_firstToken?
  rw [Node.content_of_shown shownDeclaration] at first
  obtain ⟨t, foundFirst, same⟩ := Option.map_eq_some_iff.mp first
  have declarator : VariableDeclaration.declarator d = .ok .my := by
    have kind : t.kind = .myKw := by rw [PlacedToken.kind, same]; rfl
    simp [VariableDeclaration.declarator, foundFirst, kind, Declarator.ofKind?, Node.require]
  have introduced : (VariableDeclaration.declared d).map (·.node.shown) =
      [.node .scalarVariable [.token name.scalar]] := by
    rw [VariableDeclaration.declared, Node.shown_childViews, Node.content_of_shown shownDeclaration]
    rfl
  -- its variable is a scalar, so it is the iterator of the loop
  obtain ⟨v, declared, shownVariable⟩ := List.map_eq_singleton_iff.mp introduced
  obtain ⟨scalar, foundScalar, sameScalar⟩ := ofNode?_of_shown shownVariable
  have named : Variable.name v = .ok (String.ofList name.text) := by
    have kind := Node.kind_of_shown shownVariable
    exact name_of_content (Node.content_of_shown shownVariable) (by rw [kind]; rfl)
      (by rw [kind]; rfl) rfl
  have iterator : ForStatement.iterator? loop = some scalar := by
    simp [ForStatement.iterator?, ForStatement.declaration?, foundDeclaration, declared,
      foundScalar]
  have view : (View.ofNode? scalar.node : Option Variable) = some v := by
    rw [sameScalar]
    exact dif_pos v.accepted
  simp [readHeader?, ForStatement.header, ForStatement.declaration?, Node.childView, foundHeader,
    foundDeclaration, counting, declarator, iterator, view, named, Name.ofString?_text, listed,
    guard, Node.require, Except.toOption]

/-- Three expressions with semicolons between them. -/
theorem readHeader?_count {loop : ForStatement} {w : Token} {start test step : Expr}
    {body : List Tree} (hstart : ReadsAs readExpr start.tree start)
    (htest : ReadsAs readExpr test.tree test) (hstep : ReadsAs readExpr step.tree step)
    (content : loop.node.content =
      .token w :: ((Header.count start test step).trees ++ [blockTree body])) :
    readHeader? readExpr loop = some (.count start test step) := by
  obtain ⟨c, foundHeader, shownHeader⟩ : ∃ c : Condition, loop.node.childView? = some c ∧
      c.node.shown = .node .condition
        [.token lParen, start.tree, .token semicolon, test.tree, .token semicolon, step.tree,
         .token rParen] :=
    Node.childView?_of_content (by simp [content, Header.trees])
  -- the semicolons make the loop count
  have counting : Condition.isCounting c = true := by
    rw [Condition.isCounting, c.node.hasToken_eq .semicolon rfl, Node.content_of_shown shownHeader]
    simp [Tree.token?_of_isNodeOf (isOperand_tree _)]
    decide
  have noDeclaration : (loop.node.childView? : Option VariableDeclaration) = none :=
    Node.childView?_eq_none (by simp [content, Header.trees, blockTree])
  -- the expressions between them, in order
  have parts : (Condition.exprs c).map (·.node.shown) = [start.tree, test.tree, step.tree] := by
    rw [Condition.exprs, Node.shown_childViews, Node.content_of_shown shownHeader]
    simp
  obtain ⟨x, _, exprs, shownStart, parts⟩ := List.map_eq_cons_iff.mp parts
  obtain ⟨y, _, rfl, shownTest, parts⟩ := List.map_eq_cons_iff.mp parts
  obtain ⟨z, rfl, shownStep⟩ := List.map_eq_singleton_iff.mp parts
  simp [readHeader?, ForStatement.header, ForStatement.declaration?, Node.childView, foundHeader,
    noDeclaration, counting, exprs, hstart x shownStart, htest y shownTest, hstep z shownStep,
    Node.require, Except.toOption]

end Readers

/-! ## Reading back -/

namespace Stmt

section Elements

variable {fuel : Nat}

/-- To read a node is to read the element that its kind makes of it. -/
theorem readsAs_of {k : Kind} {children : List Tree} {s : Stmt} (make : Typed k → Element)
    (made : ∀ n : Node, n.kind = k → Element.ofNode? n = (View.ofNode? n).map make)
    (h : ∀ v : Typed k, v.node.content = children →
      ofElement? (Expr.read? fuel) (read? fuel) (make v) = some s) :
    ReadsAs (read? (fuel + 1)) (.node k children) s := by
  intro x shown
  obtain ⟨v, element, content⟩ := element_of_shown make made shown
  rw [read?, element]
  exact h v content

/-- The name after the first word of a statement. -/
theorem tokenString?_name {n : Node} {w : Token} {name : Identifier} {more : List Tree}
    (content : n.content = .token w :: .token name.word :: more) (other : w.kind ≠ .ident) :
    n.tokenString? .ident = some (String.ofList name.text) := by
  have notFirst : (w.kind == .ident) = false := beq_eq_false_iff_ne.mpr other
  have found : (name.word.kind == .ident) = true := rfl
  have string : name.word.string = String.ofList name.text := rfl
  rw [n.tokenString?_eq .ident rfl, content]
  simp [notFirst, found, string]

/-- To map a result and to forget its error is to forget the error and map. -/
theorem toOption_map {ε α β : Type} (f : α → β) (e : Except ε α) :
    (e.map f).toOption = e.toOption.map f := by
  cases e <;> rfl

/-- The name of a package is the name after its first word. -/
theorem toOption_packageName (p : PackageStatement) :
    (PackageStatement.name p).toOption = p.node.tokenString? .ident := by
  rw [PackageStatement.name, toOption_map, PackageStatement.nameToken, Node.toOption_require]
  rfl

/-- The name of a sub is the name after its first word. -/
theorem toOption_subName (d : SubDefinition) :
    (SubDefinition.name d).toOption = d.node.tokenString? .ident := by
  rw [SubDefinition.name, toOption_map, SubDefinition.nameToken, Node.toOption_require]
  rfl

/-- A package without a block is read back. -/
theorem readsAs_package (name : Identifier) :
    ReadsAs (read? (fuel + 1)) (tree (.package name)) (.package name) := by
  apply readsAs_of .packageStatement (fun n kind => by simp only [Element.ofNode?, kind])
  intro v content
  have named := tokenString?_name content (by decide)
  -- only a block of its own would make the other kind of package of it
  have noBlock : PackageStatement.block? v = none := Node.childView?_eq_none (by simp [content])
  simp [ofElement?, toOption_packageName, named, Identifier.ofString?_text, noBlock]

/-- A package is read back where its block is. -/
theorem readsAs_packageBlock (name : Identifier) {body : List Stmt}
    (h : ReadsAll (read? fuel) (treesOf body) body) :
    ReadsAs (read? (fuel + 1)) (tree (.packageBlock name body)) (.packageBlock name body) := by
  apply readsAs_of .packageStatement (fun n kind => by simp only [Element.ofNode?, kind])
  intro v content
  have named := tokenString?_name content (by decide)
  obtain ⟨b, found, readIt⟩ := (readsAs_block h).child (n := v.node)
    (by simp [content, blockTree])
  simp [ofElement?, toOption_packageName, named, Identifier.ofString?_text,
    PackageStatement.block?, found, readIt]

/-- A `use` of a module is read back. -/
theorem readsAs_moduleUse (name : Identifier) :
    ReadsAs (read? (fuel + 1)) (tree (.moduleUse name)) (.moduleUse name) := by
  apply readsAs_of .useStatement (fun n kind => by simp only [Element.ofNode?, kind])
  intro v content
  have named : UseStatement.moduleName? v = some (String.ofList name.text) :=
    tokenString?_name content (by decide)
  have noImports : UseStatement.imports? v = none := Node.childView?_eq_none (by simp [content])
  have positive : UseStatement.isNo v = false := by
    rw [UseStatement.isNo, v.node.beginsWith_eq, content]
    rfl
  simp [ofElement?, named, Identifier.ofString?_text, noImports, positive, guard]

/-- A forward declaration of a sub is read back. -/
theorem readsAs_forward (name : Identifier) :
    ReadsAs (read? (fuel + 1)) (tree (.forward name)) (.forward name) := by
  apply readsAs_of .subDefinition (fun n kind => by simp only [Element.ofNode?, kind])
  intro v content
  have named := tokenString?_name content (by decide)
  have noBody : SubDefinition.body? v = none := Node.childView?_eq_none (by simp [content])
  simp [ofElement?, toOption_subName, named, Identifier.ofString?_text, noBody]

/-- A sub is read back where its body is. -/
theorem readsAs_sub (name : Identifier) {body : List Stmt}
    (h : ReadsAll (read? fuel) (treesOf body) body) :
    ReadsAs (read? (fuel + 1)) (tree (.sub name body)) (.sub name body) := by
  apply readsAs_of .subDefinition (fun n kind => by simp only [Element.ofNode?, kind])
  intro v content
  have named := tokenString?_name content (by decide)
  obtain ⟨b, found, readIt⟩ := (readsAs_block h).child (n := v.node)
    (by simp [content, blockTree])
  simp [ofElement?, toOption_subName, named, Identifier.ofString?_text, SubDefinition.body?, found,
    readIt]

/-- A block of its own is read back where its statements are. -/
theorem readsAs_stmtBlock {body : List Stmt} (h : ReadsAll (read? fuel) (treesOf body) body) :
    ReadsAs (read? (fuel + 1)) (tree (.block body)) (.block body) := by
  apply readsAs_of .block (fun n kind => by simp only [Element.ofNode?, kind])
  intro v content
  -- the element is the block itself, and not a node around it
  have shown : v.node.shown = blockTree (treesOf body) := by
    have kind : v.node.kind = .block := beq_iff_eq.mp v.accepted
    rw [Node.shown, kind, content]
    rfl
  simp [ofElement?, readsAs_block h v shown]

/-- A loop with a condition is read back where its parts are. -/
theorem readsAs_whileLoop (negated : Bool) {test : Expr} {body : List Stmt}
    (h : ReadsAs (Expr.read? fuel) test.tree test)
    (h' : ReadsAll (read? fuel) (treesOf body) body) :
    ReadsAs (read? (fuel + 1)) (tree (.whileLoop negated test body))
      (.whileLoop negated test body) := by
  apply readsAs_of .whileStatement (fun n kind => by simp only [Element.ofNode?, kind])
  intro v content
  -- the first word says whether the condition is negated
  have isUntil : WhileStatement.isUntil v = negated := by
    rw [WhileStatement.isUntil, v.node.beginsWith_eq, content]
    cases negated <;> rfl
  obtain ⟨c, foundCondition, readCondition⟩ := (readsAs_condition h).child (n := v.node)
    (by simp [content, conditionTree])
  obtain ⟨b, foundBlock, readBlock⟩ := (readsAs_block h').child (n := v.node)
    (by simp [content, conditionTree, blockTree])
  simp [ofElement?, isUntil, WhileStatement.condition, WhileStatement.body, Node.childView,
    foundCondition, readCondition, foundBlock, readBlock]

/-- A loop over a header is read back where its header and its body are. -/
theorem readsAs_forLoop (each : Bool) {header : Header} {body : List Stmt}
    (h : ∀ loop : ForStatement, loop.node.content =
      .token (forWord each) :: (header.trees ++ [blockTree (treesOf body)]) →
      readHeader? (Expr.read? fuel) loop = some header)
    (h' : ReadsAll (read? fuel) (treesOf body) body) :
    ReadsAs (read? (fuel + 1)) (tree (.forLoop each header body)) (.forLoop each header body) := by
  apply readsAs_of .forStatement (fun n kind => by simp only [Element.ofNode?, kind])
  intro v content
  -- the first word says which of the two spellings it is
  have isEach : v.node.beginsWith .foreachKw = each := by
    rw [v.node.beginsWith_eq, content]
    cases each <;> rfl
  obtain ⟨b, foundBlock, readBlock⟩ := (readsAs_block h').child (n := v.node)
    (by cases header <;> simp [content, Header.trees, conditionTree, blockTree])
  simp [ofElement?, isEach, h v content, ForStatement.body, Node.childView, foundBlock, readBlock]

/-- The further clauses are all of one kind. -/
theorem filter_furtherTrees (accepts : Kind → Bool) (further : List (Expr × List Stmt)) :
    (furtherTrees further).filter (Tree.isNodeOf accepts) =
      if accepts .elsifClause then furtherTrees further else [] := by
  induction further with
  | nil => simp [furtherTrees]
  | cons clause rest ih =>
    obtain ⟨test, body⟩ := clause
    cases accepted : accepts .elsifClause <;> simp [furtherTrees, ih, accepted]

/-- The last clause is of one kind. -/
theorem filter_lastTrees (accepts : Kind → Bool) (last : Option (List Stmt)) :
    (lastTrees last).filter (Tree.isNodeOf accepts) =
      if accepts .elseClause then lastTrees last else [] := by
  cases last with
  | none => simp [lastTrees]
  | some body => cases accepted : accepts .elseClause <;> simp [lastTrees, accepted]

/-- The last clause is a part that may be left out. -/
theorem lastTrees_eq (last : Option (List Stmt)) :
    lastTrees last = optionalTrees
      (fun body => .node .elseClause [.token elseWord, blockTree (treesOf body)]) last := by
  cases last <;> rfl

/-- A conditional is read back where its condition, its blocks and its clauses are. -/
theorem readsAs_conditional (negated : Bool) {test : Expr} {body : List Stmt}
    {further : List (Expr × List Stmt)} {last : Option (List Stmt)}
    (h : ReadsAs (Expr.read? fuel) test.tree test)
    (h' : ReadsAll (read? fuel) (treesOf body) body)
    (hfurther :
      ReadsAll (readClause? (Expr.read? fuel) (read? fuel)) (furtherTrees further) further)
    (hlast : ∀ body ∈ last, ReadsAll (read? fuel) (treesOf body) body) :
    ReadsAs (read? (fuel + 1)) (tree (.conditional negated test body further last))
      (.conditional negated test body further last) := by
  apply readsAs_of .ifStatement (fun n kind => by simp only [Element.ofNode?, kind])
  intro v content
  -- the first word says whether the condition is negated
  have isUnless : IfStatement.isUnless v = negated := by
    rw [IfStatement.isUnless, v.node.beginsWith_eq, content]
    cases negated <;> rfl
  obtain ⟨c, foundCondition, readCondition⟩ := (readsAs_condition h).child (n := v.node)
    (by simp [content, conditionTree])
  obtain ⟨b, foundBlock, readBlock⟩ := (readsAs_block h').child (n := v.node)
    (by simp [content, conditionTree, blockTree])
  -- the further clauses and the last one are of kinds of their own, so neither reader meets the
  -- other
  have clauses : (IfStatement.elsifClauses v).mapM (readClause? (Expr.read? fuel) (read? fuel)) =
      some further := by
    apply hfurther.children
    simp [content, conditionTree, blockTree, filter_furtherTrees, filter_lastTrees]
  have final : (IfStatement.elseClause? v).mapM (readLast? (read? fuel)) = some last := by
    apply ReadsAs.optional fun body member => readsAs_last (hlast body member)
    rw [← lastTrees_eq]
    simp [content, conditionTree, blockTree, filter_furtherTrees, filter_lastTrees]
  simp [ofElement?, isUnless, IfStatement.condition, IfStatement.thenBlock, Node.childView,
    foundCondition, readCondition, foundBlock, readBlock, clauses, final]

/-- A part that may be left out counts among the children of a kind or does not. -/
theorem filter_optionalTrees {α : Type} {accepts : Kind → Bool} {treeOf : α → Tree} {kept : Bool}
    (same : ∀ a, (treeOf a).isNodeOf accepts = kept) (part : Option α) :
    (optionalTrees treeOf part).filter (Tree.isNodeOf accepts) =
      if kept then optionalTrees treeOf part else [] := by
  cases part with
  | none => cases kept <;> rfl
  | some a => cases kept <;> simp [optionalTrees, same]

/-- A modifier is a node of a modifier. -/
theorem isModifier_tree (m : Modifier) : m.tree.isNodeOf (· == .statementModifier) = true := rfl

/-- A modifier is no expression. -/
theorem not_isExpression_modifier (m : Modifier) : m.tree.isNodeOf Kind.isExpression = false := rfl

/-- No expression is a modifier. -/
theorem not_isModifier_tree (e : Expr) :
    e.tree.isNodeOf (· == .statementModifier) = false := by
  cases e <;> rfl

/-- A return is read back where its value and its modifier are. -/
theorem readsAs_returning {value : Option Expr} {modifier : Option Modifier}
    (h : ∀ e ∈ value, ReadsAs (Expr.read? fuel) e.tree e)
    (h' : ∀ m ∈ modifier, ReadsAs (Expr.read? fuel) m.condition.tree m.condition) :
    ReadsAs (read? (fuel + 1)) (tree (.returning value modifier)) (.returning value modifier) := by
  apply readsAs_of .returnStatement (fun n kind => by simp only [Element.ofNode?, kind])
  intro v content
  -- the value is the only expression among the children, and the modifier the only modifier
  have returned : (ReturnStatement.value? v).mapM (Expr.read? fuel) = some value := by
    apply ReadsAs.optional h
    simp [content, filter_optionalTrees isNodeOf_tree,
      filter_optionalTrees not_isExpression_modifier]
  have modified : (ReturnStatement.modifier? v).mapM (readModifier? (Expr.read? fuel)) =
      some modifier := by
    apply ReadsAs.optional fun m member => readsAs_modifier (h' m member)
    simp [content, filter_optionalTrees not_isModifier_tree,
      filter_optionalTrees isModifier_tree]
  simp [ofElement?, returned, modified]

/-- A statement of an expression is read back where its expression and its modifier are. -/
theorem readsAs_expression {e : Expr} {modifier : Option Modifier}
    (h : ReadsAs (Expr.read? fuel) e.tree e)
    (h' : ∀ m ∈ modifier, ReadsAs (Expr.read? fuel) m.condition.tree m.condition) :
    ReadsAs (read? (fuel + 1)) (tree (.expression e modifier)) (.expression e modifier) := by
  apply readsAs_of .exprStatement (fun n kind => by simp only [Element.ofNode?, kind])
  intro v content
  obtain ⟨x, found, readIt⟩ := h.child (n := v.node) (by simp [content])
  have modified : (ExprStatement.modifier? v).mapM (readModifier? (Expr.read? fuel)) =
      some modifier := by
    apply ReadsAs.optional fun m member => readsAs_modifier (h' m member)
    simp [content, not_isModifier_tree, filter_optionalTrees isModifier_tree]
  simp [ofElement?, ExprStatement.expr, Node.childView, found, readIt, modified]

/-- A declaration is read back as a statement where its first value is read. -/
theorem readsAs_stmtDeclaration (d : Declaration) {value : Option Expr}
    (h : ∀ e ∈ value, ReadsAs (Expr.read? fuel) (enclosed .assignment e.level e.tree) e) :
    ReadsAs (read? (fuel + 1)) (tree (.declaration d value)) (.declaration d value) := by
  apply readsAs_of .exprStatement (fun n kind => by simp only [Element.ofNode?, kind])
  intro v content
  -- with a first value the node is an assignment, and without one the declaration itself
  have isExpression : (valuedTree d value).isNodeOf Kind.isExpression = true := by
    cases value <;> rfl
  have noModifier : ExprStatement.modifier? v = none := by
    have other : (valuedTree d value).isNodeOf (· == .statementModifier) = false := by
      cases value <;> rfl
    exact Node.childView?_eq_none (by simp [content, other])
  -- the reader of expressions refuses the node, so the reader of declarations gets it
  obtain ⟨x, found, shown⟩ : ∃ x : Expression, v.node.childView? = some x ∧
      x.node.shown = valuedTree d value :=
    Node.childView?_of_content (by simp [content, isExpression])
  simp [ofElement?, ExprStatement.expr, Node.childView, found, noModifier, read?_valued shown fuel,
    readsAs_valued d value h x shown]

end Elements

/-- A statement is read back from its tree: one level for each word is enough. -/
def IsReadBack (s : Stmt) : Prop :=
  ∀ fuel, s.words.length ≤ fuel → ReadsAs (read? fuel) s.tree s

/-- Every statement has a word. -/
theorem IsReadBack.of_succ {s : Stmt}
    (h : ∀ left, s.words.length ≤ left + 1 → ReadsAs (read? (left + 1)) s.tree s) :
    s.IsReadBack := by
  intro fuel enough
  obtain ⟨u, us, words, -⟩ := s.opens
  obtain ⟨left, rfl⟩ : ∃ left, fuel = left + 1 := by
    rw [words, List.length_cons] at enough
    exact Nat.exists_eq_add_one.mpr (by omega)
  exact h left enough

/-- The condition of a modifier is read back where there is fuel for the words of the modifier. -/
theorem modifier_isReadBack {modifier : Option Modifier} {fuel : Nat}
    (enough : (optionalWords Modifier.words modifier).length ≤ fuel) :
    ∀ m ∈ modifier, ReadsAs (Expr.read? fuel) m.condition.tree m.condition := by
  rintro m rfl
  simp only [optionalWords, Option.elim_some, Modifier.words, List.length_cons] at enough
  exact m.condition.isReadBack fuel (by omega)

/-- The header of a loop is read back where there is fuel for its words. -/
theorem header_isReadBack (header : Header) {fuel : Nat} (enough : header.words.length ≤ fuel)
    {loop : ForStatement} {w : Token} {body : List Tree}
    (content : loop.node.content = .token w :: (header.trees ++ [blockTree body])) :
    readHeader? (Expr.read? fuel) loop = some header := by
  cases header with
  | each name list =>
    simp only [Header.words, parenthesized, List.length_cons, List.length_append] at enough
    exact readHeader?_each (list.isReadBack fuel (by omega)) content
  | count start test step =>
    simp only [Header.words, parenthesized, List.length_cons, List.length_append] at enough
    exact readHeader?_count (start.isReadBack fuel (by omega)) (test.isReadBack fuel (by omega))
      (step.isReadBack fuel (by omega)) content

mutual

/-- Every statement is read back. -/
theorem isReadBack : (s : Stmt) → s.IsReadBack
  | .package name => .of_succ fun _ _ => readsAs_package name
  | .packageBlock name body => .of_succ fun left enough => by
    -- the name and the braces are words of their own, which leaves fuel for the block
    simp only [words, braced, List.length_cons, List.length_append] at enough
    exact readsAs_packageBlock name (body_isReadBack body left (by omega))
  | .moduleUse name => .of_succ fun _ _ => readsAs_moduleUse name
  | .forward name => .of_succ fun _ _ => readsAs_forward name
  | .sub name body => .of_succ fun left enough => by
    simp only [words, braced, List.length_cons, List.length_append] at enough
    exact readsAs_sub name (body_isReadBack body left (by omega))
  | .conditional negated test body further last => .of_succ fun left enough => by
    simp only [words, parenthesized, braced, List.length_cons, List.length_append] at enough
    exact readsAs_conditional negated (test.isReadBack left (by omega))
      (body_isReadBack body left (by omega)) (further_isReadBack further left (by omega))
      (last_isReadBack last left (by omega))
  | .whileLoop negated test body => .of_succ fun left enough => by
    simp only [words, parenthesized, braced, List.length_cons, List.length_append] at enough
    exact readsAs_whileLoop negated (test.isReadBack left (by omega))
      (body_isReadBack body left (by omega))
  | .forLoop each header body => .of_succ fun left enough => by
    simp only [words, braced, List.length_cons, List.length_append] at enough
    exact readsAs_forLoop each (fun _ content => header_isReadBack header (by omega) content)
      (body_isReadBack body left (by omega))
  | .returning value modifier => .of_succ fun left enough => by
    simp only [words, List.length_cons, List.length_append] at enough
    refine readsAs_returning ?_ (modifier_isReadBack (by omega))
    rintro e rfl
    exact e.isReadBack left (by simp only [optionalWords, Option.elim_some] at enough; omega)
  | .block body => .of_succ fun left enough => by
    simp only [words, braced, List.length_cons, List.length_append] at enough
    exact readsAs_stmtBlock (body_isReadBack body left (by omega))
  | .expression e modifier => .of_succ fun left enough => by
    simp only [words, List.length_cons, List.length_append] at enough
    exact readsAs_expression (e.isReadBack left (by omega)) (modifier_isReadBack (by omega))
  | .declaration d value => .of_succ fun left enough => by
    refine readsAs_stmtDeclaration d ?_
    rintro e rfl
    simp only [words, optionalWords, Option.elim_some, valueWords, List.length_append,
      List.length_cons] at enough
    -- the value stands in parentheses where it binds less than an assignment
    exact e.isReadBack.enclosed .assignment (by omega)

/-- Statements are read back one by one. -/
theorem body_isReadBack : (body : List Stmt) → ∀ fuel, (wordsOf body).length ≤ fuel →
    ReadsAll (read? fuel) (treesOf body) body
  | [], _, _ => .nil
  | s :: rest, fuel, enough => by
    rw [wordsOf, List.length_append] at enough
    exact .cons (s.isReadBack fuel (by omega)) (body_isReadBack rest fuel (by omega))

/-- The further clauses of a conditional are read back one by one. -/
theorem further_isReadBack : (further : List (Expr × List Stmt)) → ∀ fuel,
    (furtherWords further).length ≤ fuel →
    ReadsAll (readClause? (Expr.read? fuel) (read? fuel)) (furtherTrees further) further
  | [], _, _ => .nil
  | (test, body) :: rest, fuel, enough => by
    simp only [furtherWords, parenthesized, braced, List.length_append, List.length_cons] at enough
    exact .cons (readsAs_clause (test.isReadBack fuel (by omega))
      (body_isReadBack body fuel (by omega))) (further_isReadBack rest fuel (by omega))

/-- The last clause of a conditional is read back. -/
theorem last_isReadBack : (last : Option (List Stmt)) → ∀ fuel, (lastWords last).length ≤ fuel →
    ∀ body ∈ last, ReadsAll (read? fuel) (treesOf body) body
  | none, _, _ => nofun
  | some body, fuel, enough => by
    simp only [lastWords, braced, List.length_append, List.length_cons] at enough
    rintro _ ⟨⟩
    exact body_isReadBack body fuel (by omega)

end

end Stmt

/-! ## Round trips -/

/-- The root of a parse shows the tree of the parse. -/
theorem root?_of_bare {parse : Parse} {trees : List Tree}
    (bare : parse.tree.bare = [.node .sourceFile trees]) :
    ∃ file, root? parse = some file ∧ file.node.content = trees := by
  -- the placed tree and the tree have the same bare trees
  have placed : parse.placed.bare = [.node .sourceFile trees] := by
    rw [Parse.placed, Syntax.Placed.bare_ofTree, bare]
  rw [root?]
  generalize parse.placed = tree at placed
  cases tree with
  -- a token that is no trivia would itself be the bare tree, and not a node
  | token start t =>
    cases trivia : t.isTrivia <;> simp [Syntax.Placed.bare, trivia] at placed
  | node k range children =>
    simp only [Syntax.Placed.bare, List.cons.injEq, and_true, Tree.node.injEq] at placed
    obtain ⟨rfl, rfl⟩ := placed
    exact ⟨⟨⟨⟨.sourceFile, range, children, []⟩, []⟩, rfl⟩, rfl, rfl⟩

/-- The tree of a written program has a leaf for each word. -/
theorem length_words_le (maxDepth : Nat) (body : List Stmt) :
    (wordsOf body).length ≤
      (Parse.ofTextWithin maxDepth (Token.spaced (wordsOf body))).tree.leaves.length := by
  -- the leaves are the tokens of the text
  have leaves := (Parse.total_and_lossless maxDepth (Token.spaced (wordsOf body))).2.2.1
  rw [leaves]
  -- and of the tokens those that are no trivia are the words
  have kept := List.length_filter_le (!·.isTrivia) (Syntax.tokenize (Token.spaced (wordsOf body)))
  rwa [tokens_written body] at kept

/-- Parsing undoes printing of expressions, so the levels of the operators and the way in which they
group are those of the expressions. The parse comes down to the level that the expression asks
for. -/
theorem expressions_round_trip {maxDepth : Nat} (e : Expr) (room : 2 + e.nesting ≤ maxDepth) :
    let parse := Parse.ofTextWithin maxDepth (Token.spaced (e.words ++ [semicolon]))
    parse.errors = [] ∧ parse.depth = 2 + e.nesting ∧ Expr.ofParse? parse = some e := by
  -- the expression is printed as a program of one statement
  have written : wordsOf [.expression e none] = e.words ++ [semicolon] := by
    simp [wordsOf, Stmt.words, optionalWords]
  have nested : nestingOf [.expression e none] = 2 + e.nesting := by
    simp only [nestingOf, Stmt.nesting, optionalNesting, Option.elim_none, Expr.levels]
    omega
  -- the tree has a leaf for each word, so there is fuel enough to read it
  have fuel := length_words_le maxDepth [.expression e none]
  have parsed := parse_written [.expression e none] (nested ▸ room)
  rw [written] at fuel parsed
  rw [nested] at parsed
  intro parse
  obtain ⟨noErrors, depth, bare⟩ :
    parse.errors = [] ∧ parse.depth = 2 + e.nesting ∧ parse.tree.bare = _ := parsed
  obtain ⟨file, root, content⟩ := root?_of_bare bare
  -- the program has this one statement and no modifier
  have statements : (SourceFile.statements file).map (·.node.shown) =
      [.node .exprStatement [e.tree, .token semicolon]] := by
    rw [SourceFile.statements, Node.shown_childViews, content]
    rfl
  obtain ⟨only, single, shown⟩ := List.map_eq_singleton_iff.mp statements
  obtain ⟨statement, view, same⟩ := ofNode?_of_shown shown
  have parts := Node.content_of_shown (same ▸ shown)
  have noModifier : ExprStatement.modifier? statement = none :=
    Node.childView?_eq_none (by simp [parts, Stmt.not_isModifier_tree])
  have back : ReadsAs (Expr.read? parse.tree.leaves.length) e.tree e :=
    e.isReadBack _ (Nat.le_trans (by simp) fuel)
  obtain ⟨x, found, readIt⟩ := back.child (n := statement.node) (by simp [parts])
  refine ⟨noErrors, depth, ?_⟩
  simp [Expr.ofParse?, root, single, view, noModifier, ExprStatement.expr, Node.childView, found,
    readIt, guard]

/-- An expression in which loose operators stand inside of tight ones and tight ones inside of loose
ones. -/
def mixedExpr : Expr :=
  let scalar (c : Char) (name : Syntax.Lexeme.isName [c] = true) : Expr := .scalar ⟨[c], name⟩
  let either : Expr := .binary ⟨⟨.lowOr, word .orKw 'o' ['r']⟩, by decide⟩
    (.integer ⟨['1'], by decide, by decide⟩) (scalar 'c' (by decide))
  let power : Expr := .power (scalar 'd' (by decide)) (.unary ⟨word .bang '!' [], by decide⟩
    (.stepAfter ⟨word .plusPlus '+' ['+'], by decide⟩ (scalar 'e' (by decide))))
  .negation (.assign ⟨equals, by decide⟩ (scalar 'a' (by decide))
    (.ternary (scalar 'b' (by decide)) (.unary ⟨word .minus '-' [], by decide⟩ power)
      (.binary ⟨⟨.additive, word .dot '.' []⟩, by decide⟩ either (scalar 'f' (by decide)))))

theorem mixed_expression_round_trip :
    2 + mixedExpr.nesting ≤ Grammar.defaultMaxDepth ∧
      let parse := Parse.ofText "not $a = $b ? - $d ** ! $e ++ : ( 1 or $c ) . $f ;".toList
      parse.errors = [] ∧ parse.depth = 2 + mixedExpr.nesting ∧
        Expr.ofParse? parse = some mixedExpr := by
  have text : Token.spaced (mixedExpr.words ++ [semicolon]) =
      "not $a = $b ? - $d ** ! $e ++ : ( 1 or $c ) . $f ;".toList := by decide
  have room : 2 + mixedExpr.nesting ≤ Grammar.defaultMaxDepth := by decide
  refine ⟨room, ?_⟩
  rw [← text]
  exact expressions_round_trip mixedExpr room

/-- Parsing undoes printing. Every program whose statements nest no deeper than the limit is
accepted, the parse comes down just as deep as the statements nest, and the program is read back
from its tree. -/
theorem programs_round_trip {maxDepth : Nat} (body : List Stmt)
    (room : nestingOf body ≤ maxDepth) :
    let parse := Parse.ofTextWithin maxDepth (Token.spaced (wordsOf body))
    parse.errors = [] ∧ parse.depth = nestingOf body ∧ ofParse? parse = some body := by
  intro parse
  obtain ⟨noErrors, depth, bare⟩ := parse_written body room
  obtain ⟨file, root, content⟩ := root?_of_bare bare
  have back := Stmt.body_isReadBack body _ (length_words_le maxDepth body)
  refine ⟨noErrors, depth, ?_⟩
  rw [ofParse?, root]
  -- the root shows the trees of the statements and no others
  exact back.children (by rw [content, List.filter_eq_self.mpr (isStatement_trees body)])

/-- A program with a statement of each kind. -/
def mixedProgram : List Stmt :=
  let scalar (c : Char) (name : Syntax.Lexeme.isName [c] = true) : Expr := .scalar ⟨[c], name⟩
  let x : Expr := scalar 'x' (by decide)
  let one : Expr := .integer ⟨['1'], by decide, by decide⟩
  let named (c : Char) (name : Syntax.Lexeme.isName [c] = true) (plain : keyword? [c] = none) :
    Identifier := ⟨⟨[c], name⟩, plain, by simp⟩
  let list : Declared :=
    .several [⟨.scalar, ⟨['x'], by decide⟩⟩, ⟨.array, ⟨['y'], by decide⟩⟩]
  let below : Expr := .binary ⟨⟨.relational, word .lt '<' []⟩, by decide⟩ x one
  let step : Expr := .stepAfter ⟨word .plusPlus '+' ['+'], by decide⟩ x
  [.package (named 'P' (by decide) (by decide)),
   .moduleUse (named 'M' (by decide) (by decide)),
   .forward (named 'f' (by decide) (by decide)),
   .sub (named 'g' (by decide) (by decide))
     [.declaration ⟨⟨myWord, by decide⟩, list⟩ (some one),
      .conditional true x [.returning (some x) (some ⟨⟨conditionalWord false, by decide⟩, one⟩)]
        [(one, [.returning none none])]
        (some [.forLoop true (.each ⟨['i'], by decide⟩ one) [.expression step none]])],
   .packageBlock (named 'Q' (by decide) (by decide))
     [.forLoop false (.count x below step) [.block []], .whileLoop true x []]]

/-- The same program on one line. -/
def mixedText : List Char :=
  "package P ; use M ; sub f ; sub g \x7b my ( $x , @y ) = 1 ; ".toList ++
  "unless ( $x ) \x7b return $x if 1 ; \x7d elsif ( 1 ) \x7b return ; \x7d ".toList ++
  "else \x7b foreach my $i ( 1 ) \x7b $x ++ ; \x7d \x7d \x7d package Q \x7b ".toList ++
  "for ( $x ; $x < 1 ; $x ++ ) \x7b \x7b \x7d \x7d until ( $x ) \x7b \x7d \x7d".toList

theorem mixed_program_round_trip :
    nestingOf mixedProgram ≤ Grammar.defaultMaxDepth ∧
      let parse := Parse.ofText mixedText
      parse.errors = [] ∧ parse.depth = nestingOf mixedProgram ∧
        ofParse? parse = some mixedProgram := by
  have text : Token.spaced (wordsOf mixedProgram) = mixedText := by decide +kernel
  have room : nestingOf mixedProgram ≤ Grammar.defaultMaxDepth := by decide
  refine ⟨room, ?_⟩
  rw [← text]
  exact programs_round_trip mixedProgram room

end PerlOutline.Program
