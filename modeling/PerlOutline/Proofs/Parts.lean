import PerlOutline.Proofs.Holding

/-!
# Parts that are there

Accessors of elements fail where a part is missing. Some parts are there however broken the text
is, and where nothing is reported they all are, save for the expression in the header of a loop
that has none.

## Layers
- **`faults`**: the errors of all accessors of an element.
- **`HasSureParts`**: the accessors that never fail.
- **Parts of nodes**, from what they hold.
- **Broken texts**: the sure parts are there.
- **Clean texts**: all parts are there.
-/

namespace PerlOutline

open PerlOutline.Element
open PerlOutline.Syntax (Kind Token Tree Parse tokenize)
open PerlOutline.Grammar (Mark Holding Survey Limits finalState defaultMaxDepth)

/-! ## Faults -/

namespace Element

/-- A node that is a variable, as one. -/
def asVariable {kind : Kind} (v : Typed kind) (h : kind.isVariable = true) : Variable :=
  ⟨v.node, by rw [beq_iff_eq.mp v.accepted]; exact h⟩

/-- The error of an accessor, if it fails. -/
def fault {α : Type} : Except StructuralError α → List StructuralError
  | .ok _ => []
  | .error e => [e]

/-- The errors of the accessors of a variable. -/
def variableFaults (v : Variable) : List StructuralError :=
  fault (Variable.nameToken v) ++ fault (Variable.name v)

/-- The errors of all accessors of an element that can fail. -/
def faults : Element → List StructuralError
  | .packageStatement p => fault (PackageStatement.nameToken p) ++ fault (PackageStatement.name p)
  | .subDefinition d => fault (SubDefinition.nameToken d) ++ fault (SubDefinition.name d)
  | .ifStatement s => fault (IfStatement.condition s) ++ fault (IfStatement.thenBlock s)
  | .elsifClause c => fault (ElsifClause.condition c) ++ fault (ElsifClause.block c)
  | .elseClause c => fault (ElseClause.block c)
  | .condition c => fault (Condition.expr c)
  | .whileStatement s => fault (WhileStatement.condition s) ++ fault (WhileStatement.body s)
  | .forStatement s => fault (ForStatement.header s) ++ fault (ForStatement.body s)
  | .exprStatement s => fault (ExprStatement.expr s)
  | .statementModifier m =>
    fault (StatementModifier.keyword m) ++ fault (StatementModifier.condition m)
  | .variableDeclaration d => fault (VariableDeclaration.declarator d)
  | .scalarVariable v => variableFaults (asVariable v rfl)
  | .arrayVariable v => variableFaults (asVariable v rfl)
  | .hashVariable v => variableFaults (asVariable v rfl)
  | .arrayIndexVariable v => variableFaults (asVariable v rfl)
  | .assignExpr e => fault (AssignExpr.lhs e) ++ fault (AssignExpr.rhs e) ++ fault (AssignExpr.op e)
  | .ternaryExpr e =>
    fault (TernaryExpr.condition e) ++ fault (TernaryExpr.thenBranch e) ++
      fault (TernaryExpr.elseBranch e)
  | .binaryExpr e => fault (BinaryExpr.lhs e) ++ fault (BinaryExpr.rhs e) ++ fault (BinaryExpr.op e)
  | .unaryExpr e => fault (UnaryExpr.op e) ++ fault (UnaryExpr.operand e)
  | .op3PrefixExpr e => fault (Op3PrefixExpr.expr e)
  | .op3SuffixExpr e => fault (Op3SuffixExpr.expr e)
  | .elementExpr e => fault (ElementExpr.base e)
  | .methodCallExpr e => fault (MethodCallExpr.receiver e) ++ fault (MethodCallExpr.methodName e)
  | .anonSubExpr e => fault (AnonSubExpr.body e)
  | .derefExpr e => fault (DerefExpr.sigil e)
  | .literal l => fault (Literal.token l) ++ fault (Literal.literalKind l)
  | .bareword b => fault (Bareword.name b)
  -- No accessor of these can fail.
  | .sourceFile _ | .block _ | .useStatement _ | .prototype _ | .returnStatement _ | .callExpr _
  | .argList _ | .listExpr _ | .anonArrayExpr _ | .anonHashExpr _ | .error _ => []

/-! ## Sure parts -/

/-- The accessors that never fail do not fail. The operand of an increment or decrement before which
it stands is all that the node has under it. -/
def HasSureParts : Element → Prop
  | .ifStatement s => (IfStatement.condition s).isOk ∧ (IfStatement.thenBlock s).isOk
  | .elsifClause c => (ElsifClause.condition c).isOk ∧ (ElsifClause.block c).isOk
  | .elseClause c => (ElseClause.block c).isOk
  | .whileStatement s => (WhileStatement.condition s).isOk ∧ (WhileStatement.body s).isOk
  | .forStatement s => (ForStatement.header s).isOk ∧ (ForStatement.body s).isOk
  | .anonSubExpr e => (AnonSubExpr.body e).isOk
  | .subDefinition d => (SubDefinition.nameToken d).isOk ∧ (SubDefinition.name d).isOk
  | .variableDeclaration d => (VariableDeclaration.declarator d).isOk
  | .scalarVariable v => named (asVariable v rfl)
  | .arrayVariable v => named (asVariable v rfl)
  | .hashVariable v => named (asVariable v rfl)
  | .arrayIndexVariable v => named (asVariable v rfl)
  | .assignExpr e => (AssignExpr.lhs e).isOk ∧ (AssignExpr.op e).isOk
  | .ternaryExpr e => (TernaryExpr.condition e).isOk
  | .binaryExpr e => (BinaryExpr.op e).isOk
  | .unaryExpr e => (UnaryExpr.op e).isOk
  | .op3SuffixExpr e =>
    (Op3SuffixExpr.expr e).isOk ∧ ∃ operand : Expression, e.node.children = [operand.node]
  | .elementExpr e => (ElementExpr.base e).isOk
  | .methodCallExpr e => (MethodCallExpr.receiver e).isOk ∧ (MethodCallExpr.methodName e).isOk
  | .statementModifier m => (StatementModifier.keyword m).isOk
  | .derefExpr e => (DerefExpr.sigil e).isOk
  | .literal l => (Literal.token l).isOk ∧ (Literal.literalKind l).isOk
  | .bareword b => (Bareword.name b).isOk
  | _ => True
where
  named (v : Variable) : Prop := (Variable.nameToken v).isOk ∧ (Variable.name v).isOk

/-- The parts that may be missing, each with the kind of node that may lack it. -/
def missable : List (Kind × Part) :=
  [(.packageStatement, .packageName),
   (.condition, .conditionExpression),
   (.exprStatement, .statementExpression),
   (.statementModifier, .modifierExpression),
   (.assignExpr, .assignedValue),
   (.ternaryExpr, .thenBranch),
   (.ternaryExpr, .elseBranch),
   (.binaryExpr, .leftOperand),
   (.binaryExpr, .rightOperand),
   (.unaryExpr, .operand),
   (.op3PrefixExpr, .operand)]

end Element

/-! ## Parts of nodes -/

/-- The one kind of token that has the mark, if there is only one. -/
def Grammar.Mark.sole : Mark → Option Kind
  | .ident => some .ident
  | .scalarName => some .scalarName
  | .arrayName => some .arrayName
  | .hashName => some .hashName
  | .arrayLastIndex => some .arrayLastIndex
  | .arrow => some .arrow
  | _ => none

/-- A token whose mark is that of one kind only is of that kind. -/
theorem Grammar.Mark.eq_of_sole {k k' : Kind} (h : (Mark.ofKind k).sole = some k') : k = k' := by
  cases k <;> simp_all [Mark.ofKind, Mark.sole]

namespace Element.Node

variable {n : Node} {strict : Bool} {accepts : Kind → Bool} {m : Mark}

/-- The marks of the tokens directly under a node. -/
def marks (n : Node) : List Mark :=
  (n.content.filterMap Tree.token?).map (Mark.ofKind ·.kind)

/-- Trivia is no part of the content. -/
theorem isTrivia_of_mem_content {t : Token} (h : t ∈ n.content.filterMap Tree.token?) :
    t.isTrivia = false := by
  rw [← n.significant_tokens] at h
  obtain ⟨placed, listed, rfl⟩ := List.mem_map.mp h
  simpa using (List.mem_filter.mp listed).2

/-- A holding notes the marks of the first two tokens. -/
theorem marks_ofTrees (n : Node) (strict : Bool) :
    (Holding.ofTrees strict n.content).marks = n.marks.take 2 := by
  -- In trees without trivia every token has a mark.
  have all (ts : List Tree) (significant : ∀ t ∈ ts.filterMap Tree.token?, t.isTrivia = false) :
      ts.filterMap Tree.mark? = (ts.filterMap Tree.token?).map (Mark.ofKind ·.kind) := by
    induction ts with
    | nil => rfl
    | cons t ts ih =>
      cases t with
      | node kind children => exact ih significant
      | token t =>
        have first : t.isTrivia = false := significant t (List.mem_cons_self ..)
        simp [Tree.mark?, first, ih fun u hu => significant u (List.mem_cons_of_mem _ hu)]
  rw [Holding.ofTrees, all _ fun _ => isTrivia_of_mem_content, marks]

/-- A mark that is noted is that of a token. -/
theorem mem_marks (h : m ∈ (Holding.ofTrees strict n.content).marks) : m ∈ n.marks := by
  rw [marks_ofTrees] at h
  exact List.mem_of_mem_take h

/-- Where a mark is noted there is a token. -/
theorem isEmpty_marks (h : (!(Holding.ofTrees strict n.content).marks.isEmpty) = true) :
    n.marks.isEmpty = false := by
  rw [marks_ofTrees] at h
  simpa using h

/-- The first mark that is noted is that of the first token. -/
theorem head_marks (h : (Holding.ofTrees strict n.content).marks.head? = some m) :
    n.marks.head? = some m := by
  rwa [marks_ofTrees, List.head?_take, if_neg (by decide)] at h

/-- A token whose mark is noted is found. -/
theorem isSome_token? {k : Kind} (significant : k.isTrivia = false) (sole : m.sole = some k)
    (h : m ∈ n.marks) : (n.token? k).isSome = true := by
  obtain ⟨t, listed, rfl⟩ := List.mem_map.mp h
  rw [← Option.isSome_map, n.token_token? k significant, List.find?_isSome]
  exact ⟨t, listed, beq_iff_eq.mpr (Mark.eq_of_sole sole)⟩

/-- The first token has the first mark. -/
theorem exists_firstToken? (h : n.marks.head? = some m) :
    ∃ t, n.firstToken? = some t ∧ Mark.ofKind t.kind = m := by
  rw [marks, List.head?_map, ← n.token_firstToken?, Option.map_map] at h
  exact Option.map_eq_some_iff.mp h

/-- Where there is a mark there is a first token. -/
theorem isSome_firstToken? (h : n.marks.isEmpty = false) : n.firstToken?.isSome = true := by
  cases first : n.marks.head? with
  | none => simp [List.head?_eq_none_iff.mp first] at h
  | some m =>
    obtain ⟨t, found, -⟩ := exists_firstToken? first
    rw [found]
    rfl

/-- A part that was found is not missing. -/
theorem isOk_require {α : Type} {part : Part} {found : Option α} (h : found.isSome = true) :
    (n.require part found).isOk = true := by
  obtain ⟨a, rfl⟩ := Option.isSome_iff_exists.mp h
  rfl

/-- Where there is a token there is an operator. -/
theorem isOk_operator (h : n.marks.isEmpty = false) : n.operator.isOk = true :=
  isOk_require (by rw [Option.isSome_map]; exact isSome_firstToken? h)

/-- Where a node of such a kind is held, the first of them is found. -/
theorem isOk_childView (h : n.content.any (Tree.isNodeOf accepts) = true) (part : Part) :
    (n.childView part : Except StructuralError (View accepts)).isOk = true := by
  obtain ⟨t, listed, accepted⟩ := List.any_eq_true.mp h
  have left : t ∈ n.content.filter (Tree.isNodeOf accepts) :=
    List.mem_filter.mpr ⟨listed, accepted⟩
  obtain ⟨first, found⟩ := Option.isSome_iff_exists.mp
    (List.isSome_head?.mpr (List.ne_nil_of_mem left))
  obtain ⟨v, ok, -⟩ := childView_of_content found part
  rw [ok]
  rfl

/-- Where enough nodes of such a kind are held, one is found at the place. -/
theorem isOk_nthChildView {i : Nat} (h : i < n.content.countP (Tree.isNodeOf accepts))
    (part : Part) :
    (n.nthChildView i part : Except StructuralError (View accepts)).isOk = true := by
  rw [List.countP_eq_length_filter] at h
  obtain ⟨v, ok, -⟩ := nthChildView_of_content (List.getElem?_eq_getElem h) part
  rw [ok]
  rfl

/-- Holdings count no more expressions than there are. -/
theorem expressions_lt {i : Nat} (h : i < (Holding.ofTrees strict n.content).expressions) :
    i < n.content.countP (Tree.isNodeOf Kind.isExpression) :=
  Nat.lt_of_lt_of_le h (Nat.min_le_right _ _)

/-- Where an expression is held, the first is found. -/
theorem isOk_expression (h : 0 < (Holding.ofTrees strict n.content).expressions) (part : Part) :
    (n.childView part : Except StructuralError Expression).isOk = true := by
  refine isOk_childView ?_ part
  obtain ⟨t, listed, accepted⟩ := List.countP_pos_iff.mp (expressions_lt h)
  exact List.any_eq_true.mpr ⟨t, listed, accepted⟩

/-- The operator of an assignment is found wherever it stands among the tokens. -/
theorem isOk_assignment (h : Mark.assignment ∈ n.marks) (part : Part) :
    (n.require part ((n.tokens.map (·.kind)).find? Kind.isAssignmentOperator)).isOk = true := by
  -- The search runs over all tokens, and trivia assigns nothing.
  have significant (k : Kind) (operator : k.isAssignmentOperator = true) : k.isTrivia = false := by
    cases k <;> first | rfl | exact absurd operator (by decide)
  have assigns (k : Kind) (mark : Mark.ofKind k = .assignment) : k.isAssignmentOperator = true := by
    cases k <;> first | rfl | exact absurd mark (by decide)
  obtain ⟨t, listed, mark⟩ := List.mem_map.mp h
  apply isOk_require
  rw [List.find?_map, Option.isSome_map]
  show (n.tokens.find? fun u => Kind.isAssignmentOperator u.kind).isSome = true
  rw [← Option.isSome_map, n.token_find? Kind.isAssignmentOperator significant, List.find?_isSome]
  exact ⟨t, listed, assigns t.kind mark⟩

/-- A token behind the arrow names the method. -/
theorem isOk_methodName (arrow : n.marks.head? = some .arrow) (more : 1 < n.marks.length)
    (part : Part) :
    (n.require part
      (((n.tokens.filter (!·.token.isTrivia)).dropWhile (·.kind != .arrow))[1]?)).isOk = true := by
  -- The marks are those of the same tokens, seen without their places.
  have tokens := n.significant_tokens
  rw [marks, List.length_map, ← tokens, List.length_map] at more
  rw [marks, ← tokens, List.map_map, List.head?_map] at arrow
  apply isOk_require
  -- The arrow is the first token, so nothing is dropped before it.
  cases significant : n.tokens.filter (!·.token.isTrivia) with
  | nil => simp [significant] at more
  | cons first rest =>
    rw [significant] at more arrow
    have isArrow : first.kind = .arrow := Mark.eq_of_sole (by
      rw [show Mark.ofKind first.kind = .arrow from Option.some.inj arrow]
      rfl)
    have kept : ((first :: rest).dropWhile (·.kind != .arrow)) = first :: rest := by
      simp [isArrow]
    rw [kept, List.getElem?_eq_getElem more]
    rfl

/-- A node that has one node under it, and an expression, has just that expression. -/
theorem exists_children_eq (one : (Holding.ofTrees strict n.content).nodes = 1)
    (expression : 0 < (Holding.ofTrees strict n.content).expressions) :
    ∃ operand : Expression, n.children = [operand.node] := by
  -- Nodes are counted up to two, so a count of one is exact.
  have count : n.content.countP (Tree.isNodeOf fun _ => true) = 1 := by
    have capped : min 2 (n.content.countP (Tree.isNodeOf fun _ => true)) = 1 := one
    omega
  rw [List.countP_eq_length_filter, ← n.shown_children, List.length_map] at count
  obtain ⟨child, only⟩ := List.length_eq_one_iff.mp count
  obtain ⟨t, listed, accepted⟩ := List.countP_pos_iff.mp (expressions_lt expression)
  have node : t.isNodeOf (fun _ => true) = true := by
    cases t with
    | token t => exact absurd accepted (by simp)
    | node kind children => rfl
  -- The expression is one of the children, and there is only one.
  have shown : t ∈ n.children.map shown := by
    rw [n.shown_children]
    exact List.mem_filter.mpr ⟨listed, node⟩
  rw [only] at shown
  obtain rfl := List.mem_singleton.mp shown
  exact ⟨⟨child, accepted⟩, only⟩

end Element.Node

/-! ## Broken texts -/

namespace Element

open Node

variable {strict : Bool} {kind : Kind}

/-- What is made of a result is a result. -/
theorem isOk_map {ε α β : Type} {x : Except ε α} (h : x.isOk = true) (f : α → β) :
    (x.map f).isOk = true := by
  cases x with
  | ok a => rfl
  | error e => exact h

/-- What holds of the holding of a node holds of it for the kind that the node is viewed as. -/
theorem holding_of_typed {P : Kind → Holding → Bool} (v : Typed kind)
    (h : P v.node.kind (Holding.ofTrees strict v.node.content) = true) :
    P kind (Holding.ofTrees strict v.node.content) = true := by
  rwa [beq_iff_eq.mp v.accepted] at h

/-- A variable whose name is noted by its mark has a name. -/
theorem named_of_mark {m : Mark} (v : Variable)
    (significant : (variableTokenKind v.node.kind).isTrivia = false)
    (sole : m.sole = some (variableTokenKind v.node.kind))
    (h : (Holding.ofTrees strict v.node.content).marks.contains m = true) :
    HasSureParts.named v := by
  have found := isSome_token? significant sole (mem_marks (List.contains_iff_mem.mp h))
  exact ⟨isOk_require found, isOk_map (isOk_require found) _⟩

/-- What a node surely holds gives the sure parts of its element. -/
theorem hasSureParts_of_sure {e : Element}
    (h : Holding.sure e.node.kind (Holding.ofTrees strict e.node.content) = true) :
    e.HasSureParts := by
  -- One case for each kind of node, with what its nodes surely hold.
  cases e with
  | ifStatement v | elsifClause v | whileStatement v | forStatement v =>
    obtain ⟨condition, block⟩ := Bool.and_eq_true_iff.mp (holding_of_typed v h)
    exact ⟨isOk_childView condition _, isOk_childView block _⟩
  | elseClause v | anonSubExpr v =>
    have block := holding_of_typed v h
    exact isOk_childView block _
  | subDefinition v =>
    have ident := List.contains_iff_mem.mp (holding_of_typed v h)
    have found := isSome_token? rfl rfl (mem_marks ident)
    exact ⟨isOk_require found, isOk_map (isOk_require found) _⟩
  | variableDeclaration v =>
    have first := beq_iff_eq.mp (holding_of_typed v h)
    -- Only words that declare have this mark, and each of them is a declarator.
    obtain ⟨t, found, mark⟩ := exists_firstToken? (head_marks first)
    have declares : (Declarator.ofKind? t.kind).isSome = true := by
      revert mark
      cases t.kind <;> decide
    apply isOk_require
    rw [found]
    exact declares
  | scalarVariable v | arrayVariable v | hashVariable v | arrayIndexVariable v =>
    have kind := beq_iff_eq.mp v.accepted
    have name := holding_of_typed v h
    -- Each kind of variable has one kind of token for its name, with a mark of its own.
    refine named_of_mark (asVariable v rfl) ?_ ?_ name <;> simp only [asVariable, kind] <;> rfl
  | assignExpr v =>
    obtain ⟨target, operator⟩ := Bool.and_eq_true_iff.mp (holding_of_typed v h)
    exact ⟨isOk_nthChildView (expressions_lt (of_decide_eq_true target)) _,
      isOk_assignment (mem_marks (List.contains_iff_mem.mp operator)) _⟩
  | ternaryExpr v | elementExpr v =>
    have first := of_decide_eq_true (holding_of_typed v h)
    exact isOk_nthChildView (expressions_lt first) _
  | binaryExpr v | unaryExpr v | derefExpr v =>
    have operator := holding_of_typed v h
    exact isOk_operator (isEmpty_marks operator)
  | statementModifier v =>
    have keyword := holding_of_typed v h
    apply isOk_require
    rw [Option.isSome_map]
    exact isSome_firstToken? (isEmpty_marks keyword)
  | op3SuffixExpr v =>
    obtain ⟨one, expression⟩ := Bool.and_eq_true_iff.mp (holding_of_typed v h)
    have operand := of_decide_eq_true expression
    exact ⟨isOk_expression operand _, exists_children_eq (beq_iff_eq.mp one) operand⟩
  | methodCallExpr v =>
    obtain ⟨called, second⟩ := Bool.and_eq_true_iff.mp (holding_of_typed v h)
    obtain ⟨receiver, arrow⟩ := Bool.and_eq_true_iff.mp called
    -- Two marks are noted, so there is a token behind the arrow.
    have more : 1 < v.node.marks.length := by
      have two := beq_iff_eq.mp second
      rw [marks_ofTrees, List.length_take] at two
      omega
    exact ⟨isOk_expression (of_decide_eq_true receiver) _,
      isOk_methodName (head_marks (beq_iff_eq.mp arrow)) more _⟩
  | literal v =>
    have first := beq_iff_eq.mp (holding_of_typed v h)
    obtain ⟨t, found, mark⟩ := exists_firstToken? (head_marks first)
    have token : Literal.token v = .ok t := by rw [Literal.token, found]; rfl
    refine ⟨by rw [token]; rfl, ?_⟩
    -- These three kinds share the mark of literals.
    have denotes : t.kind = .number ∨ t.kind = .string ∨ t.kind = .qwList := by
      revert mark
      cases t.kind <;> decide
    rw [Literal.literalKind, token]
    rcases denotes with number | string | words
    · simp only [bind, Except.bind, number]
      rfl
    · simp only [bind, Except.bind, string]
      rfl
    · simp only [bind, Except.bind, words]
      rfl
  | bareword v =>
    have ident := List.contains_iff_mem.mp (holding_of_typed v h)
    apply isOk_require
    rw [tokenString?, Option.isSome_map]
    exact isSome_token? rfl rfl (mem_marks ident)
  | _ => trivial

/-- An accessor that gives something has no fault. -/
theorem fault_of_isOk {α : Type} {x : Except StructuralError α} (h : x.isOk = true) :
    fault x = [] := by
  cases x with
  | ok a => rfl
  | error e => exact absurd h (by simp [Except.isOk, Except.toBool])

/-- What is made of the result of an accessor adds no fault. -/
theorem fault_map {α β : Type} (x : Except StructuralError α) (f : α → β) :
    fault (x.map f) = fault x := by
  cases x <;> rfl

/-- An accessor that looks for a part says which part is missing. -/
theorem eq_of_mem_fault {α : Type} {n : Node} {part : Part} {found : Option α}
    {err : StructuralError} (h : err ∈ fault (n.require part found)) : err = n.lacks part := by
  cases found with
  | some a => exact absurd h List.not_mem_nil
  | none => exact List.mem_singleton.mp h

/-- The fault of a part that may be missing is listed. -/
theorem missable_of_mem_fault {α : Type} {v : Typed kind} {part : Part} {found : Option α}
    (listed : (kind, part) ∈ missable) {err : StructuralError}
    (h : err ∈ fault (v.node.require part found)) : (err.kind, err.part) ∈ missable := by
  obtain rfl := eq_of_mem_fault h
  rw [← beq_iff_eq.mp v.accepted] at listed
  exact listed

/-- Where the sure parts are there, only the other ones can be missing. -/
theorem missable_of_hasSureParts {e : Element} (h : e.HasSureParts) :
    ∀ err ∈ e.faults, (err.kind, err.part) ∈ missable := by
  intro err member
  -- The accessors of sure parts have no faults; what is left is looked up among the others.
  cases e with
  | packageStatement v =>
    simp only [faults, PackageStatement.name, fault_map, List.mem_append, or_self] at member
    exact missable_of_mem_fault (v := v) (by decide) member
  | condition v | exprStatement v | op3PrefixExpr v =>
    exact missable_of_mem_fault (v := v) (by decide) member
  | statementModifier v =>
    simp only [faults, fault_of_isOk h, List.nil_append] at member
    exact missable_of_mem_fault (v := v) (by decide) member
  | assignExpr v =>
    simp only [faults, fault_of_isOk h.1, fault_of_isOk h.2, List.nil_append,
      List.append_nil] at member
    exact missable_of_mem_fault (v := v) (by decide) member
  | ternaryExpr v =>
    simp only [faults, fault_of_isOk h, List.nil_append, List.mem_append] at member
    rcases member with middle | last
    · exact missable_of_mem_fault (v := v) (by decide) middle
    · exact missable_of_mem_fault (v := v) (by decide) last
  | binaryExpr v =>
    simp only [faults, fault_of_isOk h, List.append_nil, List.mem_append] at member
    rcases member with left | right
    · exact missable_of_mem_fault (v := v) (by decide) left
    · exact missable_of_mem_fault (v := v) (by decide) right
  | unaryExpr v =>
    simp only [faults, fault_of_isOk h, List.nil_append] at member
    exact missable_of_mem_fault (v := v) (by decide) member
  | ifStatement v | elsifClause v | whileStatement v | forStatement v | subDefinition v
  | methodCallExpr v | literal v =>
    simp [faults, fault_of_isOk h.1, fault_of_isOk h.2] at member
  | scalarVariable v | arrayVariable v | hashVariable v | arrayIndexVariable v =>
    simp [faults, variableFaults, fault_of_isOk h.1, fault_of_isOk h.2] at member
  | elseClause v | anonSubExpr v | variableDeclaration v | elementExpr v | derefExpr v
  | bareword v =>
    simp [faults, fault_of_isOk h] at member
  | op3SuffixExpr v => simp [faults, fault_of_isOk h.1] at member
  | sourceFile | block | useStatement | prototype | returnStatement | callExpr | argList | listExpr
  | anonArrayExpr | anonHashExpr | error => exact absurd member List.not_mem_nil

/-- However broken a text is, the sure parts of all its elements are there, and the only parts that
can be missing are those listed in `missable`. -/
theorem sure_parts (maxDepth : Nat) (text : List Char) {n : Node}
    (member : n ∈ Node.allOf (Parse.ofTextWithin maxDepth text).placed) {e : Element}
    (seen : Element.ofNode? n = some e) :
    e.HasSureParts ∧ ∀ err ∈ e.faults, (err.kind, err.part) ∈ missable := by
  have surveyed : ¬ (finalState maxDepth (tokenize text)).Spoiled (Holding.survey false)
      (Limits.forTokens maxDepth (tokenize text)) :=
    -- The survey is of broken texts, so it excuses neither reports nor the nesting limit.
    Grammar.State.not_spoiled (Grammar.finalState_not_starved ..) (absurd · (by decide))
      (absurd · (by decide))
  have fits := Node.fits_content (Holding.survey_checks false) (by decide) surveyed member
  have sure : e.HasSureParts := by
    rw [← node_of_ofNode? seen] at fits
    exact hasSureParts_of_sure (Bool.and_eq_true_iff.mp fits).1
  exact ⟨sure, missable_of_hasSureParts sure⟩

/-- An assignment without a value has its other parts. -/
theorem sure_parts_missing_value :
    ∃ n ∈ Node.allOf (Parse.ofText "$x =".toList).placed, ∃ e : Element,
      n.kind = .assignExpr ∧ Element.ofNode? n = some e ∧ e.HasSureParts ∧
        -- The root is the first node, the statement the second and the assignment the third.
        ∀ err ∈ e.faults, (err.kind, err.part) ∈ missable := by
  have third : (Node.allOf (Parse.ofText "$x =".toList).placed)[2]?.map Node.kind =
      some .assignExpr := by
    decide +kernel
  obtain ⟨n, found, kind⟩ := Option.map_eq_some_iff.mp third
  have member : n ∈ Node.allOf (Parse.ofTextWithin defaultMaxDepth "$x =".toList).placed :=
    List.mem_of_getElem? found
  obtain ⟨e, seen⟩ :=
    Option.isSome_iff_exists.mp (isSome_ofNode? (Index.kind_of_mem_allOf member))
  exact ⟨n, member, e, kind, seen, sure_parts defaultMaxDepth "$x =".toList member seen⟩

/-! ## Clean texts -/

/-- The header of a loop, which may be without an expression. -/
def isLoopHeader (e : Element) : Bool :=
  e.kind == .condition && (e.node.parent?.any (·.kind == .forStatement))

/-- Where a node holds all that it should, no accessor fails. -/
theorem faults_eq_nil {e : Element} (sure : e.HasSureParts)
    (whole : Holding.whole e.node.kind (Holding.ofTrees strict e.node.content) = true)
    (condition : ∀ c, e = .condition c → (Condition.expr c).isOk = true) : e.faults = [] := by
  -- The parts that are not sure are looked up among the expressions under the node.
  cases e with
  | packageStatement v =>
    have ident := List.contains_iff_mem.mp (holding_of_typed v whole)
    have found : (PackageStatement.nameToken v).isOk = true :=
      isOk_require (isSome_token? rfl rfl (mem_marks ident))
    simp [faults, PackageStatement.name, fault_map, fault_of_isOk found]
  | condition v => exact fault_of_isOk (condition v rfl)
  | exprStatement v | op3PrefixExpr v =>
    have first := of_decide_eq_true (holding_of_typed v whole)
    exact fault_of_isOk (isOk_expression first _)
  | statementModifier v =>
    have first := of_decide_eq_true (holding_of_typed v whole)
    have found : (StatementModifier.condition v).isOk = true := isOk_expression first _
    simp [faults, fault_of_isOk sure, fault_of_isOk found]
  | unaryExpr v =>
    have first := of_decide_eq_true (holding_of_typed v whole)
    have found : (UnaryExpr.operand v).isOk = true := isOk_expression first _
    simp [faults, fault_of_isOk sure, fault_of_isOk found]
  | assignExpr v =>
    have two := of_decide_eq_true (holding_of_typed v whole)
    have value : (AssignExpr.rhs v).isOk = true := isOk_nthChildView (expressions_lt two) _
    simp [faults, fault_of_isOk sure.1, fault_of_isOk sure.2, fault_of_isOk value]
  | binaryExpr v =>
    have two := of_decide_eq_true (holding_of_typed v whole)
    -- Where two operands are counted the first one is there, too.
    have one := Nat.lt_of_succ_lt two
    have left : (BinaryExpr.lhs v).isOk = true := isOk_nthChildView (expressions_lt one) _
    have right : (BinaryExpr.rhs v).isOk = true := isOk_nthChildView (expressions_lt two) _
    simp [faults, fault_of_isOk sure, fault_of_isOk left, fault_of_isOk right]
  | ternaryExpr v =>
    have three := of_decide_eq_true (holding_of_typed v whole)
    have two := Nat.lt_of_succ_lt three
    have middle : (TernaryExpr.thenBranch v).isOk = true :=
      isOk_nthChildView (expressions_lt two) _
    have last : (TernaryExpr.elseBranch v).isOk = true :=
      isOk_nthChildView (expressions_lt three) _
    simp [faults, fault_of_isOk sure, fault_of_isOk middle, fault_of_isOk last]
  | ifStatement v | elsifClause v | whileStatement v | forStatement v | subDefinition v
  | methodCallExpr v | literal v =>
    simp [faults, fault_of_isOk sure.1, fault_of_isOk sure.2]
  | scalarVariable v | arrayVariable v | hashVariable v | arrayIndexVariable v =>
    simp [faults, variableFaults, fault_of_isOk sure.1, fault_of_isOk sure.2]
  | elseClause v | anonSubExpr v | variableDeclaration v | elementExpr v | derefExpr v
  | bareword v =>
    simp [faults, fault_of_isOk sure]
  | op3SuffixExpr v => simp [faults, fault_of_isOk sure.1]
  | sourceFile | block | useStatement | prototype | returnStatement | callExpr | argList | listExpr
  | anonArrayExpr | anonHashExpr | error => rfl

section Clean

variable {maxDepth : Nat} {text : List Char}
  (ok : (Parse.ofTextWithin maxDepth text).ok = true)
  (shallow : (Parse.ofTextWithin maxDepth text).depth < maxDepth)

include ok shallow

/-- What nodes hold where nothing is reported and the nesting limit is not reached. -/
theorem clean_fits {n : Node} (member : n ∈ Node.allOf (Parse.ofTextWithin maxDepth text).placed) :
    Holding.sure n.kind (Holding.ofTrees true n.content) = true ∧
      Holding.whole n.kind (Holding.ofTrees true n.content) = true := by
  have surveyed : ¬ (finalState maxDepth (tokenize text)).Spoiled (Holding.survey true)
      (Limits.forTokens maxDepth (tokenize text)) :=
    -- Nothing is reported and the limit is not reached, so neither excuse is left.
    Grammar.State.not_spoiled (Grammar.finalState_not_starved ..)
      (fun _ => List.reverse_eq_nil_iff.mp (List.isEmpty_iff.mp ok)) (fun _ => shallow)
  have fits := Node.fits_content (Holding.survey_checks true) (by decide) surveyed member
  exact Bool.and_eq_true_iff.mp fits

/-- A condition that is no header of a loop has an expression. -/
theorem clean_condition {c : Condition}
    (member : c.node ∈ Node.allOf (Parse.ofTextWithin maxDepth text).placed)
    (header : (Element.condition c).isLoopHeader = false) : (Condition.expr c).isOk = true := by
  have kind : c.node.kind = .condition := beq_iff_eq.mp c.accepted
  -- It is not the root, so something contains it, and only some nodes contain conditions.
  obtain ⟨p, parent⟩ : ∃ p, c.node.parent? = some p := by
    rcases Node.parent_of_mem_nodesOnto member with none | ⟨-, root⟩ | ⟨p, -, found, -⟩
    · exact absurd none List.not_mem_nil
    · -- The root is a source file.
      have same := (Syntax.Tree.node.inj (List.mem_singleton.mp root)).1
      exact absurd (kind.symm.trans same) (by decide)
    · exact ⟨p, found⟩
  obtain ⟨listed, shown⟩ := Node.parent_mem_allOf member parent
  rw [Node.shown, kind] at shown
  have surveyed : ¬ (finalState maxDepth (tokenize text)).Spoiled Survey.conditions
      (Limits.forTokens maxDepth (tokenize text)) :=
    Grammar.State.not_spoiled (Grammar.finalState_not_starved ..) (absurd · (by decide))
      (absurd · (by decide))
  -- This survey counts for broken texts as well; it says which nodes hold conditions at all.
  have holds : p.content.any (Tree.isNodeOf (· == .condition)) = true :=
    List.any_eq_true.mpr ⟨_, shown, rfl⟩
  have may : Grammar.mayHoldCondition p.kind = true := by
    have fits := Node.fits_content Survey.conditions_checks (by decide) surveyed listed
    rcases Bool.or_eq_true_iff.mp fits with without | may
    · have none : p.content.any (Tree.isNodeOf (· == .condition)) = false :=
        (Bool.not_eq_true' _).mp without
      exact Bool.noConfusion (holds.symm.trans none)
    · exact may
  have noHeader : p.kind ≠ .forStatement := by
    intro loop
    simp [isLoopHeader, Element.kind, Element.node, kind, parent, loop] at header
  -- What contains it would not be whole if the condition were hollow.
  have whole := (clean_fits ok shallow listed).2
  have full : (Syntax.Tree.node .condition c.node.content).isHollow = false := by
    -- Of the nodes that may hold conditions all but loops are checked for hollow ones.
    have none : p.content.any Tree.isHollow = false := by
      revert whole may noHeader
      generalize p.kind = k
      cases k <;> simp [Grammar.mayHoldCondition, Holding.whole, Holding.ofTrees]
    exact List.any_eq_false.mp none _ shown |> Bool.eq_false_iff.mpr
  refine isOk_childView ?_ _
  simpa [Tree.isHollow] using full

/-- Nothing is missing in a text of which nothing is reported and that stays above the nesting
limit: nothing is set aside, and no accessor of any element fails, save for the expression in the
header of a loop. -/
theorem clean_parts :
    (∀ n ∈ Node.allOf (Parse.ofTextWithin maxDepth text).placed, n.kind ≠ .error) ∧
    ∀ n ∈ Node.allOf (Parse.ofTextWithin maxDepth text).placed, ∀ e,
      Element.ofNode? n = some e → e.isLoopHeader = false → e.faults = [] := by
  constructor
  · intro n member aside
    -- No node of kind error counts as whole.
    have whole := (clean_fits ok shallow member).2
    rw [aside] at whole
    exact Bool.noConfusion whole
  · intro n member e seen header
    rw [← node_of_ofNode? seen] at member
    obtain ⟨sure, whole⟩ := clean_fits ok shallow member
    refine faults_eq_nil (hasSureParts_of_sure sure) whole ?_
    rintro c rfl
    exact clean_condition ok shallow member header

end Clean

/-- A loop without anything in its header is clean. -/
theorem clean_parts_bare_loop :
    (Parse.ofText "for (;;) { $x[0] ||= f() ? -1 : 2; }".toList).ok = true ∧
    (Parse.ofText "for (;;) { $x[0] ||= f() ? -1 : 2; }".toList).depth < defaultMaxDepth ∧
    (∀ n ∈ Node.allOf (Parse.ofText "for (;;) { $x[0] ||= f() ? -1 : 2; }".toList).placed,
      n.kind ≠ .error) ∧
    ∀ n ∈ Node.allOf (Parse.ofText "for (;;) { $x[0] ||= f() ? -1 : 2; }".toList).placed, ∀ e,
      Element.ofNode? n = some e → e.isLoopHeader = false → e.faults = [] := by
  have ok : (Parse.ofText "for (;;) { $x[0] ||= f() ? -1 : 2; }".toList).ok = true := by
    decide +kernel
  have shallow :
      (Parse.ofText "for (;;) { $x[0] ||= f() ? -1 : 2; }".toList).depth < defaultMaxDepth := by
    decide +kernel
  exact ⟨ok, shallow, clean_parts ok shallow⟩

end Element

end PerlOutline
