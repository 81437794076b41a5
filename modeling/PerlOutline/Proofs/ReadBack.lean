import Mathlib.Data.Option.Basic
import PerlOutline.Element.Basic
import PerlOutline.Proofs.Bare
import PerlOutline.Proofs.Precedence

/-!
# Expressions read back from their trees

An expression is read back from a node with the accessors of its elements alone: operands by their
place, operators by their token. Where the node shows the tree of an expression, that expression is
read.

## Layers
- **Lookups**: names, numbers and operators from what accessors answer.
- **`read?`**: the expression that an element is.
- **Parts** of the elements that the trees of expressions show.
- **Reading back**, by induction on the expression.
-/

namespace PerlOutline.Program

open PerlOutline.Syntax (Kind Token Tree)
open PerlOutline.Element

/-! ## Lookups -/

/-- The entry of a table that has a key. -/
def pick {α κ : Type} [DecidableEq κ] (keyOf : α → κ) (table : List α) (k : κ) :
    Option {a // a ∈ table} :=
  table.attach.find? fun a => keyOf a.val = k

/-- Where keys are distinct, an entry is found by its own key. -/
theorem pick_self {α κ : Type} [DecidableEq κ] {keyOf : α → κ} {table : List α}
    (distinct : ∀ a ∈ table, ∀ b ∈ table, keyOf a = keyOf b → a = b) (a : {a // a ∈ table}) :
    pick keyOf table (keyOf a.val) = some a := by
  cases found : pick keyOf table (keyOf a.val) with
  | none =>
    have := List.find?_eq_none.mp found a (List.mem_attach table a)
    simp at this
  | some b =>
    have same : keyOf b.val = keyOf a.val := by simpa using List.find?_some found
    exact congrArg some (Subtype.ext (distinct b.val b.property a.val a.property same))

/-- The name that a string is, if it is one. -/
def Name.ofString? (s : String) : Option Name :=
  if h : Syntax.Lexeme.isName s.toList = true then some ⟨s.toList, h⟩ else none

/-- A name is read from its text. -/
theorem Name.ofString?_text (name : Name) : ofString? (String.ofList name.text) = some name := by
  simp [ofString?, name.isName]

/-- The integer that a string is, if it is one. -/
def Digits.ofString? (s : String) : Option Digits :=
  if h : s.toList ≠ [] ∧ s.toList.all Char.isDigit = true then some ⟨s.toList, h.1, h.2⟩ else none

/-- So is an integer. -/
theorem Digits.ofString?_text (digits : Digits) :
    ofString? (String.ofList digits.text) = some digits := by
  have := digits.digits
  simp_all [ofString?, digits.ne_nil]

/-! ## Reading -/

namespace Expr

/-- A power or a binary expression, by the kind of its operator. -/
def binaryOf? (k : Kind) (left right : Expr) : Option Expr :=
  if k = powerOperator.kind then some (.power left right)
  else (pick (·.token.kind) binaryOperators k).map (.binary · left right)

/-- A negation or another operator before an operand, by the kind of the operator. -/
def unaryOf? (k : Kind) (operand : Expr) : Option Expr :=
  if k = negationOperator.kind then some (.negation operand)
  else (pick (·.kind) unaryOperators k).map (.unary · operand)

/-- The increment or the decrement. -/
def step? (isIncrement : Bool) : Option {t // t ∈ stepOperators} :=
  pick (·.kind) stepOperators (if isIncrement then .plusPlus else .minusMinus)

/-- What is in parentheses, if it is one expression. -/
def onlyItem? (l : ListExpr) : Option Expression :=
  match ListExpr.isParenthesized l, ListExpr.items l with
  | true, [item] => some item
  | _, _ => none

/-- The expression that an element is, where `read` reads its operands. -/
def ofElement? (read : Expression → Option Expr) : Element → Option Expr
  -- The names of variables are asked of variables of any kind.
  | .scalarVariable v => do
    let named : Variable ← View.ofNode? v.node
    return .scalar (← Name.ofString? (← (Variable.name named).toOption))
  | .literal l => do
    guard ((← (Literal.literalKind l).toOption) = .number)
    return .integer (← Digits.ofString? (← (Literal.token l).toOption).string)
  | .op3PrefixExpr p => do
    return .stepBefore (← step? (Op3PrefixExpr.isIncrement p))
      (← read (← (Op3PrefixExpr.expr p).toOption))
  | .op3SuffixExpr p => do
    return .stepAfter (← step? (Op3SuffixExpr.isIncrement p))
      (← read (← (Op3SuffixExpr.expr p).toOption))
  | .unaryExpr u => do
    unaryOf? (← (UnaryExpr.op u).toOption) (← read (← (UnaryExpr.operand u).toOption))
  | .binaryExpr b => do
    binaryOf? (← (BinaryExpr.op b).toOption) (← read (← (BinaryExpr.lhs b).toOption))
      (← read (← (BinaryExpr.rhs b).toOption))
  | .ternaryExpr t => do
    return .ternary (← read (← (TernaryExpr.condition t).toOption))
      (← read (← (TernaryExpr.thenBranch t).toOption))
      (← read (← (TernaryExpr.elseBranch t).toOption))
  | .assignExpr a => do
    return .assign (← pick (·.kind) assignmentOperators (← (AssignExpr.op a).toOption))
      (← read (← (AssignExpr.lhs a).toOption)) (← read (← (AssignExpr.rhs a).toOption))
  -- Parentheses only group, so what is inside is read in their place.
  | .listExpr l => do read (← onlyItem? l)
  | _ => none

/-- The expression that an element is, where operands are looked for `fuel` levels deep. -/
def read? : Nat → Expression → Option Expr
  | 0, _ => none
  | fuel + 1, x => (Element.ofNode? x.node).bind (ofElement? (read? fuel))

end Expr

/-! ## Parts -/

/-- The element that a node is, by the kind of what it shows. -/
theorem element_of_shown {n : Node} {k : Kind} {children : List Tree} (make : Typed k → Element)
    (made : ∀ n : Node, n.kind = k → Element.ofNode? n = (View.ofNode? n).map make)
    (shown : n.shown = .node k children) :
    ∃ v : Typed k, Element.ofNode? n = some (make v) ∧ v.node.content = children := by
  have kind := Node.kind_of_shown shown
  refine ⟨⟨n, beq_iff_eq.mpr kind⟩, ?_, Node.content_of_shown shown⟩
  rw [made n kind, View.ofNode?, dif_pos (beq_iff_eq.mpr kind)]
  rfl

/-- The name of a variable is what its word holds after the sigil. -/
theorem name_of_content {v : Variable} {t : Token} {sigil : Char} {name : List Char}
    (content : v.node.content = [.token t]) (kind : variableTokenKind v.node.kind = t.kind)
    (one : (variableSigil v.node.kind).toList = [sigil]) (text : t.text = sigil :: name) :
    Variable.name v = .ok (String.ofList name) := by
  have significant : (variableTokenKind v.node.kind).isTrivia = false := by
    unfold variableTokenKind
    split <;> rfl
  have token : (v.node.token? (variableTokenKind v.node.kind)).map (·.token) = some t := by
    rw [v.node.token_token? _ significant, content, kind]
    simp
  obtain ⟨found, hfound, same⟩ := Option.map_eq_some_iff.mp token
  have length : (Variable.sigil v).length = 1 := by
    rw [Variable.sigil, ← String.length_toList, one]
    rfl
  simp [Variable.name, Variable.nameToken, hfound, Node.require, Except.map, length, same, text]

/-- The tree is that of an expression. -/
abbrev IsOperand (t : Tree) : Prop :=
  t.isNodeOf Kind.isExpression = true

/-- Every expression is shown by a node that is an expression. -/
theorem isOperand_tree (e : Expr) : IsOperand e.tree := by
  cases e <;> rfl

/-- In parentheses it is one as well. -/
theorem isOperand_enclosed (least : Level) (e : Expr) :
    IsOperand (enclosed least e.level e.tree) := by
  unfold enclosed
  split
  · exact isOperand_tree e
  · rfl

/-! ## Reading back -/

namespace Expr

/-- Where a node shows the tree, the expression is read. -/
def ReadFrom (fuel : Nat) (t : Tree) (e : Expr) : Prop :=
  ∀ x : Expression, x.node.shown = t → read? fuel x = some e

section Elements

variable {fuel : Nat} {op : Token} {t l r c : Tree} {operand left right condition e : Expr}

/-- To read a node is to read the element that its kind makes of it. -/
theorem readFrom_of {k : Kind} {children : List Tree} (make : Typed k → Element)
    (made : ∀ n : Node, n.kind = k → Element.ofNode? n = (View.ofNode? n).map make)
    (h : ∀ v : Typed k, v.node.content = children → ofElement? (read? fuel) (make v) = some e) :
    ReadFrom (fuel + 1) (.node k children) e := by
  intro x shown
  obtain ⟨v, element, content⟩ := element_of_shown make made shown
  rw [read?, element]
  exact h v content

/-- A scalar is the name behind its sigil. -/
theorem readFrom_scalarVariable {name : Name} :
    ReadFrom (fuel + 1) (.node .scalarVariable [.token name.scalar]) (.scalar name) := by
  apply readFrom_of .scalarVariable (fun n kind => by simp only [Element.ofNode?, kind])
  intro v content
  have kind : v.node.kind = .scalarVariable := beq_iff_eq.mp v.accepted
  have isVariable : Kind.isVariable v.node.kind = true := by rw [kind]; rfl
  have view : (View.ofNode? v.node : Option Variable) = some ⟨v.node, isVariable⟩ :=
    dif_pos isVariable
  have named := name_of_content (v := ⟨v.node, isVariable⟩) content (by rw [kind]; rfl)
    (by rw [kind]; rfl) rfl
  simp [ofElement?, view, named, Except.toOption, Name.ofString?_text]

/-- An integer is the literal of its digits. -/
theorem readFrom_literal {digits : Digits} :
    ReadFrom (fuel + 1) (.node .literal [.token digits.number]) (.integer digits) := by
  apply readFrom_of .literal (fun n kind => by simp only [Element.ofNode?, kind])
  intro v content
  have token : v.node.firstToken?.map (·.token) = some digits.number := by
    rw [v.node.token_firstToken?, content]
    rfl
  obtain ⟨found, hfound, same⟩ := Option.map_eq_some_iff.mp token
  have taken : Literal.token v = .ok found := by simp [Literal.token, hfound, Node.require]
  have kind : found.kind = .number := by rw [PlacedToken.kind, same]; rfl
  have number : Literal.literalKind v = .ok .number := by
    simp [Literal.literalKind, taken, kind, bind, Except.bind]
  have string : found.string = String.ofList digits.text := by
    rw [PlacedToken.string, same]
    rfl
  simp [ofElement?, taken, number, string, guard, Except.toOption, Digits.ofString?_text]

/-- The increment and the decrement are told apart by their token. -/
theorem step?_hasToken {v : Node} {step : {t // t ∈ stepOperators}}
    (tokens : v.content.filterMap Tree.token? = [step.val]) :
    step? (v.hasToken .plusPlus) = some step := by
  have told : ∀ t ∈ stepOperators,
      (if ([t].find? (·.kind == .plusPlus)).isSome then Kind.plusPlus else .minusMinus) =
        t.kind := by decide
  rw [v.hasToken_eq .plusPlus rfl, tokens, step?, told _ step.property]
  exact pick_self (by decide) step

/-- The operator comes first, and the operand is the only expression below. -/
theorem readFrom_op3PrefixExpr {step : {t // t ∈ stepOperators}} (isOperand : IsOperand t)
    (readOperand : ReadFrom fuel t operand) :
    ReadFrom (fuel + 1) (.node .op3PrefixExpr [.token step.val, t]) (.stepBefore step operand) := by
  apply readFrom_of .op3PrefixExpr (fun n kind => by simp only [Element.ofNode?, kind])
  intro v content
  have first : (v.node.content.filter (Tree.isNodeOf Kind.isExpression)).head? = some t := by
    simp [content, isOperand]
  obtain ⟨y, hy, shownOperand⟩ := Node.childView_of_content first .operand
  have tokens : v.node.content.filterMap Tree.token? = [step.val] := by
    simp [content, Tree.token?_of_isNodeOf isOperand]
  simp [ofElement?, Op3PrefixExpr.isIncrement, Op3PrefixExpr.expr, step?_hasToken tokens, hy,
    readOperand y shownOperand, Except.toOption]

/-- The operand comes first, but still it is the only expression below. -/
theorem readFrom_op3SuffixExpr {step : {t // t ∈ stepOperators}} (isOperand : IsOperand t)
    (readOperand : ReadFrom fuel t operand) :
    ReadFrom (fuel + 1) (.node .op3SuffixExpr [t, .token step.val]) (.stepAfter step operand) := by
  apply readFrom_of .op3SuffixExpr (fun n kind => by simp only [Element.ofNode?, kind])
  intro v content
  have first : (v.node.content.filter (Tree.isNodeOf Kind.isExpression)).head? = some t := by
    simp [content, isOperand]
  obtain ⟨y, hy, shownOperand⟩ := Node.childView_of_content first .operand
  have tokens : v.node.content.filterMap Tree.token? = [step.val] := by
    simp [content, Tree.token?_of_isNodeOf isOperand]
  simp [ofElement?, Op3SuffixExpr.isIncrement, Op3SuffixExpr.expr, step?_hasToken tokens, hy,
    readOperand y shownOperand, Except.toOption]

/-- Whether it is a negation or another operator is for `unaryOf?` to say. -/
theorem readFrom_unaryExpr (isOperand : IsOperand t) (readOperand : ReadFrom fuel t operand)
    (known : unaryOf? op.kind operand = some e) :
    ReadFrom (fuel + 1) (.node .unaryExpr [.token op, t]) e := by
  apply readFrom_of .unaryExpr (fun n kind => by simp only [Element.ofNode?, kind])
  intro v content
  have first : (v.node.content.filter (Tree.isNodeOf Kind.isExpression)).head? = some t := by
    simp [content, isOperand]
  have tokens : v.node.content.filterMap Tree.token? = [op] := by
    simp [content, Tree.token?_of_isNodeOf isOperand]
  obtain ⟨y, hy, shownOperand⟩ := Node.childView_of_content first .operand
  simp [ofElement?, UnaryExpr.op, UnaryExpr.operand, Node.operator_of_content tokens, hy,
    readOperand y shownOperand, known, Except.toOption]

/-- The operands are told apart by their order, for the operator stands between them. -/
theorem readFrom_binaryExpr (isLeft : IsOperand l) (isRight : IsOperand r)
    (readLeft : ReadFrom fuel l left) (readRight : ReadFrom fuel r right)
    (known : binaryOf? op.kind left right = some e) :
    ReadFrom (fuel + 1) (.node .binaryExpr [l, .token op, r]) e := by
  apply readFrom_of .binaryExpr (fun n kind => by simp only [Element.ofNode?, kind])
  intro v content
  have operands : v.node.content.filter (Tree.isNodeOf Kind.isExpression) = [l, r] := by
    simp [content, isLeft, isRight]
  have tokens : v.node.content.filterMap Tree.token? = [op] := by
    simp [content, Tree.token?_of_isNodeOf isLeft, Tree.token?_of_isNodeOf isRight]
  obtain ⟨y, hy, shownLeft⟩ :=
    Node.nthChildView_of_content (congrArg (·[0]?) operands) .leftOperand
  obtain ⟨z, hz, shownRight⟩ :=
    Node.nthChildView_of_content (congrArg (·[1]?) operands) .rightOperand
  simp [ofElement?, BinaryExpr.op, BinaryExpr.lhs, BinaryExpr.rhs, Node.operator_of_content tokens,
    hy, hz, readLeft y shownLeft, readRight z shownRight, known, Except.toOption]

/-- Of three expressions the first is the condition. -/
theorem readFrom_ternaryExpr {q k : Token} (isCondition : IsOperand c) (isLeft : IsOperand l)
    (isRight : IsOperand r) (readCondition : ReadFrom fuel c condition)
    (readLeft : ReadFrom fuel l left) (readRight : ReadFrom fuel r right) :
    ReadFrom (fuel + 1) (.node .ternaryExpr [c, .token q, l, .token k, r])
      (.ternary condition left right) := by
  apply readFrom_of .ternaryExpr (fun n kind => by simp only [Element.ofNode?, kind])
  intro v content
  have operands : v.node.content.filter (Tree.isNodeOf Kind.isExpression) = [c, l, r] := by
    simp [content, isCondition, isLeft, isRight]
  obtain ⟨w, hw, shownCondition⟩ :=
    Node.nthChildView_of_content (congrArg (·[0]?) operands) .condition
  obtain ⟨y, hy, shownLeft⟩ :=
    Node.nthChildView_of_content (congrArg (·[1]?) operands) .thenBranch
  obtain ⟨z, hz, shownRight⟩ :=
    Node.nthChildView_of_content (congrArg (·[2]?) operands) .elseBranch
  simp [ofElement?, TernaryExpr.condition, TernaryExpr.thenBranch, TernaryExpr.elseBranch, hw, hy,
    hz, readCondition w shownCondition, readLeft y shownLeft, readRight z shownRight,
    Except.toOption]

/-- The operator of an assignment is found among its tokens. -/
theorem assignOp_of_content {v : AssignExpr} (isAssignment : op ∈ assignmentOperators)
    (tokens : v.node.content.filterMap Tree.token? = [op]) : AssignExpr.op v = .ok op.kind := by
  have kinds : ∀ o ∈ assignmentOperators, Kind.isAssignmentOperator o.kind = true := by decide
  have significant : ∀ k, Kind.isAssignmentOperator k = true → k.isTrivia = false := by
    intro k
    cases k <;> decide
  have found := v.node.token_find? Kind.isAssignmentOperator significant
  have first : [op].find? (fun t => t.kind.isAssignmentOperator) = some op :=
    List.find?_cons_of_pos (kinds _ isAssignment)
  rw [tokens, first] at found
  obtain ⟨t, ht, same⟩ := Option.map_eq_some_iff.mp found
  have kind : (v.node.tokens.map (·.kind)).find? Kind.isAssignmentOperator = some t.kind := by
    rw [List.find?_map]
    exact congrArg (Option.map _) ht
  rw [AssignExpr.op, kind, ← same]
  rfl

/-- Target and value are told apart by their order. -/
theorem readFrom_assignExpr {op : {t // t ∈ assignmentOperators}} (isLeft : IsOperand l)
    (isRight : IsOperand r) (readLeft : ReadFrom fuel l left) (readRight : ReadFrom fuel r right) :
    ReadFrom (fuel + 1) (.node .assignExpr [l, .token op.val, r]) (.assign op left right) := by
  apply readFrom_of .assignExpr (fun n kind => by simp only [Element.ofNode?, kind])
  intro v content
  have operands : v.node.content.filter (Tree.isNodeOf Kind.isExpression) = [l, r] := by
    simp [content, isLeft, isRight]
  have tokens : v.node.content.filterMap Tree.token? = [op.val] := by
    simp [content, Tree.token?_of_isNodeOf isLeft, Tree.token?_of_isNodeOf isRight]
  obtain ⟨y, hy, shownLeft⟩ :=
    Node.nthChildView_of_content (congrArg (·[0]?) operands) .assignmentTarget
  obtain ⟨z, hz, shownRight⟩ :=
    Node.nthChildView_of_content (congrArg (·[1]?) operands) .assignedValue
  have picked : pick (·.kind) assignmentOperators op.val.kind = some op :=
    pick_self (by decide) op
  simp [ofElement?, AssignExpr.lhs, AssignExpr.rhs, assignOp_of_content op.property tokens, hy, hz,
    readLeft y shownLeft, readRight z shownRight, picked, Except.toOption]

/-- Parentheses only group. -/
theorem readFrom_listExpr (isOperand : IsOperand t) (readOperand : ReadFrom fuel t operand) :
    ReadFrom (fuel + 1) (.node .listExpr [.token lParen, t, .token rParen]) operand := by
  apply readFrom_of .listExpr (fun n kind => by simp only [Element.ofNode?, kind])
  intro v content
  have parenthesized : ListExpr.isParenthesized v = true := by
    rw [ListExpr.isParenthesized, v.node.hasToken_eq .lParen rfl, content]
    rfl
  have items : (ListExpr.items v).map (·.node.shown) = [t] := by
    rw [ListExpr.items, Node.shown_childViews, content]
    simp [isOperand]
  obtain ⟨y, only, shown⟩ := List.map_eq_singleton_iff.mp items
  have inside : onlyItem? v = some y := by rw [onlyItem?, parenthesized, only]
  simp [ofElement?, inside, readOperand y shown]

end Elements

/-- An expression is read back from its tree: one level for each word is enough. -/
def IsReadBack (e : Expr) : Prop :=
  ∀ fuel, e.words.length ≤ fuel → ReadFrom fuel e.tree e

/-- Every expression has a word. -/
theorem IsReadBack.of_succ {e : Expr}
    (h : ∀ left, e.words.length ≤ left + 1 → ReadFrom (left + 1) e.tree e) : e.IsReadBack := by
  intro fuel enough
  -- A node is one level, and the first word pays for it.
  obtain ⟨t, ts, words, -⟩ := e.begins
  obtain ⟨left, rfl⟩ : ∃ left, fuel = left + 1 := by
    rw [words, List.length_cons] at enough
    exact Nat.exists_eq_add_one.mpr (by omega)
  exact h left enough

/-- In parentheses, where they are asked for, an expression is read back, too. -/
theorem IsReadBack.enclosed {e : Expr} (h : e.IsReadBack) (least : Level) {fuel : Nat}
    (enough : (enclose least e.level e.words).length ≤ fuel) :
    ReadFrom fuel (enclosed least e.level e.tree) e := by
  unfold enclose at enough
  unfold Program.enclosed
  split
  · next tight =>
    rw [if_pos tight] at enough
    exact h fuel enough
  · -- The two parentheses are words as well, and the first pays for the level of the list.
    next loose =>
    rw [if_neg loose, List.length_cons, List.length_append] at enough
    obtain ⟨left, rfl⟩ : ∃ left, fuel = left + 1 := Nat.exists_eq_add_one.mpr (by omega)
    exact readFrom_listExpr (isOperand_tree e) (h left (by omega))

/-- Every expression is read back from its tree. -/
theorem isReadBack (e : Expr) : e.IsReadBack := by
  -- Induction on the expression. Each has a word of its own, so its operands have fewer.
  induction e <;> refine .of_succ fun left enough => ?_ <;>
    simp only [words, List.length_append, List.length_cons] at enough
  case scalar => exact readFrom_scalarVariable
  case integer => exact readFrom_literal
  case stepBefore op e ih =>
    exact readFrom_op3PrefixExpr (isOperand_enclosed _ e) (ih.enclosed _ (by omega))
  case stepAfter op e ih =>
    exact readFrom_op3SuffixExpr (isOperand_enclosed _ e) (ih.enclosed _ (by omega))
  -- The power shares its node with the other binary operators.
  case power b e ihBase ihExponent =>
    exact readFrom_binaryExpr (isOperand_enclosed _ b) (isOperand_enclosed _ e)
      (ihBase.enclosed _ (by omega)) (ihExponent.enclosed _ (by omega)) rfl
  case unary op e ih =>
    refine readFrom_unaryExpr (isOperand_enclosed _ e) (ih.enclosed _ (by omega)) ?_
    have other : ∀ t ∈ unaryOperators, t.kind ≠ negationOperator.kind := by decide
    rw [unaryOf?, if_neg (other _ op.property)]
    exact congrArg _ (pick_self (by decide) op)
  case binary op l r ihLeft ihRight =>
    refine readFrom_binaryExpr (isOperand_enclosed _ l) (isOperand_enclosed _ r)
      (ihLeft.enclosed _ (by omega)) (ihRight.enclosed _ (by omega)) ?_
    have other : ∀ o ∈ binaryOperators, o.token.kind ≠ powerOperator.kind := by decide
    rw [binaryOf?, if_neg (other _ op.property)]
    exact congrArg _ (pick_self (by decide) op)
  case ternary c y n ihCondition ihYes ihNo =>
    exact readFrom_ternaryExpr (isOperand_enclosed _ c) (isOperand_enclosed _ y)
      (isOperand_enclosed _ n) (ihCondition.enclosed _ (by omega)) (ihYes.enclosed _ (by omega))
      (ihNo.enclosed _ (by omega))
  case assign op t v ihTarget ihValue =>
    exact readFrom_assignExpr (isOperand_enclosed _ t) (isOperand_enclosed _ v)
      (ihTarget.enclosed _ (by omega)) (ihValue.enclosed _ (by omega))
  -- The negation shares its node with the other unary operators.
  case negation e ih =>
    exact readFrom_unaryExpr (isOperand_enclosed _ e) (ih.enclosed _ (by omega)) rfl

end Expr

end PerlOutline.Program
