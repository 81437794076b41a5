import PerlOutline.Proofs.Survey
import PerlOutline.Proofs.Gathering

/-!
# What nodes hold

Which tokens and which nodes are directly under the nodes of a text, as far as the parts of an
element depend on it. Two surveys say what that is: one of all parses, and one of those that report
nothing and stay above the nesting limit.

## Layers
- **`Holding`**: a gauge that counts expressions and notes the first tokens.
- **Surveys** of all parses and of clean ones.
- **Nodes of a text** hold what they may.
-/

namespace PerlOutline.Grammar

open PerlOutline.Syntax (Kind Token Tree)

/-! ## Holdings -/

/-- What a token is to the element that it stands under. -/
inductive Mark where
  | declarator
  | ident
  | scalarName
  | arrayName
  | hashName
  | arrayLastIndex
  | literal
  | assignment
  | arrow
  | other
  deriving DecidableEq, Repr

namespace Mark

/-- All marks. -/
def all : List Mark :=
  [.declarator, .ident, .scalarName, .arrayName, .hashName, .arrayLastIndex, .literal,
   .assignment, .arrow, .other]

/-- What a token of a kind is to its element. -/
def ofKind : Kind → Mark
  | .myKw | .ourKw | .localKw | .stateKw => .declarator
  | .ident => .ident
  | .scalarName => .scalarName
  | .arrayName => .arrayName
  | .hashName => .hashName
  | .arrayLastIndex => .arrayLastIndex
  | .number | .string | .qwList => .literal
  | .eq | .plusEq | .minusEq | .starEq | .slashEq | .dotEq | .pipePipeEq | .slashSlashEq
  | .ampAmpEq => .assignment
  | .arrow => .arrow
  | _ => .other

/-- There are no other marks. -/
theorem mem_all (m : Mark) : m ∈ all := by
  cases m <;> decide

end Mark

/-- What is directly under a node, as far as it counts. -/
structure Holding where
  /-- The first two tokens. -/
  marks : List Mark
  /-- The number of expressions, up to a cap. -/
  expressions : Nat
  /-- The number of nodes, up to two. -/
  nodes : Nat
  condition : Bool
  /-- Whether there is a condition without an expression. -/
  hollow : Bool
  block : Bool
  deriving DecidableEq, Repr

namespace Holding

/-- Nothing is held. -/
def nothing : Holding :=
  ⟨[], 0, 0, false, false, false⟩

/-- One token is held. -/
def ofMark (m : Mark) : Holding :=
  { nothing with marks := [m] }

/-- What is held by trees, and then by others. The numbers are capped. -/
def join (cap : Nat) (a b : Holding) : Holding where
  marks := (a.marks ++ b.marks).take 2
  expressions := min cap (a.expressions + b.expressions)
  nodes := min 2 (a.nodes + b.nodes)
  condition := a.condition || b.condition
  hollow := a.hollow || b.hollow
  block := a.block || b.block

/-- What a node counts for, where it holds `held`. A strict look notes that a condition is hollow.
-/
def ofNode (strict : Bool) (kind : Kind) (held : Holding) : Holding where
  marks := []
  expressions := if kind.isExpression then 1 else 0
  nodes := 1
  condition := kind == .condition
  hollow := strict && kind == .condition && held.expressions == 0
  block := kind == .block

end Holding

end PerlOutline.Grammar

namespace PerlOutline.Syntax.Tree

open PerlOutline.Grammar (Mark)

/-- The mark of a token that is no trivia. -/
def mark? : Tree → Option Mark
  | .token t => if t.isTrivia then none else some (.ofKind t.kind)
  | .node .. => none

/-- The tree is a condition without an expression. -/
def isHollow : Tree → Bool
  | .node .condition children => !children.any (isNodeOf Kind.isExpression)
  | _ => false

end PerlOutline.Syntax.Tree

namespace PerlOutline.Grammar

open PerlOutline.Syntax (Kind Token Tree)

namespace Holding

/-- A condition is hollow just if no expression is counted in it. -/
theorem isHollow_node {cap : Nat} (pos : 0 < cap) (kind : Kind) (children : List Tree) :
    (Syntax.Tree.node kind children).isHollow =
      (kind == .condition &&
        min cap (children.countP (Tree.isNodeOf Kind.isExpression)) == 0) := by
  by_cases condition : kind = .condition
  · subst condition
    have none : (min cap (children.countP (Tree.isNodeOf Kind.isExpression)) = 0) ↔
        children.countP (Tree.isNodeOf Kind.isExpression) = 0 := by omega
    rw [Bool.eq_iff_iff]
    simp only [Tree.isHollow, beq_self_eq_true, Bool.true_and, beq_iff_eq, none]
    simp
  · -- a node of another kind is no condition
    have other : (Syntax.Tree.node kind children).isHollow = false := by
      unfold Tree.isHollow
      split
      · next same => exact absurd (Syntax.Tree.node.inj same).1 condition
      · rfl
    simp [other, condition]

/-- What trees hold. A strict look counts up to three expressions and into conditions. -/
def ofTrees (strict : Bool) (ts : List Tree) : Holding where
  marks := (ts.filterMap Tree.mark?).take 2
  expressions := min (if strict then 3 else 1) (ts.countP (Tree.isNodeOf Kind.isExpression))
  nodes := min 2 (ts.countP (Tree.isNodeOf fun _ => true))
  condition := ts.any (Tree.isNodeOf (· == .condition))
  hollow := strict && ts.any Tree.isHollow
  block := ts.any (Tree.isNodeOf (· == .block))

/-- Holdings can be taken piece by piece. -/
def gauge (strict : Bool) : Gauge Holding where
  of := ofTrees strict
  token k := ofMark (.ofKind k)
  tokens := Mark.all.map ofMark
  node := ofNode strict
  join := join (if strict then 3 else 1)
  token_mem k := List.mem_map_of_mem (Mark.mem_all _)
  of_append ts us := by
    simp only [ofTrees, join, List.filterMap_append, List.countP_append, List.any_append,
      Holding.mk.injEq, and_true, true_and]
    refine ⟨?_, ?_, ?_, ?_⟩
    · -- the first two of two tokens each are the first two of all
      rw [List.take_append, List.take_append]
      simp only [List.take_take, List.length_take, Nat.min_self]
      congr 2
      omega
    · omega
    · omega
    · -- a condition without an expression is in one list or in the other
      rw [Bool.and_or_distrib_left]
  of_token t := by
    cases trivia : t.isTrivia with
    | true => simp [ofTrees, Tree.mark?, trivia, Tree.isHollow]
    | false => simp [ofTrees, Tree.mark?, trivia, Tree.isHollow, ofMark, nothing]
  of_node kind children := by
    simp only [ofTrees, ofNode, Holding.mk.injEq]
    refine ⟨rfl, ?_, rfl, ?_, ?_, ?_⟩
    · cases expression : kind.isExpression <;> cases strict <;> simp [expression]
    · simp
    · have pos : 0 < if strict then 3 else 1 := by split <;> decide
      simp [isHollow_node pos, Bool.and_assoc]
    · simp

/-! ## Surveys -/

/-- What nodes hold however broken the text is. -/
def sure : Kind → Holding → Bool
  | .ifStatement, h | .elsifClause, h | .whileStatement, h | .forStatement, h =>
    h.condition && h.block
  | .elseClause, h | .anonSubExpr, h => h.block
  | .subDefinition, h | .barewordExpr, h => h.marks.contains .ident
  | .variableDeclaration, h => h.marks.head? == some .declarator
  | .scalarVariable, h => h.marks.contains .scalarName
  | .arrayVariable, h => h.marks.contains .arrayName
  | .hashVariable, h => h.marks.contains .hashName
  | .arrayIndexVariable, h => h.marks.contains .arrayLastIndex
  | .literal, h => h.marks.head? == some .literal
  -- An arrow that leads nowhere may stand before the operator.
  | .assignExpr, h => 0 < h.expressions && h.marks.contains .assignment
  | .ternaryExpr, h | .elementExpr, h => 0 < h.expressions
  | .binaryExpr, h | .unaryExpr, h | .statementModifier, h | .derefExpr, h => !h.marks.isEmpty
  | .op3SuffixExpr, h => h.nodes == 1 && 0 < h.expressions
  | .methodCallExpr, h =>
    0 < h.expressions && h.marks.head? == some .arrow && h.marks.length == 2
  | _, _ => true

/-- What they hold besides where nothing is reported and the nesting limit is not reached. -/
def whole : Kind → Holding → Bool
  | .packageStatement, h => h.marks.contains .ident
  | .ifStatement, h | .elsifClause, h | .whileStatement, h => !h.hollow
  | .exprStatement, h | .statementModifier, h | .unaryExpr, h | .op3PrefixExpr, h =>
    0 < h.expressions
  | .assignExpr, h | .binaryExpr, h => 1 < h.expressions
  | .ternaryExpr, h => 2 < h.expressions
  | .error, _ => false
  | _, _ => true

/-- The kinds of nodes that may hold anything. -/
def plain (strict : Bool) : Kind → Bool
  | .sourceFile | .block | .useStatement | .prototype | .returnStatement | .callExpr | .argList
  | .listExpr | .anonArrayExpr | .anonHashExpr => true
  | .packageStatement | .condition | .exprStatement | .op3PrefixExpr | .error => !strict
  | _ => false

/-- One expression. -/
def expression : Holding :=
  { nothing with expressions := 1, nodes := 1 }

/-- One node that is no expression. -/
def node : Holding :=
  { nothing with nodes := 1 }

/-- What an operand leaves: an expression, perhaps with an arrow that leads nowhere. Where there is
none, something may have been set aside. -/
def operand (strict : Bool) : List (Option Bool × Option Holding) :=
  (some true, some expression) ::
    if strict then []
    else
      [(some true, some { expression with marks := [.arrow] }),
       (some false, some nothing),
       (some false, some node)]

/-- What an operand leaves that may have been given up at the nesting limit. -/
def nestedOperand (strict : Bool) : List (Option Bool × Option Holding) :=
  operand strict ++
    if strict then [] else [(some true, some nothing), (some true, some node)]

/-- What goals leave in the open scope. -/
def leaves (strict : Bool) : Goal → List (Option Bool × Option Holding)
  | .statements _ | .statement => [(none, none)]
  | .block => [(some true, some { node with block := true })]
  | .package | .moduleUse | .subDefinition | .prototype | .conditional | .whileLoop | .forLoop
  | .returnStatement | .expressionStatement | .parenthesizedArguments | .bareArguments _ =>
    [(some true, some node)]
  | .parenthesizedCondition => [(some true, some { node with condition := true })]
  | .modifier => [(none, some nothing), (some true, some node)]
  | .binary .lowOr | .binary .lowAnd | .negation | .list => nestedOperand strict
  | .subscript =>
    if strict then [(none, some { expression with marks := [.other, .other] })]
    else
      [[Mark.other], [.other, .other], [.other, .arrow]].flatMap fun marks =>
        [nothing, node, expression].map fun held => (none, some { held with marks := marks })
  | .term =>
    (some true, some expression) ::
      if strict then [] else [(some false, some nothing), (some false, some node)]
  | .plainVariable | .declaration | .dereference | .wordOrCall => [(some true, some expression)]
  | .binary _ | .assignment | .ternary | .unary | .power | .increment | .postfixChain =>
    operand strict

/-- The parts of all nodes, of every parse or of clean ones. -/
def survey (strict : Bool) : Survey Holding where
  gauge := gauge strict
  reports := !strict
  cuts := !strict
  fits kind held := sure kind held && (!strict || whole kind held)
  plain := plain strict
  leaves := leaves strict
  of_plain kind listed := by
    cases strict <;> cases kind <;>
      first
      | exact absurd listed (by decide)
      | exact fun _ => ⟨rfl, rfl⟩
  plain_error reports := by
    rw [Bool.not_eq_true'] at reports
    rw [reports]
    rfl

/-- The survey is right about every goal, which is decided rule by rule. -/
theorem survey_checks (strict : Bool) (goal : Goal) : (survey strict).checks goal = true := by
  revert strict goal
  decide +kernel

end Holding

/-- The kinds of nodes that may hold conditions. What is set aside may hold anything. -/
def mayHoldCondition : Kind → Bool
  | .ifStatement | .elsifClause | .whileStatement | .forStatement | .error => true
  | _ => false

/-- Whether there is a condition, which only some nodes hold. -/
def Survey.conditions : Survey Bool where
  gauge :=
    { of := (·.any (Tree.isNodeOf (· == .condition)))
      token := fun _ => false
      tokens := [false]
      node := fun kind _ => kind == .condition
      join := or
      token_mem := fun _ => List.mem_singleton_self _
      of_append := fun _ _ => List.any_append
      of_token := fun t => by cases t.isTrivia <;> rfl
      of_node := fun _ _ => by simp }
  reports := true
  cuts := true
  fits kind condition := !condition || mayHoldCondition kind
  plain := mayHoldCondition
  leaves goal := [(none, some (goal == .parenthesizedCondition))]
  of_plain _ listed _ := ⟨by simp [listed], rfl⟩
  plain_error _ := rfl

/-- The survey of conditions is right about every goal. -/
theorem Survey.conditions_checks (goal : Goal) : Survey.conditions.checks goal = true := by
  revert goal
  decide +kernel

/-! ## Nodes of a text -/

namespace Gauge

variable {α : Type} (g : Gauge α)

mutual

/-- Trivia has no weight wherever it stands. -/
theorem of_bare (t : Tree) : g.of t.bare = g.of [t] := by
  match t with
  | .token t =>
    unfold Tree.bare
    split
    · next trivia => rw [g.of_token, if_pos trivia]
    · rfl
  | .node kind children =>
    rw [Tree.bare, g.of_node, g.of_node, of_bareForest children]

/-- Trivia has no weight in any of the trees. -/
theorem of_bareForest (ts : List Tree) : g.of (Tree.bareForest ts) = g.of ts := by
  match ts with
  | [] => rfl
  | t :: ts =>
    rw [Tree.bareForest, g.of_append, of_bare t, of_bareForest ts, ← g.of_append,
      List.singleton_append]

end

end Gauge

end PerlOutline.Grammar

namespace PerlOutline.Element.Node

open PerlOutline.Syntax (Kind Tree Placed Parse tokenize)
open PerlOutline.Grammar (Survey Limits finalState)

mutual

/-- What is true of all nodes of a tree is true of them in their text. -/
theorem throughout_of_mem_nodesOnto {P : Kind → List Tree → Prop} {above : List Step}
    {preceding : List Placed} {rest : List Node} {start : Nat} {t : Tree} (h : t.Throughout P)
    {n : Node} (member : n ∈ nodesOnto above preceding rest (.ofTree start t)) :
    n ∈ rest ∨ ∃ children, n.content = Tree.bareForest children ∧ P n.kind children := by
  match t with
  | .token _ => exact .inl member
  | .node k children =>
    simp only [Placed.ofTree, nodesOnto, List.mem_cons] at member
    -- the node itself
    rcases member with rfl | below
    · exact .inr ⟨children, Placed.bareForest_ofForest start children, h.1⟩
    · -- a node below it
      exact throughout_of_mem_forestNodesOnto h.2 below

/-- What is true of all nodes of trees is true of them in their text. -/
theorem throughout_of_mem_forestNodesOnto {P : Kind → List Tree → Prop} {above : List Step}
    {preceding : List Placed} {rest : List Node} {start : Nat} {ts : List Tree}
    (h : Tree.ForestThroughout P ts) {n : Node}
    (member : n ∈ forestNodesOnto above preceding rest (Placed.ofForest start ts).1) :
    n ∈ rest ∨ ∃ children, n.content = Tree.bareForest children ∧ P n.kind children := by
  match ts with
  | [] => exact .inl member
  | t :: ts =>
    simp only [Placed.ofForest, forestNodesOnto] at member
    -- the later trees are listed behind the first
    rcases throughout_of_mem_nodesOnto h.1 member with later | here
    · exact throughout_of_mem_forestNodesOnto h.2 later
    · exact .inr here

end

mutual

/-- What was listed stays listed where more is listed in front of it. -/
theorem mem_nodesOnto_of_mem {above : List Step} {preceding : List Placed} {rest : List Node}
    {n : Node} (member : n ∈ rest) (t : Placed) : n ∈ nodesOnto above preceding rest t := by
  match t with
  | .token .. => exact member
  | .node k r cs => exact List.mem_cons_of_mem _ (mem_forestNodesOnto_of_mem member cs)

/-- What was listed stays listed where trees are listed in front of it. -/
theorem mem_forestNodesOnto_of_mem {above : List Step} {preceding : List Placed}
    {rest : List Node} {n : Node} (member : n ∈ rest) (ts : List Placed) :
    n ∈ forestNodesOnto above preceding rest ts := by
  match ts with
  | [] => exact member
  | t :: ts => exact mem_nodesOnto_of_mem (mem_forestNodesOnto_of_mem member ts) t

end

mutual

/-- A node is the root of the tree, or it is listed what contains it, and what the node shows is
in the content of that. -/
theorem parent_of_mem_nodesOnto {above : List Step} {preceding : List Placed} {rest : List Node}
    {t : Placed} {n : Node} (member : n ∈ nodesOnto above preceding rest t) :
    n ∈ rest ∨ (n.above = above ∧ n.shown ∈ t.bare) ∨
      ∃ p ∈ nodesOnto above preceding rest t, n.parent? = some p ∧ n.shown ∈ p.content := by
  match t with
  | .token .. => exact .inl member
  | .node k r cs =>
    rcases List.mem_cons.mp member with rfl | below
    · -- the node that was asked for is the root of this tree
      exact .inr (.inl ⟨rfl, List.mem_singleton_self _⟩)
    · -- a node of a child of the root has the root for its parent
      rcases parent_of_mem_forestNodesOnto below with later | ⟨here, shown⟩ | ⟨p, listed, found⟩
      · exact .inl later
      · refine .inr (.inr ⟨_, List.mem_cons_self .., ?_, shown⟩)
        rw [parent?, here]
      · exact .inr (.inr ⟨p, List.mem_cons_of_mem _ listed, found⟩)

/-- A node is a root among trees, or it is listed what contains it. -/
theorem parent_of_mem_forestNodesOnto {above : List Step} {preceding : List Placed}
    {rest : List Node} {ts : List Placed} {n : Node}
    (member : n ∈ forestNodesOnto above preceding rest ts) :
    n ∈ rest ∨ (n.above = above ∧ n.shown ∈ Placed.bareForest ts) ∨
      ∃ p ∈ forestNodesOnto above preceding rest ts,
        n.parent? = some p ∧ n.shown ∈ p.content := by
  match ts with
  | [] => exact .inl member
  | t :: ts =>
    rcases parent_of_mem_nodesOnto member with later | ⟨here, shown⟩ | found
    · rcases parent_of_mem_forestNodesOnto later with outside | ⟨here, shown⟩ | ⟨p, listed, found⟩
      · exact .inl outside
      · exact .inr (.inl ⟨here, List.mem_append_right _ shown⟩)
      · exact .inr (.inr ⟨p, mem_nodesOnto_of_mem listed t, found⟩)
    · exact .inr (.inl ⟨here, List.mem_append_left _ shown⟩)
    · exact .inr (.inr found)

end

/-- What contains a node of a text is a node of the text, and holds what the node shows. -/
theorem parent_mem_allOf {t : Placed} {n p : Node} (member : n ∈ allOf t)
    (parent : n.parent? = some p) : p ∈ allOf t ∧ n.shown ∈ p.content := by
  -- a root has no parent, and the others have what was listed for them
  rcases parent_of_mem_nodesOnto member with none | ⟨root, -⟩ | ⟨p', listed, found, shown⟩
  · exact absurd none List.not_mem_nil
  · simp [parent?, root] at parent
  · obtain rfl := Option.some.inj (found.symm.trans parent)
    exact ⟨listed, shown⟩

/-- The nodes of a text that is surveyed hold what they may. -/
theorem fits_content {α : Type} [DecidableEq α] {v : Survey α}
    (checked : ∀ goal, v.checks goal = true)
    (root : ∀ left ∈ v.leaves (.statements false), (v.node? .sourceFile left.2).isSome = true)
    {maxDepth : Nat} {text : List Char}
    (surveyed : ¬ (finalState maxDepth (tokenize text)).Spoiled v
      (Limits.forTokens maxDepth (tokenize text))) {n : Node}
    (member : n ∈ allOf (Parse.ofTextWithin maxDepth text).placed) :
    v.fits n.kind (v.gauge.of n.content) = true := by
  have tree : (Parse.ofTextWithin maxDepth text).tree.Throughout v.Fitting :=
    (Survey.throughout_finalState checked root maxDepth (tokenize text)).resolve_left surveyed
  -- what the tree says of a node does not count trivia, and neither does the gauge
  rcases throughout_of_mem_nodesOnto tree member with none | ⟨children, content, fits⟩
  · exact absurd none List.not_mem_nil
  · rw [content, v.gauge.of_bareForest]
    exact fits

end PerlOutline.Element.Node
