import PerlOutline.Proofs.Gathering

/-!
# Visitors handle each node once

A walk goes through the nodes below a node in preorder and hands each of them to a visitor. Which
of its methods handles a node is decided by the kind of the node alone: of the methods that can
handle that kind, the narrowest one that the visitor has, and no other.

## Layers
- **`Method.chain`**: the methods that can handle a kind, told from its classes.
- **`handleFirst`**: the first of some methods that a visitor has.
- **Dispatch**: a visit is handled by the first method of the chain.
- **Parts**: what is below a node is a part of the preorder of the whole.
- **Texts**: walks from all of their nodes.
-/

namespace PerlOutline.Element

open PerlOutline.Syntax (Kind Placed Parse tokenize)
open PerlOutline.Grammar (defaultMaxDepth)

/-! ## Chains -/

namespace Method

/-- The methods that are wider than the method of a kind, the narrowest first. -/
def wider (kind : Kind) : List Method :=
  (if kind.isVariable then [.variable] else []) ++
    (if kind.isExpression then [.expression] else []) ++
    (if kind.isStatement then [.statement] else []) ++ [.element]

/-- The methods that can handle nodes of a kind, the narrowest first. -/
def chain (kind : Kind) : List Method :=
  .ofKind kind :: wider kind

end Method

namespace Visitor

variable {σ : Type}

/-- Handle a node by the first of the methods that the visitor has, if it has one of them. -/
def handleFirst (v : Visitor σ) (methods : List Method) (n : Node) (s : σ) : σ :=
  (methods.findSome? v.handler?).elim s fun handle => handle n s

/-- The call that is recorded of a node. -/
def call? (handles : Method → Bool) (n : Node) : Option (Method × Node) :=
  ((Method.chain n.kind).find? handles).map (·, n)

/-! ## Dispatch -/

section Dispatch

variable (v : Visitor σ)

/-- To handle a node by a method or to pass it on is to handle it by a longer list of methods. -/
theorem handleOr_handleFirst (m : Method) (methods : List Method) :
    v.handleOr m (v.handleFirst methods) = v.handleFirst (m :: methods) := by
  funext n s
  unfold handleOr handleFirst
  rw [List.findSome?_cons]
  cases v.handler? m <;> rfl

theorem visitElement_eq : v.visitElement = v.handleFirst [.element] :=
  v.handleOr_handleFirst .element []

theorem visitExpression_eq : v.visitExpression = v.handleFirst [.expression, .element] := by
  rw [visitExpression, visitElement_eq, handleOr_handleFirst]

theorem visitStatement_eq : v.visitStatement = v.handleFirst [.statement, .element] := by
  rw [visitStatement, visitElement_eq, handleOr_handleFirst]

theorem visitVariable_eq :
    v.visitVariable = v.handleFirst [.variable, .expression, .element] := by
  rw [visitVariable, visitExpression_eq, handleOr_handleFirst]

/-- Each kind is passed on to the methods of the classes that it belongs to. -/
theorem visitWider_eq (kind : Kind) : v.visitWider kind = v.handleFirst (Method.wider kind) := by
  -- The table of forwards and the classes of kinds are compared kind by kind.
  cases kind <;> first
    | exact v.visitElement_eq
    | exact v.visitExpression_eq
    | exact v.visitStatement_eq
    | exact v.visitVariable_eq

theorem visitBy_ofKind (kind : Kind) :
    v.visitBy (.ofKind kind) = v.handleFirst (Method.chain kind) := by
  rw [visitBy, visitWider_eq, handleOr_handleFirst, Method.chain]

end Dispatch

end Visitor

/-- The method of an element is that of its kind. -/
theorem method_eq (e : Element) : e.method = .ofKind e.kind := by
  -- An element is a view of one kind, and views are made of nodes of their kind only.
  have viewed {kind : Kind} (v : Typed kind) : Method.ofKind kind = .ofKind v.node.kind :=
    congrArg Method.ofKind (beq_iff_eq.mp v.accepted).symm
  cases e <;> exact viewed _

namespace Visitor

variable {σ : Type}

/-- An element is handled by the first method of its chain that the visitor has. -/
theorem visit_eq (v : Visitor σ) (e : Element) :
    v.visit e = v.handleFirst (Method.chain e.kind) e.node := by
  funext s
  rw [visit, method_eq, visitBy_ofKind]

theorem findSome?_recording (handles : Method → Bool) (methods : List Method) :
    methods.findSome? (recording handles).handler? =
      (methods.find? handles).map fun m n calls => (m, n) :: calls := by
  induction methods with
  | nil => rfl
  | cons m methods ih =>
    rw [List.findSome?_cons, List.find?_cons, ih]
    cases handled : handles m <;> simp [recording, handled]

/-- Of an element at most one call is recorded. -/
theorem visit_recording (handles : Method → Bool) (e : Element) (calls : List (Method × Node)) :
    (recording handles).visit e calls = (call? handles e.node).toList ++ calls := by
  rw [visit_eq, handleFirst, findSome?_recording, call?, Element.kind]
  cases (Method.chain e.node.kind).find? handles <;> rfl

/-- Of nodes that are visited one after the other, each has its call. -/
theorem visitAll_recording (handles : Method → Bool) {nodes : List Node}
    (kinds : ∀ n ∈ nodes, n.kind ∈ Kind.nodeKinds) (calls : List (Method × Node)) :
    (recording handles).visitAll nodes calls =
      .ok ((nodes.filterMap (call? handles)).reverse ++ calls) := by
  induction nodes generalizing calls with
  | nil => rfl
  | cons n nodes ih =>
    obtain ⟨e, made, rfl⟩ := Factory.create_standard (kinds n (List.mem_cons_self ..))
    have later := ih (fun m hm => kinds m (List.mem_cons_of_mem _ hm))
      ((recording handles).visit e calls)
    -- What the first node adds to the calls is below what the later ones add.
    rw [visitAll, List.foldlM_cons, made]
    refine Eq.trans later ?_
    rw [visit_recording]
    cases found : call? handles e.node <;> simp [found]

end Visitor

/-! ## Parts -/

namespace Node

mutual

/-- What is below a node of a tree is a part of the preorder of the tree. -/
theorem descendants_infix_nodesOnto {above : List Step} {preceding : List Placed}
    {rest : List Node} {t : Placed} {n : Node} (member : n ∈ nodesOnto above preceding rest t) :
    n ∈ rest ∨ n.descendants <:+: nodesOnto above preceding rest t := by
  match t with
  | .token .. => exact .inl member
  | .node k r cs =>
    rcases List.mem_cons.mp member with rfl | below
    · right
      rw [nodesOnto_append]
      exact (List.prefix_append _ rest).isInfix
    · exact (descendants_infix_forestNodesOnto below).imp_right
        fun part => part.trans (List.suffix_cons _ _).isInfix

theorem descendants_infix_forestNodesOnto {above : List Step} {preceding : List Placed}
    {rest : List Node} {ts : List Placed} {n : Node}
    (member : n ∈ forestNodesOnto above preceding rest ts) :
    n ∈ rest ∨ n.descendants <:+: forestNodesOnto above preceding rest ts := by
  match ts with
  | [] => exact .inl member
  | t :: ts =>
    rcases descendants_infix_nodesOnto member with later | part
    · refine (descendants_infix_forestNodesOnto later).imp_right fun part => ?_
      simp only [forestNodesOnto]
      rw [nodesOnto_append]
      exact part.trans (List.suffix_append _ _).isInfix
    · exact .inr part

end

/-- What is below a node of a placed tree is a part of the preorder of the whole. -/
theorem descendants_infix_allOf {t : Placed} {n : Node} (member : n ∈ allOf t) :
    n.descendants <:+: allOf t :=
  (descendants_infix_nodesOnto member).resolve_left List.not_mem_nil

end Node

/-! ## Texts -/

namespace Visitor

/-- A walk over a part of a text is never refused, and each node of the part is handled once or not
at all. What a walk goes through is the node that it starts from and, child by child, what is below
it. From the root it goes through all nodes of the text, and every token is directly under one of
them; from any other node it goes through a part of them. The calls come in this order, each by the
first method of the chain of its node that the visitor handles; a node of whose chain no method is
handled has no call. -/
theorem walk_calls_once (maxDepth : Nat) (text : List Char) (handles : Method → Bool) :
    let parse := Parse.ofTextWithin maxDepth text
    let nodes := Node.allOf parse.placed
    (∀ n : Node, n.descendants = n :: n.children.flatMap Node.descendants) ∧
    nodes = (Node.root parse).descendants ∧
    (nodes.flatMap Node.ownTokens).Perm (tokenize text) ∧
    ∀ r ∈ nodes,
      r ∈ r.descendants ∧ r.descendants <:+: nodes ∧
        (recording handles).walk r [] =
          .ok (r.descendants.filterMap (call? handles)).reverse := by
  intro parse nodes
  refine ⟨Node.descendants_eq, Node.allOf_placed parse, Node.perm_tokenize maxDepth text, ?_⟩
  intro r member
  have part : r.descendants <:+: nodes := Node.descendants_infix_allOf member
  have itself : r ∈ r.descendants := by
    rw [Node.descendants_eq]
    exact List.mem_cons_self ..
  refine ⟨itself, part, ?_⟩
  -- The parser builds no node of a kind that the factory lacks.
  have kinds : ∀ n ∈ r.descendants, n.kind ∈ Kind.nodeKinds :=
    fun n hn => Index.kind_of_mem_allOf (part.subset hn)
  rw [walk_eq_visitAll, visitAll_recording handles kinds, List.append_nil]

/-- A variable goes to the method for variables, its declaration to the one for expressions, and a
literal that is handled by its own method is no expression to the visitor any more. -/
theorem walk_calls_once_declaration :
    let handles := fun m => [.variable, .expression, .ofKind .literal].contains m
    ∃ r ∈ Node.allOf (Parse.ofTextWithin defaultMaxDepth "my $x = 1;".toList).placed,
      ∃ calls, (recording handles).walk r [] = .ok calls ∧
        calls.reverse.map (fun call => (call.1, call.2.kind)) =
          [(.expression, .assignExpr), (.expression, .variableDeclaration),
           (.variable, .scalarVariable), (.ofKind .literal, .literal)] := by
  intro handles
  have walked := (walk_calls_once defaultMaxDepth "my $x = 1;".toList handles).2.2.2 _
    (List.mem_cons_self ..)
  exact ⟨_, List.mem_cons_self .., _, walked.2.2, by decide +kernel⟩

end Visitor

end PerlOutline.Element
