import PerlOutline.Proofs.Following
import PerlOutline.Index.Indexer

/-!
# Every text has an outline

The nodes that the grammar builds have kinds of nodes, so the standard factory makes an element of
each of them, and no walk over a tree is refused.

## Layers
- **`Built`**: a tree whose nodes have kinds of a class.
- **Parsing** builds such trees.
- **Placing** and listing the nodes keeps the kinds.
- **Elements** of all nodes, and outlines of all texts.
-/

namespace PerlOutline.Syntax.Tree

/-! ## Kinds of the nodes of a tree -/

mutual

/-- Every node of the tree has a kind of which `ok` holds. -/
def Built (ok : Kind → Prop) : Tree → Prop
  | .token _ => True
  | .node k children => ok k ∧ ForestBuilt ok children

/-- Every node of the trees has a kind of which `ok` holds. -/
def ForestBuilt (ok : Kind → Prop) : List Tree → Prop
  | [] => True
  | t :: ts => t.Built ok ∧ ForestBuilt ok ts

end

variable {ok : Kind → Prop}

theorem forestBuilt_iff {ts : List Tree} : ForestBuilt ok ts ↔ ∀ t ∈ ts, t.Built ok := by
  induction ts with
  | nil => simp [ForestBuilt]
  | cons t ts ih => simp [ForestBuilt, ih]

theorem built_node {k : Kind} {children : List Tree} (hk : ok k)
    (h : ∀ t ∈ children, t.Built ok) : (node k children).Built ok :=
  ⟨hk, forestBuilt_iff.mpr h⟩

end PerlOutline.Syntax.Tree

namespace PerlOutline.Grammar

open PerlOutline.Syntax (Kind Token Tree)

variable {ok : Kind → Prop}

/-! ## Parsing -/

/-- The trees of the open scope have nodes of the class. -/
def State.Built (ok : Kind → Prop) (s : State) : Prop :=
  ∀ t ∈ s.out, t.Built ok

/-- What a rule adds to the open scope has nodes of the class. -/
theorem kept_built (limits : Limits) : Kept ok limits fun s s' => s.Built ok → s'.Built ok where
  refl s h := h
  trans ab bc h := bc (ab h)
  advance s h := by
    unfold State.advance
    -- Nothing is asked of the token that is added.
    split
    · exact h
    · intro tree member
      rcases List.mem_cons.mp member with rfl | earlier
      · trivial
      · exact h tree earlier
  complain s problem code h := h
  recorded s last h := h
  starved s h := h
  hushed s stop h := h
  closed {s inner} kind hkind inside h := by
    -- What the scope held was built inside it, since it began empty.
    have empty : s.opened.Built ok := by simp [State.Built, State.opened]
    intro tree member
    rcases List.mem_cons.mp member with rfl | outer
    · apply Tree.built_node hkind
      intro child hchild
      exact inside empty child (List.mem_reverse.mp hchild)
    · exact h tree outer
  merged {s inner} inside h := by
    -- What is merged was built in a scope of its own, too.
    have empty : s.opened.Built ok := by simp [State.Built, State.opened]
    intro tree member
    rcases List.mem_append.mp member with inner | outer
    · exact inside empty tree inner
    · exact h tree outer
  wrapped {s inner} kind hkind inside h := by
    intro tree member
    obtain rfl := List.mem_singleton.mp member
    apply Tree.built_node hkind
    intro child hchild
    exact inside h child (List.mem_reverse.mp hchild)
  deeper room inside h := inside h

/-- The grammar builds nothing but nodes. -/
theorem nodeKinds_grammar (goal : Goal) :
    ∀ k ∈ (grammar goal).nodeKinds, k ∈ Kind.nodeKinds := by
  revert goal
  decide +kernel

theorem finalState_built (maxDepth : Nat) (tokens : List Token) :
    (finalState maxDepth tokens).Built (· ∈ Kind.nodeKinds) := by
  have kept : Kept (· ∈ Kind.nodeKinds) (Limits.forTokens maxDepth tokens)
      fun s s' => s.Built (· ∈ Kind.nodeKinds) → s'.Built (· ∈ Kind.nodeKinds) :=
    kept_built _
  have parsed := reach_kept kept (by decide) nodeKinds_grammar (callAllowance maxDepth)
    (.statements false) (State.start tokens)
  refine kept.consume _ _ (parsed ?_)
  simp [State.Built, State.start]

end PerlOutline.Grammar

namespace PerlOutline.Element

open PerlOutline.Syntax (Kind Tree Placed Parse)

/-! ## Placing -/

namespace Node

variable {ok : Kind → Prop}

mutual

/-- The nodes of a tree in its text have the kinds that they have in the tree. -/
theorem kind_of_mem_nodesOnto {above : List Step} {preceding : List Placed} {rest : List Node}
    {start : Nat} {t : Tree} (h : t.Built ok) {n : Node}
    (member : n ∈ nodesOnto above preceding rest (.ofTree start t)) : n ∈ rest ∨ ok n.kind := by
  match t with
  | .token _ => exact .inl member
  | .node k children =>
    simp only [Placed.ofTree, nodesOnto, List.mem_cons] at member
    rcases member with rfl | below
    · exact .inr h.1
    · exact kind_of_mem_forestNodesOnto h.2 below

theorem kind_of_mem_forestNodesOnto {above : List Step} {preceding : List Placed}
    {rest : List Node} {start : Nat} {ts : List Tree} (h : Tree.ForestBuilt ok ts) {n : Node}
    (member : n ∈ forestNodesOnto above preceding rest (Placed.ofForest start ts).1) :
    n ∈ rest ∨ ok n.kind := by
  match ts with
  | [] => exact .inl member
  | t :: ts =>
    simp only [Placed.ofForest, forestNodesOnto] at member
    rcases kind_of_mem_nodesOnto h.1 member with later | here
    · exact kind_of_mem_forestNodesOnto h.2 later
    · exact .inr here

end

mutual

/-- What is found in no node of a tree is not found among its nodes. -/
theorem filterMap_nodesOnto {α : Type} {f : Node → Option α} {ok : Kind → Prop}
    (silent : ∀ n : Node, ok n.kind → f n = none) {above : List Step} {preceding : List Placed}
    {rest : List Node} {start : Nat} {t : Tree} (h : t.Built ok) :
    (nodesOnto above preceding rest (.ofTree start t)).filterMap f = rest.filterMap f := by
  match t with
  | .token _ => rfl
  | .node k children =>
    -- The node itself shows nothing, and by induction no more do those below it.
    rw [Placed.ofTree, nodesOnto, List.filterMap_cons_none (silent ⟨⟨k, _, _, _⟩, _⟩ h.1)]
    exact filterMap_forestNodesOnto silent h.2

theorem filterMap_forestNodesOnto {α : Type} {f : Node → Option α} {ok : Kind → Prop}
    (silent : ∀ n : Node, ok n.kind → f n = none) {above : List Step} {preceding : List Placed}
    {rest : List Node} {start : Nat} {ts : List Tree} (h : Tree.ForestBuilt ok ts) :
    (forestNodesOnto above preceding rest (Placed.ofForest start ts).1).filterMap f =
      rest.filterMap f := by
  match ts with
  | [] => rfl
  | t :: ts =>
    simp only [Placed.ofForest, forestNodesOnto]
    rw [filterMap_nodesOnto silent h.1]
    exact filterMap_forestNodesOnto silent h.2

end

end Node

/-- The nodes of a parse are its root and all that is below it. -/
theorem Node.allOf_placed (p : Parse) : Node.allOf p.placed = (Node.root p).descendants :=
  rfl

/-! ## Elements -/

/-- A node with the kind of a node is an element. -/
theorem isSome_ofNode? {n : Node} (h : n.kind ∈ Kind.nodeKinds) :
    (Element.ofNode? n).isSome := by
  unfold Element.ofNode?
  split
  -- There is a view for each kind of node.
  all_goals simp_all [View.ofNode?, Kind.nodeKinds]

namespace Factory

/-- A factory has the constructor that was registered for each of the kinds. -/
theorem constructor?_registerAll (f : Factory) (make : Constructor) (kinds : List Kind)
    {k : Kind} (h : k ∈ kinds ∨ f.constructor? k = some make) :
    (kinds.foldl (fun f k => f.register k make) f).constructor? k = some make := by
  induction kinds generalizing f with
  | nil => simpa using h
  | cons first kinds ih =>
    apply ih (f.register first make)
    -- A later registration of the same kind gives the same constructor.
    by_cases same : k = first
    · simp [register, same]
    · simpa [register, same] using h

theorem constructor?_standard {k : Kind} (h : k ∈ Kind.nodeKinds) :
    standard.constructor? k = some Element.ofNode? :=
  constructor?_registerAll empty Element.ofNode? Kind.nodeKinds (.inl h)

/-- The standard factory lacks no kind. -/
theorem checkStandard_ok : checkStandard = .ok () := by
  have complete : Kind.nodeKinds.find? (!standard.knows ·) = none := by
    rw [List.find?_eq_none]
    -- The factory knows a kind if a constructor was registered for it.
    intro k hk
    simp [knows, constructor?_standard hk]
  rw [checkStandard, validate, complete]

theorem create_ok {n : Node} (h : n.kind ∈ Kind.nodeKinds) :
    ∃ e, standard.create n = .ok e := by
  obtain ⟨e, he⟩ := Option.isSome_iff_exists.mp (isSome_ofNode? h)
  exact ⟨e, by simp [create, constructor?_standard h, he]⟩

end Factory

/-- The standard factory does not keep a walk from its nodes. -/
theorem Visitor.walk_eq_visitAll {σ : Type} (v : Visitor σ) (root : Node) (s : σ) :
    v.walk root s = v.visitAll root.descendants s := by
  rw [walk, Factory.checkStandard_ok]
  rfl

/-- A walk over nodes is not refused. -/
theorem Visitor.visitAll_ok {σ : Type} (v : Visitor σ) {nodes : List Node}
    (h : ∀ n ∈ nodes, n.kind ∈ Kind.nodeKinds) (s : σ) : ∃ s', v.visitAll nodes s = .ok s' := by
  induction nodes generalizing s with
  | nil => exact ⟨s, rfl⟩
  | cons n nodes ih =>
    obtain ⟨e, he⟩ := Factory.create_ok (h n (List.mem_cons_self ..))
    obtain ⟨s', hs'⟩ := ih (fun m hm => h m (List.mem_cons_of_mem _ hm)) (v.visit e s)
    refine ⟨s', ?_⟩
    rw [visitAll, List.foldlM_cons, he]
    exact hs'

end PerlOutline.Element

namespace PerlOutline.Index

open PerlOutline.Source (FileId)
open PerlOutline.Syntax (Kind Parse Tree)
open PerlOutline.Element (Node Visitor)
open PerlOutline.Grammar (defaultMaxDepth)

/-- Every text has an outline. -/
theorem Outline.exists_ofText (file : FileId) (text : List Char) :
    ∃ outline, Outline.ofText file text = .ok outline := by
  -- The tree is built of kinds of nodes only, and the factory can make an element of each.
  have built : (Parse.ofText text).tree.Built (· ∈ Kind.nodeKinds) := by
    apply Tree.built_node (by decide)
    intro t ht
    exact Grammar.finalState_built defaultMaxDepth _ t (List.mem_reverse.mp ht)
  have kinds : ∀ n ∈ Node.allOf (Parse.ofText text).placed, n.kind ∈ Kind.nodeKinds := by
    intro n hn
    -- The listing starts from the empty list, so every node in it is one of the tree.
    rcases Node.kind_of_mem_nodesOnto built hn with none | kind
    · exact absurd none List.not_mem_nil
    · exact kind
  obtain ⟨gathered, walked⟩ := summaryCollector.visitAll_ok kinds []
  rw [ofText, ofParse, Visitor.walk_eq_visitAll, ← Node.allOf_placed, walked]
  exact ⟨_, rfl⟩

end PerlOutline.Index
