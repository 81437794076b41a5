import PerlOutline.Element.Expression
import PerlOutline.Syntax.Placed

/-!
# Trees without trivia

Blanks and comments belong to the text and not to the program. What the accessors of a node answer
is decided by the tree that is left when trivia is dropped.

## Layers
- **Trees**: dropping trivia, and places along with it.
- **`Shows`**: the tree that a node stands for.
- **Tokens and children** of a node are those of the tree that it shows.
-/

namespace PerlOutline.Syntax

/-! ## Trees -/

namespace Tree

mutual

/-- The tree without its trivia, if anything is left of it. -/
def bare : Tree → List Tree
  | .token t => if t.isTrivia then [] else [.token t]
  | .node kind children => [.node kind (bareForest children)]

/-- Trees without their trivia. -/
def bareForest : List Tree → List Tree
  | [] => []
  | t :: ts => bare t ++ bareForest ts

end

@[simp] theorem bareForest_append (ts us : List Tree) :
    bareForest (ts ++ us) = bareForest ts ++ bareForest us := by
  induction ts with
  | nil => rfl
  | cons t ts ih => simp only [List.cons_append, bareForest, ih, List.append_assoc]

/-- At most one tree is left of a tree, so there is nothing to turn around. -/
theorem reverse_bare (t : Tree) : (bare t).reverse = bare t := by
  cases t with
  | token t =>
    unfold bare
    split <;> rfl
  | node kind children =>
    unfold bare
    rfl

@[simp] theorem bareForest_reverse (ts : List Tree) :
    bareForest ts.reverse = (bareForest ts).reverse := by
  induction ts with
  | nil => rfl
  | cons t ts ih =>
    simp only [List.reverse_cons, bareForest_append, bareForest, List.reverse_append, ih,
      reverse_bare, List.append_nil]

/-- Tokens without trivia are left as they are. -/
theorem bareForest_tokens {ts : List Token} (plain : ∀ t ∈ ts, t.isTrivia = false) :
    bareForest (ts.map .token) = ts.map .token := by
  induction ts with
  | nil => rfl
  | cons t ts ih =>
    obtain ⟨first, later⟩ := List.forall_mem_cons.mp plain
    simp only [List.map_cons, bareForest, bare, first, ih later, Bool.false_eq_true, if_false,
      List.singleton_append]

/-- The token that a tree is, if it is one. -/
def token? : Tree → Option Token
  | .token t => some t
  | .node .. => none

/-- The tree is a node, of a kind of which `accepts` holds. -/
def isNodeOf (accepts : Kind → Bool) : Tree → Bool
  | .token _ => false
  | .node kind _ => accepts kind

@[simp] theorem token?_token (t : Token) : token? (.token t) = some t := rfl

@[simp] theorem token?_node (kind : Kind) (children : List Tree) :
    token? (.node kind children) = none := rfl

@[simp] theorem isNodeOf_token (accepts : Kind → Bool) (t : Token) :
    isNodeOf accepts (.token t) = false := rfl

@[simp] theorem isNodeOf_node (accepts : Kind → Bool) (kind : Kind) (children : List Tree) :
    isNodeOf accepts (.node kind children) = accepts kind := rfl

/-- A node is no token. -/
theorem token?_of_isNodeOf {accepts : Kind → Bool} {t : Tree} (h : t.isNodeOf accepts = true) :
    t.token? = none := by
  cases t with
  | token t => exact absurd h (by simp)
  | node => rfl

end Tree

namespace Placed

mutual

/-- The tree without its trivia and without its place, if anything is left of it. -/
def bare : Placed → List Tree
  | .token _ t => if t.isTrivia then [] else [.token t]
  | .node kind _ children => [.node kind (bareForest children)]

/-- Trees without their trivia and without their places. -/
def bareForest : List Placed → List Tree
  | [] => []
  | t :: ts => bare t ++ bareForest ts

end

mutual

/-- Placing a tree does not change what is left of it. -/
theorem bare_ofTree (start : Nat) (t : Tree) : (ofTree start t).bare = t.bare := by
  match t with
  | .token t => rfl
  | .node _ children =>
    -- Only the children are placed anew, and nothing that is left of them knows its place.
    simp only [ofTree, bare, Tree.bare]
    rw [bareForest_ofForest start children]

theorem bareForest_ofForest (start : Nat) (ts : List Tree) :
    bareForest (ofForest start ts).1 = Tree.bareForest ts := by
  match ts with
  | [] => rfl
  | t :: ts =>
    simp only [ofForest, bareForest, Tree.bareForest]
    rw [bare_ofTree start t, bareForest_ofForest _ ts]

end

end Placed

end PerlOutline.Syntax

namespace PerlOutline.Element

open PerlOutline.Syntax (Kind Token Tree Placed)

namespace Node

/-! ## What a node shows -/

/-- What is directly under a node, without trivia. -/
def content (n : Node) : List Tree :=
  Placed.bareForest n.here.children

/-- The tree that a node stands for, without trivia and places. -/
def shown (n : Node) : Tree :=
  .node n.kind n.content

variable {n : Node} {kind : Kind} {children : List Tree}

theorem kind_of_shown (h : n.shown = .node kind children) : n.kind = kind :=
  (Tree.node.inj h).1

theorem content_of_shown (h : n.shown = .node kind children) : n.content = children :=
  (Tree.node.inj h).2

/-! ## Tokens -/

/-- The tokens directly under a node that are no trivia are those of the tree that it shows. -/
theorem significant_tokens (n : Node) :
    (n.tokens.filter (!·.token.isTrivia)).map (·.token) = n.content.filterMap Tree.token? := by
  simp only [tokens, content]
  -- Induction on the children: a node shows no token, and trivia is dropped on both sides.
  induction n.here.children with
  | nil => rfl
  | cons child rest ih =>
    cases child with
    | node k r cs =>
      simp only [Placed.bareForest, Placed.bare, List.filterMap_cons, List.singleton_append,
        Tree.token?_node]
      exact ih
    | token start t =>
      cases trivia : t.isTrivia with
      | true => simpa [Placed.bareForest, Placed.bare, trivia] using ih
      | false => simpa [Placed.bareForest, Placed.bare, trivia] using ih

/-- The first token under a node that is no trivia is the first one that the node shows. -/
theorem token_firstToken? (n : Node) :
    n.firstToken?.map (·.token) = (n.content.filterMap Tree.token?).head? := by
  rw [firstToken?, ← List.head?_filter, ← significant_tokens, List.head?_map]

/-- To search for a token that is no trivia one can leave trivia out. -/
theorem token_find? (n : Node) (wanted : Kind → Bool)
    (significant : ∀ k, wanted k = true → k.isTrivia = false) :
    (n.tokens.find? (wanted ·.kind)).map (·.token) =
      (n.content.filterMap Tree.token?).find? (wanted ·.kind) := by
  rw [← significant_tokens, List.find?_map, List.find?_filter]
  congr 2
  -- The kinds that are searched for are no trivia, so what is filtered out was not wanted.
  funext t
  cases found : wanted t.kind with
  | false =>
    have other : wanted t.token.kind = false := found
    simp [other]
  | true =>
    have same : wanted t.token.kind = true := found
    have kept : t.token.isTrivia = false := significant _ found
    simp [kept, same]

/-- A token of a kind that is no trivia is found among those that the node shows. -/
theorem token_token? (n : Node) (k : Kind) (significant : k.isTrivia = false) :
    (n.token? k).map (·.token) = (n.content.filterMap Tree.token?).find? (·.kind == k) := by
  apply n.token_find? (· == k)
  intro k' same
  rw [beq_iff_eq.mp same]
  exact significant

/-- The operator of a node is the first token of the tree that it shows. -/
theorem operator_of_content {t : Token} {more : List Token}
    (h : n.content.filterMap Tree.token? = t :: more) : n.operator = .ok t.kind := by
  have first := n.token_firstToken?
  rw [h, List.head?_cons] at first
  obtain ⟨found, hfound, rfl⟩ := Option.map_eq_some_iff.mp first
  rw [operator, hfound]
  rfl

/-- Whether a token is under a node can be told from what the node shows. -/
theorem hasToken_eq (n : Node) (k : Kind) (significant : k.isTrivia = false) :
    n.hasToken k = ((n.content.filterMap Tree.token?).find? (·.kind == k)).isSome := by
  rw [hasToken, ← n.token_token? k significant, Option.isSome_map]

/-- With which token a node begins can be told from what the node shows. -/
theorem beginsWith_eq (n : Node) (k : Kind) :
    n.beginsWith k = (n.content.filterMap Tree.token?).head?.any (·.kind == k) := by
  rw [beginsWith, ← n.token_firstToken?, Option.any_map]
  rfl

/-- The text of a token can be told from what the node shows. -/
theorem tokenString?_eq (n : Node) (k : Kind) (significant : k.isTrivia = false) :
    n.tokenString? k =
      ((n.content.filterMap Tree.token?).find? (·.kind == k)).map (·.string) := by
  rw [tokenString?, ← n.token_token? k significant, Option.map_map]
  rfl

/-- What was required and is there was found. -/
@[simp] theorem toOption_require {α : Type} (n : Node) (part : Part) (found : Option α) :
    (n.require part found).toOption = found := by
  cases found <;> rfl

/-! ## Children -/

/-- The nodes directly under a node are those of the tree that it shows. -/
theorem shown_children (n : Node) :
    n.children.map shown = n.content.filter (Tree.isNodeOf fun _ => true) := by
  simp only [children, content]
  -- The nodes before a child do not show in it, so the induction is over any of them.
  generalize n.here :: n.above = above
  generalize ([] : List Placed) = preceding
  induction n.here.children generalizing preceding with
  | nil => rfl
  | cons child rest ih =>
    cases child with
    | node k r cs =>
      simp only [childrenFrom, List.map_cons, Placed.bareForest, Placed.bare,
        List.singleton_append]
      rw [ih, List.filter_cons_of_pos rfl]
      rfl
    | token start t =>
      cases trivia : t.isTrivia with
      | true => simpa [childrenFrom, Placed.bareForest, Placed.bare, trivia] using ih preceding
      | false =>
        simpa [childrenFrom, Placed.bareForest, Placed.bare, trivia] using ih preceding

variable {accepts : Kind → Bool}

/-- The children of a class are those of the tree that is shown. -/
theorem shown_childViews (n : Node) :
    (n.childViews : List (View accepts)).map (·.node.shown) =
      n.content.filter (Tree.isNodeOf accepts) := by
  have all := n.shown_children
  have chosen : n.content.filter (Tree.isNodeOf accepts) =
      (n.children.map shown).filter (Tree.isNodeOf accepts) := by
    -- To choose the nodes first and then those of the class is to choose those of the class.
    rw [all, List.filter_filter]
    congr 1
    funext t
    cases t <;> simp
  rw [chosen, childViews]
  induction n.children with
  | nil => rfl
  | cons child rest ih =>
    by_cases h : accepts child.kind = true
    · simp [View.ofNode?, h, shown, ← ih]
    · simp [View.ofNode?, h, shown, ← ih]

/-- A child that is found by its number among its class is found so among what is shown. -/
theorem shown_nthChildView? (n : Node) (i : Nat) :
    ((n.nthChildView? i : Option (View accepts)).map (·.node.shown)) =
      (n.content.filter (Tree.isNodeOf accepts))[i]? := by
  rw [nthChildView?, ← shown_childViews, List.getElem?_map]

/-- The first child of a class is the first one that is shown. -/
theorem shown_childView? (n : Node) :
    ((n.childView? : Option (View accepts)).map (·.node.shown)) =
      (n.content.filter (Tree.isNodeOf accepts)).head? := by
  rw [childView?, ← shown_childViews, List.head?_map, childViews, List.head?_filterMap]

/-- The first child of a class is the first that is shown. -/
theorem childView?_of_content {t : Tree}
    (h : (n.content.filter (Tree.isNodeOf accepts)).head? = some t) :
    ∃ v : View accepts, n.childView? = some v ∧ v.node.shown = t := by
  rw [← n.shown_childView?] at h
  exact Option.map_eq_some_iff.mp h

/-- Where no child of a class is shown, none is found. -/
theorem childView?_eq_none (h : n.content.filter (Tree.isNodeOf accepts) = []) :
    (n.childView? : Option (View accepts)) = none := by
  have shown : (n.childView? : Option (View accepts)).map (·.node.shown) = _ :=
    n.shown_childView?
  rw [h] at shown
  exact Option.map_eq_none_iff.mp shown

/-- A child that every well formed node has is there if it is shown. -/
theorem childView_of_content {t : Tree}
    (h : (n.content.filter (Tree.isNodeOf accepts)).head? = some t) (part : Part) :
    ∃ v : View accepts, n.childView part = .ok v ∧ v.node.shown = t := by
  obtain ⟨v, found, shown⟩ := childView?_of_content h
  exact ⟨v, by rw [childView, found]; rfl, shown⟩

/-- A child that is found by its number is there if it is shown. -/
theorem nthChildView_of_content {t : Tree} {i : Nat}
    (h : (n.content.filter (Tree.isNodeOf accepts))[i]? = some t) (part : Part) :
    ∃ v : View accepts, n.nthChildView i part = .ok v ∧ v.node.shown = t := by
  rw [← n.shown_nthChildView?] at h
  obtain ⟨v, found, shown⟩ := Option.map_eq_some_iff.mp h
  exact ⟨v, by rw [nthChildView, found]; rfl, shown⟩

end Node

end PerlOutline.Element
