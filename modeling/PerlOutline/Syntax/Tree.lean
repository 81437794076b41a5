import PerlOutline.Syntax.Token

/-!
# Syntax trees

A syntax tree holds every token of its text, trivia included. Trees do not know their place in
the text, so equal pieces of program have equal trees wherever they stand.
-/

namespace PerlOutline.Syntax

/-- A token, or a node with children in source order. -/
inductive Tree where
  | token (t : Token)
  | node (kind : Kind) (children : List Tree)

namespace Tree

/-- The kind of the root of a tree. -/
def kind : Tree → Kind
  | .token t => t.kind
  | .node k _ => k

/-! ## Leaves -/

mutual

/-- The tokens of a tree in source order, with `rest` after them. -/
def leavesOnto (rest : List Token) : Tree → List Token
  | .token t => t :: rest
  | .node _ children => forestLeavesOnto rest children

/-- The tokens of a list of trees in source order, with `rest` after them. -/
def forestLeavesOnto (rest : List Token) : List Tree → List Token
  | [] => rest
  | t :: ts => leavesOnto (forestLeavesOnto rest ts) t

end

/-- The tokens of a tree in source order. -/
def leaves (t : Tree) : List Token :=
  leavesOnto [] t

/-- The tokens of a list of trees in source order. -/
def forestLeaves (ts : List Tree) : List Token :=
  forestLeavesOnto [] ts

/-- The text that a tree spells. -/
def text (t : Tree) : List Char :=
  Token.spell t.leaves

mutual

/-- What comes after the tokens of a tree can be taken out of the walk. -/
theorem leavesOnto_eq (rest : List Token) (t : Tree) : leavesOnto rest t = t.leaves ++ rest := by
  match t with
  | .token t => rfl
  | .node _ children =>
    simp only [leaves, leavesOnto]
    rw [forestLeavesOnto_eq rest children, forestLeavesOnto_eq [] children, List.append_nil]

theorem forestLeavesOnto_eq (rest : List Token) (ts : List Tree) :
    forestLeavesOnto rest ts = forestLeaves ts ++ rest := by
  match ts with
  | [] => rfl
  -- Each tree is walked in front of the walk over those behind it, and both are taken out.
  | t :: ts =>
    simp only [forestLeaves, forestLeavesOnto]
    rw [leavesOnto_eq _ t, leavesOnto_eq _ t, forestLeavesOnto_eq rest ts,
      forestLeavesOnto_eq [] ts, List.append_nil, List.append_assoc]

end

@[simp] theorem leaves_token (t : Token) : leaves (.token t) = [t] := rfl

@[simp] theorem leaves_node (k : Kind) (children : List Tree) :
    leaves (.node k children) = forestLeaves children := rfl

@[simp] theorem forestLeaves_nil : forestLeaves [] = [] := rfl

@[simp] theorem forestLeaves_cons (t : Tree) (ts : List Tree) :
    forestLeaves (t :: ts) = t.leaves ++ forestLeaves ts :=
  leavesOnto_eq (forestLeaves ts) t

@[simp] theorem forestLeaves_append (ts us : List Tree) :
    forestLeaves (ts ++ us) = forestLeaves ts ++ forestLeaves us := by
  induction ts with
  | nil => rfl
  | cons t ts ih => simp [ih]

/-- Tokens that stand side by side are their own leaves. -/
@[simp] theorem forestLeaves_tokens (ts : List Token) : forestLeaves (ts.map .token) = ts := by
  induction ts with
  | nil => rfl
  | cons t ts ih => simp [ih]

end Tree

end PerlOutline.Syntax
