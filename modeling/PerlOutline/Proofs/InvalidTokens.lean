import PerlOutline.Proofs.Holding
import PerlOutline.Proofs.Reporting

/-!
# Tokens in error

What the lexer cannot read it hands on as tokens in error. A parse sets them aside as it sets aside
all that it does not expect, in error nodes that it has reported. Between the parentheses of a
prototype it expects everything, so there a token in error is taken like any other, and nothing is
reported.

## Layers
- **Survey**: only error nodes and prototypes hold tokens in error.
- **Nodes above** other nodes are no error nodes.
- **Texts**: where their tokens in error stand.
-/

namespace PerlOutline.Syntax.Tree

/-- Among the trees is a token in error. -/
def hasInvalid (ts : List Tree) : Bool :=
  (ts.filterMap token?).any (·.kind == .error)

end PerlOutline.Syntax.Tree

namespace PerlOutline.Grammar.Survey

open PerlOutline.Syntax (Kind Tree)

/-! ## Survey -/

/-- Whether there is a token in error. -/
def invalidGauge : Gauge Bool where
  of := Tree.hasInvalid
  token k := k == .error
  tokens := [false, true]
  node _ _ := false
  join := or
  token_mem k := by cases k <;> decide
  of_append ts us := by
    rw [Tree.hasInvalid, List.filterMap_append, List.any_append, Tree.hasInvalid, Tree.hasInvalid]
  of_token t := by
    cases trivia : t.isTrivia with
    | true =>
      -- Trivia is never in error, so leaving it out changes nothing.
      have other : t.kind ≠ .error := by
        intro invalid
        simp [Syntax.Token.isTrivia, invalid, Kind.isTrivia] at trivia
      simp [Tree.hasInvalid, other]
    | false => simp [Tree.hasInvalid]
  of_node _ _ := rfl

/-- The kinds of nodes that take tokens whatever they are. -/
def takesAny : List Kind :=
  [.error, .prototype]

/-- Tokens in error, of every parse. -/
def invalid : Survey Bool where
  gauge := invalidGauge
  reports := true
  cuts := true
  fits kind held := takesAny.contains kind || !held
  plain := takesAny.contains
  leaves _ := [(none, some false)]
  of_plain _ listed _ := ⟨Bool.or_eq_true_iff.mpr (.inl listed), rfl⟩
  plain_error _ := rfl

/-- Every goal builds such nodes only. -/
theorem invalid_checks (goal : Goal) : invalid.checks goal = true := by
  revert goal
  decide +kernel

end PerlOutline.Grammar.Survey

namespace PerlOutline.Element.Node

open PerlOutline.Syntax (Kind Token Tree Placed Parse tokenize)
open PerlOutline.Grammar (Survey Limits finalState finalState_not_starved State)

/-! ## Nodes that hold tokens in error -/

/-- A token in error is directly under the node. -/
def HoldsInvalid (n : Node) : Prop :=
  ∃ t ∈ n.ownTokens, t.kind = .error

/-- The node, or one that contains it, is an error node. -/
def SetAside (n : Node) : Prop :=
  ∃ m ∈ n :: n.ancestors, m.kind = .error

/-- A token in error counts, so it is among the tokens of the content. -/
theorem HoldsInvalid.content {n : Node} (h : n.HoldsInvalid) :
    Tree.hasInvalid n.content = true := by
  obtain ⟨t, own, invalid⟩ := h
  obtain ⟨p, listed, rfl⟩ := List.mem_map.mp own
  -- Own tokens include trivia, and the content does not.
  have solid : p.token.isTrivia = false := by
    rw [Token.isTrivia, invalid]
    rfl
  have shown : p.token ∈ n.content.filterMap Tree.token? := by
    rw [← significant_tokens]
    exact List.mem_map_of_mem (List.mem_filter.mpr ⟨listed, by rw [solid]; rfl⟩)
  exact List.any_eq_true.mpr ⟨p.token, shown, beq_iff_eq.mpr invalid⟩

/-- Only error nodes and prototypes hold tokens in error. -/
theorem HoldsInvalid.kind {maxDepth : Nat} {text : List Char} {n : Node} (h : n.HoldsInvalid)
    (member : n ∈ allOf (Parse.ofTextWithin maxDepth text).placed) :
    n.kind = .error ∨ n.kind = .prototype := by
  -- The survey makes no exception, neither for reports nor for the nesting limit.
  have surveyed : ¬ (finalState maxDepth (tokenize text)).Spoiled Survey.invalid
      (Limits.forTokens maxDepth (tokenize text)) :=
    State.not_spoiled (finalState_not_starved maxDepth _) nofun nofun
  have fits := fits_content Survey.invalid_checks (by decide) surveyed member
  rcases Bool.or_eq_true_iff.mp fits with listed | none
  · simpa [Survey.invalid, Survey.takesAny] using listed
  · have held : Survey.invalid.gauge.of n.content = true := h.content
    rw [held] at none
    exact absurd none (by decide)

/-! ## Nodes above other nodes -/

/-- Where all children are tokens, nothing but tokens shows. -/
theorem mem_bareForest_of_tokens {ts : List Placed}
    (plain : ∀ child ∈ ts, ∃ start t, child = .token start t) {tree : Tree}
    (h : tree ∈ Placed.bareForest ts) : ∃ t, tree = .token t := by
  induction ts with
  | nil => exact absurd h List.not_mem_nil
  | cons child ts ih =>
    obtain ⟨⟨start, t, rfl⟩, later⟩ := List.forall_mem_cons.mp plain
    rcases List.mem_append.mp h with first | rest
    · unfold Placed.bare at first
      split at first
      · exact absurd first List.not_mem_nil
      · exact ⟨t, List.mem_singleton.mp first⟩
    · exact ih later rest

/-- An error node holds tokens only, so no node is under it. -/
theorem kind_ne_error_of_mem_ancestors {maxDepth : Nat} {text : List Char} {n : Node}
    (member : n ∈ allOf (Parse.ofTextWithin maxDepth text).placed) {a : Node}
    (above : a ∈ n.ancestors) : a.kind ≠ .error := by
  -- By induction on the way up: each step leads to a node that has a node under it.
  unfold ancestors at above
  generalize hsteps : n.above = steps at above
  induction steps generalizing n with
  | nil => exact absurd above List.not_mem_nil
  | cons step steps ih =>
    have parent : n.parent? = some ⟨step, steps⟩ := by rw [parent?, hsteps]
    obtain ⟨listed, shown⟩ := parent_mem_allOf member parent
    rcases List.mem_cons.mp above with rfl | higher
    · intro error
      have plain := (Parse.explained_of_mem_allOf listed error).plain
      obtain ⟨t, token⟩ := mem_bareForest_of_tokens plain shown
      exact absurd token nofun
    · exact ih listed rfl higher

end PerlOutline.Element.Node

/-! ## Texts -/

namespace PerlOutline.Syntax.Parse

open PerlOutline.Element (Node)
open PerlOutline.Grammar (defaultMaxDepth)

/-- Every token of a text is directly under one node. A node that holds a token in error is an error
node at whose start an error is reported, or it is a prototype. So all tokens in error are set aside
just if no prototype holds one, and where nothing is reported only prototypes hold them. -/
theorem invalid_tokens_reported (maxDepth : Nat) (text : List Char) :
    let parse := ofTextWithin maxDepth text
    let nodes := Node.allOf parse.placed
    (nodes.flatMap Node.ownTokens).Perm (tokenize text) ∧
      (∀ n ∈ nodes, n.HoldsInvalid → n.kind = .prototype ∨
        n.kind = .error ∧ ∃ e ∈ parse.errors, e.range.start = n.range.start) ∧
      ((∀ n ∈ nodes, n.HoldsInvalid → n.SetAside) ↔
        ∀ n ∈ nodes, n.kind = .prototype → ¬ n.HoldsInvalid) ∧
      (parse.errors = [] → ∀ t ∈ tokenize text, t.kind = .error →
        ∃ n ∈ nodes, n.kind = .prototype ∧ t ∈ n.ownTokens) := by
  intro parse nodes
  have all : (nodes.flatMap Node.ownTokens).Perm (tokenize text) :=
    Node.perm_tokenize maxDepth text
  have each : ∀ n ∈ nodes, n.HoldsInvalid → n.kind = .prototype ∨
      n.kind = .error ∧ ∃ e ∈ parse.errors, e.range.start = n.range.start := by
    intro n member holds
    rcases holds.kind member with error | proto
    · obtain ⟨e, he, -, here⟩ := (explained_of_mem_allOf member error).cause
      exact .inr ⟨error, e, he, here⟩
    · exact .inl proto
  refine ⟨all, each, ⟨fun aside n member proto holds => ?_, fun outside n member holds => ?_⟩,
    fun quiet t ht invalid => ?_⟩
  · -- What is around a prototype is no error node, and neither is the prototype.
    obtain ⟨m, listed, error⟩ := aside n member holds
    rcases List.mem_cons.mp listed with rfl | above
    · exact absurd (error.symm.trans proto) (by decide)
    · exact Node.kind_ne_error_of_mem_ancestors member above error
  · -- No prototype holds such a token here, so an error node does, and it is set aside itself.
    rcases each n member holds with proto | ⟨error, -⟩
    · exact absurd holds (outside n member proto)
    · exact ⟨n, List.mem_cons_self .., error⟩
  · -- The token is directly under some node, and without errors that is no error node.
    obtain ⟨n, member, own⟩ := List.mem_flatMap.mp (all.mem_iff.mpr ht)
    rcases each n member ⟨t, own, invalid⟩ with proto | ⟨-, e, he, -⟩
    · exact ⟨n, member, proto, own⟩
    · rw [quiet] at he
      exact absurd he List.not_mem_nil

/-- A stray character in a prototype is accepted. -/
theorem invalid_tokens_reported_prototype :
    let text := "sub f(`) { }".toList
    let parse := ofTextWithin defaultMaxDepth text
    parse.errors = [] ∧ (∃ t ∈ tokenize text, t.kind = .error) ∧
      ¬ ∀ n ∈ Node.allOf parse.placed, n.HoldsInvalid → n.SetAside := by
  intro text parse
  obtain ⟨-, -, asideIff, accepted⟩ := invalid_tokens_reported defaultMaxDepth text
  have ok : parse.ok = true := by decide +kernel
  have quiet : parse.errors = [] := List.isEmpty_iff.mp ok
  have stray : ∃ t ∈ tokenize text, t.kind = .error := by decide +kernel
  refine ⟨quiet, stray, fun aside => ?_⟩
  obtain ⟨t, ht, invalid⟩ := stray
  obtain ⟨n, member, proto, own⟩ := accepted quiet t ht invalid
  exact asideIff.mp aside n member proto ⟨t, own, invalid⟩

end PerlOutline.Syntax.Parse
