import PerlOutline.Proofs.Leading
import PerlOutline.Proofs.Placement

/-!
# Ranges of nodes are tight

Trivia is read before it is known whether a token follows that belongs to the node at hand. No node
begins with it. If a parse reports nothing and stays above the nesting limit, then whatever reads
trivia goes on to read a token that counts, so no node ends with trivia and none is empty.

## Layers
- **`Tight`**: what a node holds ends with a token that counts.
- **`reading`**: the survey that tells whether such a token is held at all.
- **Going on**: what is known where an expression does not end.
- **`closes`**: rules whose nodes are tight, as seen from the rule.
- **Steps, rules and goals** of a parse without reports.
- **Texts**: where nodes begin and end.
-/

namespace PerlOutline.Syntax.Tree

/-- What a node holds ends with a token that is no trivia. -/
def Tight (children : List Tree) : Prop :=
  ∃ t, (forestLeaves children).getLast? = some t ∧ t.isTrivia = false

/-- Whether trees hold a token that is no trivia. -/
def counts (ts : List Tree) : Bool :=
  (forestLeaves ts).any (!·.isTrivia)

end PerlOutline.Syntax.Tree

namespace PerlOutline.Grammar

open PerlOutline.Syntax (Kind Token Tree Problem ErrorCode)

/-! ## Whether a token is held -/

/-- Whether trees hold a token that is no trivia, in parses that report nothing and stay above the
nesting limit. -/
def Survey.reading : Survey Bool where
  gauge :=
    { of := Tree.counts
      token := fun _ => true
      tokens := [true]
      node := fun _ held => held
      join := or
      token_mem := fun _ => List.mem_singleton_self _
      of_append := fun _ _ => by simp [Tree.counts]
      of_token := fun t => by cases trivia : t.isTrivia <;> simp [Tree.counts, trivia]
      of_node := fun _ _ => by simp [Tree.counts] }
  reports := false
  cuts := false
  fits _ _ := true
  plain _ := false
  leaves
    -- These may find nothing to read.
    | .statements _ | .statement | .modifier => [(none, some false), (none, some true)]
    | .bareArguments _ => [(some true, some false), (some true, some true)]
    | .subscript => [(none, some true)]
    | _ => [(some true, some true)]
  of_plain _ listed := Bool.noConfusion listed
  plain_error reports := Bool.noConfusion reports

/-- Every goal holds tokens as its leaves say. -/
theorem Survey.reading_checks (goal : Goal) : Survey.reading.checks goal = true := by
  revert goal
  decide +kernel

/-! ## Going on -/

/-- What is known of a token at which an expression does not end. -/
def Glimpse.goingOn : Glimpse → Glimpse
  | .among kinds => .among kinds
  | _ => .among (Kind.all.filter fun kind => !expressionEnds.contains kind)

/-- What is known after a test has been answered. Where an expression does not end, one of the other
kinds follows. -/
def Test.sharpen (test : Test) (holds : Bool) (p : Prospect) : List Prospect :=
  (test.refine holds p).map fun q =>
    if test = .endsExpression ∧ holds = false then { q with next := q.next.goingOn } else q

/-- What is known of the tokens ahead wherever a goal is called. Arguments without parentheses are
looked for only where an expression can go on. -/
def Goal.opening : Goal → Prospect
  | .bareArguments _ => ⟨Glimpse.present.goingOn, .unknown, none⟩
  | goal => goal.entry

namespace State

variable {s : State} {p : Prospect}

/-- Nothing need be known. -/
theorem faces_nothing (s : State) : s.Faces (.unseen none) :=
  faces_unseen nofun

/-- Where an expression does not end, one of the other kinds is ahead. -/
theorem tells_goingOn {g : Glimpse} (h : g.Tells s.next?)
    (goesOn : s.satisfies .endsExpression = false) : g.goingOn.Tells s.next? := by
  obtain ⟨left, other⟩ := Bool.or_eq_false_iff.mp goesOn
  cases g with
  -- The kinds were known before, and none of them need be ruled out.
  | among kinds => exact h
  | unknown | present =>
    obtain ⟨t, ahead⟩ := Option.isSome_iff_exists.mp (Option.isNone_eq_false_iff.mp left)
    simp only [satisfies, ahead, Option.any_some] at other
    simp only [Glimpse.goingOn, Glimpse.Tells, ahead, Option.any_some]
    refine List.contains_iff_mem.mpr (List.mem_filter.mpr ⟨t.kind.mem_all, ?_⟩)
    rw [other]
    rfl

/-- What a test tells is true. -/
theorem Faces.sharpen {test : Test} {holds : Bool} (h : s.Faces p)
    (answer : s.satisfies test = holds) : ∃ q ∈ test.sharpen holds p, s.Faces q := by
  obtain ⟨q, told, faces⟩ := h.refine answer
  refine ⟨_, List.mem_map_of_mem told, ?_⟩
  split
  · next ends =>
    rw [ends.1, ends.2] at answer
    exact { faces with next := tells_goingOn faces.next answer }
  · exact faces

end State

/-! ## Rules whose nodes are tight -/

/-- The outcome is seen, and so is what is then held. -/
def Outcome.isMeasured : Outcome Bool → Bool
  | .ended _ held => held.isSome
  | .lost => false

/-- The outcome is seen, and a token that counts is then held. -/
def Outcome.reads : Outcome Bool → Bool
  | .ended _ held => held == some true
  | .lost => false

/-- Whether it is seen from a rule that it takes only tokens that are there, and that all its nodes
and groups read one. -/
def Rule.closes : Bool → Rule → Prospect → Bool → Bool
  | own, .andThen first next, p, held =>
    first.closes own p held &&
      (first.outcomes .reading own p (some held)).all fun
        | .ended q (some held) => next.closes own q held
        | _ => false
  | _, .take, p, _ => p.next != .unknown
  | own, .branch test yes no, p, held =>
    (test.sharpen true p).all (yes.closes own · held) &&
      (test.sharpen false p).all (no.closes own · held)
  | own, .loop test body, _, _ =>
    -- Of a later turn no more is known than that the test holds.
    [false, true].all fun held => (test.sharpen true (.unseen none)).all fun q =>
      body.closes own q held && (body.outcomes .reading own q (some held)).all Outcome.isMeasured
  | own, .insist body, p, held => body.closes own p held
  | _, .node _ body, p, _ | _, .group body, p, _ =>
    body.closes true p false && (body.outcomes .reading true p (some false)).all Outcome.reads
  | own, .wrap _ body, p, held =>
    own && (body.closes true p held &&
      (body.outcomes .reading true p (some held)).all Outcome.reads)
  | _, .call goal, p, _ | _, .nested goal, p, _ => p.covers goal.opening
  | _, _, _, _ => true

/-- Every goal closes what it builds, from what is known of the tokens ahead where it is called. -/
theorem closes_grammar (goal : Goal) : (grammar goal).closes false goal.opening false = true := by
  revert goal
  decide +kernel

/-! ## Steps -/

namespace State

variable {s inner : State} {limits : Limits} {outer : List Tree} {os : List (Outcome Bool)}

/-- Where all outcomes are seen, it is known what the scope holds. -/
theorem EndsBy.measured (h : s.EndsBy .reading limits outer os)
    (measured : os.all Outcome.isMeasured = true) :
    s.Spoiled .reading limits ∨ ∃ q held, s.Arrives .reading outer q (some held) := by
  rcases h with spoiled | ⟨o, member, ends⟩
  · -- Not spoiled, the scope ended in one of the outcomes.
    exact .inl spoiled
  have known := List.all_eq_true.mp measured o member
  cases o with
  | lost => cases known
  | ended q held =>
    obtain ⟨held, rfl⟩ := Option.isSome_iff_exists.mp known
    exact .inr ⟨q, held, ends⟩

/-- Where all outcomes have read a token that counts, the scope holds one. -/
theorem EndsBy.counts (h : s.EndsBy .reading limits [] os)
    (reads : os.all Outcome.reads = true) :
    s.Spoiled .reading limits ∨ Tree.counts s.out.reverse = true := by
  rcases h with spoiled | ⟨o, member, ends⟩
  · exact .inl spoiled
  have known := List.all_eq_true.mp reads o member
  cases o with
  | lost => cases known
  | ended q held =>
    obtain rfl := beq_iff_eq.mp known
    obtain ⟨added, parts, measured, -⟩ := ends.holds
    rw [parts, List.append_nil]
    exact .inr (measured true rfl)

/-- The open scope does not end with trivia, and the nodes in it are tight. -/
structure Neat (s : State) : Prop where
  last : ∀ t, (Tree.forestLeaves s.out.reverse).getLast? = some t → t.isTrivia = false
  nodes : ∀ t ∈ s.out, t.Throughout fun _ => Tree.Tight

/-- A scope that was just opened is neat. -/
theorem neat_opened (s : State) : s.opened.Neat where
  last _ none := by cases none
  nodes _ none := absurd none List.not_mem_nil

/-- A scope with a token that counts ends with such a token. -/
theorem Neat.tight (h : s.Neat) (held : Tree.counts s.out.reverse = true) :
    Tree.Tight s.out.reverse := by
  obtain ⟨t, member, -⟩ := List.any_eq_true.mp held
  have some : (Tree.forestLeaves s.out.reverse).getLast?.isSome = true :=
    List.getLast?_isSome.mpr (List.ne_nil_of_mem member)
  obtain ⟨last, ends⟩ := Option.isSome_iff_exists.mp some
  exact ⟨last, ends, h.last last ends⟩

/-- What is added to a scope comes at its end. -/
theorem neat_of_added {added outer : List Tree} (tight : Tree.Tight added.reverse)
    (same : s.out = added ++ outer) (nodes : ∀ t ∈ s.out, t.Throughout fun _ => Tree.Tight) :
    s.Neat where
  last t ends := by
    obtain ⟨last, found, counts⟩ := tight
    rw [same, List.reverse_append, Tree.forestLeaves_append, List.getLast?_append, found] at ends
    obtain rfl := Option.some.inj ends
    exact counts
  nodes := nodes

/-- Where a token is left, to take it leaves a token that counts at the end. -/
theorem Neat.take (h : s.Neat) (left : s.next?.isSome = true) : s.take.Neat := by
  obtain ⟨t, ahead⟩ := Option.isSome_iff_exists.mp left
  obtain ⟨ts, ready⟩ : ∃ ts, s.skipTrivia.rest = t :: ts := by
    rw [rest_skipTrivia]
    exact List.head?_eq_some_iff.mp ahead
  have tight : Tree.Tight [Tree.token t].reverse := ⟨t, rfl, isTrivia_of_next? ahead⟩
  have added : s.take.out = [Tree.token t] ++ s.skipTrivia.out := by
    simp [take_eq, advance, ready]
  exact neat_of_added tight added (throughout_consume h.nodes _)

/-- A neat scope that holds a token becomes a tight node. -/
theorem Neat.closed (h : inner.Neat) (held : Tree.counts inner.out.reverse = true) (kind : Kind)
    {outer : List Tree} (around : ∀ t ∈ outer, t.Throughout fun _ => Tree.Tight) :
    (inner.closed kind outer).Neat := by
  have tight := h.tight held
  -- The tokens of the new node are those of the scope that it closes.
  have single : Tree.Tight [Syntax.Tree.node kind inner.out.reverse].reverse := by
    simpa [Tree.Tight] using tight
  exact neat_of_added single rfl (throughout_closed tight h.nodes around)

/-- A neat scope that holds a token leaves one at the end of the scope around it. -/
theorem Neat.merged (h : inner.Neat) (held : Tree.counts inner.out.reverse = true)
    {outer : List Tree} (around : ∀ t ∈ outer, t.Throughout fun _ => Tree.Tight) :
    (inner.merged outer).Neat :=
  neat_of_added (h.tight held) rfl (throughout_merged h.nodes around)

/-- A loop keeps its scope neat if each turn does, and if it is known after each turn what the scope
holds. -/
theorem Neat.repeatWhile {test : Test} {body : State → State}
    (spoils : ∀ s : State, s.Spoiled .reading limits → (body s).Spoiled .reading limits)
    (turn : ∀ (s : State) p held, s.Arrives .reading outer p (some held) → s.Neat →
      s.satisfies test = true → (body s).Spoiled .reading limits ∨
        ((body s).Neat ∧ ∃ q held, (body s).Arrives .reading outer q (some held)))
    (turns : Nat) {p : Prospect} {held : Bool} (start : s.Arrives .reading outer p (some held))
    (h : s.Neat) :
    (State.repeatWhile (·.satisfies test) body turns s).Spoiled .reading limits ∨
      (State.repeatWhile (·.satisfies test) body turns s).Neat := by
  induction turns generalizing s p held with
  | zero =>
    unfold State.repeatWhile
    -- Without turns left the parse is cut off, which spoils it.
    split
    · exact .inl (.inl rfl)
    · exact .inr h
  | succ turns ih =>
    unfold State.repeatWhile
    split
    · next holds =>
      rcases turn s p held start h holds with spoiled | ⟨neat, q, held, later⟩
      · exact .inl ((spoiled_kept .reading limits).repeatWhile spoils _ _ spoiled)
      · exact ih later neat
    · exact .inr h

/-- To reject a token is to report it. -/
theorem spoiled_reject (s : State) (problem : Problem) (code : ErrorCode) :
    (s.reject problem code).Spoiled .reading limits := by
  refine .inr (.inl ⟨rfl, ?_⟩)
  unfold State.reject
  split
  · exact List.cons_ne_nil _ _
  · rw [setAside_frame]
    exact List.cons_ne_nil _ _

/-- A token is rejected and reported, or there is none and nothing is done. -/
theorem Neat.rejectNext (h : s.Neat) (code : ErrorCode) :
    (s.rejectNext code).Spoiled .reading limits ∨ (s.rejectNext code).Neat := by
  unfold State.rejectNext
  split
  · exact .inl (s.spoiled_reject _ code)
  · exact .inr h

/-- To insist rejects the next token, or only says that no expression was parsed. -/
theorem Neat.insisted (h : s.Neat) (start : Nat) :
    (s.insisted start).Spoiled .reading limits ∨ (s.insisted start).Neat := by
  unfold State.insisted
  split
  · rcases h.rejectNext .e0901 with spoiled | neat
    · exact .inl (Spoiled.of_same spoiled rfl rfl rfl)
    · exact .inr ⟨neat.last, neat.nodes⟩
  · exact .inr ⟨h.last, h.nodes⟩

end State

/-! ## Rules and goals -/

section Rules

variable {limits : Limits} {reach : Goal → State → State}

/-- A rule that is seen to close its nodes tightly does so, unless the parse reports something or
comes to the nesting limit. -/
theorem Rule.follow_neat (hadvances : ∀ goal (s : State), s.Advances (reach goal s))
    (spoils : ∀ goal (s : State), s.Spoiled .reading limits →
      (reach goal s).Spoiled .reading limits)
    (right : Survey.reading.Right limits reach)
    (goals : ∀ goal (s : State), s.Faces goal.opening → s.depth ≤ s.deepest → s.Neat →
      (reach goal s).Spoiled .reading limits ∨ (reach goal s).Neat)
    (rule : Rule) (own : Bool) {p : Prospect} {held : Bool} {outer : List Tree} {s : State}
    (start : s.Arrives .reading outer p (some held)) (scope : own = true → outer = [])
    (neat : s.Neat) (closes : rule.closes own p held = true) :
    (rule.follow limits reach s).Spoiled .reading limits ∨ (rule.follow limits reach s).Neat := by
  -- What becomes a node or leaves its group is a scope of its own, of which the survey tells that
  -- it holds a token.
  have counted (body : Rule) {p : Prospect} {held : Bool} {s : State}
      (start : s.Arrives .reading [] p (some held))
      (reads : (body.outcomes .reading true p (some held)).all Outcome.reads = true) :
      (body.follow limits reach s).Spoiled .reading limits ∨
        Tree.counts (body.follow limits reach s).out.reverse = true :=
    (body.follow_outcomes hadvances spoils right true start fun _ => rfl).counts reads
  -- Induction on the rule. Trivia that is read comes before a token in the same step, or before a
  -- scope that is opened then and holds a token when it ends.
  induction rule generalizing own p held outer s with
  | done | yield => exact .inr ⟨neat.last, neat.nodes⟩
  | andThen first next ihFirst ihNext =>
    obtain ⟨closesFirst, closesNext⟩ := Bool.and_eq_true_iff.mp closes
    -- The second rule was checked from each of the ways in which the first one may end.
    rcases ihFirst own start scope neat closesFirst with spoiled | between
    · exact .inl (next.follow_spoiled spoils _ spoiled)
    rcases first.follow_outcomes hadvances spoils right own start scope with
      spoiled | ⟨o, member, ends⟩
    · exact .inl (next.follow_spoiled spoils _ spoiled)
    have onward := List.all_eq_true.mp closesNext o member
    cases o with
    | lost => cases onward
    | ended q after =>
      cases after with
      | none => cases onward
      | some held => exact ihNext own ends scope between onward
  -- The check of the rule demands that a token is known to be there.
  | take => exact .inr (neat.take (start.faces.next.isSome (bne_iff_ne.mp closes)))
  | complain problem code => exact .inl (.inr (.inl ⟨rfl, List.cons_ne_nil _ _⟩))
  | reject problem code => exact .inl (s.spoiled_reject problem code)
  | rejectNext code => exact neat.rejectNext code
  | branch test yes no ihYes ihNo =>
    obtain ⟨closesYes, closesNo⟩ := Bool.and_eq_true_iff.mp closes
    simp only [Rule.follow]
    split
    · next holds =>
      obtain ⟨q, told, faces⟩ := start.faces.sharpen holds
      exact ihYes own (start.refined faces) scope neat (List.all_eq_true.mp closesYes q told)
    · next fails =>
      obtain ⟨q, told, faces⟩ := start.faces.sharpen (Bool.eq_false_iff.mpr fails)
      exact ihNo own (start.refined faces) scope neat (List.all_eq_true.mp closesNo q told)
  | loop test body ih =>
    refine neat.repeatWhile (body.follow_spoiled spoils) ?_ limits.maxTurns start
    intro s p held begun neat holds
    -- Of the state at the start of a turn nothing is used but that the test holds.
    obtain ⟨q, told, faces⟩ := s.faces_nothing.sharpen holds
    have each := List.all_eq_true.mp closes held (by cases held <;> decide)
    obtain ⟨closesBody, measured⟩ := Bool.and_eq_true_iff.mp (List.all_eq_true.mp each q told)
    have ready := begun.refined faces
    rcases ih own ready scope neat closesBody with spoiled | between
    · exact .inl spoiled
    · have ended := body.follow_outcomes hadvances spoils right own ready scope
      exact (ended.measured measured).imp_right fun later => ⟨between, later⟩
  | insist body ih =>
    rcases ih own start scope neat closes with spoiled | between
    · exact .inl ((State.spoiled_kept .reading limits).insisted trivial _ _ spoiled)
    · exact between.insisted s.offset
  | node kind body ih =>
    obtain ⟨closesBody, reads⟩ := Bool.and_eq_true_iff.mp closes
    rcases counted body start.opened reads with spoiled | counts
    · exact .inl spoiled
    · refine (ih true start.opened (fun _ => rfl) (State.neat_opened _) closesBody).imp id ?_
      exact fun inside => inside.closed counts kind (State.throughout_consume neat.nodes _)
  | group body ih =>
    obtain ⟨closesBody, reads⟩ := Bool.and_eq_true_iff.mp closes
    -- Trivia before the group is in the scope around it, and a token of the group follows.
    rcases counted body start.opened reads with spoiled | counts
    · exact .inl spoiled
    · refine (ih true start.opened (fun _ => rfl) (State.neat_opened _) closesBody).imp id ?_
      exact fun inside => inside.merged counts (State.throughout_consume neat.nodes _)
  | wrap kind body ih =>
    obtain ⟨isOwn, inner⟩ := Bool.and_eq_true_iff.mp closes
    obtain ⟨closesBody, reads⟩ := Bool.and_eq_true_iff.mp inner
    -- A wrap takes in the whole scope, since only rules with a scope of their own may wrap.
    obtain rfl := scope isOwn
    rcases counted body start reads with spoiled | counts
    · exact .inl spoiled
    · refine (ih true start (fun _ => rfl) neat closesBody).imp id ?_
      exact fun inside => inside.closed counts kind fun _ none => absurd none List.not_mem_nil
  | call goal => exact goals goal s (start.faces.of_covers closes) start.noted neat
  | nested goal =>
    simp only [Rule.follow, State.deeper]
    split
    · -- The level changes, and the scope does not.
      have faces := start.faces.of_covers closes
      have entered : s.entered.Neat := ⟨neat.last, neat.nodes⟩
      rcases goals goal s.entered ⟨faces.next, faces.second, faces.parsed⟩ (Nat.le_max_right _ _)
        entered with spoiled | inside
      · exact .inl (spoiled.of_same rfl rfl rfl)
      · exact .inr ⟨inside.last, inside.nodes⟩
    · next full =>
      -- What comes to the nesting limit is not surveyed.
      rcases start.giveUp (Nat.not_lt.mp full) goal with spoiled | ⟨o, none, -⟩
      · exact .inl spoiled
      · exact absurd none List.not_mem_nil

end Rules

/-- No goal leaves trivia at the end of its scope, unless it reports something or is cut short. -/
theorem reach_neat (limits : Limits) (allowance : Nat) (goal : Goal) (s : State)
    (faces : s.Faces goal.opening) (noted : s.depth ≤ s.deepest) (neat : s.Neat) :
    (reach grammar limits allowance goal s).Spoiled .reading limits ∨
      (reach grammar limits allowance goal s).Neat := by
  -- Induction on the allowance: what a goal calls keeps its scope neat.
  induction allowance generalizing goal s with
  | zero => exact .inl (.inl rfl)
  | succ allowance ih =>
    have start : s.Arrives .reading s.out goal.opening (some false) :=
      ⟨faces, State.holds_nothing .reading s, noted⟩
    exact (grammar goal).follow_neat (reach_advances grammar allowance)
      (reach_spoiled .reading limits allowance)
      (Survey.right_of_checks Survey.reading_checks limits allowance) ih false start
      (fun own => Bool.noConfusion own) neat (closes_grammar goal)

/-- The nodes of a parse are tight, if it reports nothing and stays above the nesting limit. -/
theorem finalState_tight {maxDepth : Nat} {tokens : List Token}
    (quiet : (finalState maxDepth tokens).errors = [])
    (shallow : (finalState maxDepth tokens).deepest < maxDepth) :
    ∀ t ∈ (finalState maxDepth tokens).out, t.Throughout fun _ => Tree.Tight := by
  have faces : (State.start tokens).Faces (Goal.statements false).opening :=
    (State.start tokens).faces_nothing
  have start : (State.start tokens).Neat := State.neat_opened (State.start tokens)
  rcases reach_neat (Limits.forTokens maxDepth tokens) (callAllowance maxDepth)
    (.statements false) (State.start tokens) faces (Nat.le_refl 0) start with spoiled | neat
  · have surveyed : ¬ (finalState maxDepth tokens).Spoiled .reading
        (Limits.forTokens maxDepth tokens) :=
      State.not_spoiled (finalState_not_starved maxDepth tokens) (fun _ => quiet)
        fun _ => shallow
    -- Nothing was reported and the limit was not reached, so the parse is not spoiled.
    exact absurd ((State.spoiled_kept .reading _).consume _ _ spoiled) surveyed
  · -- The trivia at the end of the text is added to the root alone.
    exact State.throughout_consume neat.nodes _

end PerlOutline.Grammar

/-! ## Texts -/

namespace PerlOutline.Element.Node

open PerlOutline.Source (Range byteWidth byteWidth_append)
open PerlOutline.Syntax (Token Tree Parse tokenize)

/-- A node that is not the root is a node of the trees under the root. -/
theorem extends_of_parent {maxDepth : Nat} {text : List Char} {n : Node}
    (member : n ∈ allOf (Parse.ofTextWithin maxDepth text).placed)
    (inner : n.parent?.isSome = true) :
    n.Extends 0 (Grammar.finalState maxDepth (tokenize text)).out.reverse := by
  -- The root has no parent.
  rcases List.mem_cons.mp member with rfl | below
  · cases inner
  · exact (extends_of_mem_forestNodesOnto below).resolve_left List.not_mem_nil

section Leaves

variable {n : Node} {children : List Tree}
  (leaves : n.leaves = Token.placed n.range.start (Tree.forestLeaves children))
include leaves

/-- A node that holds tokens begins where the first of them does. -/
theorem begins_of_led (led : Tree.Led children) {first : Nat × Token}
    (found : n.leaves.head? = some first) :
    first.2.isTrivia = false ∧ n.range.start = first.1 := by
  rw [leaves] at found
  cases tokens : Tree.forestLeaves children with
  | nil =>
    rw [tokens] at found
    cases found
  | cons t ts =>
    rw [tokens] at found
    cases found
    exact ⟨led t (by rw [tokens]; rfl), rfl⟩

/-- A node that ends with a token that counts holds a first and a last token, and ends where the
last one does. -/
theorem ends_of_tight (tight : Tree.Tight children)
    (stop : n.range.stop = n.range.start + byteWidth (Token.spell (Tree.forestLeaves children))) :
    ∃ first last, n.leaves.head? = some first ∧ n.leaves.getLast? = some last ∧
      last.2.isTrivia = false ∧ n.range.stop = (Token.rangeAt last).stop := by
  obtain ⟨t, ends, counts⟩ := tight
  obtain ⟨before, parts⟩ := List.getLast?_eq_some_iff.mp ends
  rw [parts, Token.placed_append] at leaves
  obtain ⟨first, found⟩ : ∃ first, n.leaves.head? = some first := by
    rw [leaves]
    -- There is a first token, whether or not it is the last one as well.
    cases before <;> exact ⟨_, rfl⟩
  refine ⟨first, (n.range.start + byteWidth (Token.spell before), t), found, ?_, counts, ?_⟩
  · rw [leaves]
    exact List.getLast?_concat
  · -- The last token reaches as far as all tokens of the node do.
    rw [stop, parts, Token.spell_append, byteWidth_append, ← Nat.add_assoc]
    simp [Token.rangeAt, Range.sized, Token.width]

end Leaves

/-- Ranges of nodes are tight. However broken a text is, no node but the root begins with trivia: if
it has tokens at all, it begins where the first of them does. If nothing is reported and the nesting
limit is not reached, every node but the root has tokens, neither the first nor the last of them is
trivia, and its range reaches from the beginning of the one to the end of the other. -/
theorem range_tight (maxDepth : Nat) (text : List Char) :
    let parse := Parse.ofTextWithin maxDepth text
    ∀ n ∈ allOf parse.placed, n.parent?.isSome = true →
      n.leaves <:+: Token.placed 0 (tokenize text) ∧
        (∀ first, n.leaves.head? = some first →
          first.2.isTrivia = false ∧ n.range.start = first.1) ∧
        (parse.ok = true → parse.depth < maxDepth →
          ∃ first last, n.leaves.head? = some first ∧ n.leaves.getLast? = some last ∧
            first.2.isTrivia = false ∧ last.2.isTrivia = false ∧
            n.range = ⟨first.1, (Token.rangeAt last).stop⟩) := by
  intro parse n member inner
  obtain ⟨stretch, children, leaves, stop, throughout⟩ := (extends_of_parent member inner).leaves
  rw [Grammar.finalState_leaves] at stretch
  have led : Tree.Led children :=
    throughout (fun _ => Tree.Led) <| Tree.forestThroughout_iff.mpr fun t ht =>
      Grammar.finalState_led maxDepth (tokenize text) t (List.mem_reverse.mp ht)
  refine ⟨stretch, fun first found => begins_of_led leaves led found, fun ok shallow => ?_⟩
  have quiet : (Grammar.finalState maxDepth (tokenize text)).errors = [] :=
    List.reverse_eq_nil_iff.mp (List.isEmpty_iff.mp ok)
  have tight : Tree.Tight children :=
    -- Tightness is asked of the trees under the root; the root itself may end with trivia.
    throughout (fun _ => Tree.Tight) <| Tree.forestThroughout_iff.mpr fun t ht =>
      Grammar.finalState_tight quiet shallow t (List.mem_reverse.mp ht)
  obtain ⟨first, last, found, isLast, counts, reaches⟩ := ends_of_tight leaves tight stop
  obtain ⟨begun, begins⟩ := begins_of_led leaves led found
  exact ⟨first, last, found, isLast, begun, counts, by rw [← begins, ← reaches]⟩

/-- The blanks and the comment around arguments belong to what is around them. -/
theorem range_tight_arguments :
    (Parse.ofTextWithin 256 " f ( 1 , # one\n 2 ) ; # end".toList).ok = true ∧
      (Parse.ofTextWithin 256 " f ( 1 , # one\n 2 ) ; # end".toList).depth < 256 ∧
      ∃ n ∈ allOf (Parse.ofTextWithin 256 " f ( 1 , # one\n 2 ) ; # end".toList).placed,
        n.kind = .argList ∧ n.range = ⟨3, 19⟩ ∧
        ∃ first last, n.leaves.head? = some first ∧ n.leaves.getLast? = some last ∧
          first.2.isTrivia = false ∧ last.2.isTrivia = false ∧
          n.range = ⟨first.1, (Token.rangeAt last).stop⟩ := by
  have ok : (Parse.ofTextWithin 256 " f ( 1 , # one\n 2 ) ; # end".toList).ok = true := by
    decide +kernel
  have shallow : (Parse.ofTextWithin 256 " f ( 1 , # one\n 2 ) ; # end".toList).depth < 256 := by
    decide +kernel
  -- The list of arguments is looked for by its kind and its range.
  have listed : ((allOf (Parse.ofTextWithin 256 " f ( 1 , # one\n 2 ) ; # end".toList).placed).find?
      fun n => n.kind == .argList && n.range == ⟨3, 19⟩ && n.parent?.isSome).isSome = true := by
    decide +kernel
  obtain ⟨n, found⟩ := Option.isSome_iff_exists.mp listed
  have member := List.mem_of_find?_eq_some found
  have told := List.find?_some found
  obtain ⟨shape, inner⟩ := Bool.and_eq_true_iff.mp told
  obtain ⟨kind, range⟩ := Bool.and_eq_true_iff.mp shape
  have tight := range_tight 256 " f ( 1 , # one\n 2 ) ; # end".toList n member inner
  exact ⟨ok, shallow, n, member, beq_iff_eq.mp kind, beq_iff_eq.mp range, tight.2.2 ok shallow⟩

end PerlOutline.Element.Node
