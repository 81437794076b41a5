import PerlOutline.Proofs.Locality

/-!
# Statements end at their semicolon

Of what a goal reads without a report, only that of a statement can end with a semicolon, and
nothing follows in the statement then. So a statement that takes the last semicolon of a text is the
same where more text follows, and so are all statements of the text.

## Layers
- **`Survey.endings`**: whether what goals read ends with a semicolon.
- **`Rule.lands`**: rules that take a semicolon last, seen from the rule.
- **Statements** that come to the last semicolon, and the statements of a text.
-/

namespace PerlOutline.Syntax.Tree

/-- Whether the last token that is no trivia is a semicolon, if there is one. -/
def endsWithSemicolon (ts : List Tree) : Option Bool :=
  ((forestLeaves ts).filter (!·.isTrivia)).getLast?.map (·.kind == .semicolon)

end PerlOutline.Syntax.Tree

namespace PerlOutline.Grammar

open PerlOutline.Syntax (Kind Token Tree)
open State (significant)

/-! ## Endings -/

/-- The goals that may end with a semicolon. -/
def Goal.isStatement : Goal → Bool
  | .statements _ | .statement | .package | .moduleUse | .subDefinition | .returnStatement
  | .expressionStatement => true
  | _ => false

/-- Whether what is read without a report ends with a semicolon. -/
def Survey.endings : Survey (Option Bool) where
  gauge :=
    { of := Tree.endsWithSemicolon
      token := fun kind => some (kind == .semicolon)
      tokens := [some true, some false]
      node := fun _ held => held
      join := fun first next => next <|> first
      token_mem := fun kind => by cases kind == .semicolon <;> simp
      of_append := fun ts us => by
        -- The last significant token of two parts is that of the second, if there is one in it.
        simp only [Tree.endsWithSemicolon, Tree.forestLeaves_append, List.filter_append,
          List.getLast?_append]
        cases ((Tree.forestLeaves us).filter (!·.isTrivia)).getLast? <;> simp
      of_token := fun t => by
        have leaves : Tree.forestLeaves [.token t] = [t] := rfl
        cases trivia : t.isTrivia <;> simp [Tree.endsWithSemicolon, leaves, trivia]
      of_node := fun kind children => by
        have leaves : Tree.forestLeaves [.node kind children] = Tree.forestLeaves children := rfl
        rw [Tree.endsWithSemicolon, leaves, Tree.endsWithSemicolon] }
  reports := false
  cuts := true
  fits _ _ := true
  plain _ := false
  leaves goal :=
    [(none, some none), (none, some (some false))] ++
      if goal.isStatement then [(none, some (some true))] else []
  of_plain _ listed := absurd listed (by decide)
  plain_error reports := absurd reports (by decide)

theorem Survey.endings_checks (goal : Goal) : Survey.endings.checks goal = true := by
  revert goal
  decide +kernel

/-- What was read does not end with a semicolon. -/
def endsApart (held : Option (Option Bool)) : Bool :=
  held == some none || held == some (some false)

/-- The goals in which nothing follows a semicolon that they take last. -/
def Goal.lands : Goal → Bool
  | .statements _ => false
  | _ => true

/-- Whether it is seen from a rule that nothing follows in it where it takes a semicolon. -/
def Rule.lands (p : Prospect) : Rule → Bool
  | .andThen first next =>
    first.nearsighted false false &&
      -- What the first part may come to decides where the second part starts.
      (first.outcomes Survey.endings false p Survey.endings.nothing).all fun
        | .ended q held => endsApart held && next.lands q
        | .lost => false
  | .branch test yes no =>
    test.nearsighted false && (test.refine true p).all yes.lands &&
      (test.refine false p).all no.lands
  | .node _ body => body.lands p
  | .call goal => p.covers goal.entry && goal.lands
  | .loop .. | .insist _ | .group _ | .wrap .. | .nested _ => false
  | _ => true

theorem lands_grammar {goal : Goal} (statement : goal.isStatement = true)
    (lands : goal.lands = true) : (grammar goal).lands goal.entry = true := by
  cases goal with
  | statements => exact absurd lands (fun same => Bool.noConfusion same)
  | statement | package | moduleUse | subDefinition | returnStatement | expressionStatement =>
    decide +kernel
  | _ => exact absurd statement (fun same => Bool.noConfusion same)

/-! ## The last semicolon -/

namespace Beside

variable {before before' : List Tree} {x y : List Token} {s s' : State} {t : Token}

/-- What is beside up to a token is beside after it. -/
theorem weaken (h : Beside before before' (t :: x) (t :: y) s s') :
    Beside before before' x y s s' := by
  obtain ⟨r, here, there⟩ := h.rest
  refine { h with rest := ⟨r ++ [t], ?_, ?_⟩ }
  · rw [here, List.append_assoc]
    rfl
  · rw [there, List.append_assoc]
    rfl

/-- The next token may be the semicolon itself. -/
theorem takeLast (q : Sequel (t :: x) (t :: y)) (h : Beside before before' (t :: x) (t :: y) s s') :
    Beside before before' x y s.take s'.take := by
  obtain ⟨r, here, there⟩ := h.rest
  -- The token itself is not trivia, so the trivia ahead end before it.
  have ahead : s.triviaAhead ≤ r.length := by
    rw [State.triviaAhead, here, q.takeWhile_trivia]
    exact (List.takeWhile_sublist _).length_le
  rw [State.take, State.take, ← h.triviaAhead q]
  refine h.weaken.consume_of_le (r := r ++ [t]) ?_ ?_ (.inl ?_)
  · rw [here, List.append_assoc]
    rfl
  · rw [there, List.append_assoc]
    rfl
  · rw [List.length_append]
    exact Nat.succ_le_succ ahead

end Beside

/-- A token is next where the semicolon is ahead. -/
theorem Sequel.exists_next? {t : Token} {x y r : List Token} (q : Sequel (t :: x) (t :: y))
    {s : State} (rest : s.rest = r ++ t :: x) : ∃ u, s.next? = some u := by
  rw [State.next?, rest, q.significant_append]
  cases significant r with
  | nil => exact ⟨t, rfl⟩
  | cons u us => exact ⟨u, rfl⟩

/-- What was read is what was built. -/
theorem State.Advances.rest_eq {s s' : State} (onward : s.Advances s') {added : List Tree}
    (out : s'.out = added ++ s.out) : s.rest = Tree.forestLeaves added.reverse ++ s'.rest := by
  have same := onward.tokens
  rw [State.tokens, State.tokens, out, List.reverse_append, Tree.forestLeaves_append,
    List.append_assoc] at same
  exact (List.append_cancel_left same).symm

/-- What goes past the last semicolon of a text ends with it. -/
theorem endsWithSemicolon_of_past {t : Token} (kind : t.kind = .semicolon) {x : List Token}
    (trivia : ∀ u ∈ x, u.isTrivia = true) {ts : List Tree} {r rest : List Token}
    (parts : r ++ t :: x = Tree.forestLeaves ts ++ rest) (past : rest.length ≤ x.length) :
    Tree.endsWithSemicolon ts = some true := by
  obtain ⟨skipped, behind, leaves⟩ : ∃ skipped, x = skipped ++ rest ∧
      Tree.forestLeaves ts = r ++ t :: skipped := by
    -- What is left is no longer than `x`, so the semicolon is among what was read.
    rcases List.append_eq_append_iff.mp parts with ⟨read, leaves, left⟩ | ⟨read, -, left⟩
    · cases read with
      | nil =>
        have := congrArg List.length left
        simp only [List.length_cons, List.nil_append] at this
        omega
      | cons u skipped =>
        obtain ⟨rfl, behind⟩ := List.cons.inj left
        exact ⟨skipped, behind, leaves⟩
    · have := congrArg List.length left
      simp only [List.length_append, List.length_cons] at this
      omega
  have significant : t.isTrivia = false := by simp [Token.isTrivia, kind, Kind.isTrivia]
  have none : skipped.filter (!·.isTrivia) = [] := by
    rw [List.filter_eq_nil_iff]
    intro u member
    simp [trivia u (behind ▸ List.mem_append_left _ member)]
  simp [Tree.endsWithSemicolon, leaves, significant, none, kind]

section Landing

variable {limits : Limits} {reach : Goal → State → State} {t : Token} {x y : List Token}

/-- A parse that is clear is surveyed. -/
theorem Clear.not_spoiled {s : State} (clear : Clear x s) :
    ¬ s.Spoiled Survey.endings limits :=
  State.not_spoiled clear.starved (fun _ => clear.errors) (absurd · (by decide))

/-- What does not end with a semicolon leaves the last semicolon ahead. -/
theorem Clear.of_endsApart {s s' : State} (kind : t.kind = .semicolon)
    (trivia : ∀ u ∈ x, u.isTrivia = true) (clear : Clear [] s') (onward : s.Advances s')
    {r : List Token} (rest : s.rest = r ++ t :: x) {held : Option (Option Bool)}
    (apart : endsApart held = true) (holds : s'.Holds Survey.endings s.out held) :
    Clear (t :: x) s' := by
  obtain ⟨added, out, measured, -⟩ := holds
  -- If the rest were past the semicolon, what was built would end with it.
  refine { clear with ahead := Nat.lt_of_not_le fun past => ?_ }
  have ends : Tree.endsWithSemicolon added.reverse = some true :=
    endsWithSemicolon_of_past kind trivia (rest.symm.trans (onward.rest_eq out)) past
  rcases Bool.or_eq_true_iff.mp apart with none | some
  · have same := measured _ (beq_iff_eq.mp none)
    exact absurd (ends.symm.trans same) (by decide)
  · have same := measured _ (beq_iff_eq.mp some)
    exact absurd (ends.symm.trans same) (by decide)

/-- A step takes two parses past their last common semicolon, or leaves it ahead. -/
def Lands (t : Token) (x y : List Token) (goal : Goal) (f : State → State) : Prop :=
  ∀ before before' s s', Beside before before' (t :: x) (t :: y) s s' → s.Faces goal.entry →
    s.depth ≤ s.deepest → Clear [] (f s) → Beside before before' x y (f s) (f s')

variable (kind : t.kind = .semicolon) (trivia : ∀ u ∈ x, u.isTrivia = true)
include kind trivia

theorem Rule.follow_lands (hadvances : ∀ goal (s : State), s.Advances (reach goal s))
    (hreach : ∀ goal, StaysBeside (t :: x) (t :: y) goal.looksFar (reach goal))
    (spoils : ∀ goal (s : State), s.Spoiled Survey.endings limits →
      (reach goal s).Spoiled Survey.endings limits)
    (right : Survey.endings.Right limits reach)
    (hlands : ∀ goal, goal.lands = true → Lands t x y goal (reach goal)) (rule : Rule)
    {p : Prospect} (lands : rule.lands p = true) {before before' : List Tree} {s s' : State}
    (h : Beside before before' (t :: x) (t :: y) s s') (faces : s.Faces p)
    (noted : s.depth ≤ s.deepest) (clear : Clear [] (rule.follow limits reach s)) :
    Beside before before' x y (rule.follow limits reach s) (rule.follow limits reach s') := by
  have q : Sequel (t :: x) (t :: y) := .semicolon kind x y
  induction rule generalizing p before before' s s' with
  | done => exact h.weaken
  | andThen first next _ ihNext =>
    obtain ⟨near, seen⟩ := Bool.and_eq_true_iff.mp lands
    have onward : (first.follow limits reach s).Advances
        (next.follow limits reach (first.follow limits reach s)) :=
      next.follow_advances hadvances _
    have clearFirst := clear.earlier onward
    have start : s.Arrives Survey.endings s.out p Survey.endings.nothing :=
      ⟨faces, State.holds_nothing _ s, noted⟩
    -- What the first part reads does not end with a semicolon, so the last one is still ahead.
    obtain ⟨o, member, ends⟩ := (first.follow_outcomes hadvances spoils right false start
      nofun).resolve_left clearFirst.not_spoiled
    have landed := List.all_eq_true.mp seen o member
    cases o with
    | lost => exact absurd landed (fun same => Bool.noConfusion same)
    | ended p' held =>
      obtain ⟨apart, landsNext⟩ := Bool.and_eq_true_iff.mp landed
      obtain ⟨r, here, -⟩ := h.rest
      have ahead : Clear (t :: x) (first.follow limits reach s) :=
        .of_endsApart kind trivia clearFirst (first.follow_advances hadvances s) here apart
          ends.holds
      have middle := first.follow_beside q hadvances hreach false false near nofun h nofun ahead
      exact ihNext landsNext middle ends.faces ends.noted clear
  | take => exact h.takeLast q
  | complain problem code => exact (clear.not_complain problem code).elim
  | reject problem code => exact (clear.not_reject problem code).elim
  | rejectNext code => exact (h.rejectNext q clear).weaken
  | yield parsed => exact (h.recorded parsed).weaken
  | branch test yes no ihYes ihNo =>
    obtain ⟨landsTest, landsNo⟩ := Bool.and_eq_true_iff.mp lands
    obtain ⟨near, landsYes⟩ := Bool.and_eq_true_iff.mp landsTest
    simp only [Rule.follow, ← h.satisfies q near nofun] at clear ⊢
    split
    · next holds =>
      rw [if_pos holds] at clear
      obtain ⟨p', told, faces⟩ := faces.refine holds
      exact ihYes (List.all_eq_true.mp landsYes p' told) h faces noted clear
    · next fails =>
      rw [if_neg fails] at clear
      obtain ⟨p', told, faces⟩ := faces.refine (Bool.eq_false_iff.mpr fails)
      exact ihNo (List.all_eq_true.mp landsNo p' told) h faces noted clear
  | node kind body ih =>
    -- The body stays beside as the rule would, and the node is closed over what it built.
    have ready : s.skipTrivia.opened.Arrives Survey.endings [] p Survey.endings.nothing :=
      State.Arrives.opened ⟨faces, State.holds_nothing _ s, noted⟩
    have inside := ih lands (h.opened q) ready.faces ready.noted (clear.of_same rfl rfl rfl)
    exact inside.closed kind (h.skipTrivia q).out
  | call goal =>
    obtain ⟨covers, landsGoal⟩ := Bool.and_eq_true_iff.mp lands
    exact hlands goal landsGoal before before' s s' h (faces.of_covers covers) noted clear
  | loop | insist | group | wrap | nested =>
    exact absurd lands (fun same => Bool.noConfusion same)

end Landing

/-- A goal that looks past the next token at once stands at no semicolon. -/
theorem State.Faces.apart {s : State} {goal : Goal} (faces : s.Faces goal.entry)
    (far : goal.looksFar = true) : s.Apart := by
  cases goal with
  | wordOrCall =>
    obtain ⟨u, seen, word⟩ := faces.next.exists_token
    intro semicolon
    rw [State.ahead, seen, Option.map_some, List.mem_singleton.mp word] at semicolon
    exact absurd semicolon (by decide)
  | _ => exact absurd far (fun same => Bool.noConfusion same)

/-! ## Statements -/

/-- One turn of the statements of a text. -/
def statementTurn (limits : Limits) (allowance : Nat) : State → State :=
  (Rule.insist (.nested .statement)).follow limits (reach grammar limits allowance)

/-- At most so many turns of the statements of a text. -/
def statementTurns (limits : Limits) (allowance turns : Nat) : State → State :=
  State.repeatWhile (·.satisfies (.fails .atEnd)) (statementTurn limits allowance) turns

theorem statementTurn_advances (limits : Limits) (allowance : Nat) (s : State) :
    s.Advances (statementTurn limits allowance s) :=
  Rule.follow_advances (reach_advances grammar allowance) _ s

theorem statementTurns_advances (limits : Limits) (allowance turns : Nat) (s : State) :
    s.Advances (statementTurns limits allowance turns s) :=
  (State.Advances.kept limits).repeatWhile (statementTurn_advances limits allowance) turns s

/-- No turn is made where nothing but trivia is left. -/
theorem statementTurns_of_trivia {limits : Limits} {s : State}
    (trivia : ∀ t ∈ s.rest, t.isTrivia = true) (allowance turns : Nat) :
    statementTurns limits allowance turns s = s := by
  have nothing : significant (s.rest ++ []) = [] := List.dropWhile_append_of_pos trivia
  rw [List.append_nil] at nothing
  have ended : s.satisfies (.fails .atEnd) = false := by
    simp [State.satisfies, State.next?, nothing]
  cases turns <;> simp [statementTurns, State.repeatWhile, ended]

section Goals

variable {limits : Limits} {t : Token} {x y : List Token}
variable (kind : t.kind = .semicolon) (trivia : ∀ u ∈ x, u.isTrivia = true)
include kind trivia

/-- A goal takes two parses past their last common semicolon, or leaves it ahead. -/
theorem reach_lands (allowance : Nat) {goal : Goal} (lands : goal.lands = true) :
    Lands t x y goal (reach grammar limits allowance goal) := by
  have q : Sequel (t :: x) (t :: y) := .semicolon kind x y
  induction allowance generalizing goal with
  | zero =>
    -- Without an allowance the parse is cut off, and such a parse is not clear.
    exact fun _ _ _ _ _ _ _ clear => absurd clear.starved (fun same => Bool.noConfusion same)
  | succ allowance ih =>
    intro before before' s s' h faces noted clear
    have right := Survey.right_of_checks Survey.endings_checks limits
    cases statement : goal.isStatement with
    | true =>
      exact (grammar goal).follow_lands kind trivia (reach_advances grammar allowance)
        (reach_beside q allowance)
        (reach_kept (State.spoiled_kept _ limits) trivial (fun _ _ _ => trivial) allowance)
        (right allowance) (fun _ => ih) (lands_grammar statement lands) h faces noted clear
    | false =>
      -- A goal that is no statement does not end with a semicolon.
      have all : (Survey.endings.leaves goal).all (endsApart ·.2) = true := by
        simp [Survey.endings, statement, endsApart]
      obtain ⟨o, member, ends⟩ :=
        (right (allowance + 1) goal s faces noted).resolve_left clear.not_spoiled
      obtain ⟨left, listed, rfl⟩ := List.mem_map.mp member
      obtain ⟨r, here, -⟩ := h.rest
      have ahead : Clear (t :: x) (reach grammar limits (allowance + 1) goal s) :=
        .of_endsApart kind trivia clear (reach_advances grammar _ goal s) here
          (List.all_eq_true.mp all left listed) ends.holds
      exact (reach_beside q (allowance + 1) goal before before' s s' h faces.apart ahead).weaken

/-- A turn takes two parses past their last common semicolon, or leaves it ahead. -/
theorem statementTurn_lands (allowance : Nat) {before before' : List Tree} {s s' : State}
    (room : s.depth < limits.maxDepth) (h : Beside before before' (t :: x) (t :: y) s s')
    (clear : Clear [] (statementTurn limits allowance s)) :
    Beside before before' x y (statementTurn limits allowance s)
      (statementTurn limits allowance s') := by
  have q : Sequel (t :: x) (t :: y) := .semicolon kind x y
  have onward (s : State) :
      s.Advances (s.deeper limits (reach grammar limits allowance) .statement) :=
    s.statement_advances
  simp only [statementTurn, Rule.follow] at clear ⊢
  -- The statement begins one nesting level down, where nothing was read of it yet.
  have later : Beside before before' x y
      (s.deeper limits (reach grammar limits allowance) .statement)
      (s'.deeper limits (reach grammar limits allowance) .statement) := by
    have inside := clear.earlier ((State.Advances.kept limits).insisted trivial _ _)
    rw [State.deeper, if_pos room] at inside
    rw [State.deeper, if_pos room, State.deeper, if_pos (h.depth ▸ room)]
    have lands : Goal.statement.lands = true := rfl
    have reached := reach_lands kind trivia allowance lands before before' s.entered s'.entered
      h.entered (State.faces_unseen (by simp)) (Nat.le_max_right _ _) (inside.of_same rfl rfl rfl)
    exact { reached with depth := h.depth }
  have same := h.weaken.offset_eq_iff later (onward s) (onward s')
  by_cases still : (s.deeper limits (reach grammar limits allowance) .statement).offset = s.offset
  · -- Where nothing was read the next token would have been rejected.
    obtain ⟨r, here, -⟩ := h.rest
    have rest := (onward s).offset_eq_iff.mp still
    obtain ⟨u, seen⟩ := q.exists_next? (rest.trans here)
    rw [State.insisted, if_pos still] at clear
    have quiet : Clear [] ((s.deeper limits (reach grammar limits allowance) .statement).rejectNext
        .e0901) := clear.of_same rfl rfl rfl
    exact absurd (seen.symm.trans quiet.next?_eq_none) (Option.some_ne_none u)
  · rw [State.insisted, if_neg still, State.insisted, if_neg (mt same.mpr still)]
    exact later.recorded none

/-- The statements of a text up to its last semicolon are the same where more text follows, and
what follows is then left. -/
theorem statementTurns_land (allowance turns : Nat) {before before' : List Tree} {s s' : State}
    (room : s.depth < limits.maxDepth) (h : Beside before before' (t :: x) (t :: y) s s')
    (clear : Clear [] (statementTurns limits allowance turns s)) :
    ∃ left ≤ turns, ∃ u',
      statementTurns limits allowance turns s' = statementTurns limits allowance left u' ∧
      Beside before before' x y (statementTurns limits allowance turns s) u' ∧
      (statementTurns limits allowance turns s).rest = x ∧ u'.rest = y ∧ u'.last = none := by
  have q : Sequel (t :: x) (t :: y) := .semicolon kind x y
  -- Induction on the turns. Each of them leaves the semicolon ahead or takes it, and then it was
  -- the last turn of the first parse.
  induction turns generalizing s s' with
  | zero =>
    obtain ⟨r, here, -⟩ := h.rest
    obtain ⟨v, seen⟩ := q.exists_next? here
    -- A token is left and no turn, so the parse would be cut off.
    have cut : (statementTurns limits allowance 0 s).starved = true := by
      simp [statementTurns, State.repeatWhile, State.satisfies, seen]
    rw [clear.starved] at cut
    exact absurd cut (by decide)
  | succ turns ih =>
    obtain ⟨r, here, -⟩ := h.rest
    obtain ⟨v, seen⟩ := q.exists_next? here
    have goesOn : s.satisfies (.fails .atEnd) = true := by simp [State.satisfies, seen]
    have goesOn' : s'.satisfies (.fails .atEnd) = true := by
      simp [State.satisfies, ← h.next? q, seen]
    have turn (s : State) (goesOn : s.satisfies (.fails .atEnd) = true) :
        statementTurns limits allowance (turns + 1) s =
          statementTurns limits allowance turns (statementTurn limits allowance s) := by
      simp only [statementTurns, State.repeatWhile, goesOn, if_true]
    rw [turn s goesOn] at clear ⊢
    rw [turn s' goesOn']
    have first := clear.earlier (statementTurns_advances limits allowance turns _)
    have landed := statementTurn_lands kind trivia allowance room h first
    obtain ⟨r', left, left'⟩ := landed.rest
    cases r' with
    | nil =>
      -- The turn took the semicolon, so only trivia is left of the first text.
      rw [List.nil_append] at left left'
      have nothing : ∀ u ∈ (statementTurn limits allowance s).rest, u.isTrivia = true :=
        left ▸ trivia
      rw [statementTurns_of_trivia nothing]
      exact ⟨turns, Nat.le_succ turns, _, rfl, landed, left, left', rfl⟩
    | cons v' r' =>
      -- The semicolon is still ahead, so the turn has not told the two texts apart.
      have ahead : Clear (t :: x) (statementTurn limits allowance s) :=
        { first with
          ahead := by
            rw [left, List.length_append, List.length_cons, List.length_cons]
            omega }
      have middle := Rule.follow_beside q (reach_advances grammar allowance)
        (reach_beside q allowance) (.insist (.nested .statement)) false false rfl
        (fun own => Bool.noConfusion own) h (fun apart => Bool.noConfusion apart) ahead
      have level : (statementTurn limits allowance s).depth = s.depth :=
        (statementTurn_advances limits allowance s).depth
      obtain ⟨n, le, rest⟩ := ih (level ▸ room) middle clear
      exact ⟨n, Nat.le_succ_of_le le, rest⟩

end Goals

end PerlOutline.Grammar
