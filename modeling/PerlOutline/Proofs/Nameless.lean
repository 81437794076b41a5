import PerlOutline.Proofs.Reporting

/-!
# Packages without a name

A package statement without a name is reported where the name should stand. Statements contain one
another and errors of other kinds come in between, but every such statement has a report of its own,
in the same order.

## Layers
- **`Misses`**: reports of missing names, and where they stand among the tokens.
- **`namelessStarts`**: the package statements of a tree that have no name, in preorder.
- **`Accounts`**: statements without a name that are added, and the reports of them.
- **Parses**: statements without a name, and errors, of a text.
-/

namespace PerlOutline.Syntax

open PerlOutline.Source (byteWidth byteWidth_append)

/-! ## Places of tokens -/

namespace Token

variable {start : Nat} {ts : List Token} {p : Nat × Token}

/-- A token stands inside of the stretch over which the tokens are placed. -/
theorem bounds_placed (h : p ∈ placed start ts) :
    start ≤ p.1 ∧ p.1 < start + byteWidth (spell ts) := by
  induction ts generalizing start with
  | nil => exact absurd h List.not_mem_nil
  | cons t ts ih =>
    have wide := t.width_pos
    have total : byteWidth (spell (t :: ts)) = t.width + byteWidth (spell ts) := by
      rw [spell_cons, byteWidth_append]
      rfl
    rcases List.mem_cons.mp h with rfl | later
    · exact ⟨Nat.le_refl _, by omega⟩
    · have := ih later
      omega

/-- A placed token is one of the tokens. -/
theorem snd_of_mem_placed (h : p ∈ placed start ts) : p.2 ∈ ts := by
  induction ts generalizing start with
  | nil => exact absurd h List.not_mem_nil
  | cons t ts ih =>
    rcases List.mem_cons.mp h with rfl | later
    · exact List.mem_cons_self ..
    · exact List.mem_cons_of_mem _ (ih later)

/-- Tokens begin one after the other. -/
theorem pairwise_placed (start : Nat) (ts : List Token) :
    (placed start ts).Pairwise (·.1 < ·.1) := by
  induction ts generalizing start with
  | nil => exact .nil
  | cons t ts ih =>
    refine List.pairwise_cons.mpr ⟨fun p hp => ?_, ih _⟩
    have wide := t.width_pos
    have := (bounds_placed hp).1
    omega

end Token

/-- An error says that a name is missing behind the token at `start`: it stands at the first later
token that is no trivia. -/
structure SyntaxError.Misses (tokens : List Token) (start : Nat) (e : SyntaxError) : Prop where
  problem : e.problem = .missingToken .ident
  code : e.code = .e0301
  behind : ∀ p ∈ Token.placed 0 tokens, p.1 ≤ start → p.1 < e.range.start
  next : ∀ p ∈ Token.placed 0 tokens, start < p.1 → p.2.isTrivia = false → e.range.start ≤ p.1

/-! ## Statements without a name -/

namespace Placed

mutual

/-- Where the package statements of a placed tree begin that have no name, in preorder. -/
def namelessStarts : Placed → List Nat
  | .token .. => []
  | .node k r children =>
    (if k = .packageStatement ∧ firstName? children = none then [r.start] else []) ++
      forestNamelessStarts children

/-- Where the package statements of placed trees begin that have no name, in preorder. -/
def forestNamelessStarts : List Placed → List Nat
  | [] => []
  | t :: ts => t.namelessStarts ++ forestNamelessStarts ts

end

/-- Statements without a name come tree by tree. -/
theorem forestNamelessStarts_append (ts us : List Placed) :
    forestNamelessStarts (ts ++ us) = forestNamelessStarts ts ++ forestNamelessStarts us := by
  induction ts with
  | nil => rfl
  | cons t ts ih => simp only [List.cons_append, forestNamelessStarts, ih, List.append_assoc]

/-- Among tokens there are none. -/
theorem forestNamelessStarts_tokens (start : Nat) (ts : List Token) :
    forestNamelessStarts (ofForest start (ts.map .token)).1 = [] := by
  rw [ofForest_tokens]
  induction Token.placed start ts with
  | nil => rfl
  | cons p ps ih => rw [List.map_cons, forestNamelessStarts, namelessStarts, ih, List.append_nil]

/-- Where a name is among trees, it is found. -/
theorem firstName?_ne_none {start : Nat} {ts : List Tree} {t : Token} (there : .token t ∈ ts)
    (ident : t.kind = .ident) : firstName? (ofForest start ts).1 ≠ none := by
  induction ts generalizing start with
  | nil => exact absurd there List.not_mem_nil
  | cons u ts ih =>
    -- The tree in front moves the name in the text, which does not keep it from being found.
    have later (h : .token t ∈ ts) :
        firstName? (ofForest (ofTree start u).range.stop ts).1 ≠ none := ih h
    cases u with
    | node k children =>
      have there : .token t ∈ ts := (List.mem_cons.mp there).resolve_left (fun h => nomatch h)
      exact later there
    | token u =>
      simp only [ofForest, ofTree, firstName?]
      split
      · exact Option.some_ne_none _
      · next other =>
        have apart : (Tree.token t) ≠ .token u := by
          rintro ⟨⟩
          exact other ident
        exact later ((List.mem_cons.mp there).resolve_left apart)

end Placed

end PerlOutline.Syntax

namespace PerlOutline.Grammar

open PerlOutline.Source (byteWidth byteWidth_nil)
open PerlOutline.Syntax (Kind Token Tree Placed SyntaxError)

namespace State

/-- What is reported at the next token behind a token is reported at the first one that is no
trivia. -/
theorem InOrder.misses {tokens : List Token} {s : State} (h : s.InOrder tokens) {e : SyntaxError}
    (problem : e.problem = .missingToken .ident) (code : e.code = .e0301)
    (range : e.range = s.advance.nextRange) : e.Misses tokens s.offset := by
  obtain ⟨before, split⟩ := h.left
  have whole : s.offset + byteWidth (Token.spell s.rest) = byteWidth (Token.spell tokens) :=
    h.extent
  refine ⟨problem, code, ?_, ?_⟩ <;> intro p hp <;> rw [range, nextRange_start]
  · intro here
    have inside := (Token.bounds_placed hp).2
    have onward := (Advances.advance s).offset_le
    -- Where nothing is left the place is the end of the text, behind all tokens.
    cases hrest : s.rest with
    | nil =>
      rw [hrest, Token.spell_nil, byteWidth_nil] at whole
      omega
    | cons t ts =>
      have wide := t.width_pos
      have moved : s.advance.offset = s.offset + t.width := by simp only [State.advance, hrest]
      omega
  · intro later significant
    have inside := (Token.bounds_placed hp).2
    rw [rest_advance]
    cases hrest : s.rest with
    | nil =>
      -- At the end no token follows, so there is none to be missed.
      rw [hrest, Token.spell_nil, byteWidth_nil] at whole
      omega
    | cons t ts =>
      have ordered := Token.pairwise_placed 0 tokens
      rw [← split, hrest, Token.placed_cons] at hp ordered
      have moved : s.advance.offset = s.offset + t.width := by simp only [State.advance, hrest]
      rw [moved, List.tail_cons]
      -- The token is behind the first one that is left, and not among the trivia that follow it.
      rcases List.mem_append.mp hp with early | left
      · have := (List.pairwise_append.mp ordered).2.2 p early _ (List.mem_cons_self ..)
        omega
      · rcases List.mem_cons.mp left with rfl | left
        · omega
        · rw [← List.takeWhile_append_dropWhile (p := Token.isTrivia) (l := ts),
            Token.placed_append] at left
          rcases List.mem_append.mp left with trivia | behind
          · have := List.all_eq_true.mp List.all_takeWhile _ (Token.snd_of_mem_placed trivia)
            rw [significant] at this
            cases this
          · exact (Token.bounds_placed behind).1

/-- Where the package statements without a name begin in the open scope, if it begins at `base`. -/
def nameless (base : Nat) (s : State) : List Nat :=
  Placed.forestNamelessStarts (Placed.ofForest base s.out.reverse).1

/-- What is added to a scope adds its statements without a name. -/
theorem nameless_append (base : Nat) {s s' : State} {more : List Tree} (h : s.OpenedAt base)
    (out : s'.out.reverse = s.out.reverse ++ more) :
    s'.nameless base =
      s.nameless base ++ Placed.forestNamelessStarts (Placed.ofForest s.offset more).1 := by
  rw [nameless, out, Placed.ofForest_append, Placed.forestNamelessStarts_append, h, nameless]

/-! ### What accounts for missing names -/

/-- From one state to a later one, each package statement without a name that is added has a report
of its own among the new ones. -/
structure Accounts (tokens : List Token) (s s' : State) : Prop where
  advances : s.Advances s'
  inOrder : s.InOrder tokens → s'.InOrder tokens
  added : s.InOrder tokens → ∀ base, s.OpenedAt base → ∃ starts new own,
    s'.nameless base = s.nameless base ++ starts ∧
    s'.errors.reverse = s.errors.reverse ++ new ∧ own.Sublist new ∧
    List.Forall₂ (SyntaxError.Misses tokens) starts own

/-- What is reported is reported after all that was reported before. -/
theorem Advances.exists_new {s s' : State} (h : s.Advances s') :
    ∃ new, s'.errors.reverse = s.errors.reverse ++ new := by
  obtain ⟨new, errors, -⟩ := h.errors
  exact ⟨new.reverse, by rw [errors, List.reverse_append]⟩

namespace Accounts

variable {tokens : List Token}

/-- A step that adds only tokens has nothing to account for. -/
theorem of_tokens {s s' : State} (advances : s.Advances s')
    (inOrder : s.InOrder tokens → s'.InOrder tokens) {ts : List Token}
    (out : s'.out.reverse = s.out.reverse ++ ts.map .token) : s.Accounts tokens s' := by
  obtain ⟨new, errors⟩ := advances.exists_new
  refine ⟨advances, inOrder, fun _ base h => ⟨[], new, [], ?_, errors, List.nil_sublist _, .nil⟩⟩
  rw [nameless_append base h out, Placed.forestNamelessStarts_tokens]

/-- Nor has a step that adds nothing at all. -/
theorem of_same {s s' : State} (advances : s.Advances s')
    (inOrder : s.InOrder tokens → s'.InOrder tokens) (out : s'.out = s.out) :
    s.Accounts tokens s' := by
  have none : s'.out.reverse = s.out.reverse ++ ([] : List Token).map .token := by
    rw [out, List.map_nil, List.append_nil]
  exact of_tokens advances inOrder none

/-- What is added in two steps is accounted for step by step, in the same order. -/
theorem trans {a b c : State} (ab : a.Accounts tokens b) (bc : b.Accounts tokens c) :
    a.Accounts tokens c := by
  refine ⟨ab.advances.trans bc.advances, fun h => bc.inOrder (ab.inOrder h),
    fun ordered base h => ?_⟩
  obtain ⟨first, new, own, starts, errors, among, each⟩ := ab.added ordered base h
  obtain ⟨second, new', own', starts', errors', among', each'⟩ :=
    bc.added (ab.inOrder ordered) base (h.later ab.advances)
  refine ⟨first ++ second, new ++ new', own ++ own', ?_, ?_, among.append among',
    List.rel_append each each'⟩
  · rw [starts', starts, List.append_assoc]
  · rw [errors', errors, List.append_assoc]

/-- What a scope of its own adds is added to the scope around it. -/
theorem of_opened {s inner s' : State} (inside : s.opened.Accounts tokens inner)
    (advances : s.Advances s') (inOrder : s.InOrder tokens → s'.InOrder tokens)
    (errors : s'.errors = inner.errors) {more : List Tree}
    (out : s'.out.reverse = s.out.reverse ++ more)
    (same : Placed.forestNamelessStarts (Placed.ofForest s.offset more).1 =
      inner.nameless s.offset) : s.Accounts tokens s' := by
  refine ⟨advances, inOrder, fun ordered base h => ?_⟩
  have opened : s.opened.OpenedAt s.offset := Nat.add_zero _
  have began : s.opened.InOrder tokens := ordered.congr rfl rfl rfl
  obtain ⟨starts, new, own, hstarts, hnew, among, each⟩ := inside.added began s.offset opened
  refine ⟨starts, new, own, ?_, ?_, among, each⟩
  · rw [nameless_append base h out, same, hstarts]
    rfl
  · rw [errors, hnew]
    rfl

/-- A node that is added to a scope comes last in it. -/
theorem reverse_out_closed (s inner : State) (kind : Kind) :
    (inner.closed kind s.out).out.reverse = s.out.reverse ++ [.node kind inner.out.reverse] := by
  simp [State.closed]

/-- A node that is no package statement, or that has a name, needs no report. -/
theorem of_closed {s inner : State} {kind : Kind}
    (named : ¬ (kind = .packageStatement ∧
      Placed.firstName? (Placed.ofForest s.offset inner.out.reverse).1 = none))
    (inside : s.opened.Accounts tokens inner) : s.Accounts tokens (inner.closed kind s.out) := by
  refine inside.of_opened ((Advances.kept ⟨0, 0⟩).closed kind trivial inside.advances)
    ((InOrder.kept ⟨0, 0⟩ tokens).closed kind trivial inside.inOrder) rfl
    (reverse_out_closed s inner kind) ?_
  simp only [Placed.ofForest, Placed.ofTree, Placed.forestNamelessStarts, Placed.namelessStarts,
    if_neg named, nameless, List.nil_append, List.append_nil]

/-- All steps but the closing of a package statement account for what they add. -/
theorem kept (limits : Limits) (tokens : List Token) :
    Kept (· ≠ .packageStatement) limits (Accounts tokens) where
  refl s := of_same (.refl s) id rfl
  trans := trans
  advance s := by
    have out : s.advance.out.reverse = s.out.reverse ++ (s.rest.take 1).map .token := by
      have read := s.out_consume 1
      rw [consume, consume] at read
      simp [read]
    exact of_tokens (.advance s) InOrder.advance out
  complain s problem code :=
    of_same (.complain s problem code) (fun h => h.complain problem code) rfl
  recorded s last :=
    of_same ((Advances.kept limits).recorded s last) ((InOrder.kept limits tokens).recorded s last)
      rfl
  starved s :=
    of_same ((Advances.kept limits).starved s) ((InOrder.kept limits tokens).starved s) rfl
  hushed s stop :=
    of_same ((Advances.kept limits).hushed s stop) ((InOrder.kept limits tokens).hushed s stop) rfl
  closed kind other inside := of_closed (fun h => other h.1) inside
  merged {s inner} inside := by
    have out : (inner.merged s.out).out.reverse = s.out.reverse ++ inner.out.reverse := by
      simp [State.merged]
    exact inside.of_opened ((Advances.kept limits).merged inside.advances)
      ((InOrder.kept limits tokens).merged inside.inOrder) rfl out rfl
  wrapped {s inner} kind other inside := by
    refine ⟨(Advances.kept limits).wrapped kind trivial inside.advances,
      (InOrder.kept limits tokens).wrapped kind trivial inside.inOrder, fun ordered base h => ?_⟩
    obtain ⟨starts, new, own, hstarts, rest⟩ := inside.added ordered base h
    -- All that the scope held is under the new node, which is no package statement.
    refine ⟨starts, new, own, ?_, rest⟩
    rw [← hstarts]
    simp [State.closed, Placed.ofForest, Placed.ofTree, Placed.forestNamelessStarts,
      Placed.namelessStarts, other, nameless]
  deeper {s inner} room inside :=
    ⟨(Advances.kept limits).deeper room inside.advances,
      (InOrder.kept limits tokens).deeper room inside.inOrder,
      fun ordered => inside.added (ordered.congr rfl rfl rfl)⟩

/-- A package statement without a name, whose first token was read when its name was missed, has
that report, before those for what is in it. -/
theorem of_missed {s inner : State} (kind : Kind)
    (inside : ((s.opened.advance).complain (.missingToken .ident) .e0301).Accounts tokens inner) :
    s.Accounts tokens (inner.closed kind s.out) := by
  have before : s.opened.Accounts tokens
      (s.opened.advance.complain (.missingToken .ident) .e0301) :=
    ((kept ⟨0, 0⟩ tokens).advance _).trans ((kept ⟨0, 0⟩ tokens).complain _ _ _)
  have closed := before.trans inside
  by_cases named : kind = .packageStatement ∧
      Placed.firstName? (Placed.ofForest s.offset inner.out.reverse).1 = none
  · refine ⟨(Advances.kept ⟨0, 0⟩).closed kind trivial closed.advances,
      (InOrder.kept ⟨0, 0⟩ tokens).closed kind trivial closed.inOrder, fun ordered base h => ?_⟩
    -- The scope of the statement begins where the trivia before it ends.
    have opened : s.opened.OpenedAt s.offset := Nat.add_zero _
    have began : s.opened.InOrder tokens := ordered.congr rfl rfl rfl
    obtain ⟨starts, new, own, hstarts, hnew, among, each⟩ :=
      inside.added (before.inOrder began) s.offset (opened.later before.advances)
    -- Only a token was read before the name was missed.
    have none :
        (s.opened.advance.complain (.missingToken .ident) .e0301).nameless s.offset = [] := by
      have read : s.opened.advance.out = ((s.rest.take 1).map Tree.token).reverse ++ [] :=
        s.opened.out_consume 1
      have out : (s.opened.advance.complain (.missingToken .ident) .e0301).out.reverse =
          (s.rest.take 1).map .token := by
        rw [State.complain, read, List.append_nil, List.reverse_reverse]
      rw [nameless, out, Placed.forestNamelessStarts_tokens]
    have missed : SyntaxError.Misses tokens s.offset
        ⟨.missingToken .ident, .e0301, s.opened.advance.nextRange⟩ := began.misses rfl rfl rfl
    refine ⟨s.offset :: starts, _ :: new, _ :: own, ?_, ?_, among.cons_cons _, .cons missed each⟩
    · rw [nameless_append base h (reverse_out_closed s inner kind)]
      rw [none, List.nil_append] at hstarts
      simp only [Placed.ofForest, Placed.ofTree, Placed.forestNamelessStarts,
        Placed.namelessStarts, if_pos named, List.append_nil, List.singleton_append]
      rw [← hstarts, nameless, nameless]
    · -- The report comes before all those that are made further on in the statement.
      have same : s.opened.advance.errors = s.errors := by
        rw [advance_frame]
        rfl
      rw [State.closed, hnew]
      simp [State.complain, same]
  · -- Otherwise nothing is owed, and the report is one more than is needed.
    exact of_closed named closed

end Accounts

end State

/-! ## The grammar -/

section

variable {limits : Limits} {tokens : List Token} {reach : Goal → State → State}

/-- The token that is taken is in the scope. -/
theorem State.mem_out_take {s : State} {t : Token} (ahead : s.next? = some t) :
    Tree.token t ∈ s.take.out := by
  obtain ⟨ts, ready⟩ : ∃ ts, s.skipTrivia.rest = t :: ts := by
    rw [rest_skipTrivia]
    exact List.head?_eq_some_iff.mp ahead
  simp [take_eq, advance, ready]

/-- What a package statement goes on with behind its name. -/
def Rule.packageTail : Rule :=
  .andThen (.given (.next [.number]) .take) (.branch (.next [.lBrace]) (.call .block) .statementEnd)

/-- Whatever comes behind the name leaves the name where it is. -/
theorem Rule.out_packageTail (hblock : ∀ s, ∃ more, (reach .block s).out = more ++ s.out)
    (s : State) : ∃ more, (Rule.packageTail.follow limits reach s).out = more ++ s.out := by
  -- The number, if there is one, is a token of its own.
  have take (s : State) : ∃ more, s.take.out = more ++ s.out := ⟨_, s.out_consume _⟩
  have number (s : State) :
      ∃ more, ((Rule.given (.next [.number]) .take).follow limits reach s).out = more ++ s.out := by
    simp only [Rule.given, Rule.follow]
    split
    · exact take s
    · exact ⟨[], rfl⟩
  -- The end of the statement takes a semicolon, or takes nothing and may report that.
  have final (s : State) : ∃ more,
      ((Rule.branch (.next [.lBrace]) (.call .block) .statementEnd).follow limits reach s).out =
        more ++ s.out := by
    simp only [Rule.follow, Rule.statementEnd, Rule.select, List.foldr]
    split
    · exact hblock s
    · split
      · exact take s
      · split
        · exact ⟨[], rfl⟩
        · split <;> exact ⟨[], rfl⟩
  obtain ⟨first, hfirst⟩ := number s
  obtain ⟨later, hlater⟩ := final ((Rule.given (.next [.number]) .take).follow limits reach s)
  exact ⟨later ++ first, by rw [packageTail, Rule.follow, hlater, hfirst, List.append_assoc]⟩

/-- A package statement accounts for its own name and for those in it. -/
theorem Rule.follow_package (hreach : ∀ goal (s : State), s.Accounts tokens (reach goal s))
    (hblock : ∀ s, ∃ more, (reach .block s).out = more ++ s.out) (s : State) :
    s.Accounts tokens (Rule.package.follow limits reach s) := by
  have kept := State.Accounts.kept limits tokens
  have tail (s : State) : s.Accounts tokens (Rule.packageTail.follow limits reach s) :=
    Rule.follow_kept kept (by decide) hreach Rule.packageTail (by decide) s
  -- No trivia stands at the start of the scope, so to take the word is to read it.
  have take : s.skipTrivia.opened.take = s.skipTrivia.opened.advance := by
    have none : s.skipTrivia.opened.triviaAhead = 0 := s.triviaAhead_skipTrivia
    rw [State.take, none, State.consume, State.consume]
  have followed : Rule.package.follow limits reach s =
      (Rule.packageTail.follow limits reach
        ((Rule.expect .ident .e0301).follow limits reach s.skipTrivia.opened.advance)).closed
          .packageStatement s.skipTrivia.out := by
    rw [← take]
    rfl
  have ready : s.Accounts tokens s.skipTrivia := kept.consume _ s
  rw [followed]
  refine ready.trans ?_
  by_cases ident : s.skipTrivia.opened.advance.satisfies (.next [.ident]) = true
  · -- The name is taken, and stays directly under the statement.
    have expected : (Rule.expect .ident .e0301).follow limits reach s.skipTrivia.opened.advance =
        s.skipTrivia.opened.advance.take := by
      rw [Rule.expect, Rule.follow, if_pos ident]
      rfl
    rw [expected]
    have inside : s.skipTrivia.opened.Accounts tokens
        (Rule.packageTail.follow limits reach s.skipTrivia.opened.advance.take) :=
      ((kept.advance _).trans (kept.consume _ _)).trans (tail _)
    refine State.Accounts.of_closed (fun nameless => ?_) inside
    obtain ⟨t, ahead, kind⟩ :
        ∃ t, s.skipTrivia.opened.advance.next? = some t ∧ t.kind = .ident := by
      simpa [State.satisfies, Option.any_eq_true] using ident
    obtain ⟨more, out⟩ : ∃ more,
        (Rule.packageTail.follow limits reach s.skipTrivia.opened.advance.take).out =
          more ++ s.skipTrivia.opened.advance.take.out :=
      Rule.out_packageTail hblock _
    refine Placed.firstName?_ne_none ?_ kind nameless.2
    rw [out]
    exact List.mem_reverse.mpr (List.mem_append_right _ (State.mem_out_take ahead))
  · -- The name is missed right behind the word, and everything else comes later.
    have expected : (Rule.expect .ident .e0301).follow limits reach s.skipTrivia.opened.advance =
        s.skipTrivia.opened.advance.complain (.missingToken .ident) .e0301 := by
      rw [Rule.expect, Rule.follow, if_neg ident]
      rfl
    rw [expected]
    exact State.Accounts.of_missed _ (tail _)

end

/-- Package statements are built by the goal of package statements alone. -/
theorem nodeKinds_ne_packageStatement (goal : Goal) (other : goal ≠ .package) :
    ∀ k ∈ (grammar goal).nodeKinds, k ≠ .packageStatement := by
  revert goal
  decide +kernel

/-- A block is one node behind what is there, if its goal is reached at all. -/
theorem out_reach_block (limits : Limits) (allowance : Nat) (s : State) :
    ∃ more, (reach grammar limits allowance .block s).out = more ++ s.out := by
  cases allowance with
  | zero => exact ⟨[], rfl⟩
  | succ allowance =>
    -- A block is one node, and trivia may be read before it.
    have ready : s.skipTrivia.out = _ ++ s.out := s.out_consume _
    exact ⟨.node .block _ :: _, congrArg _ ready⟩

/-- Every goal accounts for the package statements in what it builds. -/
theorem reach_accounts (limits : Limits) (tokens : List Token) (allowance : Nat) (goal : Goal)
    (s : State) : s.Accounts tokens (reach grammar limits allowance goal s) := by
  have kept := State.Accounts.kept limits tokens
  -- Induction on the allowance; all goals but one build no package statement by themselves.
  induction allowance generalizing goal s with
  | zero => exact kept.starved s
  | succ allowance ih =>
    by_cases package : goal = .package
    · subst package
      exact Rule.follow_package ih (out_reach_block limits allowance) s
    · exact Rule.follow_kept kept (by decide) ih _ (nodeKinds_ne_packageStatement goal package) s

/-- A whole parse accounts for its package statements. -/
theorem finalState_accounts (maxDepth : Nat) (tokens : List Token) :
    (State.start tokens).Accounts tokens (finalState maxDepth tokens) := by
  have parsed := reach_accounts (Limits.forTokens maxDepth tokens) tokens (callAllowance maxDepth)
    (.statements false) (State.start tokens)
  exact parsed.trans ((State.Accounts.kept ⟨0, 0⟩ tokens).consume _ _)

end PerlOutline.Grammar

/-! ## Parses -/

namespace PerlOutline.Element.Node

open PerlOutline.Syntax (Placed)

/-- A package statement without a name. -/
def isNameless (n : Node) : Bool :=
  n.kind == .packageStatement && (n.token? .ident).isNone

/-- The name of a package statement is the first word directly under it. -/
theorem isNameless_eq (n : Node) :
    n.isNameless =
      decide (n.kind = .packageStatement ∧ Placed.firstName? n.here.children = none) := by
  rw [isNameless, ← token?_ident, Bool.decide_and]
  cases n.token? .ident <;> simp [Bool.beq_eq_decide_eq]

mutual

/-- The package statements without a name of a tree with all that is around them begin where those
of the tree do. -/
theorem starts_nodesOnto (above : List Step) (preceding : List Placed) (rest : List Node)
    (t : Placed) :
    ((nodesOnto above preceding rest t).filter isNameless).map (·.range.start) =
      t.namelessStarts ++ (rest.filter isNameless).map (·.range.start) := by
  match t with
  | .token .. => rfl
  | .node k r children =>
    have below := starts_forestNodesOnto (⟨k, r, children, preceding⟩ :: above) [] rest children
    rw [nodesOnto, Placed.namelessStarts, List.filter_cons, List.append_assoc, ← below,
      isNameless_eq]
    by_cases nameless : k = .packageStatement ∧ Placed.firstName? children = none
    · simp only [kind, nameless, and_self, decide_true, if_true, List.map_cons, range,
        List.singleton_append]
    · simp only [kind, nameless, decide_false, Bool.false_eq_true, if_false, List.nil_append]

/-- So do those of several trees. -/
theorem starts_forestNodesOnto (above : List Step) (preceding : List Placed) (rest : List Node)
    (ts : List Placed) :
    ((forestNodesOnto above preceding rest ts).filter isNameless).map (·.range.start) =
      Placed.forestNamelessStarts ts ++ (rest.filter isNameless).map (·.range.start) := by
  match ts with
  | [] => rfl
  | t :: ts =>
    rw [Placed.forestNamelessStarts, List.append_assoc, ← starts_forestNodesOnto above _ rest ts,
      ← starts_nodesOnto above preceding _ t]
    rfl

end

end PerlOutline.Element.Node

namespace PerlOutline.Syntax

open PerlOutline.Element (Node)

/-- The package statements of a text that have no name have reports of their own, in order. -/
theorem Parse.nameless_reported (maxDepth : Nat) (text : List Char) :
    let parse := ofTextWithin maxDepth text
    ∃ own : List SyntaxError, own.Sublist parse.errors ∧
      List.Forall₂ (fun n e => e.Misses (tokenize text) n.range.start)
        ((Node.allOf parse.placed).filter Node.isNameless) own := by
  intro parse
  -- What the whole parse adds to an empty scope are the statements of its tree.
  obtain ⟨starts, new, own, hstarts, errors, among, each⟩ :=
    (Grammar.finalState_accounts maxDepth (tokenize text)).added (.start _) 0 rfl
  have found : parse.placed.namelessStarts = starts := hstarts
  have reported : parse.errors = new := errors
  have nodes : ((Node.allOf parse.placed).filter Node.isNameless).map (·.range.start) = starts := by
    rw [← found, Node.allOf, Node.starts_nodesOnto, List.filter_nil, List.map_nil, List.append_nil]
  refine ⟨own, reported ▸ among, ?_⟩
  rw [← nodes] at each
  exact List.forall₂_map_left_iff.mp each

end PerlOutline.Syntax
