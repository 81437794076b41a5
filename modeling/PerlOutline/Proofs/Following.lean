import PerlOutline.Grammar.Table

/-!
# What every rule keeps

A fact about what a parse does is proved of the few steps of which all rules are made; it then
holds of every rule and of every goal.

## Layers
- **`Kept`**: the steps, for a relation between the state before and the state after.
- **Composite steps**: several tokens at once, error nodes, loops.
- **`KeptAside`**: tokens that are set aside, and the reports right before.
- **Rules and goals**, by induction on the rule and on the allowance of calls.
-/

namespace PerlOutline.Grammar

open PerlOutline.Syntax (Kind Token Tree Problem ErrorCode)

/-- A relation from the state before to the state after that every step of a parse keeps, where
the nodes that are built have a kind of which `ok` holds. -/
structure Kept (ok : Kind → Prop) (limits : Limits) (R : State → State → Prop) : Prop where
  refl (s : State) : R s s
  trans {a b c : State} : R a b → R b c → R a c
  /-- Reading a token. -/
  advance (s : State) : R s s.advance
  complain (s : State) (problem : Problem) (code : ErrorCode) : R s (s.complain problem code)
  /-- Recording which expression was parsed. -/
  recorded (s : State) (last : Option Kind) : R s { s with last := last }
  starved (s : State) : R s { s with starved := true }
  hushed (s : State) (stop : Stop) : R s { s with hushed := stop :: s.hushed }
  /-- A scope inside the open one that becomes one node of it. -/
  closed {s inner : State} (kind : Kind) :
    ok kind → R s.opened inner → R s (inner.closed kind s.out)
  /-- A scope inside the open one that leaves what it holds to it. -/
  merged {s inner : State} : R s.opened inner → R s (inner.merged s.out)
  /-- All that the open scope holds becomes one node. -/
  wrapped {s inner : State} (kind : Kind) : ok kind → R s inner → R s (inner.closed kind [])
  /-- Work one nesting level deeper. -/
  deeper {s inner : State} :
    s.depth < limits.maxDepth → R s.entered inner → R s { inner with depth := s.depth }

namespace Kept

variable {ok : Kind → Prop} {limits : Limits} {R : State → State → Prop}

/-! ## Composite steps -/

theorem consume (kept : Kept ok limits R) (n : Nat) (s : State) : R s (s.consume n) := by
  induction n generalizing s with
  | zero => exact kept.refl s
  | succ n ih => exact kept.trans (kept.advance s) (ih s.advance)

theorem setAside (kept : Kept ok limits R) (hok : ok .error) (s : State) (n : Nat) :
    R s (s.setAside n) := by
  -- Trivia stays outside of the error node.
  have ready : R s s.skipTrivia := kept.consume _ s
  have inside : R s.skipTrivia ((s.skipTrivia.opened.consume n).closed .error s.skipTrivia.out) :=
    kept.closed .error hok (kept.consume n _)
  exact kept.trans (kept.trans ready inside) (kept.recorded _ (s.skipTrivia.opened.consume n).last)

theorem repeatWhile (kept : Kept ok limits R) {test : State → Bool} {body : State → State}
    (hbody : ∀ s, R s (body s)) (turns : Nat) (s : State) :
    R s (State.repeatWhile test body turns s) := by
  -- A loop that has no turn left only notes that it was cut off.
  induction turns generalizing s with
  | zero =>
    unfold State.repeatWhile
    split
    · exact kept.starved s
    · exact kept.refl s
  | succ turns ih =>
    unfold State.repeatWhile
    split
    · exact kept.trans (hbody s) (ih (body s))
    · exact kept.refl s

end Kept

/-! ## Tokens set aside -/

/-- A relation that is kept where tokens are set aside as well. They are reported right before, with
a code of which `blames` holds. -/
structure KeptAside (ok : Kind → Prop) (blames : ErrorCode → Prop) (limits : Limits)
    (R : State → State → Prop) : Prop extends Kept ok limits R where
  /-- The next token is reported and set aside. -/
  rejected (s : State) (problem : Problem) {code : ErrorCode} :
    blames code → s.next?.isNone = false → R s ((s.complain problem code).setAside 1)
  /-- The rest of a group is reported and set aside. -/
  abandoned (s : State) (limit : Nat) :
    blames .e0205 → s.satisfies .endsExpression = false → R s (s.abandonGroup limit)

/-- Where error nodes are kept like other nodes, nothing more is asked. -/
theorem Kept.aside {ok : Kind → Prop} {limits : Limits} {R : State → State → Prop}
    (kept : Kept ok limits R) (hok : ok .error) : KeptAside ok (fun _ => True) limits R where
  toKept := kept
  rejected s problem code _ _ := kept.trans (kept.complain s problem code) (kept.setAside hok _ 1)
  abandoned s limit _ _ :=
    kept.trans (kept.complain s (.tooDeep limit) .e0205) (kept.setAside hok _ _)

namespace KeptAside

variable {ok : Kind → Prop} {blames : ErrorCode → Prop} {limits : Limits}
  {R : State → State → Prop}

theorem reject (kept : KeptAside ok blames limits R) (s : State) (problem : Problem)
    {code : ErrorCode} (blamed : blames code) : R s (s.reject problem code) := by
  unfold State.reject
  split
  · exact kept.complain s problem code
  · next seen => exact kept.rejected s problem blamed (Bool.eq_false_iff.mpr seen)

theorem rejectNext (kept : KeptAside ok blames limits R) (s : State) {code : ErrorCode}
    (blamed : blames code) : R s (s.rejectNext code) := by
  unfold State.rejectNext
  split
  · exact kept.reject s _ blamed
  · exact kept.refl s

theorem insisted (kept : KeptAside ok blames limits R) (blamed : blames .e0901) (s : State)
    (start : Nat) : R s (s.insisted start) := by
  unfold State.insisted
  split
  · exact kept.trans (kept.rejectNext s blamed) (kept.recorded _ none)
  · exact kept.recorded s none

theorem giveUp (kept : KeptAside ok blames limits R) (blamed : blames .e0205) (s : State)
    (limit : Nat) (goal : Goal) : R s (s.giveUp limit goal) := by
  unfold State.giveUp
  split
  · exact kept.trans (kept.hushed s _) (kept.recorded _ (some .error))
  · next goesOn =>
    exact kept.trans (kept.abandoned s limit blamed (Bool.eq_false_iff.mpr goesOn))
      (kept.recorded _ (some .error))

end KeptAside

namespace Kept

variable {ok : Kind → Prop} {limits : Limits} {R : State → State → Prop}

theorem rejectNext (kept : Kept ok limits R) (hok : ok .error) (s : State) (code : ErrorCode) :
    R s (s.rejectNext code) :=
  (kept.aside hok).rejectNext s trivial

theorem insisted (kept : Kept ok limits R) (hok : ok .error) (s : State) (start : Nat) :
    R s (s.insisted start) :=
  (kept.aside hok).insisted trivial s start

end Kept

/-! ## Rules and goals -/

namespace Rule

/-- The kinds of the nodes that a rule builds by itself. -/
def nodeKinds : Rule → List Kind
  | .andThen first next => first.nodeKinds ++ next.nodeKinds
  | .branch _ yes no => yes.nodeKinds ++ no.nodeKinds
  | .loop _ body | .insist body | .group body => body.nodeKinds
  | .node kind body | .wrap kind body => kind :: body.nodeKinds
  | _ => []

/-- The codes with which a rule by itself reports tokens that it sets aside. -/
def blamed : Rule → List ErrorCode
  | .andThen first next => first.blamed ++ next.blamed
  | .branch _ yes no => yes.blamed ++ no.blamed
  | .loop _ body | .group body | .node _ body | .wrap _ body => body.blamed
  | .insist body => .e0901 :: body.blamed
  | .reject _ code | .rejectNext code => [code]
  | .nested _ => [.e0205]
  | _ => []

end Rule

variable {ok : Kind → Prop} {blames : ErrorCode → Prop} {limits : Limits}
  {R : State → State → Prop}

/-- Every rule keeps what its steps keep. -/
theorem Rule.follow_keptAside (kept : KeptAside ok blames limits R)
    {reach : Goal → State → State} (hreach : ∀ goal s, R s (reach goal s)) (rule : Rule)
    (hkinds : ∀ k ∈ rule.nodeKinds, ok k) (hblamed : ∀ code ∈ rule.blamed, blames code)
    (s : State) : R s (rule.follow limits reach s) := by
  -- Induction on the rule: one case for each instruction, and the goals that it reaches keep `R` by
  -- assumption.
  induction rule generalizing s with
  | done => exact kept.refl s
  | andThen first next ihFirst ihNext =>
    have before := ihFirst (fun k hk => hkinds k (List.mem_append_left _ hk))
      (fun code hc => hblamed code (List.mem_append_left _ hc)) s
    have after := ihNext (fun k hk => hkinds k (List.mem_append_right _ hk))
      (fun code hc => hblamed code (List.mem_append_right _ hc)) (first.follow limits reach s)
    exact kept.trans before after
  | take => exact kept.consume _ s
  | complain problem code => exact kept.complain s problem code
  | reject problem code => exact kept.reject s problem (hblamed code (List.mem_singleton_self _))
  | rejectNext code => exact kept.rejectNext s (hblamed code (List.mem_singleton_self _))
  | yield parsed => exact kept.recorded s parsed
  | branch test yes no ihYes ihNo =>
    unfold Rule.follow
    split
    · exact ihYes (fun k hk => hkinds k (List.mem_append_left _ hk))
        (fun code hc => hblamed code (List.mem_append_left _ hc)) s
    · exact ihNo (fun k hk => hkinds k (List.mem_append_right _ hk))
        (fun code hc => hblamed code (List.mem_append_right _ hc)) s
  | loop test body ih => exact kept.repeatWhile (ih hkinds hblamed) limits.maxTurns s
  | insist body ih =>
    have inside := ih hkinds (fun code hc => hblamed code (List.mem_cons_of_mem _ hc)) s
    exact kept.trans inside (kept.insisted (hblamed _ (List.mem_cons_self ..)) _ _)
  | node kind body ih =>
    -- The body runs in a scope of its own, which then becomes one node.
    have inside := ih (fun k hk => hkinds k (List.mem_cons_of_mem _ hk)) hblamed
      s.skipTrivia.opened
    have hkind := hkinds kind (List.mem_cons_self ..)
    exact kept.trans (kept.consume _ s) (kept.closed kind hkind inside)
  | group body ih =>
    exact kept.trans (kept.consume _ s) (kept.merged (ih hkinds hblamed s.skipTrivia.opened))
  | wrap kind body ih =>
    have inside := ih (fun k hk => hkinds k (List.mem_cons_of_mem _ hk)) hblamed s
    exact kept.wrapped kind (hkinds kind (List.mem_cons_self ..)) inside
  | call goal => exact hreach goal s
  | nested goal =>
    simp only [Rule.follow, State.deeper]
    split
    · -- Below the limit the goal is reached one level deeper, at the limit it is given up.
      next room => exact kept.deeper room (hreach goal s.entered)
    · exact kept.giveUp (hblamed _ (List.mem_singleton_self _)) s limits.maxDepth goal

/-- Every goal keeps what the steps of its rules keep, however many calls it is allowed. -/
theorem reach_keptAside (kept : KeptAside ok blames limits R) {grammar : Goal → Rule}
    (hkinds : ∀ goal, ∀ k ∈ (grammar goal).nodeKinds, ok k)
    (hblamed : ∀ goal, ∀ code ∈ (grammar goal).blamed, blames code) (allowance : Nat)
    (goal : Goal) (s : State) : R s (reach grammar limits allowance goal s) := by
  -- Induction on the allowance, which every call lowers.
  induction allowance generalizing goal s with
  | zero => exact kept.starved s
  | succ allowance ih =>
    exact Rule.follow_keptAside kept ih (grammar goal) (hkinds goal) (hblamed goal) s

/-! ### Without a view to error nodes -/

theorem Rule.follow_kept (kept : Kept ok limits R) (hok : ok .error)
    {reach : Goal → State → State} (hreach : ∀ goal s, R s (reach goal s)) (rule : Rule)
    (hkinds : ∀ k ∈ rule.nodeKinds, ok k) (s : State) : R s (rule.follow limits reach s) :=
  rule.follow_keptAside (kept.aside hok) hreach hkinds (fun _ _ => trivial) s

theorem reach_kept (kept : Kept ok limits R) (hok : ok .error) {grammar : Goal → Rule}
    (hkinds : ∀ goal, ∀ k ∈ (grammar goal).nodeKinds, ok k) (allowance : Nat) (goal : Goal)
    (s : State) : R s (reach grammar limits allowance goal s) :=
  reach_keptAside (kept.aside hok) hkinds (fun _ _ _ => trivial) allowance goal s

end PerlOutline.Grammar
