import Mathlib.Data.List.Forall2
import PerlOutline.Proofs.FirstToken
import PerlOutline.Proofs.Gathering
import PerlOutline.Proofs.Survey

/-!
# Where errors are reported

A parse reports errors from left to right, each at a token of the text or at its end. What it sets
aside as an error node it has reported right before, so every error node is explained by an error of
its own.

## Layers
- **`InOrder`**: reports so far are in order, and none is past the next token.
- **`Spot`**: the error nodes of a tree in preorder.
- **`Explains`**: error nodes that are added, and the reports that explain them.
- **Parses**: errors and error nodes of a text.
-/

namespace PerlOutline.Source

open PerlOutline.Syntax (Token)

/-- A range is that of one of the placed tokens that is no trivia, or it is empty and stands at the
end. -/
def Range.Located (r : Range) (placed : List (Nat × Token)) (stop : Nat) : Prop :=
  (∃ p ∈ placed, p.2.isTrivia = false ∧ r = Token.rangeAt p) ∨ r = Range.empty stop

end PerlOutline.Source

namespace PerlOutline.Grammar

open PerlOutline.Source (Range byteWidth byteWidth_append byteWidth_nil)
open PerlOutline.Syntax (Kind Token Tree Placed Problem ErrorCode SyntaxError)

namespace State

/-! ## Reports in order -/

/-- The tokens that are left stand where they stand among all tokens. What is reported so far is
about tokens or about the end, in order, and not about anything past the next token. -/
structure InOrder (tokens : List Token) (s : State) : Prop where
  left : Token.placed s.offset s.rest <:+ Token.placed 0 tokens
  extent : s.extent = byteWidth (Token.spell tokens)
  ordered : s.errors.Pairwise fun later earlier => earlier.range.start ≤ later.range.start
  reached : ∀ e ∈ s.errors, e.range.start ≤ s.nextRange.start
  located : ∀ e ∈ s.errors,
    e.range.Located (Token.placed 0 tokens) (byteWidth (Token.spell tokens))

namespace InOrder

variable {tokens : List Token} {s : State}

/-- At the start nothing is read and nothing is reported. -/
theorem start (tokens : List Token) : (State.start tokens).InOrder tokens where
  left := List.suffix_refl _
  extent := Nat.zero_add _
  ordered := List.Pairwise.nil
  reached _ none := absurd none List.not_mem_nil
  located _ none := absurd none List.not_mem_nil

/-- The next token, or else the end, is where it is among all tokens. -/
theorem located_nextRange (h : s.InOrder tokens) :
    s.nextRange.Located (Token.placed 0 tokens) (byteWidth (Token.spell tokens)) := by
  have parts : s.rest.takeWhile (·.isTrivia) ++ significant s.rest = s.rest :=
    List.takeWhile_append_dropWhile
  unfold nextRange
  cases ahead : s.next? with
  | none =>
    -- All that is left is trivia, so the end comes after it.
    rw [significant_eq_nil_of_next? ahead, List.append_nil] at parts
    right
    rw [parts, ← h.extent]
    rfl
  | some t =>
    obtain ⟨ts, hts⟩ := List.head?_eq_some_iff.mp ahead
    refine .inl ⟨(s.offset + byteWidth (Token.spell (s.rest.takeWhile (·.isTrivia))), t), ?_,
      isTrivia_of_next? ahead, rfl⟩
    apply h.left.subset
    have split := Token.placed_append s.offset (s.rest.takeWhile (·.isTrivia)) (t :: ts)
    rw [← hts, parts, hts] at split
    rw [split]
    exact List.mem_append_right _ (List.mem_cons_self ..)

/-- The next token does not move back. -/
theorem nextRange_start_advance (s : State) : s.nextRange.start ≤ s.advance.nextRange.start := by
  rw [nextRange_start, nextRange_start]
  -- Trivia was looked through before it was passed; any other token is left behind.
  cases hrest : s.rest with
  | nil => simp [advance, hrest]
  | cons t ts =>
    cases trivia : t.isTrivia with
    | true =>
      simp only [advance, hrest, List.takeWhile_cons, trivia, if_true, Token.spell_cons,
        byteWidth_append, Token.width]
      omega
    | false =>
      simp only [advance, hrest, List.takeWhile_cons, trivia, Bool.false_eq_true, if_false,
        Token.spell_nil, byteWidth_nil]
      omega

/-- Reading keeps the reports, and the next token may be a later one. -/
theorem advance (h : s.InOrder tokens) : s.advance.InOrder tokens := by
  have same : s.advance.errors = s.errors := by rw [advance_frame]
  refine ⟨?_, (Advances.advance s).extent.trans h.extent, same ▸ h.ordered, ?_, same ▸ h.located⟩
  -- At the end nothing is left; otherwise the token goes away from the front.
  · cases hrest : s.rest with
    | nil =>
      simp only [State.advance, hrest]
      exact List.nil_suffix
    | cons t ts =>
      simp only [State.advance, hrest]
      have left := h.left
      rw [hrest, Token.placed_cons] at left
      exact (List.suffix_cons _ _).trans left
  · intro e he
    rw [same] at he
    exact Nat.le_trans (h.reached e he) (nextRange_start_advance s)

/-- A report at the next token comes after all that were made before. -/
theorem complain (h : s.InOrder tokens) (problem : Problem) (code : ErrorCode) :
    (s.complain problem code).InOrder tokens where
  left := h.left
  extent := h.extent
  ordered := List.pairwise_cons.mpr ⟨h.reached, h.ordered⟩
  reached := List.forall_mem_cons.mpr ⟨Nat.le_refl _, h.reached⟩
  located := List.forall_mem_cons.mpr ⟨h.located_nextRange, h.located⟩

/-- It matters only what is left to read and what is reported. -/
theorem congr {s' : State} (h : s.InOrder tokens) (rest : s'.rest = s.rest)
    (offset : s'.offset = s.offset) (errors : s'.errors = s.errors) : s'.InOrder tokens := by
  have next : s'.nextRange = s.nextRange := by
    simp only [nextRange, next?, rest, offset]
  refine ⟨?_, ?_, ?_, ?_, ?_⟩
  · rw [rest, offset]
    exact h.left
  · rw [State.extent, rest, offset]
    exact h.extent
  · rw [errors]
    exact h.ordered
  · rw [errors, next]
    exact h.reached
  · rw [errors]
    exact h.located

/-- All steps keep the reports in order, for none of them looks back. -/
theorem kept (limits : Limits) (tokens : List Token) :
    Kept (fun _ => True) limits fun s s' => s.InOrder tokens → s'.InOrder tokens where
  refl _ h := h
  trans ab bc h := bc (ab h)
  advance _ h := h.advance
  complain _ problem code h := h.complain problem code
  recorded _ _ h := h.congr rfl rfl rfl
  starved _ h := h.congr rfl rfl rfl
  hushed _ _ h := h.congr rfl rfl rfl
  closed _ _ inside h := (inside (h.congr rfl rfl rfl)).congr rfl rfl rfl
  merged inside h := (inside (h.congr rfl rfl rfl)).congr rfl rfl rfl
  wrapped _ _ inside h := (inside h).congr rfl rfl rfl
  deeper _ inside h := (inside (h.congr rfl rfl rfl)).congr rfl rfl rfl

end InOrder

end State

/-- A whole parse reports in order. -/
theorem finalState_inOrder (maxDepth : Nat) (tokens : List Token) :
    (finalState maxDepth tokens).InOrder tokens := by
  have kept := State.InOrder.kept (Limits.forTokens maxDepth tokens) tokens
  have parsed : (reach grammar (Limits.forTokens maxDepth tokens) (callAllowance maxDepth)
      (.statements false) (State.start tokens)).InOrder tokens :=
    reach_kept kept trivial (fun _ _ _ => trivial) _ _ _ (.start tokens)
  exact kept.consume _ _ parsed

end PerlOutline.Grammar

/-! ## Error nodes -/

namespace PerlOutline.Syntax

open PerlOutline.Source (Range byteWidth)

/-- An error node in its text. -/
structure Spot where
  range : Range
  children : List Placed

namespace Placed

mutual

/-- The error nodes of a placed tree, in preorder. -/
def spots : Placed → List Spot
  | .token .. => []
  | .node k r children => (if k = .error then [⟨r, children⟩] else []) ++ forestSpots children

/-- The error nodes of placed trees, in preorder. -/
def forestSpots : List Placed → List Spot
  | [] => []
  | t :: ts => t.spots ++ forestSpots ts

end

/-- What comes after some trees is placed behind them. -/
theorem ofForest_append (start : Nat) (ts us : List Tree) :
    (ofForest start (ts ++ us)).1 =
      (ofForest start ts).1 ++
        (ofForest (start + byteWidth (Token.spell (Tree.forestLeaves ts))) us).1 := by
  induction ts generalizing start with
  | nil => rfl
  | cons t ts ih =>
    simp only [List.cons_append, ofForest, ih, range_stop_ofTree, Tree.text,
      Tree.forestLeaves_cons, Token.spell_append, Source.byteWidth_append, Nat.add_assoc]

/-- Error nodes come tree by tree. -/
theorem forestSpots_append (ts us : List Placed) :
    forestSpots (ts ++ us) = forestSpots ts ++ forestSpots us := by
  induction ts with
  | nil => rfl
  | cons t ts ih => simp only [List.cons_append, forestSpots, ih, List.append_assoc]

/-- Tokens that are placed are tokens, and there are no error nodes among them. -/
theorem ofForest_tokens (start : Nat) (ts : List Token) :
    (ofForest start (ts.map .token)).1 = (Token.placed start ts).map fun p => .token p.1 p.2 := by
  induction ts generalizing start with
  | nil => rfl
  | cons t ts ih =>
    simp only [List.map_cons, ofForest, ofTree, range, Range.sized, ih, Token.placed_cons]

/-- Among tokens there are none. -/
theorem forestSpots_tokens (ps : List (Nat × Token)) :
    forestSpots (ps.map fun p => .token p.1 p.2) = [] := by
  induction ps with
  | nil => rfl
  | cons p ps ih => rw [List.map_cons, forestSpots, spots, List.nil_append, ih]

/-- An error node that holds tokens is the only one in it. -/
theorem forestSpots_error (start : Nat) (ts : List Token) :
    forestSpots (ofForest start [.node .error (ts.map .token)]).1 =
      [⟨⟨start, (ofForest start (ts.map .token)).2⟩,
        (Token.placed start ts).map fun p => .token p.1 p.2⟩] := by
  simp only [ofForest, ofTree, forestSpots, spots, if_true, ofForest_tokens, forestSpots_tokens,
    List.append_nil]

end Placed

/-- What is set aside is tokens, and an error with one of the codes is reported where they begin. -/
structure Spot.Explained (codes : List ErrorCode) (errors : List SyntaxError) (p : Spot) :
    Prop where
  holds : p.children ≠ []
  wide : p.range.start < p.range.stop
  plain : ∀ child ∈ p.children, ∃ start t, child = .token start t
  cause : ∃ e ∈ errors, e.code ∈ codes ∧ e.range.start = p.range.start

/-- An explanation stays one when more is reported. -/
theorem Spot.Explained.mono {codes : List ErrorCode} {errors errors' : List SyntaxError}
    {p : Spot} (h : p.Explained codes errors) (more : errors ⊆ errors') :
    p.Explained codes errors' where
  holds := h.holds
  wide := h.wide
  plain := h.plain
  cause := by
    obtain ⟨e, he, fits⟩ := h.cause
    exact ⟨e, more he, fits⟩

/-- Tokens that are placed where an error is reported are explained by it, if there are any. -/
theorem Spot.explained_of_tokens {codes : List ErrorCode} {errors : List SyntaxError}
    {e : SyntaxError} (reported : e ∈ errors) (code : e.code ∈ codes) {ts : List Token}
    (some : ts ≠ []) :
    Spot.Explained codes errors
      ⟨⟨e.range.start, (Placed.ofForest e.range.start (ts.map .token)).2⟩,
        (Token.placed e.range.start ts).map fun p => .token p.1 p.2⟩ := by
  refine ⟨?_, ?_, ?_, e, reported, code, rfl⟩
  · cases ts with
    | nil => exact absurd rfl some
    | cons t ts => exact List.cons_ne_nil _ _
  · -- The tokens have a width, so the node is not empty.
    rw [Placed.ofForest_stop, Tree.forestLeaves_tokens]
    cases ts with
    | nil => exact absurd rfl some
    | cons t ts =>
      have wide := t.width_pos
      simp only [Token.spell_cons, Source.byteWidth_append, Token.width] at wide ⊢
      omega
  · intro child hchild
    obtain ⟨p, -, rfl⟩ := List.mem_map.mp hchild
    exact ⟨p.1, p.2, rfl⟩

end PerlOutline.Syntax

namespace PerlOutline.Grammar

open PerlOutline.Source (Range byteWidth byteWidth_append byteWidth_nil)
open PerlOutline.Syntax (Kind Token Tree Placed Spot Problem ErrorCode SyntaxError)

/-- The codes of errors about tokens that are set aside. -/
def asideCodes : List ErrorCode :=
  [.e0101, .e0205, .e0401, .e0901]

namespace State

/-- The error nodes of the open scope, if it begins at `base`. -/
def spots (base : Nat) (s : State) : List Spot :=
  Placed.forestSpots (Placed.ofForest base s.out.reverse).1

/-- The open scope begins at `base`. -/
def OpenedAt (base : Nat) (s : State) : Prop :=
  base + byteWidth (Token.spell (Tree.forestLeaves s.out.reverse)) = s.offset

/-- A scope begins where it began. -/
theorem OpenedAt.later {base : Nat} {s s' : State} (h : s.OpenedAt base) (onward : s.Advances s') :
    s'.OpenedAt base := by
  have tokens := congrArg (fun ts => byteWidth (Token.spell ts)) onward.tokens
  have extent := onward.extent
  simp only [State.tokens, State.extent, Token.spell_append, byteWidth_append] at tokens extent
  unfold OpenedAt at h ⊢
  omega

/-- What is added to a scope adds its error nodes. -/
theorem spots_append (base : Nat) {s s' : State} {more : List Tree} (h : s.OpenedAt base)
    (out : s'.out.reverse = s.out.reverse ++ more) :
    s'.spots base = s.spots base ++ Placed.forestSpots (Placed.ofForest s.offset more).1 := by
  rw [spots, out, Placed.ofForest_append, Placed.forestSpots_append, h, spots]

/-! ### What explains error nodes -/

/-- From one state to a later one, each error node that is added has a report of its own. -/
structure Explains (s s' : State) : Prop where
  advances : s.Advances s'
  added : ∀ base, s.OpenedAt base → ∃ new,
    s'.spots base = s.spots base ++ new ∧
      (∀ p ∈ new, p.Explained asideCodes s'.errors ∧
        s.offset ≤ p.range.start ∧ p.range.start < s'.offset) ∧
      new.Pairwise (·.range.start < ·.range.start)

/-- Nothing that was reported is taken back. -/
theorem Advances.errors_subset {s s' : State} (h : s.Advances s') : s.errors ⊆ s'.errors := by
  obtain ⟨new, errors, -⟩ := h.errors
  rw [errors]
  exact List.subset_append_right _ _

namespace Explains

/-- A step that adds no node has nothing to explain. -/
theorem of_tokens {s s' : State} (advances : s.Advances s') {ts : List Token}
    (out : s'.out.reverse = s.out.reverse ++ ts.map .token) : s.Explains s' := by
  refine ⟨advances, fun base h => ⟨[], ?_, fun _ none => absurd none List.not_mem_nil, .nil⟩⟩
  rw [spots_append base h out, Placed.ofForest_tokens, Placed.forestSpots_tokens]

/-- Nor has a step that adds nothing at all. -/
theorem of_same {s s' : State} (advances : s.Advances s') (out : s'.out = s.out) :
    s.Explains s' := by
  have none : s'.out.reverse = s.out.reverse ++ ([] : List Token).map .token := by
    rw [out, List.map_nil, List.append_nil]
  exact of_tokens advances none

/-- What is added in two steps is explained step by step, and in order. -/
theorem trans {a b c : State} (ab : a.Explains b) (bc : b.Explains c) : a.Explains c := by
  refine ⟨ab.advances.trans bc.advances, fun base h => ?_⟩
  obtain ⟨first, hfirst, explained, ordered⟩ := ab.added base h
  obtain ⟨second, hsecond, explained', ordered'⟩ := bc.added base (h.later ab.advances)
  have up := ab.advances.offset_le
  have up' := bc.advances.offset_le
  refine ⟨first ++ second, by rw [hsecond, hfirst, List.append_assoc], ?_, ?_⟩
  · -- Of both steps the explanations hold, and those of the first are not lost in the second.
    intro p hp
    rcases List.mem_append.mp hp with early | late
    · obtain ⟨cause, low, high⟩ := explained p early
      exact ⟨cause.mono bc.advances.errors_subset, low, by omega⟩
    · obtain ⟨cause, low, high⟩ := explained' p late
      exact ⟨cause, by omega, high⟩
  · refine List.pairwise_append.mpr ⟨ordered, ordered', ?_⟩
    -- What was added first ends before the second step begins.
    intro p hp q hq
    have := (explained p hp).2.2
    have := (explained' q hq).2.1
    omega

/-- What a scope of its own adds is added to the scope around it. -/
theorem of_opened {s inner s' : State} (inside : s.opened.Explains inner)
    (advances : s.Advances s') (errors : s'.errors = inner.errors)
    (offset : s'.offset = inner.offset) {more : List Tree}
    (out : s'.out.reverse = s.out.reverse ++ more)
    (same : Placed.forestSpots (Placed.ofForest s.offset more).1 = inner.spots s.offset) :
    s.Explains s' := by
  refine ⟨advances, fun base h => ?_⟩
  have opened : s.opened.OpenedAt s.offset := Nat.add_zero _
  obtain ⟨new, hnew, explained, ordered⟩ := inside.added s.offset opened
  refine ⟨new, ?_, ?_, ordered⟩
  · rw [spots_append base h out, same, hnew]
    rfl
  · rw [errors, offset]
    exact explained

/-- All steps but those that set something aside explain what they add. -/
theorem kept (limits : Limits) : Kept (· ≠ .error) limits Explains where
  refl s := of_same (.refl s) rfl
  trans := trans
  advance s := by
    have out : s.advance.out.reverse = s.out.reverse ++ (s.rest.take 1).map .token := by
      have read := s.out_consume 1
      rw [consume, consume] at read
      simp [read]
    exact of_tokens (.advance s) out
  complain s problem code := of_same (.complain s problem code) rfl
  recorded s last := of_same ((Advances.kept limits).recorded s last) rfl
  starved s := of_same ((Advances.kept limits).starved s) rfl
  hushed s stop := of_same ((Advances.kept limits).hushed s stop) rfl
  closed {s inner} kind other inside := by
    -- The new node is no error node itself.
    have out : (inner.closed kind s.out).out.reverse =
        s.out.reverse ++ [.node kind inner.out.reverse] := by
      simp [State.closed]
    refine inside.of_opened ((Advances.kept limits).closed kind trivial inside.advances) rfl rfl
      out ?_
    simp [Placed.ofForest, Placed.ofTree, Placed.forestSpots, Placed.spots, other, spots]
  merged {s inner} inside := by
    have out : (inner.merged s.out).out.reverse = s.out.reverse ++ inner.out.reverse := by
      simp [State.merged]
    exact inside.of_opened ((Advances.kept limits).merged inside.advances) rfl rfl out rfl
  wrapped {s inner} kind other inside := by
    refine ⟨(Advances.kept limits).wrapped kind trivial inside.advances, fun base h => ?_⟩
    obtain ⟨new, hnew, explained⟩ := inside.added base h
    -- All that the scope held is under the new node, so its error nodes are where they were.
    refine ⟨new, ?_, explained⟩
    rw [← hnew]
    simp [State.closed, Placed.ofForest, Placed.ofTree, Placed.forestSpots, Placed.spots, other,
      spots]
  deeper {s inner} room inside :=
    ⟨(Advances.kept limits).deeper room inside.advances, inside.added⟩

/-- Tokens that are set aside where an error was reported are explained by it. -/
theorem setAside {s : State} {e : SyntaxError} (reported : e ∈ s.errors)
    (code : e.code ∈ asideCodes) (here : e.range.start = s.nextRange.start) {t : Token}
    (ahead : s.next? = some t) {n : Nat} (some : 0 < n) : s.Explains (s.setAside n) := by
  have ready : s.Explains s.skipTrivia := (kept ⟨0, 0⟩).consume _ s
  -- The trivia before the tokens stays outside of the node.
  refine ready.trans ?_
  have advances : s.skipTrivia.Advances (s.setAside n) := by
    have closed := (Advances.kept ⟨0, 0⟩).closed .error trivial
      (s.skipTrivia.opened.consume_advances n)
    exact closed.trans ((Advances.kept ⟨0, 0⟩).recorded _ (s.skipTrivia.opened.consume n).last)
  have out : (s.setAside n).out.reverse = s.skipTrivia.out.reverse ++
      [.node .error ((s.skipTrivia.rest.take n).map .token)] := by
    simp only [State.setAside, s.skipTrivia.opened.out_consume n]
    simp [opened]
  -- Something is left to set aside, so the node will not be empty.
  have left : s.skipTrivia.rest ≠ [] := by
    rw [rest_skipTrivia]
    intro none
    simp [next?, none] at ahead
  have shorter : (s.setAside n).rest.length < s.skipTrivia.rest.length := by
    have rest : (s.setAside n).rest = s.skipTrivia.rest.drop n :=
      s.skipTrivia.opened.rest_consume n
    have := List.length_pos_iff.mpr left
    rw [rest, List.length_drop]
    omega
  have taken : s.skipTrivia.rest.take n ≠ [] := by
    rw [Ne, List.take_eq_nil_iff, not_or]
    exact ⟨Nat.ne_of_gt some, left⟩
  have start : s.skipTrivia.offset = e.range.start := by rw [here, offset_skipTrivia]
  refine ⟨advances, fun base h => ⟨_, spots_append base h out, ?_, ?_⟩⟩
  · rw [Placed.forestSpots_error, start]
    intro p hp
    obtain rfl := List.mem_singleton.mp hp
    have here : e ∈ (s.setAside n).errors := by
      rw [setAside_frame]
      exact reported
    exact ⟨Spot.explained_of_tokens here code taken, Nat.le_refl _,
      start ▸ advances.offset_lt shorter⟩
  · rw [Placed.forestSpots_error]
    exact List.pairwise_singleton _ _

/-- What is reported and then set aside is explained by that report. -/
theorem complain_setAside (s : State) (problem : Problem) {code : ErrorCode}
    (listed : code ∈ asideCodes) {t : Token} (ahead : s.next? = some t) {n : Nat} (some : 0 < n) :
    s.Explains ((s.complain problem code).setAside n) := by
  have reported : s.Explains (s.complain problem code) := of_same (.complain s problem code) rfl
  have same : (s.complain problem code).next? = .some t := ahead
  exact reported.trans (setAside (List.mem_cons_self ..) listed rfl same some)

/-- Where the parse sets tokens aside, it has just reported them. -/
theorem keptAside (limits : Limits) :
    KeptAside (· ≠ .error) (· ∈ asideCodes) limits Explains where
  toKept := kept limits
  rejected s problem code listed left := by
    obtain ⟨t, ahead⟩ := Option.isSome_iff_exists.mp (Option.isNone_eq_false_iff.mp left)
    exact complain_setAside s problem listed ahead Nat.one_pos
  abandoned s limit listed goesOn := by
    obtain ⟨t, ahead, kind⟩ : ∃ t, s.next? = some t ∧ t.kind ∉ expressionEnds := by
      -- A goal is given up loudly only where the next token belongs to its group.
      cases ahead : s.next? with
      | none => simp [satisfies, Test.endsExpression, ahead] at goesOn
      | some t => exact ⟨t, rfl, by simpa [satisfies, Test.endsExpression, ahead] using goesOn⟩
    obtain ⟨ts, hts⟩ := List.head?_eq_some_iff.mp ahead
    -- The group has that token at least.
    have held : 0 < groupLength 0 0 0 (significant s.rest) :=
      hts ▸ groupLength_pos (isTrivia_of_next? ahead) kind ts
    exact complain_setAside s (.tooDeep limit) listed ahead held

end Explains

end State

/-! ## The grammar -/

/-- No goal builds error nodes of its own. -/
theorem nodeKinds_ne_error (goal : Goal) : ∀ k ∈ (grammar goal).nodeKinds, k ≠ .error := by
  revert goal
  decide +kernel

/-- All errors that come with rejected tokens have codes of such errors. -/
theorem blamed_grammar (goal : Goal) : ∀ code ∈ (grammar goal).blamed, code ∈ asideCodes := by
  revert goal
  decide +kernel

/-- A whole parse explains its error nodes. -/
theorem finalState_explains (maxDepth : Nat) (tokens : List Token) :
    (State.start tokens).Explains (finalState maxDepth tokens) := by
  have kept := State.Explains.keptAside (Limits.forTokens maxDepth tokens)
  have parsed : (State.start tokens).Explains (reach grammar (Limits.forTokens maxDepth tokens)
      (callAllowance maxDepth) (.statements false) (State.start tokens)) :=
    reach_keptAside kept nodeKinds_ne_error blamed_grammar _ _ _
  exact parsed.trans (kept.consume _ _)

end PerlOutline.Grammar

/-! ## Parses -/

namespace PerlOutline.Element.Node

open PerlOutline.Syntax (Placed Spot Kind)

/-- A node in its text, without the nodes around it. -/
def spot (n : Node) : Spot :=
  ⟨n.range, n.here.children⟩

mutual

/-- The error nodes of a tree with all that is around them are its error nodes. -/
theorem spots_nodesOnto (above : List Step) (preceding : List Placed) (rest : List Node)
    (t : Placed) :
    ((nodesOnto above preceding rest t).filter (·.kind = .error)).map spot =
      t.spots ++ (rest.filter (·.kind = .error)).map spot := by
  match t with
  | .token .. => rfl
  | .node k r children =>
    have below := spots_forestNodesOnto (⟨k, r, children, preceding⟩ :: above) [] rest children
    rw [nodesOnto, Placed.spots, List.filter_cons, List.append_assoc, ← below]
    by_cases error : k = .error
    · subst error
      rfl
    · simp only [kind, error, decide_false, Bool.false_eq_true, if_false, List.nil_append]

/-- So are those of several trees. -/
theorem spots_forestNodesOnto (above : List Step) (preceding : List Placed) (rest : List Node)
    (ts : List Placed) :
    ((forestNodesOnto above preceding rest ts).filter (·.kind = .error)).map spot =
      Placed.forestSpots ts ++ (rest.filter (·.kind = .error)).map spot := by
  match ts with
  | [] => rfl
  | t :: ts =>
    rw [Placed.forestSpots, List.append_assoc, ← spots_forestNodesOnto above _ rest ts,
      ← spots_nodesOnto above preceding _ t]
    rfl

end

/-- The nodes of kind error are the error nodes in preorder. -/
theorem spots_allOf (t : Placed) : ((allOf t).filter (·.kind = .error)).map spot = t.spots := by
  rw [allOf, spots_nodesOnto, List.filter_nil, List.map_nil, List.append_nil]

end PerlOutline.Element.Node

namespace PerlOutline.Syntax

open PerlOutline.Source (byteWidth)
open PerlOutline.Element (Node)
open PerlOutline.Grammar (finalState asideCodes)

/-- The error nodes of a text are explained by its errors, and begin one after the other. -/
theorem Parse.spots_placed (maxDepth : Nat) (text : List Char) :
    let parse := ofTextWithin maxDepth text
    (∀ p ∈ parse.placed.spots, p.Explained asideCodes parse.errors) ∧
      parse.placed.spots.Pairwise (·.range.start < ·.range.start) := by
  intro parse
  -- What the whole parse adds to an empty scope are the error nodes of its tree.
  obtain ⟨new, spots, explained, ascending⟩ :=
    (Grammar.finalState_explains maxDepth (tokenize text)).added 0 rfl
  -- The tree is one node around that scope, and no error node itself.
  have found : parse.placed.spots = new := spots
  rw [found]
  refine ⟨fun p hp => ?_, ascending⟩
  exact (explained p hp).1.mono fun e he => List.mem_reverse.mpr he

/-- An error node of a text is explained by an error of the text. -/
theorem Parse.explained_of_mem_allOf {maxDepth : Nat} {text : List Char} {n : Node}
    (member : n ∈ Node.allOf (ofTextWithin maxDepth text).placed) (error : n.kind = .error) :
    n.spot.Explained asideCodes (ofTextWithin maxDepth text).errors := by
  apply (spots_placed maxDepth text).1
  rw [← Node.spots_allOf]
  exact List.mem_map_of_mem (List.mem_filter.mpr ⟨member, decide_eq_true error⟩)

/-- Nodes that are explained have errors that explain them, each its own. -/
theorem exists_causes {codes : List ErrorCode} {errors : List SyntaxError} {nodes : List Node}
    (explained : ∀ n ∈ nodes, n.spot.Explained codes errors)
    (ordered : nodes.Pairwise (·.range.start < ·.range.start)) :
    ∃ causes : List SyntaxError,
      List.Forall₂ (fun n e => e ∈ errors ∧ e.code ∈ codes ∧ e.range.start = n.range.start)
        nodes causes ∧ causes.Nodup := by
  obtain ⟨causes, each⟩ : ∃ causes : List SyntaxError,
      List.Forall₂ (fun n e => e ∈ errors ∧ e.code ∈ codes ∧ e.range.start = n.range.start)
        nodes causes := by
    clear ordered
    induction nodes with
    | nil => exact ⟨[], .nil⟩
    | cons n nodes ih =>
      obtain ⟨first, later⟩ := List.forall_mem_cons.mp explained
      obtain ⟨causes, rest⟩ := ih later
      obtain ⟨e, he, fits⟩ := first.cause
      exact ⟨e :: causes, .cons ⟨he, fits⟩ rest⟩
  -- The nodes begin at different places, so their errors are different.
  have starts : causes.map (·.range.start) = nodes.map (·.range.start) := by
    clear ordered explained
    induction each with
    | nil => rfl
    | cons fits _ ih => rw [List.map_cons, List.map_cons, fits.2.2, ih]
  have distinct : (nodes.map (·.range.start)).Nodup :=
    List.pairwise_map.mpr (ordered.imp Nat.ne_of_lt)
  rw [← starts] at distinct
  refine ⟨causes, each, (List.pairwise_map.mp distinct).imp ?_⟩
  rintro e _ apart rfl
  exact apart rfl

/-- Errors are in the order of the text, and each is about a token that is no trivia or about the
end of the text. An error node holds tokens and nothing else, at least one of them, and an error of
its own begins where the node begins. -/
theorem Parse.errors_explain_error_nodes (maxDepth : Nat) (text : List Char) :
    let parse := ofTextWithin maxDepth text
    let errorNodes := (Node.allOf parse.placed).filter (·.kind = .error)
    parse.errors.Pairwise (·.range.start ≤ ·.range.start) ∧
      (∀ e ∈ parse.errors,
        e.range.Located (Token.placed 0 (tokenize text)) (byteWidth text)) ∧
      (∀ n ∈ errorNodes, n.range.start < n.range.stop ∧ n.here.children ≠ [] ∧
        ∀ child ∈ n.here.children, ∃ start t, child = .token start t) ∧
      ∃ causes : List SyntaxError,
        List.Forall₂ (fun n e => e ∈ parse.errors ∧
          e.code ∈ [ErrorCode.e0101, .e0205, .e0401, .e0901] ∧ e.range.start = n.range.start)
          errorNodes causes ∧ causes.Nodup := by
  intro parse errorNodes
  have order := Grammar.finalState_inOrder maxDepth (tokenize text)
  -- The nodes of kind error are explained as error nodes are.
  have each : ∀ n ∈ errorNodes, n.spot.Explained asideCodes parse.errors := by
    intro n hn
    obtain ⟨member, error⟩ := List.mem_filter.mp hn
    exact explained_of_mem_allOf member (of_decide_eq_true error)
  -- They begin one after the other, since they come in preorder.
  have apart : errorNodes.Pairwise (·.range.start < ·.range.start) := by
    have ascending := (spots_placed maxDepth text).2
    rw [← Node.spots_allOf, List.pairwise_map] at ascending
    exact ascending
  refine ⟨List.pairwise_reverse.mpr order.ordered, ?_,
    fun n hn => ⟨(each n hn).wide, (each n hn).holds, (each n hn).plain⟩,
    exists_causes each apart⟩
  intro e he
  have located := order.located e (List.mem_reverse.mp he)
  rwa [spell_tokenize] at located

end PerlOutline.Syntax
