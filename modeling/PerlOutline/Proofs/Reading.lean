import PerlOutline.Proofs.Following

/-!
# Reading loses nothing

Whatever a rule does, the tokens of the open scope followed by those that are not read yet stay
the same; reading goes forward, and reports are only added.

## Layers
- **`Advances`**: what a parse keeps from one state to a later one.
- **Steps**: every step advances, so every rule and every goal does.
- **Distance**: a state that differs in its offset has read something.
-/

namespace PerlOutline.Grammar

open PerlOutline.Source (byteWidth byteWidth_append)
open PerlOutline.Syntax (Kind Token Tree Problem ErrorCode SyntaxError)

namespace State

/-- The tokens of the open scope, and after them those that are not read yet. -/
def tokens (s : State) : List Token :=
  Tree.forestLeaves s.out.reverse ++ s.rest

/-- The number of bytes of the text as far as the state knows it. -/
def extent (s : State) : Nat :=
  s.offset + byteWidth (Token.spell s.rest)

/-- What is reported after a later offset is reported after an earlier one. -/
theorem errors_trans {start middle : Nat} {old some more : List SyntaxError}
    (onward : start ≤ middle)
    (first : ∃ new, some = new ++ old ∧ ∀ e ∈ new, start ≤ e.range.start)
    (second : ∃ new, more = new ++ some ∧ ∀ e ∈ new, middle ≤ e.range.start) :
    ∃ new, more = new ++ old ∧ ∀ e ∈ new, start ≤ e.range.start := by
  obtain ⟨new, hnew, ahead⟩ := first
  obtain ⟨later, hlater, further⟩ := second
  refine ⟨later ++ new, by rw [hlater, hnew, List.append_assoc], ?_⟩
  intro e he
  rcases List.mem_append.mp he with late | early
  · exact Nat.le_trans onward (further e late)
  · exact ahead e early

/-- What a parse keeps from one state to a later one. -/
structure Advances (s s' : State) : Prop where
  /-- No token is lost, doubled or moved. -/
  tokens : s'.tokens = s.tokens
  rest : s'.rest <:+ s.rest
  extent : s'.extent = s.extent
  /-- What is reported later is about tokens that are not read yet. -/
  errors : ∃ new, s'.errors = new ++ s.errors ∧ ∀ e ∈ new, s.offset ≤ e.range.start
  hushed : s.hushed <:+ s'.hushed
  depth : s'.depth = s.depth
  starved : s.starved = true → s'.starved = true

/-! ## Steps -/

namespace Advances

/-- Reading goes forward. -/
theorem offset_le {s s' : State} (h : s.Advances s') : s.offset ≤ s'.offset := by
  obtain ⟨read, hread⟩ := h.rest
  have same := h.extent
  rw [State.extent, State.extent, ← hread, Token.spell_append, byteWidth_append] at same
  omega

/-- Nothing happens. -/
theorem refl (s : State) : s.Advances s where
  tokens := rfl
  rest := List.suffix_refl _
  extent := rfl
  errors := ⟨[], rfl, fun _ h => nomatch h⟩
  hushed := List.suffix_refl _
  depth := rfl
  starved := id

/-- One thing after another happens. -/
theorem trans {a b c : State} (ab : a.Advances b) (bc : b.Advances c) : a.Advances c where
  tokens := bc.tokens.trans ab.tokens
  rest := bc.rest.trans ab.rest
  extent := bc.extent.trans ab.extent
  errors := errors_trans ab.offset_le ab.errors bc.errors
  hushed := ab.hushed.trans bc.hushed
  depth := bc.depth.trans ab.depth
  starved h := bc.starved (ab.starved h)

/-- A token is read, if there is one. -/
theorem advance (s : State) : s.Advances s.advance := by
  cases hrest : s.rest with
  | nil =>
    -- At the end of the text nothing is read.
    have still : s.advance = s := by simp only [State.advance, hrest]
    rw [still]
    exact refl s
  | cons t ts =>
    have moved : s.advance =
        { s with rest := ts, offset := s.offset + t.width, out := .token t :: s.out } := by
      simp only [State.advance, hrest]
    rw [moved]
    -- The token moves from the rest into the open scope.
    refine { refl s with tokens := ?_, rest := ?_, extent := ?_ }
    · simp [State.tokens, hrest]
    · rw [hrest]
      exact List.suffix_cons t ts
    · simp only [State.extent, hrest, Token.spell_cons, byteWidth_append, Token.width]
      omega

/-- A complaint is about the next token or the end of the text, which are not before the offset. -/
theorem complain (s : State) (problem : Problem) (code : ErrorCode) :
    s.Advances (s.complain problem code) := by
  refine { refl s with errors := ⟨[⟨problem, code, s.nextRange⟩], rfl, ?_⟩ }
  intro e he
  rw [List.mem_singleton.mp he]
  unfold State.nextRange
  split <;> exact Nat.le_add_right _ _

/-- All steps of a parse advance. -/
theorem kept (limits : Limits) : Kept (fun _ => True) limits Advances where
  refl := refl
  trans := trans
  advance := advance
  complain := complain
  recorded s _ := { refl s with }
  starved s := { refl s with starved := fun _ => rfl }
  hushed s _ := { refl s with hushed := List.suffix_cons _ _ }
  closed {s inner} _ _ inside := by
    refine { inside with tokens := ?_ }
    have content := inside.tokens
    -- The scope began empty, so it holds just what was read inside it.
    simp only [State.tokens, State.opened, List.reverse_nil, Tree.forestLeaves_nil,
      List.nil_append] at content
    simp [State.tokens, State.closed, content]
  -- Here the scope began empty, too, but what it holds goes over into the scope around it.
  merged {s inner} inside := by
    refine { inside with tokens := ?_ }
    have content := inside.tokens
    simp only [State.tokens, State.opened, List.reverse_nil, Tree.forestLeaves_nil,
      List.nil_append] at content
    simp [State.tokens, State.merged, content]
  wrapped {s inner} _ _ inside := by
    -- What is wrapped was in the scope before, so the tokens are those of the scope as it was.
    refine { inside with tokens := ?_ }
    rw [← inside.tokens]
    simp [State.tokens, State.closed]
  deeper {s inner} _ inside := { inside with depth := rfl }

end Advances

end State

variable {limits : Limits}

/-- A rule advances if the goals that it reaches do. -/
theorem Rule.follow_advances {reach : Goal → State → State}
    (hreach : ∀ goal (s : State), s.Advances (reach goal s)) (rule : Rule) (s : State) :
    s.Advances (rule.follow limits reach s) :=
  rule.follow_kept (State.Advances.kept limits) trivial hreach (fun _ _ => trivial) s

/-- Every goal advances. -/
theorem reach_advances (grammar : Goal → Rule) (allowance : Nat) (goal : Goal) (s : State) :
    s.Advances (reach grammar limits allowance goal s) :=
  reach_kept (State.Advances.kept limits) trivial (fun _ _ _ => trivial) allowance goal s

namespace State

/-- Tokens that are read are not lost. -/
theorem consume_advances (s : State) (n : Nat) : s.Advances (s.consume n) :=
  (Advances.kept ⟨0, 0⟩).consume n s

/-- Nor is trivia. -/
theorem skipTrivia_advances (s : State) : s.Advances s.skipTrivia :=
  s.consume_advances _

/-! ## What reading leaves alone -/

/-- To read a token touches only the tokens and the offset. -/
theorem advance_frame (s : State) :
    s.advance =
      { s with rest := s.advance.rest, offset := s.advance.offset, out := s.advance.out } := by
  unfold advance
  split <;> rfl

/-- Reading touches only the tokens and the offset. -/
theorem consume_frame (s : State) (n : Nat) :
    s.consume n =
      { s with
        rest := (s.consume n).rest, offset := (s.consume n).offset, out := (s.consume n).out } := by
  induction n generalizing s with
  | zero => rfl
  | succ n ih =>
    rw [consume, ih s.advance, advance_frame s]

/-- So does setting tokens aside. -/
theorem setAside_frame (s : State) (n : Nat) :
    s.setAside n =
      { s with
        rest := (s.setAside n).rest, offset := (s.setAside n).offset
        out := (s.setAside n).out } := by
  -- Both what is read before the error node and what is read inside of it leave the rest alone.
  have ready := s.consume_frame s.triviaAhead
  have inside := s.skipTrivia.opened.consume_frame n
  rw [setAside, inside]
  simp only [opened, skipTrivia]
  rw [ready]

/-- Reading cuts nothing off. -/
@[simp] theorem starved_consume (s : State) (n : Nat) : (s.consume n).starved = s.starved := by
  rw [consume_frame]

/-- Setting aside cuts nothing off. -/
@[simp] theorem starved_setAside (s : State) (n : Nat) : (s.setAside n).starved = s.starved := by
  rw [setAside_frame]

/-- Rejecting cuts nothing off. -/
@[simp] theorem starved_reject (s : State) (problem : Problem) (code : ErrorCode) :
    (s.reject problem code).starved = s.starved := by
  unfold reject
  split
  · rfl
  · exact starved_setAside _ 1

/-- So it is with the next token. -/
@[simp] theorem starved_rejectNext (s : State) (code : ErrorCode) :
    (s.rejectNext code).starved = s.starved := by
  unfold rejectNext
  split
  · exact s.starved_reject _ code
  · rfl

/-- And where a rule has to read something. -/
@[simp] theorem starved_insisted (s : State) (start : Nat) :
    (s.insisted start).starved = s.starved := by
  unfold insisted
  split
  · exact s.starved_rejectNext .e0901
  · rfl

/-- A group that is given up is not cut off. -/
@[simp] theorem starved_giveUp (s : State) (limit : Nat) (goal : Goal) :
    (s.giveUp limit goal).starved = s.starved := by
  unfold giveUp
  split
  · rfl
  · exact starved_setAside _ _

/-! ## Distance -/

namespace Advances

variable {s s' : State}

/-- What is left to read gets no longer. -/
theorem length_rest_le (h : s.Advances s') : s'.rest.length ≤ s.rest.length :=
  h.rest.length_le

/-- Where the offset stays, nothing is read; where it moves, something is. -/
theorem length_rest_lt (h : s.Advances s') (moved : s'.offset ≠ s.offset) :
    s'.rest.length < s.rest.length := by
  obtain ⟨read, hread⟩ := h.rest
  have same := h.extent
  rw [State.extent, State.extent, ← hread, Token.spell_append, byteWidth_append] at same
  -- The offset moved by the width of what was read.
  cases read with
  | nil => simp only [Token.spell_nil, Source.byteWidth_nil] at same; omega
  | cons t read => rw [← hread]; simp only [List.length_append, List.length_cons]; omega

/-- Where something was read the offset moved. -/
theorem offset_lt (h : s.Advances s') (shorter : s'.rest.length < s.rest.length) :
    s.offset < s'.offset := by
  obtain ⟨read, hread⟩ := h.rest
  have same := h.extent
  rw [State.extent, State.extent, ← hread, Token.spell_append, byteWidth_append] at same
  -- Every token has a width, so reading one moves the offset.
  cases read with
  | nil => rw [← hread] at shorter; exact absurd shorter (Nat.lt_irrefl _)
  | cons t read =>
    have := t.width_pos
    simp only [Token.spell_cons, byteWidth_append, Token.width] at same this
    omega

/-- What is not cut off later was not cut off before. -/
theorem not_starved (h : s.Advances s') (fed : s'.starved = false) : s.starved = false := by
  cases hs : s.starved with
  | false => rfl
  | true => rw [h.starved hs] at fed; exact absurd fed (by decide)

end Advances

end State

end PerlOutline.Grammar
