import PerlOutline.Proofs.Layout
import PerlOutline.Proofs.Seam
import PerlOutline.Proofs.LastToken

/-!
# Programs one after the other

The parse of a text that ends with a semicolon does not depend on what follows, and the parse of
what follows does not depend on the text before. So programs without errors can be written one after
the other, and the whole has the statements of all of them.

## Layers
- **`Tree.isTrivia`**: what of a forest counts.
- **`finalState_joined`**: tokens up to a semicolon, and other tokens after them.
- **`Terminated`**: texts that another text can follow.
-/

namespace PerlOutline

open PerlOutline.Syntax (Token Tree)

/-! ## Significant trees -/

namespace Syntax.Tree

/-- Trivia tokens. Nodes are never trivia. -/
def isTrivia : Tree → Bool
  | .token t => t.isTrivia
  | .node _ _ => false

/-- The children of the root that are no trivia. -/
def significantChildren : Tree → List Tree
  | .token _ => []
  | .node _ children => children.filter (!·.isTrivia)

end Syntax.Tree

namespace Grammar

open State (significant)

/-- The trees built so far that are no trivia, the last one first. -/
def State.significantOut (s : State) : List Tree :=
  s.out.filter (!·.isTrivia)

theorem State.significantOut_skipTrivia (s : State) :
    s.skipTrivia.significantOut = s.significantOut := by
  -- What is skipped is trivia, so it does not count among the trees.
  have skipped :
      ((s.rest.take s.triviaAhead).map Tree.token).reverse.filter (!·.isTrivia) = [] := by
    rw [List.filter_eq_nil_iff, State.take_triviaAhead]
    intro tree member
    obtain ⟨t, taken, rfl⟩ := List.mem_map.mp (List.mem_reverse.mp member)
    have trivia : t.isTrivia = true := List.all_eq_true.mp List.all_takeWhile t taken
    simp [Tree.isTrivia, trivia]
  rw [significantOut, significantOut, skipTrivia, out_consume, List.filter_append, skipped,
    List.nil_append]

/-! ## Tokens -/

section Tokens

variable {maxDepth turns : Nat}

/-- The statements of a text, with so many turns. -/
def statementsOf (maxDepth turns : Nat) : State → State :=
  reach grammar ⟨maxDepth, turns⟩ (callAllowance maxDepth) (.statements false)

/-- The statements of a text are read turn after turn. -/
theorem exists_statementTurns (maxDepth turns : Nat) : ∃ allowance, ∀ s : State,
    statementsOf maxDepth turns s = statementTurns ⟨maxDepth, turns⟩ allowance turns s := by
  -- There is an allowance for the first call, which is the one of the statements.
  obtain ⟨allowance, calls⟩ : ∃ n, callAllowance maxDepth = n + 1 :=
    Nat.exists_eq_add_one.mpr (Nat.mul_pos (Nat.succ_pos _) (by decide))
  refine ⟨allowance, fun s => ?_⟩
  rw [statementsOf, calls]
  rfl

/-- A parse without errors is clear all along. -/
theorem clear_of_finalState {tokens : List Token} {s : State}
    (parsed : s.skipTrivia = finalState maxDepth tokens)
    (accepted : (finalState maxDepth tokens).errors = []) : Clear [] s where
  starved := by
    rw [← s.starved_consume s.triviaAhead]
    exact (congrArg State.starved parsed).trans (finalState_not_starved maxDepth tokens)
  errors := by
    rw [← s.errors_consume s.triviaAhead]
    exact (congrArg State.errors parsed).trans accepted
  ahead := Nat.zero_le _

/-- A parse that stands before the tokens of a text, between statements and without errors, is at
the same place as one that begins with them. -/
theorem beside_start {b : List Token} {s : State} (rest : significant s.rest = significant b)
    (depth : s.depth = 0) (last : s.last = none) (errors : s.errors = [])
    (fed : s.starved = false) :
    Beside (State.start b).skipTrivia.out s.skipTrivia.out [] [] (State.start b).skipTrivia
      s.skipTrivia where
  rest := by
    refine ⟨significant b, ?_, ?_⟩
    · rw [State.rest_skipTrivia, List.append_nil]
      rfl
    · rw [State.rest_skipTrivia, List.append_nil, rest]
  out := ⟨[], rfl, rfl⟩
  depth := by
    rw [(State.skipTrivia_advances _).depth, (State.skipTrivia_advances _).depth, depth]
    rfl
  last := by
    rw [State.skipTrivia, State.skipTrivia, State.consume_frame, s.consume_frame]
    exact last.symm
  errors := (State.errors_consume _ _).trans errors
  starved := (State.starved_consume _ _).trans fed

/-- It ends as the parse of the text alone. -/
theorem statements_follow {b : List Token} (enough : b.length ≤ turns)
    (accepted : (finalState maxDepth b).errors = []) {s : State}
    (rest : significant s.rest = significant b) (depth : s.depth = 0) (last : s.last = none)
    (errors : s.errors = []) (fed : (statementsOf maxDepth turns s).starved = false) :
    (statementsOf maxDepth turns s).skipTrivia.errors = [] ∧
      (statementsOf maxDepth turns s).skipTrivia.significantOut =
        (finalState maxDepth b).significantOut ++ s.significantOut := by
  -- The trivia in front of the text make no difference to what is built.
  have passed : (statementsOf maxDepth turns s.skipTrivia).skipTrivia =
      (statementsOf maxDepth turns s).skipTrivia := State.statements_skipTrivia fed
  have alone : (statementsOf maxDepth turns (State.start b).skipTrivia).skipTrivia =
      finalState maxDepth b := finalState_skipTrivia enough
  have start := beside_start rest depth last errors
    ((reach_advances grammar (callAllowance maxDepth) _ s).not_starved fed)
  have clear := clear_of_finalState alone accepted
  -- Both parses read the same tokens to the end, so they build the same trees.
  have ended := (reach_beside .ended (callAllowance maxDepth) (.statements false) _ _ _ _ start
    nofun clear).skipTrivia .ended
  obtain ⟨o, built, built'⟩ := ended.out
  have before : (State.start b).skipTrivia.significantOut = [] :=
    (State.start b).significantOut_skipTrivia
  rw [← passed, ← alone]
  refine ⟨ended.errors, ?_⟩
  rw [← s.significantOut_skipTrivia]
  calc _ = (o ++ s.skipTrivia.out).filter (!·.isTrivia) := congrArg _ built'
    _ = o.filter (!·.isTrivia) ++ s.skipTrivia.significantOut := List.filter_append ..
    _ = (o ++ (State.start b).skipTrivia.out).filter (!·.isTrivia) ++
          s.skipTrivia.significantOut := by
        rw [List.filter_append, ← State.significantOut, before, List.append_nil]
    _ = _ := congrArg (List.filter _ · ++ _) built.symm

/-- Where both parts parse without errors, so do tokens up to a semicolon and others after them, and
what is built is what the parts build. -/
theorem finalState_joined (room : 0 < maxDepth) {t : Token} (kind : t.kind = .semicolon)
    {r x y b : List Token} (trivia : ∀ u ∈ x, u.isTrivia = true)
    (same : significant y = significant b)
    (first : (finalState maxDepth (r ++ t :: x)).errors = [])
    (second : (finalState maxDepth b).errors = []) :
    (finalState maxDepth (r ++ t :: y)).errors = [] ∧
      (finalState maxDepth (r ++ t :: y)).significantOut =
        (finalState maxDepth b).significantOut ++
          (finalState maxDepth (r ++ t :: x)).significantOut := by
  -- All parses are followed with turns enough for each of them.
  obtain ⟨turns, enough, enough', enoughNext⟩ : ∃ turns, (r ++ t :: x).length ≤ turns ∧
      (r ++ t :: y).length ≤ turns ∧ b.length ≤ turns :=
    ⟨(r ++ t :: x).length + (r ++ t :: y).length + b.length, by omega, by omega, by omega⟩
  obtain ⟨allowance, turnsOf⟩ := exists_statementTurns maxDepth turns
  have alone : (statementsOf maxDepth turns (State.start (r ++ t :: x))).skipTrivia =
      finalState maxDepth (r ++ t :: x) := finalState_more enough (Nat.le_refl _)
  have joined : (statementsOf maxDepth turns (State.start (r ++ t :: y))).skipTrivia =
      finalState maxDepth (r ++ t :: y) := finalState_more enough' (Nat.le_refl _)
  have fed := finalState_not_starved maxDepth (r ++ t :: y)
  rw [← joined, State.skipTrivia, State.starved_consume] at fed
  have start : Beside [] [] (t :: x) (t :: y) (State.start (r ++ t :: x))
      (State.start (r ++ t :: y)) :=
    { rest := ⟨r, rfl, rfl⟩, out := ⟨[], rfl, rfl⟩, depth := rfl, last := rfl, errors := rfl,
      starved := rfl }
  have clear := clear_of_finalState alone first
  rw [turnsOf] at clear
  -- The second parse comes to the end of the first one with turns left, and goes on from there.
  obtain ⟨left, le, s, arrives, landed, -, rest, last⟩ :=
    statementTurns_land kind trivia allowance turns room start clear
  have goesOn : statementsOf maxDepth turns (State.start (r ++ t :: y)) =
      statementsOf maxDepth turns s := by
    rw [turnsOf, arrives] at fed
    rw [turnsOf, turnsOf, arrives]
    exact (State.repeatWhile_more (statementTurn_advances _ allowance) (fun _ _ => rfl) le s
      fed).symm
  rw [goesOn] at joined fed
  rw [← turnsOf] at landed
  -- The statements of a text leave the nesting level on which they began.
  have level : s.depth = 0 :=
    landed.depth.symm.trans (reach_advances grammar (callAllowance maxDepth) _ _).depth
  obtain ⟨accepted, built⟩ :=
    statements_follow enoughNext second (rest ▸ same) level last landed.errors fed
  obtain ⟨o, here, there⟩ := landed.out
  rw [joined] at accepted built
  refine ⟨accepted, built.trans (congrArg _ ?_)⟩
  rw [← alone, State.significantOut_skipTrivia, State.significantOut, State.significantOut, here,
    there]

end Tokens

/-- Where a semicolon is the last token that counts, only trivia follows it. -/
theorem exists_last_semicolon {tokens : List Token}
    (ends : (tokens.filter (!·.isTrivia)).getLast?.map (·.kind) = some .semicolon) :
    ∃ r t x, tokens = r ++ t :: x ∧ t.kind = .semicolon ∧ ∀ u ∈ x, u.isTrivia = true := by
  obtain ⟨t, last, kind⟩ := Option.map_eq_some_iff.mp ends
  obtain ⟨earlier, parts⟩ := List.getLast?_eq_some_iff.mp last
  -- The tokens are split at the last one that counts, and then what is behind it is trivia.
  obtain ⟨r, later, rfl, -, rest⟩ := List.filter_eq_append_iff.mp parts
  obtain ⟨skipped, x, rfl, -, -, none⟩ := List.filter_eq_cons_iff.mp rest
  refine ⟨r ++ skipped, t, x, (List.append_assoc ..).symm, kind, fun u member => ?_⟩
  simpa using List.filter_eq_nil_iff.mp none u member

end Grammar

/-! ## Texts -/

namespace Syntax.Parse

open Grammar (finalState defaultMaxDepth)
open Grammar.State (significant)

/-- A text that another text can follow: it parses without errors, its last token that is no trivia
is a semicolon, and a newline at its end is layout, so that no section or string is open there. -/
structure Terminated (text : List Char) : Prop where
  ok : (ofText text).ok = true
  semicolon : ((tokenize text).filter (!·.isTrivia)).getLast?.map (·.kind) = some .semicolon
  newline : (tokenize (text ++ ['\n'])).getLast?.map (·.kind) = some .whitespace

theorem ok_ofText {text : List Char} :
    (ofText text).ok = true ↔ (finalState defaultMaxDepth (tokenize text)).errors = [] := by
  simp [ok, ofText, ofTextWithin, ofTokensWithin]

theorem significantChildren_ofText (text : List Char) :
    (ofText text).tree.significantChildren =
      (finalState defaultMaxDepth (tokenize text)).significantOut.reverse :=
  List.filter_reverse ..

/-- A text without errors may follow on the next line. -/
theorem ofText_line {a b : List Char} (first : Terminated a) (second : (ofText b).ok = true) :
    (ofText (a ++ '\n' :: b)).ok = true ∧
      (ofText (a ++ '\n' :: b)).tree.significantChildren =
        (ofText a).tree.significantChildren ++ (ofText b).tree.significantChildren := by
  obtain ⟨shared, before, after, here, there, trivia, same⟩ := tokensFrom_seam first.newline b
  have none : before.filter (!·.isTrivia) = [] := by
    rw [List.filter_eq_nil_iff]
    intro u member
    simp [trivia u member]
  have ends := first.semicolon
  rw [show tokenize a = shared ++ before from here, List.filter_append, none, List.append_nil]
    at ends
  obtain ⟨r, t, x, rfl, kind, skipped⟩ := Grammar.exists_last_semicolon ends
  -- Both texts are the same tokens up to the semicolon, and the other text after it.
  have own : tokenize a = r ++ t :: (x ++ before) := here.trans (List.append_assoc ..)
  have whole : tokenize (a ++ '\n' :: b) = r ++ t :: (x ++ after) :=
    there.trans (List.append_assoc ..)
  have later : significant (x ++ after) = significant (tokenize b) :=
    (List.dropWhile_append_of_pos skipped).trans same
  have layout : ∀ u ∈ x ++ before, u.isTrivia = true := fun u member =>
    (List.mem_append.mp member).elim (skipped u) (trivia u)
  have accepted := ok_ofText.mp first.ok
  rw [own] at accepted
  obtain ⟨joined, built⟩ := Grammar.finalState_joined (by decide) kind layout later accepted
    (ok_ofText.mp second)
  rw [← own, ← whole] at built
  rw [← whole] at joined
  refine ⟨ok_ofText.mpr joined, ?_⟩
  rw [significantChildren_ofText, built, List.reverse_append, significantChildren_ofText,
    significantChildren_ofText]

/-- Programs without errors compose. A text that ends with a semicolon, and with no section or
string that is still open, may be followed on the next line by any text without errors: the whole
has no errors, and its statements are those of the one text and then those of the other, as whole
subtrees. So any number of such texts may be written one after the other. -/
theorem programs_compose :
    (∀ a b : List Char, Terminated a → (ofText b).ok = true →
      (ofText (a ++ '\n' :: b)).ok = true ∧
        (ofText (a ++ '\n' :: b)).tree.significantChildren =
          (ofText a).tree.significantChildren ++ (ofText b).tree.significantChildren) ∧
    ∀ texts : List (List Char), (∀ a ∈ texts, Terminated a) →
      (ofText (['\n'].intercalate texts)).ok = true ∧
        (ofText (['\n'].intercalate texts)).tree.significantChildren =
          texts.flatMap fun a => (ofText a).tree.significantChildren := by
  refine ⟨fun _ _ => ofText_line, fun texts each => ?_⟩
  -- Induction on the texts. The first one is followed by all others.
  induction texts with
  | nil => exact ⟨by decide +kernel, by rfl⟩
  | cons a texts ih =>
    have first : Terminated a := each a (List.mem_cons_self ..)
    cases texts with
    | nil => simpa using first.ok
    | cons b texts =>
      obtain ⟨ok, children⟩ := ih fun c member => each c (List.mem_cons_of_mem _ member)
      obtain ⟨joined, built⟩ := ofText_line first ok
      rw [List.intercalate_cons_cons, List.append_assoc]
      exact ⟨joined, by rw [List.flatMap_cons, ← children]; exact built⟩

/-- A package with a comment behind it, and a statement with an empty one behind it. -/
theorem programs_compose_package_print :
    let a := "package A; # first".toList
    let b := "print $x;;".toList
    Terminated a ∧ Terminated b ∧ (ofText (a ++ '\n' :: b)).ok = true ∧
      (ofText (a ++ '\n' :: b)).tree.significantChildren.map (·.kind) =
        [.packageStatement, .exprStatement, .semicolon] ∧
      (ofText (['\n'].intercalate [a, b, a])).ok = true := by
  intro a b
  have first : Terminated a := ⟨by decide +kernel, by decide +kernel, by decide +kernel⟩
  have second : Terminated b := ⟨by decide +kernel, by decide +kernel, by decide +kernel⟩
  obtain ⟨joined, built⟩ := programs_compose.1 a b first second.ok
  have all := programs_compose.2 [a, b, a] (by
    intro c member
    simp only [List.mem_cons, List.not_mem_nil, or_false] at member
    rcases member with rfl | rfl | rfl <;> assumption)
  refine ⟨first, second, joined, ?_, all.1⟩
  rw [built]
  decide +kernel

end Syntax.Parse

end PerlOutline
