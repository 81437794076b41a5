import PerlOutline.Proofs.Acceptance
import PerlOutline.Proofs.GivingUp

/-!
# Reading on around a group that is given up

Parentheses are read one level deeper each, down to the nesting limit. There the rest of them is
given up as one group. The goals around it pass on what they got as they would pass on any term, so
the parentheses are closed one by one, and the statement is read to its end.

## Layers
- **`Swallows`**: a goal reads words as a tree although it gives up one group in them.
- **Looser goals** swallow what tighter goals swallow.
- **Parts**: parentheses, assignments, and the group that is given up.
- **Nests** of parentheses, of which the innermost part is given up.
- **Statements** with a nest.
-/

namespace PerlOutline.Program

open PerlOutline.Syntax (Kind Token Tree Parse)
open PerlOutline.Grammar

/-! ## Swallowing -/

/-- What ends a group is no operator. -/
theorem answer_next_of_endsGroup {ts : List Token} {out : List Tree} {last : Option Kind}
    {kinds : List Kind} (ends : EndsGroup ts) (grips : ∀ k ∈ kinds, 0 < grip k) :
    Config.answer ⟨ts, out, last⟩ (.next kinds) = some false := by
  obtain ⟨t, us, rfl, kind⟩ := ends
  -- The kinds that end a group have no grip, and operators do.
  have lets : grip t.kind = 0 := by
    rcases kind with kind | kind
    all_goals rw [kind]; rfl
  refine answer_next_other fun member => ?_
  exact absurd (grips _ member) (lets ▸ Nat.lt_irrefl 0)

/-- The goal of a level reads the words as the tree before the end of a group. On the way it gives
up one group at the nesting limit, and it reports nothing else. -/
def Swallows (limits : Limits) (depth : Nat) (level : Level) (words : List Token) (t : Tree) :
    Prop :=
  ∀ ts out last, EndsGroup ts →
    (grammar level.goal).Overflows limits (depth + level.inside) ⟨words ++ ts, out, last⟩
      ⟨ts, t :: out, some t.kind⟩

namespace Swallows

variable {limits : Limits} {depth : Nat} {level looser : Level} {words words' ts : List Token}
  {t t' : Tree}

/-! ## Looser goals -/

theorem binary {tier : Tier} (h : Swallows limits depth (Level.binary tier).tighter words t)
    (room : depth + (Level.binary tier).inside ≤ limits.maxDepth) :
    Swallows limits depth (.binary tier) words t := by
  intro ts out last ends
  have inner := h ts [] last ends
  rw [goal_tighter, inside_tighter] at inner
  -- No operator of the tier follows, so its loop makes no turn.
  refine inner.passed (.yes rfl (.stop (answer_next_of_endsGroup ends fun k member => ?_))) room
  rw [grip_operators tier k member]
  exact Nat.succ_pos _

/-- A list has one item, which is read one nesting level down. -/
theorem negation_of_nested
    (h : ∀ ts last, EndsGroup ts →
      (Rule.nested .assignment).Overflows limits depth ⟨words ++ ts, [], last⟩
        ⟨ts, [t], some t.kind⟩)
    (begins : Begins .assignment words) (room : depth ≤ limits.maxDepth) :
    Swallows limits depth .negation words t := by
  intro ts out last ends
  refine .no (answer_next_of_begins begins (by decide)) (.call (.group_one ?_))
  have noMore : Config.answer ⟨ts, [t], some t.kind⟩ (.next [.comma, .fatComma]) = some false :=
    answer_next_of_endsGroup ends (by decide)
  refine .thenDerives (.no ?_ (h ts last ends)) (.no noMore .done) room
  exact answer_next_of_begins begins (by decide)

theorem negation (h : Swallows limits depth .assignment words t)
    (begins : Begins .assignment words) (room : depth < limits.maxDepth) :
    Swallows limits depth .negation words t :=
  negation_of_nested (fun ts last ends => .nested room (h ts [] last ends)) begins
    (Nat.le_of_lt room)

/-- What a tighter goal reads is passed on where a group ends, for no operator follows. -/
theorem passed {goal : Goal} {kinds : List Kind} {more : Rule} {out : List Tree}
    {last : Option Kind} {k : Kind} (ends : EndsGroup ts)
    (h : (grammar goal).Overflows limits depth ⟨words, [], last⟩ ⟨ts, [t], some k⟩)
    (grips : ∀ k ∈ kinds, 0 < grip k) (room : depth ≤ limits.maxDepth) :
    (Rule.group (.andThen (.call goal) (.given (.both .parsed (.next kinds)) more))).Overflows
      limits depth ⟨words, out, last⟩ ⟨ts, t :: out, some k⟩ :=
  h.passed (.no ((answer_parsed_and _ _).trans (answer_next_of_endsGroup ends grips)) .done) room

theorem assignment (h : Swallows limits depth .ternary words t) (room : depth < limits.maxDepth) :
    Swallows limits depth .assignment words t :=
  fun ts _ last ends => passed ends (h ts [] last ends) (by decide) room

theorem ternary (h : Swallows limits depth (.binary .range) words t)
    (room : depth < limits.maxDepth) : Swallows limits depth .ternary words t :=
  fun ts _ last ends => passed ends (h ts [] last ends) (by decide) room

theorem unary (h : Swallows limits depth .power words t) (begins : Begins .power words) :
    Swallows limits depth .unary words t :=
  fun ts out last ends => .no (answer_next_of_begins begins (by decide)) (h ts out last ends).call

theorem power (h : Swallows limits depth .increment words t) (room : depth < limits.maxDepth) :
    Swallows limits depth .power words t :=
  fun ts _ last ends => passed ends (h ts [] last ends) (by decide) room

theorem increment (h : Swallows limits depth .atom words t) (begins : Begins .atom words)
    (room : depth < limits.maxDepth) : Swallows limits depth .increment words t :=
  fun ts _ last ends => .no (answer_next_of_begins begins (by decide))
    (passed ends (h ts [] last ends) (by decide) room)

/-- A goal reads what the next tighter goal reads. -/
theorem of_tighter (h : Swallows limits depth looser.tighter words t)
    (begins : Begins looser.tighter words) (room : depth < limits.maxDepth) :
    Swallows limits depth looser words t := by
  cases looser with
  | binary tier => exact h.binary (Nat.le_trans (Nat.add_le_add_left (Level.inside_le _) _) room)
  | negation => exact h.negation begins room
  | assignment => exact h.assignment room
  | ternary => exact h.ternary room
  | unary => exact h.unary begins
  | power => exact h.power room
  | increment => exact h.increment begins room
  | atom => exact h

/-- A goal reads what tighter goals read. -/
theorem loosen (h : Swallows limits depth level words t) (begins : Begins level words)
    (le : looser.rank ≤ level.rank) (room : depth < limits.maxDepth) :
    Swallows limits depth looser words t :=
  loosen_induction (P := fun level => Swallows limits depth level words t) begins
    (fun _ begins h => h.of_tighter begins room) h le

/-! ## Parts -/

/-- What is in parentheses is an atom. -/
theorem enclosed (h : Swallows limits (depth + 1) (.binary .lowOr) words t)
    (begins : Begins (.binary .lowOr) words) (room : depth < limits.maxDepth) :
    Swallows limits depth .atom (parenthesized words)
      (.node .listExpr [.token lParen, t, .token rParen]) := by
  intro ts out last ends
  have noArrow {out : List Tree} {last : Option Kind} :
      Config.answer ⟨ts, out, last⟩ (.next [.arrow]) = some false :=
    answer_next_of_endsGroup ends (by decide)
  have noBracket {out : List Tree} {last : Option Kind} :
      Config.answer ⟨ts, out, last⟩ (.next [.lBracket, .lBrace]) = some false :=
    answer_next_of_endsGroup ends (by decide)
  -- What is inside ends its group at the closing parenthesis, whatever ends the group around it.
  have inner := h (rParen :: ts) [.token lParen] last ⟨rParen, ts, rfl, .inl rfl⟩
  have term : (grammar .term).Overflows limits (depth + 1)
      ⟨lParen :: (words ++ ([rParen] ++ ts)), [], last⟩
      ⟨ts, [.node .listExpr [.token lParen, t, .token rParen]], some .listExpr⟩ := by
    refine .no rfl (.no rfl (.no rfl (.yes rfl (.node_of (.derivesThen .take room
      (.thenDerives (.no ?_ inner.call) (.expected rfl) room)) rfl))))
    exact answer_next_of_begins begins (by decide)
  rw [parenthesized, List.cons_append, List.append_assoc]
  exact term.passed (.yes rfl (.stayThen (.stop (answer_or_of_fails (answer_and_of_fails noArrow)
    (answer_and_of_fails noBracket))) (.no noArrow .done))) room

/-- The right operand of an assignment is one nesting level further down. -/
theorem assign {op : Token} {n : Nat} (known : op ∈ assignmentOperators)
    (target : Reads (.binary .range) words n t) (shallow : depth + 1 + n ≤ limits.maxDepth)
    (h : Swallows limits (depth + 1) .assignment words' t') (room : depth + 1 < limits.maxDepth) :
    Swallows limits depth .assignment (words ++ op :: words')
      (.node .assignExpr [t, .token op, t']) := by
  intro ts out last ends
  have kinds : ∀ o ∈ assignmentOperators, o.kind ∈ Kind.assignmentOperators := by decide
  have grips : ∀ o ∈ assignmentOperators, grip o.kind ≤ (Level.binary .range).rank := by decide
  -- the target is read as a choice that has no question
  have noQuestion : ∀ o ∈ assignmentOperators, o.kind ∉ [Kind.question] := by decide
  have left := target depth (op :: (words' ++ ts)) [] last (by simpa [Stops] using grips op known)
  have right := h ts [.token op, t] (some t.kind) ends
  rw [List.append_assoc]
  refine .group_one (.derivesThen (.call (derives_passed left ?question)) shallow (.yes ?operator
    (.wrap_of (.derivesThen .take (Nat.le_of_lt room) (.thenDerives (.nested room right) .parsed
      (Nat.le_of_lt room))) rfl)))
  case question => exact answer_next_other (noQuestion op known)
  case operator => exact (answer_parsed_and _ _).trans (answer_next_head (kinds op known))

/-- At the nesting limit words in parentheses are given up. -/
theorem group {inner : List Token} (plain : ∀ u ∈ inner, u.isTrivia = false)
    (balanced : levelBehind 0 inner = some 0) :
    Swallows limits limits.maxDepth (.binary .lowOr) (parenthesized inner)
      (.node .error ((parenthesized inner).map .token)) := by
  have begins : Begins .assignment (parenthesized inner) := ⟨lParen, _, rfl, by decide⟩
  -- The group is on the last nesting level, so the item that would nest it is given up.
  have swallowed : Swallows limits limits.maxDepth .negation (parenthesized inner)
      (.node .error ((parenthesized inner).map .token)) :=
    negation_of_nested (fun ts last ends => overflows_group rfl
      (groupLength_enclosed rfl rfl plain balanced ends)) begins (Nat.le_refl _)
  have passedOn : Swallows limits limits.maxDepth (.binary .lowAnd) _ _ :=
    swallowed.binary (Nat.le_refl _)
  exact passedOn.binary (Nat.le_refl _)

end Swallows

/-! ## Nests -/

/-- Words in that many parentheses. -/
def nestedIn : Nat → List Token → List Token
  | 0, words => words
  | k + 1, words => parenthesized (nestedIn k words)

/-- The tree of words in that many parentheses. -/
def nestTree : Nat → Tree → Tree
  | 0, t => t
  | k + 1, t => .node .listExpr [.token lParen, nestTree k t, .token rParen]

theorem begins_parenthesized {level : Level} (words : List Token) :
    Begins level (parenthesized words) :=
  ⟨lParen, _, rfl, rank_le_atom level⟩

/-- A nest begins as the words in it do, or with a parenthesis. -/
theorem begins_nestedIn {level : Level} {words : List Token} (begins : Begins level words)
    (k : Nat) : Begins level (nestedIn k words) := by
  cases k with
  | zero => exact begins
  | succ k => exact begins_parenthesized _

theorem nestedIn_add (k m : Nat) (words : List Token) :
    nestedIn (k + m) words = nestedIn k (nestedIn m words) := by
  induction k with
  | zero => rw [Nat.zero_add]; rfl
  | succ k ih => rw [Nat.succ_add, nestedIn, nestedIn, ih]

/-- A nest is its words between as many opening and closing parentheses. -/
theorem nestedIn_eq (k : Nat) (words : List Token) :
    nestedIn k words = List.replicate k lParen ++ (words ++ List.replicate k rParen) := by
  induction k with
  | zero => rw [nestedIn, List.replicate_zero, List.replicate_zero, List.append_nil]; rfl
  | succ k ih =>
    rw [nestedIn, ih, List.replicate_succ, List.replicate_succ' (n := k) (a := rParen)]
    simp [parenthesized]

/-- Parentheses around words keep them balanced. -/
theorem levelBehind_nestedIn {words : List Token} (h : levelBehind 0 words = some 0) (k : Nat) :
    levelBehind 0 (nestedIn k words) = some 0 := by
  induction k with
  | zero => exact h
  | succ k ih =>
    -- The words are balanced on any level, so they are inside one more parenthesis.
    have inside := levelBehind_add ih 1
    rw [Nat.zero_add] at inside
    show levelBehind 1 (nestedIn k words ++ [rParen]) = some 0
    rw [levelBehind_append, inside]
    rfl

theorem plain_nestedIn {words : List Token} (h : ∀ u ∈ words, u.isTrivia = false) (k : Nat) :
    ∀ u ∈ nestedIn k words, u.isTrivia = false := by
  induction k with
  | zero => exact h
  | succ k ih =>
    simp only [nestedIn, parenthesized, List.forall_mem_cons, List.forall_mem_append]
    exact ⟨rfl, ih, rfl, List.forall_mem_nil _⟩

/-- A nest is read down to the limit, and the rest of it is given up. -/
theorem Swallows.nest {limits : Limits} {depth k : Nat} {inner : List Token}
    (plain : ∀ u ∈ inner, u.isTrivia = false) (balanced : levelBehind 0 inner = some 0)
    (limit : depth + k = limits.maxDepth) :
    Swallows limits depth (.binary .lowOr) (nestedIn k (parenthesized inner))
      (nestTree k (.node .error ((parenthesized inner).map .token))) := by
  -- Induction on how far the nest is read.
  induction k generalizing depth with
  | zero =>
    obtain rfl : depth = limits.maxDepth := limit
    exact .group plain balanced
  | succ k ih =>
    -- Above the limit there is room for the parenthesis, and the rest nests one level deeper.
    have room : depth < limits.maxDepth := by omega
    have atom := (ih (by omega)).enclosed (begins_nestedIn (begins_parenthesized _) k) room
    exact atom.loosen (begins_parenthesized _) (rank_loosest_le _) room

/-! ## Statements -/

section Statements

variable {limits : Limits} {depth k : Nat} {inner ts : List Token} {d : Declaration}

/-- The words of a declaration whose first value is a nest. -/
def nestWords (d : Declaration) (k : Nat) (inner : List Token) : List Token :=
  d.words ++ equals :: nestedIn (k + 1) (parenthesized inner)

/-- The tree of a declaration whose first value is a nest of which the inner part is given up. -/
def nestStatement (d : Declaration) (k : Nat) (inner : List Token) : Tree :=
  .node .exprStatement
    [.node .assignExpr [d.tree, .token equals,
      nestTree (k + 1) (.node .error ((parenthesized inner).map .token))], .token semicolon]

/-- A nest as the first value of a declaration. -/
theorem Swallows.valued (plain : ∀ u ∈ inner, u.isTrivia = false)
    (balanced : levelBehind 0 inner = some 0) (limit : depth + (k + 2) = limits.maxDepth) :
    Swallows limits depth (.binary .lowOr) (nestWords d k inner)
      (.node .assignExpr [d.tree, .token equals,
        nestTree (k + 1) (.node .error ((parenthesized inner).map .token))]) := by
  -- One level is for the value of the assignment, and one for its own parentheses.
  have room : depth + 1 < limits.maxDepth := by omega
  have nest : Swallows limits (depth + 2) (.binary .lowOr) _ _ :=
    .nest (k := k) plain balanced (by omega)
  have value : Swallows limits (depth + 1) .assignment _ _ :=
    (nest.enclosed (begins_nestedIn (begins_parenthesized _) k) room).loosen
      (begins_parenthesized _) (by decide) room
  have target : Reads (.binary .range) d.words 0 d.tree := d.reads.loosen d.begins (by decide)
  exact (value.assign (by decide) target (by omega) room).loosen
    ((d.begins.mono (by decide)).append _) (by decide) (by omega)

/-- An expression with a semicolon is a statement. -/
theorem Swallows.statement {words : List Token} {t : Tree} {out : List Tree} {last : Option Kind}
    (h : Swallows limits depth (.binary .lowOr) words t) (begins : Begins (.binary .lowOr) words)
    (room : depth ≤ limits.maxDepth) :
    (grammar .statement).Overflows limits depth ⟨words ++ semicolon :: ts, out, last⟩
      ⟨ts, .node .exprStatement [t, .token semicolon] :: out, some .exprStatement⟩ := by
  have parsed := h (semicolon :: ts) [] last ⟨semicolon, ts, rfl, .inr rfl⟩
  have whole : (grammar .expressionStatement).Overflows limits depth
      ⟨words ++ semicolon :: ts, out, last⟩
      ⟨ts, .node .exprStatement [t, .token semicolon] :: out, some .exprStatement⟩ :=
    .node_of (.thenDerives (Rule.Overflows.call parsed)
      (.thenStay (.call (.no rfl .done)) (.yes rfl .take)) room) rfl
  -- The first word tells which kind of statement begins.
  obtain ⟨u, us, rfl, leading⟩ := begins
  exact statement_of_leading
    (P := fun rule => rule.Overflows limits depth ⟨u :: us ++ semicolon :: ts, out, last⟩ _) leading
    (fun _ _ _ missed h => .no (answer_of_misses missed) h)
    fun _ => .yes (answer_next_head (mem_expressionStarts leading)) whole.call

/-- A declaration with a nest is read as the first statement of a text, and what follows as if the
nest were any value. -/
theorem nestWords_overflow (body : List Stmt) (plain : ∀ u ∈ inner, u.isTrivia = false)
    (balanced : levelBehind 0 inner = some 0) (limit : k + 3 = limits.maxDepth)
    (room : nestingOf body ≤ limits.maxDepth) :
    ∃ last, (grammar (.statements false)).Overflows limits 0
      ⟨nestWords d k inner ++ semicolon :: wordsOf body, [], none⟩
      ⟨[], (nestStatement d k inner :: treesOf body).reverse, last⟩ := by
  have begins : Begins (.binary .lowOr) (nestWords d k inner) :=
    (d.begins.mono (by decide)).append _
  have shallow : 1 ≤ limits.maxDepth := by omega
  have valued : Swallows limits 1 (.binary .lowOr) (nestWords d k inner) _ :=
    .valued plain balanced (by omega)
  have first : (grammar .statement).Overflows limits 1
      ⟨nestWords d k inner ++ semicolon :: wordsOf body, [], none⟩
      ⟨wordsOf body, [nestStatement d k inner], some .exprStatement⟩ :=
    valued.statement begins shallow
  -- What follows the declaration is read as it is read on its own.
  obtain ⟨last, rest⟩ := gives_statements body .text 0 [nestStatement d k inner] none
  rw [List.append_nil] at rest
  refine ⟨last, ?_⟩
  rw [List.reverse_cons]
  refine .turn rfl ?_ rest (by omega)
  refine Rule.Tells.insist (Rule.Overflows.nested shallow first) ?_
  simp
  omega

/-- Tokens that begin with a declaration with a nest are parsed with one error, at the nesting
limit. -/
theorem parse_nestWords {maxDepth : Nat} {tokens : List Token} (body : List Stmt)
    (plain : ∀ u ∈ inner, u.isTrivia = false) (balanced : levelBehind 0 inner = some 0)
    (shown : tokens.filter (!·.isTrivia) = nestWords d k inner ++ semicolon :: wordsOf body)
    (limit : k + 3 = maxDepth) (room : nestingOf body ≤ maxDepth) :
    let parse := Parse.ofTokensWithin maxDepth tokens
    parse.errors.map (fun e => (e.problem, e.code)) = [(.tooDeep maxDepth, .e0205)] ∧
      parse.tree.bare = [.node .sourceFile (nestStatement d k inner :: treesOf body)] := by
  have fits : k + 3 = (Limits.forTokens maxDepth tokens).maxDepth := limit
  obtain ⟨last, overflow⟩ := nestWords_overflow (d := d) body plain balanced fits room
  rw [← shown] at overflow
  have parsed := Rule.Tells.parse overflow
  rw [List.reverse_reverse] at parsed
  exact ⟨parsed.1, parsed.2.2⟩

end Statements

end PerlOutline.Program
