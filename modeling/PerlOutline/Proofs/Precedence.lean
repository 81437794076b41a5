import PerlOutline.Proofs.Derivation
import PerlOutline.Proofs.Printing

/-!
# The grammar reads expressions as they are meant

Whatever expression is written, the grammar derives the tree of the expression from its words: the
levels of the grammar are those of the expressions, and each groups its operators as it should.

## Layers
- **Steps**: instructions whose outcome is one tree.
- **Grip and lead**: which words go on with what was read, and which words begin what.
- **`Reads`**: a goal reads words as a tree, wherever the words that follow let go of it.
- **Looser goals** read what tighter goals read.
- **Operators** of each level.
- **Expressions**, by induction.
-/

namespace PerlOutline.Grammar

open PerlOutline.Syntax (Kind Token Tree)

/-! ## Steps -/

namespace Derives

variable {depth deepest : Nat} {body : Rule} {ts us : List Token} {out inner children : List Tree}
  {last ended : Option Kind}

/-- The deepest level can be given in another way. -/
theorem reaching {level : Nat} {rule : Rule} {a b : Config} (h : Derives depth level rule a b)
    (same : level = deepest) : Derives depth deepest rule a b :=
  same ▸ h

/-- After the first rule the other one stays at its level. -/
theorem thenStay {first next : Rule} {a b c : Config} (h : Derives depth deepest first a b)
    (stays : Derives depth depth next b c) : Derives depth deepest (.andThen first next) a c :=
  (andThen h stays).reaching (Nat.max_eq_left h.depth_le)

/-- Before the other rule the first one stays at its level. -/
theorem stayThen {first next : Rule} {a b c : Config} (stays : Derives depth depth first a b)
    (h : Derives depth deepest next b c) : Derives depth deepest (.andThen first next) a c :=
  (andThen stays h).reaching (Nat.max_eq_right h.depth_le)

/-- A group that builds one tree. -/
theorem group_one {t : Tree} (h : Derives depth deepest body ⟨ts, [], last⟩ ⟨us, [t], ended⟩) :
    Derives depth deepest (.group body) ⟨ts, out, last⟩ ⟨us, t :: out, ended⟩ :=
  .group h

/-- A node of known children. -/
theorem node_of {kind : Kind} (h : Derives depth deepest body ⟨ts, [], last⟩ ⟨us, inner, ended⟩)
    (built : inner.reverse = children) :
    Derives depth deepest (.node kind body) ⟨ts, out, last⟩
      ⟨us, .node kind children :: out, some kind⟩ :=
  built ▸ .node h

/-- A scope of known children that becomes a node. -/
theorem wrap_of {kind : Kind} {a : Config} (h : Derives depth deepest body a ⟨us, inner, ended⟩)
    (built : inner.reverse = children) :
    Derives depth deepest (.wrap kind body) a ⟨us, [.node kind children], some kind⟩ :=
  built ▸ .wrap h

/-- What is required was parsed. -/
theorem parsed {problem : Syntax.Problem} {code : Syntax.ErrorCode} {k : Kind} :
    Derives depth depth (.required problem code) ⟨ts, out, some k⟩ ⟨ts, out, some k⟩ :=
  .yes rfl .done

/-- A token that is expected is taken. -/
theorem expected {t : Token} {kind : Kind} {code : Syntax.ErrorCode} (same : t.kind = kind) :
    Derives depth depth (.expect kind code) ⟨t :: ts, out, last⟩ ⟨ts, .token t :: out, last⟩ := by
  refine .yes ?_ .take
  simp [Config.answer, same]

/-- An operator is taken, and the operand after it is read one nesting level down. -/
theorem operandAfter {t : Token} {goal : Goal} {problem : Syntax.Problem}
    {code : Syntax.ErrorCode} {k : Kind}
    (h : Derives (depth + 1) deepest (grammar goal) ⟨ts, .token t :: out, last⟩
      ⟨us, inner, some k⟩) :
    Derives depth deepest (.andThen .take (.andThen (.nested goal) (.required problem code)))
      ⟨t :: ts, out, last⟩ ⟨us, inner, some k⟩ :=
  .stayThen .take (.thenStay (.nested h) .parsed)

end Derives

end PerlOutline.Grammar

namespace PerlOutline.Program

open PerlOutline.Syntax (Kind Token Tree)
open PerlOutline.Grammar

/-! ## Grip and lead -/

/-- The level above which what was read lets go of a word of this kind: an operator goes on with
what stands before it unless that was read at a tighter level. -/
def grip : Kind → Nat
  | .orKw | .xorKw => 2
  | .andKw => 3
  | .comma | .fatComma => 4
  | .question | .eq | .plusEq | .minusEq | .starEq | .slashEq | .dotEq | .pipePipeEq
  | .slashSlashEq | .ampAmpEq => 6
  | .dotDot => 7
  | .pipePipe | .slashSlash => 8
  | .ampAmp => 9
  | .pipe | .caret => 10
  | .amp => 11
  | .eqEq | .bangEq | .spaceship | .eqKw | .neKw | .cmpKw => 12
  | .lt | .gt | .ltEq | .gtEq | .ltKw | .gtKw | .leKw | .geKw => 13
  | .plus | .minus | .dot => 14
  | .star | .slash | .percent => 15
  | .eqTilde | .bangTilde => 16
  | .starStar => 18
  | .plusPlus | .minusMinus => 19
  | .arrow | .lBracket | .lBrace => 20
  | _ => 0

/-- The tightest level of an expression that begins with a word of this kind. -/
def lead : Kind → Nat
  | .notKw => 3
  | .bang | .tilde | .backslash | .minus | .plus => 16
  | .plusPlus | .minusMinus => 18
  | .scalarName | .number | .lParen | .myKw | .ourKw | .stateKw => 19
  | _ => 0

/-- The words let go of what was read before them at a level. -/
def Stops (level : Level) (ts : List Token) : Prop :=
  ∀ t ∈ ts.head?, grip t.kind ≤ level.rank

/-- The words begin an expression of a level. -/
def Begins (level : Level) (ts : List Token) : Prop :=
  ∃ t us, ts = t :: us ∧ level.rank ≤ lead t.kind

section Answers

variable {level : Level} {t : Token} {ts ws : List Token} {out : List Tree} {last : Option Kind}
  {kinds : List Kind}

/-- The next word is of one of the kinds. -/
theorem answer_next_head (member : t.kind ∈ kinds) :
    Config.answer ⟨t :: ts, out, last⟩ (.next kinds) = some true := by
  simp [Config.answer, member]

/-- The next word is of no such kind. -/
theorem answer_next_other (missing : t.kind ∉ kinds) :
    Config.answer ⟨t :: ts, out, last⟩ (.next kinds) = some false := by
  simp [Config.answer, missing]

/-- What lets go is no operator of the level. -/
theorem answer_next_of_stops (stops : Stops level ts) (grips : ∀ k ∈ kinds, level.rank < grip k) :
    Config.answer ⟨ts, out, last⟩ (.next kinds) = some false := by
  -- without a word the test fails at once
  cases ts with
  | nil => rfl
  | cons t ts =>
    apply answer_next_other
    intro member
    -- a word that lets go of the level grips too little to be one of the operators
    exact absurd (stops t rfl) (Nat.not_le.mpr (grips _ member))

/-- What begins a tight expression is no operator before a looser one. -/
theorem answer_next_of_begins (begins : Begins level ws)
    (leads : ∀ k ∈ kinds, lead k < level.rank) :
    Config.answer ⟨ws ++ ts, out, last⟩ (.next kinds) = some false := by
  obtain ⟨t, us, rfl, leading⟩ := begins
  apply answer_next_other
  intro member
  exact absurd leading (Nat.not_le.mpr (leads _ member))

/-- After something was parsed only the other test counts. -/
theorem answer_parsed_and (k : Kind) (test : Test) :
    Config.answer ⟨ts, out, some k⟩ (.both .parsed test) =
      Config.answer ⟨ts, out, some k⟩ test := by
  simp only [Config.answer]
  rfl

/-- A test and another one fail if the first fails. -/
theorem answer_and_of_fails {a b : Test}
    (fails : Config.answer ⟨ts, out, last⟩ a = some false) :
    Config.answer ⟨ts, out, last⟩ (.both a b) = some false := by
  simp only [Config.answer, fails]
  -- the other test need not even have an answer that is known
  cases Config.answer ⟨ts, out, last⟩ b with
  | none => rfl
  | some known => cases known <;> rfl

/-- One test or another fails if both fail. -/
theorem answer_or_of_fails {a b : Test} (failsFirst : Config.answer ⟨ts, out, last⟩ a = some false)
    (failsNext : Config.answer ⟨ts, out, last⟩ b = some false) :
    Config.answer ⟨ts, out, last⟩ (.either a b) = some false := by
  simp only [Config.answer, failsFirst, failsNext]

/-- What lets go of a looser level lets go of a tighter one. -/
theorem Stops.mono {looser : Level} (stops : Stops looser ts) (le : looser.rank ≤ level.rank) :
    Stops level ts :=
  fun t head => Nat.le_trans (stops t head) le

end Answers

/-! ## Reading -/

/-- The goal that reads expressions of a level. -/
def Level.goal : Level → Goal
  | .binary tier => .binary tier
  | .negation => .negation
  | .assignment => .assignment
  | .ternary => .ternary
  | .unary => .unary
  | .power => .power
  | .increment => .increment
  | .atom => .postfixChain

/-- Assignments and what is tighter is read one nesting level inside of an expression. -/
def Level.inside : Level → Nat
  | .binary .lowOr | .binary .lowAnd | .negation => 0
  | _ => 1

/-- No level is read more than one nesting level inside of an expression. -/
theorem Level.inside_le (level : Level) : level.inside ≤ 1 := by
  unfold inside
  split <;> decide

/-- The goal of a level reads the words as the tree where what follows lets go of them, and goes `n`
nesting levels down below the first one. -/
def Reads (level : Level) (words : List Token) (n : Nat) (t : Tree) : Prop :=
  ∀ depth ts out last, Stops level ts →
    Derives (depth + level.inside) (depth + 1 + n) (grammar level.goal) ⟨words ++ ts, out, last⟩
      ⟨ts, t :: out, some t.kind⟩

variable {n depth : Nat} {level : Level} {words ts : List Token} {t : Tree}
  {out : List Tree} {last : Option Kind}

/-! ## Looser goals -/

/-- The operators of a tier grip the tier and what is looser. -/
theorem grip_operators (tier : Tier) :
    ∀ k ∈ tier.operators, grip k = (Level.binary tier).rank + 1 := by
  cases tier <;> decide

/-- What stands between the operators of a tier is one step tighter. -/
theorem rank_tighter (tier : Tier) :
    (Level.binary tier).tighter.rank = (Level.binary tier).rank + 1 := by
  cases tier <;> rfl

/-- The tier reads its operands with the goal of the next tighter level. -/
theorem goal_tighter (tier : Tier) : (Level.binary tier).tighter.goal = tier.operand := by
  cases tier <;> rfl

/-- The operands of a tier are read at the nesting level of the tier. -/
theorem inside_tighter (tier : Tier) :
    (Level.binary tier).tighter.inside = (Level.binary tier).inside := by
  cases tier <;> rfl

/-- What a tier puts between its operators. -/
theorem Reads.operand {tier : Tier} (h : Reads (Level.binary tier).tighter words n t)
    (stops : Stops (Level.binary tier).tighter ts) :
    Derives (depth + (Level.binary tier).inside) (depth + 1 + n) (.call tier.operand)
      ⟨words ++ ts, out, last⟩ ⟨ts, t :: out, some t.kind⟩ := by
  have here := h depth ts out last stops
  rw [goal_tighter, inside_tighter] at here
  exact .call here

/-- A row of one operand is read by its tier. -/
theorem Reads.binary {tier : Tier} (h : Reads (Level.binary tier).tighter words n t) :
    Reads (.binary tier) words n t := by
  intro depth ts out last stops
  have tighter : Stops (Level.binary tier).tighter ts := by
    apply stops.mono
    rw [rank_tighter]
    exact Nat.le_succ _
  -- the operand is read, and the loop for further operators stops at once
  refine .group_one (.thenStay (h.operand tighter) (.yes rfl (.stop ?_)))
  apply answer_next_of_stops stops
  intro k member
  rw [grip_operators tier k member]
  exact Nat.lt_succ_self _

/-- What is no negation is read where one may stand. -/
theorem Reads.negation (h : Reads .assignment words n t) (begins : Begins .assignment words) :
    Reads .negation words n t := by
  intro depth ts out last stops
  have noNegation : Config.answer ⟨words ++ ts, out, last⟩ (.next [.notKw]) = some false :=
    answer_next_of_begins begins (by decide)
  -- no prefix stands in front, and no assignment operator behind
  refine .no noNegation (.call (.group_one (.thenStay (.no ?_ (.nested ?_)) (.no ?_ .done))))
  · exact answer_next_of_begins begins (by decide)
  · exact h depth ts [] last (stops.mono (by decide))
  · exact answer_next_of_stops stops (by decide)

/-- What a tighter goal reads is passed on where no operator of the looser goal follows. -/
theorem derives_passed {deepest : Nat} {goal : Goal} {kinds : List Kind} {more : Rule} {k : Kind}
    (h : Derives depth deepest (grammar goal) ⟨words, [], last⟩ ⟨ts, [t], some k⟩)
    (noOperator : Config.answer ⟨ts, [t], some k⟩ (.next kinds) = some false) :
    Derives depth deepest
      (.group (.andThen (.call goal) (.given (.both .parsed (.next kinds)) more)))
      ⟨words, out, last⟩ ⟨ts, t :: out, some k⟩ :=
  .group_one (.thenStay (.call h) (.no ((answer_parsed_and _ _).trans noOperator) .done))

/-- What is no assignment is read where one may stand. -/
theorem Reads.assignment (h : Reads .ternary words n t) : Reads .assignment words n t :=
  fun depth ts _ last stops => derives_passed (h depth ts [] last (stops.mono (by decide)))
    (answer_next_of_stops stops (by decide))

/-- What is no choice is read where one may stand. -/
theorem Reads.ternary (h : Reads (.binary .range) words n t) : Reads .ternary words n t :=
  fun depth ts _ last stops => derives_passed (h depth ts [] last (stops.mono (by decide)))
    (answer_next_of_stops stops (by decide))

/-- What has no prefix is read where one may stand. -/
theorem Reads.unary (h : Reads .power words n t) (begins : Begins .power words) :
    Reads .unary words n t := by
  intro depth ts out last stops
  have operand := h depth ts out last (stops.mono (by decide))
  exact .no (answer_next_of_begins begins (by decide)) (.call operand)

/-- What has no exponent is read where one may stand. -/
theorem Reads.power (h : Reads .increment words n t) : Reads .power words n t :=
  fun depth ts _ last stops => derives_passed (h depth ts [] last (stops.mono (by decide)))
    (answer_next_of_stops stops (by decide))

/-- What is not stepped is read where a step may stand. -/
theorem Reads.increment (h : Reads .atom words n t) (begins : Begins .atom words) :
    Reads .increment words n t := by
  intro depth ts out last stops
  have operand := h depth ts [] last (stops.mono (by decide))
  -- a step could stand on either side: in front by how the words begin, behind by what follows
  exact .no (answer_next_of_begins begins (by decide))
    (derives_passed operand (answer_next_of_stops stops (by decide)))

/-- The levels from the loosest to the tightest. -/
def Level.all : List Level :=
  [.binary .lowOr, .binary .lowAnd, .negation, .assignment, .ternary, .binary .range,
   .binary .logicalOr, .binary .logicalAnd, .binary .bitwiseOr, .binary .bitwiseAnd,
   .binary .equality, .binary .relational, .binary .additive, .binary .multiplicative,
   .binary .binding, .unary, .power, .increment, .atom]

/-- The levels are listed by their rank. -/
theorem getElem?_all (level : Level) : Level.all[level.rank - 1]? = some level := by
  cases level with
  | binary tier => cases tier <;> rfl
  | _ => rfl

/-- A level is known by its rank. -/
theorem eq_of_rank {a b : Level} (same : a.rank = b.rank) : a = b := by
  have := getElem?_all a
  rw [same, getElem?_all b] at this
  exact (Option.some.inj this).symm

/-- No level is tighter than that of an atom. -/
theorem rank_le_atom (level : Level) : level.rank ≤ Level.atom.rank := by
  cases level with
  | binary tier => cases tier <;> decide
  | _ => decide

/-- No level is looser than that of the operator `or`. -/
theorem rank_loosest_le (level : Level) : (Level.binary .lowOr).rank ≤ level.rank := by
  cases level with
  | binary tier => cases tier <;> decide
  | _ => decide

/-- The next tighter level has the next rank. -/
theorem rank_tighter_of_lt {level : Level} (below : level.rank < Level.atom.rank) :
    level.tighter.rank = level.rank + 1 := by
  cases level with
  | binary tier => exact rank_tighter tier
  | atom => exact absurd below (Nat.lt_irrefl _)
  | _ => rfl

/-- What begins an expression of a level begins one of each looser level. -/
theorem Begins.mono {looser : Level} (begins : Begins level words) (le : looser.rank ≤ level.rank) :
    Begins looser words :=
  begins.imp fun _ => Exists.imp fun _ h => ⟨h.1, Nat.le_trans le h.2⟩

/-- A goal reads what the next tighter goal reads. -/
theorem Reads.looser {looser : Level} (h : Reads looser.tighter words n t)
    (begins : Begins looser.tighter words) : Reads looser words n t := by
  cases looser with
  | binary tier => exact h.binary
  | negation => exact h.negation begins
  | assignment => exact h.assignment
  | ternary => exact h.ternary
  | unary => exact h.unary begins
  | power => exact h.power
  | increment => exact h.increment begins
  | atom => exact h

/-- What goes on from a level to the next looser one holds of all looser levels. -/
theorem loosen_induction {P : Level → Prop} {looser : Level} (begins : Begins level words)
    (step : ∀ looser : Level, Begins looser.tighter words → P looser.tighter → P looser)
    (h : P level) (le : looser.rank ≤ level.rank) : P looser := by
  -- Induction on the number of levels between the two.
  generalize distance : level.rank - looser.rank = k
  induction k generalizing looser with
  | zero =>
    obtain rfl : looser = level := eq_of_rank (by omega)
    exact h
  | succ k ih =>
    -- there are levels in between, so the looser one is no atom
    have below : looser.rank < Level.atom.rank := by
      have := rank_le_atom level
      omega
    have next := rank_tighter_of_lt below
    have between : looser.tighter.rank ≤ level.rank := by omega
    exact step looser (begins.mono between) (ih between (by omega))

/-- A goal reads what tighter goals read. -/
theorem Reads.loosen {looser : Level} (h : Reads level words n t) (begins : Begins level words)
    (le : looser.rank ≤ level.rank) : Reads looser words n t :=
  loosen_induction (P := fun level => Reads level words n t) begins
    (fun _ begins h => h.looser begins) h le

/-! ## Atoms -/

/-- A term is read as a chain of one, where no link follows. -/
theorem reads_term
    (h : ∀ depth ts last, Derives (depth + 1) (depth + 1 + n) (grammar .term)
      ⟨words ++ ts, [], last⟩ ⟨ts, [t], some t.kind⟩) :
    Reads .atom words n t := by
  intro depth ts out last stops
  have noArrow : ∀ out last, Config.answer ⟨ts, out, last⟩ (.next [.arrow]) = some false :=
    fun _ _ => answer_next_of_stops stops (by decide)
  -- the term is read, and neither an arrow nor a subscript goes on with it
  refine .group_one (.thenStay (.call (h depth ts last)) (.yes rfl
    (.stayThen (.stop ?_) (.no (noArrow _ _) .done))))
  apply answer_or_of_fails
  · exact answer_and_of_fails (noArrow _ _)
  · exact answer_and_of_fails (answer_next_of_stops stops (by decide))

/-- A scalar is read as an atom. -/
theorem reads_scalar (name : Name) :
    Reads .atom [name.scalar] 0 (.node .scalarVariable [.token name.scalar]) := by
  apply reads_term
  intro depth ts last
  have taken : Derives (depth + 1) (depth + 1) (grammar .plainVariable)
      ⟨name.scalar :: ts, [], last⟩
      ⟨ts, [.node .scalarVariable [.token name.scalar]], some .scalarVariable⟩ :=
    .no rfl (.no rfl (.no rfl (.node_of .take rfl)))
  exact .yes rfl (.call taken)

/-- A number is read as an atom. -/
theorem reads_integer (digits : Digits) :
    Reads .atom [digits.number] 0 (.node .literal [.token digits.number]) := by
  apply reads_term
  intro depth ts last
  exact .no rfl (.no rfl (.yes rfl (.node_of .take rfl)))

/-- What is in parentheses is an atom. -/
theorem reads_parenthesized (h : Reads (.binary .lowOr) words n t)
    (begins : Begins (.binary .lowOr) words) :
    Reads .atom (lParen :: (words ++ [rParen])) (n + 1)
      (.node .listExpr [.token lParen, t, .token rParen]) := by
  apply reads_term
  intro depth ts last
  -- inside of the parentheses the loosest level is wanted, and the closing one lets go of it
  have inner := h (depth + 1) (rParen :: ts) [.token lParen] last (by simp [Stops]; decide)
  rw [List.cons_append, List.append_assoc]
  refine .no rfl (.no rfl (.no rfl (.yes rfl (.reaching (.node_of (.stayThen .take
    (.thenStay (.no ?_ (.call inner)) (.expected rfl))) rfl) (by omega)))))
  exact answer_next_of_begins begins (by decide)

/-! ## Operators -/

section Operators

variable {words' words'' : List Token} {n' n'' : Nat} {t' t'' : Tree} {op : Token}

/-- There is no operator of which only the level below lets go where the right operand is looser. -/
theorem grip_gaps (k : Kind) : grip k ≠ Level.ternary.rank ∧ grip k ≠ Level.power.rank := by
  cases k <;> decide

/-- What lets go of a choice lets go of an assignment in its last branch. -/
theorem Stops.lastBranch (stops : Stops .ternary ts) : Stops .assignment ts := by
  intro t head
  -- no word has this rank for its grip, so what lets go of a choice lets go one level looser
  have := stops t head
  have := (grip_gaps t.kind).1
  simp only [Level.rank] at *
  omega

/-- What lets go of a power lets go of a prefixed exponent. -/
theorem Stops.exponent (stops : Stops .power ts) : Stops .unary ts := by
  intro t head
  -- as it is with the rank of a power
  have := stops t head
  have := (grip_gaps t.kind).2
  simp only [Level.rank] at *
  omega

/-- A step in front of an operand, which is read one nesting level down. -/
theorem reads_stepBefore (known : op ∈ stepOperators) (h : Reads .increment words n t) :
    Reads .increment (op :: words) (n + 1) (.node .op3PrefixExpr [.token op, t]) := by
  intro depth ts out last stops
  have kinds : ∀ o ∈ stepOperators, o.kind ∈ [Kind.plusPlus, .minusMinus] := by decide
  have operand := h (depth + 1) ts [.token op] last stops
  exact .yes (answer_next_head (kinds op known))
    (.reaching (.node_of (.operandAfter operand) rfl) (by omega))

/-- A step behind an operand. It stays at the nesting level of the operand. -/
theorem reads_stepAfter (known : op ∈ stepOperators) (h : Reads .atom words n t)
    (begins : Begins .atom words) :
    Reads .increment (words ++ [op]) n (.node .op3SuffixExpr [t, .token op]) := by
  intro depth ts out last stops
  have kinds : ∀ o ∈ stepOperators, o.kind ∈ [Kind.plusPlus, .minusMinus] := by decide
  have grips : ∀ o ∈ stepOperators, grip o.kind ≤ Level.atom.rank := by decide
  -- the step itself lets go of an atom, so the operand ends before it
  have operand := h depth (op :: ts) [] last (by simpa [Stops] using grips op known)
  rw [List.append_assoc]
  refine .no (answer_next_of_begins begins (by decide))
    (.group_one (.thenStay (.call operand) (.yes ?_ (.wrap_of .take rfl))))
  rw [answer_parsed_and]
  exact answer_next_head (kinds op known)

/-- A power: its exponent may have a prefix, which its base may not. -/
theorem reads_power (h : Reads .increment words n t) (h' : Reads .unary words' n' t') :
    Reads .power (words ++ powerOperator :: words') (max n (n' + 1))
      (.node .binaryExpr [t, .token powerOperator, t']) := by
  intro depth ts out last stops
  -- the power operator lets go of the base
  have base := h depth (powerOperator :: (words' ++ ts)) [] last (by simp [Stops]; decide)
  have exponent := h' (depth + 1) ts [.token powerOperator, t] (some t.kind) stops.exponent
  rw [List.append_assoc]
  refine .group_one (.reaching (.andThen (.call base) (.yes ?_
    (.wrap_of (.operandAfter exponent) rfl))) (by omega))
  rw [answer_parsed_and]
  rfl

/-- A prefix in front of an operand of its own level. -/
theorem reads_unary (known : op ∈ unaryOperators) (h : Reads .unary words n t) :
    Reads .unary (op :: words) (n + 1) (.node .unaryExpr [.token op, t]) := by
  intro depth ts out last stops
  have kinds : ∀ o ∈ unaryOperators,
      o.kind ∈ [Kind.bang, .tilde, .backslash, .minus, .plus] := by decide
  have operand := h (depth + 1) ts [.token op] last stops
  exact .yes (answer_next_head (kinds op known))
    (.reaching (.node_of (.operandAfter operand) rfl) (by omega))

/-- A negation of what may be negated itself. -/
theorem reads_negation (h : Reads .negation words n t) :
    Reads .negation (negationOperator :: words) (n + 1)
      (.node .unaryExpr [.token negationOperator, t]) := by
  intro depth ts out last stops
  have operand := h (depth + 1) ts [.token negationOperator] last stops
  exact .yes rfl (.reaching (.node_of (.operandAfter operand) rfl) (by omega))

/-- An assignment, whose value may be an assignment itself. -/
theorem reads_assign (known : op ∈ assignmentOperators) (h : Reads (.binary .range) words n t)
    (h' : Reads .assignment words' n' t') :
    Reads .assignment (words ++ op :: words') (max n (n' + 1))
      (.node .assignExpr [t, .token op, t']) := by
  intro depth ts out last stops
  have kinds : ∀ o ∈ assignmentOperators, o.kind ∈ Kind.assignmentOperators := by decide
  have grips : ∀ o ∈ assignmentOperators, grip o.kind ≤ (Level.binary .range).rank := by decide
  -- the target is read as a choice that has no question
  have noQuestion : ∀ o ∈ assignmentOperators, o.kind ∉ [Kind.question] := by decide
  have target := h depth (op :: (words' ++ ts)) [] last
    (by simpa [Stops] using grips op known)
  have value := h' (depth + 1) ts [.token op, t] (some t.kind) stops
  rw [List.append_assoc]
  -- the node is wrapped around the target after the operator was seen
  refine .group_one (.reaching (.andThen
    (.call (derives_passed target (answer_next_other (noQuestion op known))))
    (.yes ?_ (.wrap_of (.operandAfter value) rfl))) (by omega))
  rw [answer_parsed_and]
  exact answer_next_head (kinds op known)

/-- A choice: its condition is tight, and both branches are as loose as assignments. -/
theorem reads_ternary (h : Reads (.binary .range) words n t)
    (h' : Reads .assignment words' n' t') (h'' : Reads .assignment words'' n'' t'') :
    Reads .ternary (words ++ question :: (words' ++ colon :: words''))
      (max n (max n' n'' + 1))
      (.node .ternaryExpr [t, .token question, t', .token colon, t'']) := by
  intro depth ts out last stops
  -- each part ends at the word behind it, and the last one where the whole choice does
  have condition := h depth (question :: (words' ++ colon :: (words'' ++ ts))) [] last
    (by simp [Stops]; decide)
  have yes := h' (depth + 1) (colon :: (words'' ++ ts)) [.token question, t] (some t.kind)
    (by simp [Stops]; decide)
  have no := h'' (depth + 1) ts [.token colon, t', .token question, t] (some t'.kind)
    stops.lastBranch
  simp only [List.append_assoc, List.cons_append]
  refine .group_one (.reaching (.andThen (.call condition) (.yes ?_ (.wrap_of (.stayThen .take
    (.andThen (.nested yes) (.stayThen .parsed (.stayThen (.expected rfl)
      (.thenStay (.nested no) .parsed))))) rfl))) (by omega))
  rw [answer_parsed_and]
  rfl

end Operators

/-! ## Rows of operands -/

/-- The turns that a tier takes after its first operand. -/
def turns (tier : Tier) : Rule :=
  .loop (.next tier.operators) <| .wrap .binaryExpr <| Rule.steps
    [.take,
     .call tier.operand,
     Rule.required .missingOperand .e0402]

/-- The first operand of a tier and the turns after it: what the rule of the tier groups. -/
def row (tier : Tier) : Rule :=
  .andThen (.call tier.operand) (.given .parsed (turns tier))

/-- Words are the beginning of a row: what the turns after them make of their tree, the row makes of
them. So the turns group to the left. -/
def Rows (tier : Tier) (words : List Token) (n : Nat) (t : Tree) : Prop :=
  ∀ depth deepest ts last c, Stops (Level.binary tier).tighter ts →
    Derives (depth + (Level.binary tier).inside) deepest (turns tier) ⟨ts, [t], some t.kind⟩ c →
    Derives (depth + (Level.binary tier).inside) (max (depth + 1 + n) deepest) (row tier)
      ⟨words ++ ts, [], last⟩ c

section Rows

variable {tier : Tier} {words' : List Token} {n' : Nat} {t' : Tree} {op : Token}

/-- One operand begins a row. -/
theorem Reads.rows (h : Reads (Level.binary tier).tighter words n t) :
    Rows tier words n t := by
  intro depth deepest ts last c stops later
  exact .andThen (h.operand stops) (.yes rfl later)

/-- An operator and an operand go on with a row. -/
theorem Rows.more (h : Rows tier words n t)
    (h' : Reads (Level.binary tier).tighter words' n' t') (known : op.kind ∈ tier.operators) :
    Rows tier (words ++ op :: words') (max n n') (.node .binaryExpr [t, .token op, t']) := by
  intro depth deepest ts last c stops later
  -- the next operator of the tier lets go of the tighter operand in front of it
  have lets : Stops (Level.binary tier).tighter (op :: (words' ++ ts)) := by
    have grips := grip_operators tier op.kind known
    rw [← rank_tighter] at grips
    simp [Stops, grips]
  have operand : Derives (depth + (Level.binary tier).inside) (depth + 1 + n')
      (.call tier.operand) ⟨words' ++ ts, [.token op, t], some t.kind⟩
      ⟨ts, [t', .token op, t], some t'.kind⟩ :=
    h'.operand stops
  -- with this operator the loop takes one more turn, and then goes on as it was assumed to
  have turn : Derives (depth + (Level.binary tier).inside) (max (depth + 1 + n') deepest)
      (turns tier) ⟨op :: (words' ++ ts), [t], some t.kind⟩ c :=
    .turn (answer_next_head known)
      (.wrap_of (.stayThen .take (.thenStay operand .parsed)) rfl) later
  rw [List.append_assoc]
  exact (h depth _ _ last c lets turn).reaching (by omega)

/-- A row is read where no operator of its tier follows. -/
theorem Rows.reads (h : Rows tier words n t) : Reads (.binary tier) words n t := by
  intro depth ts out last stops
  -- no operator of the tier follows, so none of the next tighter level does either
  have tighter : Stops (Level.binary tier).tighter ts := by
    apply stops.mono
    rw [rank_tighter]
    exact Nat.le_succ _
  have inside := (Level.binary tier).inside_le
  -- the loop stops where the row ends
  refine .group_one (.reaching (h depth _ ts last _ tighter (.stop ?_)) (by omega))
  apply answer_next_of_stops stops
  intro k member
  rw [grip_operators tier k member]
  exact Nat.lt_succ_self _

end Rows

/-! ## Expressions -/

/-- The tree of what is in parentheses where they are asked for. -/
def enclosed (least actual : Level) (t : Tree) : Tree :=
  if least.rank ≤ actual.rank then t else .node .listExpr [.token lParen, t, .token rParen]

namespace Expr

/-- The tree of an expression. -/
def tree : Expr → Tree
  | .scalar name => .node .scalarVariable [.token name.scalar]
  | .integer digits => .node .literal [.token digits.number]
  | .stepBefore op e =>
    .node .op3PrefixExpr [.token op.val, enclosed .increment e.level e.tree]
  | .stepAfter op e => .node .op3SuffixExpr [enclosed .atom e.level e.tree, .token op.val]
  | .power b e => .node .binaryExpr
      [enclosed .increment b.level b.tree, .token powerOperator, enclosed .unary e.level e.tree]
  | .unary op e => .node .unaryExpr [.token op.val, enclosed .unary e.level e.tree]
  | .binary op l r => .node .binaryExpr
      [enclosed (.binary op.val.tier) l.level l.tree, .token op.val.token,
       enclosed (Level.binary op.val.tier).tighter r.level r.tree]
  | .ternary c y n => .node .ternaryExpr
      [enclosed (.binary .range) c.level c.tree, .token question,
       enclosed .assignment y.level y.tree, .token colon, enclosed .assignment n.level n.tree]
  | .assign op t v => .node .assignExpr
      [enclosed (.binary .range) t.level t.tree, .token op.val,
       enclosed .assignment v.level v.tree]
  | .negation e => .node .unaryExpr [.token negationOperator, enclosed .negation e.level e.tree]

end Expr

/-- What begins an expression begins it whatever follows. -/
theorem Begins.append (begins : Begins level words) (more : List Token) :
    Begins level (words ++ more) := by
  obtain ⟨t, us, rfl, leading⟩ := begins
  exact ⟨t, us ++ more, rfl, leading⟩

/-- What is enclosed begins as the level asks: by itself, or with a parenthesis. -/
theorem begins_enclose (least : Level) {actual : Level} (begins : Begins actual words) :
    Begins least (enclose least actual words) := by
  unfold enclose
  split
  · -- it is tight enough as it is
    next tight => exact begins.mono tight
  · exact ⟨lParen, words ++ [rParen], rfl, rank_le_atom least⟩

/-- An expression begins as its level wants it. -/
theorem Expr.begins (e : Expr) : Begins e.level e.words := by
  induction e with
  | scalar name => exact ⟨_, _, rfl, Nat.le_refl _⟩
  | integer digits => exact ⟨_, _, rfl, Nat.le_refl _⟩
  | stepBefore op e ih =>
    have leads : ∀ o ∈ stepOperators, Level.increment.rank ≤ lead o.kind := by decide
    exact ⟨_, _, rfl, leads _ op.property⟩
  | unary op e ih =>
    have leads : ∀ o ∈ unaryOperators, Level.unary.rank ≤ lead o.kind := by decide
    exact ⟨_, _, rfl, leads _ op.property⟩
  | negation e ih => exact ⟨_, _, rfl, Nat.le_refl _⟩
  -- The others begin with their first operand.
  | stepAfter op e ih =>
    have first : Begins .increment (enclose .atom e.level e.words) :=
      (begins_enclose .atom ih).mono (by decide)
    exact first.append _
  | power b e ihBase _ =>
    have first : Begins .power (enclose .increment b.level b.words) :=
      (begins_enclose .increment ihBase).mono (by decide)
    exact first.append _
  | binary op l r ihLeft _ => exact (begins_enclose (.binary op.val.tier) ihLeft).append _
  | ternary c y n ihCondition _ _ =>
    have first : Begins .ternary (enclose (.binary .range) c.level c.words) :=
      (begins_enclose (.binary .range) ihCondition).mono (by decide)
    exact first.append _
  | assign op t v ihTarget _ =>
    have first : Begins .assignment (enclose (.binary .range) t.level t.words) :=
      (begins_enclose (.binary .range) ihTarget).mono (by decide)
    exact first.append _

/-- An expression is read at its level, and begins a row if its level is a tier. -/
structure Expr.IsRead (e : Expr) : Prop where
  reads : Reads e.level e.words e.nesting e.tree
  rows : ∀ tier, e.level = .binary tier → Rows tier e.words e.nesting e.tree

namespace Expr.IsRead

variable {e : Expr}

/-- In parentheses, where they are asked for, an expression is read at every level. -/
theorem enclosed (h : e.IsRead) (least : Level) :
    Reads least (enclose least e.level e.words) (enclosedNesting least e.level e.nesting)
      (enclosed least e.level e.tree) := by
  unfold enclose enclosedNesting Program.enclosed
  split
  · next tight => exact h.reads.loosen e.begins tight
  · -- in parentheses everything may stand, and so the loosest goal reads it
    have lowest := rank_loosest_le e.level
    have inner := h.reads.loosen e.begins lowest
    exact (reads_parenthesized inner (e.begins.mono lowest)).loosen
      ⟨lParen, _, rfl, Nat.le_refl _⟩ (rank_le_atom least)

/-- On the left of its operator an expression begins a row of the tier, enclosed if it must be. -/
theorem enclosedRows (h : e.IsRead) (tier : Tier) :
    Rows tier (enclose (.binary tier) e.level e.words)
      (enclosedNesting (.binary tier) e.level e.nesting)
      (Program.enclosed (.binary tier) e.level e.tree) := by
  by_cases same : e.level = .binary tier
  · -- a row goes on
    have tight : (Level.binary tier).rank ≤ e.level.rank := Nat.le_of_eq (by rw [same])
    simp only [enclose, enclosedNesting, Program.enclosed, if_pos tight]
    exact h.rows tier same
  · -- an operand that is no row of this tier begins one
    apply Reads.rows
    have rank := rank_tighter tier
    have other : e.level.rank ≠ (Level.binary tier).rank := fun h => same (eq_of_rank h)
    -- Otherwise the next tighter level asks for the same parentheses.
    have alike : (Level.binary tier).rank ≤ e.level.rank ↔
        (Level.binary tier).tighter.rank ≤ e.level.rank := by omega
    have operand := h.enclosed (Level.binary tier).tighter
    simpa only [enclose, enclosedNesting, Program.enclosed, alike] using operand

end Expr.IsRead

/-- The grammar reads every expression as its tree. -/
theorem Expr.isRead (e : Expr) : e.IsRead := by
  induction e with
  | scalar name => exact ⟨reads_scalar name, nofun⟩
  | integer digits => exact ⟨reads_integer digits, nofun⟩
  | stepBefore op e ih => exact ⟨reads_stepBefore op.property (ih.enclosed .increment), nofun⟩
  | stepAfter op e ih =>
    exact ⟨reads_stepAfter op.property (ih.enclosed .atom) (begins_enclose .atom e.begins), nofun⟩
  | power b e ihBase ihExponent =>
    exact ⟨reads_power (ihBase.enclosed .increment) (ihExponent.enclosed .unary), nofun⟩
  | unary op e ih => exact ⟨reads_unary op.property (ih.enclosed .unary), nofun⟩
  | binary op l r ihLeft ihRight =>
    have kinds : ∀ o ∈ binaryOperators, o.token.kind ∈ o.tier.operators := by decide
    -- the left operand begins a row, the operator and the right operand go on with it
    have rows := (ihLeft.enclosedRows op.val.tier).more
      (ihRight.enclosed (Level.binary op.val.tier).tighter) (kinds _ op.property)
    refine ⟨rows.reads, ?_⟩
    rintro tier ⟨⟩
    exact rows
  | ternary c y n ihCondition ihYes ihNo =>
    exact ⟨reads_ternary (ihCondition.enclosed _) (ihYes.enclosed .assignment)
      (ihNo.enclosed .assignment), nofun⟩
  | assign op t v ihTarget ihValue =>
    exact ⟨reads_assign op.property (ihTarget.enclosed _) (ihValue.enclosed .assignment), nofun⟩
  | negation e ih => exact ⟨reads_negation (ih.enclosed .negation), nofun⟩

end PerlOutline.Program
