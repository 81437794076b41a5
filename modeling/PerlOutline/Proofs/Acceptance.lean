import PerlOutline.Proofs.Precedence
import PerlOutline.Proofs.Programs

/-!
# The grammar accepts programs

Whatever program is written, the grammar derives its tree from its words.

## Layers
- **`Gives`**: a rule reads words and adds trees, wherever it stands.
- **Trees** of statements.
- **Expressions and declarations** as parts of statements.
- **Statements**, one by one.
- **Programs**, by induction.
-/

namespace PerlOutline.Grammar

open PerlOutline.Syntax (Kind Token Tree)

/-! ## What rules give -/

/-- Before `ts` the rule reads the words and adds the trees, wherever it stands, and it goes `n`
nesting levels down. -/
def Gives (n : Nat) (rule : Rule) (words ts : List Token) (trees : List Tree) : Prop :=
  ∀ depth out last, ∃ ended,
    Derives depth (depth + n) rule ⟨words ++ ts, out, last⟩ ⟨ts, trees.reverse ++ out, ended⟩

namespace Gives

variable {n n' : Nat} {rule first next body other : Rule} {test : Test} {goal : Goal}
  {words words' ts : List Token} {trees trees' : List Tree} {t : Token} {u : Tree}

/-- The number of levels can be given in another way. -/
theorem reaching (h : Gives n rule words ts trees) (same : n = n') :
    Gives n' rule words ts trees :=
  same ▸ h

/-- Nothing is read. -/
theorem done : Gives 0 .done [] ts [] :=
  fun _ _ last => ⟨last, .done⟩

/-- A word is taken as it is. -/
theorem take : Gives 0 .take [t] ts [.token t] :=
  fun _ _ last => ⟨last, .take⟩

/-- The word that is expected is there. -/
theorem expect {kind : Kind} {code : Syntax.ErrorCode} (same : t.kind = kind) :
    Gives 0 (.expect kind code) [t] ts [.token t] :=
  fun _ _ last => ⟨last, .expected same⟩

/-- One after the other. -/
theorem andThen (hfirst : Gives n first words (words' ++ ts) trees)
    (hnext : Gives n' next words' ts trees') :
    Gives (max n n') (.andThen first next) (words ++ words') ts (trees ++ trees') := by
  intro depth out last
  obtain ⟨middle, before⟩ := hfirst depth out last
  obtain ⟨ended, after⟩ := hnext depth (trees.reverse ++ out) middle
  refine ⟨ended, ?_⟩
  -- the trees are kept in reverse, so those of the second rule stand in front
  rw [List.append_assoc, List.reverse_append, List.append_assoc]
  exact (Derives.andThen before after).reaching (Nat.add_max_add_left ..)

/-- One tree, and then the others. -/
theorem part (hfirst : Gives n first words (words' ++ ts) [u])
    (hnext : Gives n' next words' ts trees) :
    Gives (max n n') (.andThen first next) (words ++ words') ts (u :: trees) :=
  andThen hfirst hnext

/-- One word, and then the others. -/
theorem cons (hfirst : Gives 0 first [t] (words ++ ts) [u])
    (hnext : Gives n next words ts trees) :
    Gives n (.andThen first next) (t :: words) ts (u :: trees) :=
  (andThen hfirst hnext).reaching (Nat.zero_max n)

/-- What reads nothing can be passed. -/
theorem skip (hfirst : Gives 0 first [] (words ++ ts) [])
    (hnext : Gives n next words ts trees) :
    Gives n (.andThen first next) words ts trees :=
  (andThen hfirst hnext).reaching (Nat.zero_max n)

/-- One word stands at the end. -/
theorem snoc (hfirst : Gives n first words ([t] ++ ts) trees) (hnext : Gives 0 next [t] ts [u]) :
    Gives n (.andThen first next) (words ++ [t]) ts (trees ++ [u]) :=
  (andThen hfirst hnext).reaching (Nat.max_zero n)

/-- One tree, and one word at the end. -/
theorem pair {v : Tree} (hfirst : Gives n first words ([t] ++ ts) [u])
    (hnext : Gives 0 next [t] ts [v]) : Gives n (.andThen first next) (words ++ [t]) ts [u, v] :=
  snoc hfirst hnext

/-- A branch whose test holds is its first rule. -/
theorem yes (answered : ∀ out last, Config.answer ⟨words ++ ts, out, last⟩ test = some true)
    (h : Gives n rule words ts trees) :
    Gives n (.branch test rule other) words ts trees :=
  fun depth out last => (h depth out last).imp fun _ => .yes (answered out last)

/-- A branch whose test fails is its second rule. -/
theorem no (answered : ∀ out last, Config.answer ⟨words ++ ts, out, last⟩ test = some false)
    (h : Gives n other words ts trees) :
    Gives n (.branch test rule other) words ts trees :=
  fun depth out last => (h depth out last).imp fun _ => .no (answered out last)

/-- A loop whose test fails reads nothing. -/
theorem stop (answered : ∀ out last, Config.answer ⟨ts, out, last⟩ test = some false) :
    Gives 0 (.loop test body) [] ts [] :=
  fun _ out last => ⟨last, .stop (answered out last)⟩

/-- A loop whose test holds reads its body, and then goes on. -/
theorem turn
    (answered : ∀ out last,
      Config.answer ⟨words ++ (words' ++ ts), out, last⟩ test = some true)
    (hbody : Gives n body words (words' ++ ts) trees)
    (hloop : Gives n' (.loop test body) words' ts trees') :
    Gives (max n n') (.loop test body) (words ++ words') ts (trees ++ trees') := by
  intro depth out last
  obtain ⟨middle, before⟩ := hbody depth out last
  obtain ⟨ended, after⟩ := hloop depth (trees.reverse ++ out) middle
  refine ⟨ended, ?_⟩
  -- the trees of the first turn lie below those of the others
  rw [List.append_assoc, List.reverse_append, List.append_assoc]
  exact (Derives.turn (answered out last) before after).reaching (Nat.add_max_add_left ..)

/-- What must move on is read as it is where it reads a word. -/
theorem insist (h : Gives n body words ts trees) (moved : words ≠ []) :
    Gives n (.insist body) words ts trees := by
  intro depth out last
  obtain ⟨ended, derived⟩ := h depth out last
  refine ⟨none, .insist derived ?_⟩
  -- the words that were read are what the rest of the input is shorter by
  have := List.length_pos_iff.mpr moved
  simp only [List.length_append]
  omega

/-- A node is also the expression that was parsed last. -/
theorem derives_node {kind : Kind} {depth : Nat} {out : List Tree} {last : Option Kind}
    (h : Gives n body words ts trees) :
    Derives depth (depth + n) (.node kind body) ⟨words ++ ts, out, last⟩
      ⟨ts, .node kind trees :: out, some kind⟩ := by
  obtain ⟨ended, derived⟩ := h depth [] last
  apply derived.node_of
  rw [List.append_nil, List.reverse_reverse]

/-- The trees become the children of a node. -/
theorem node {kind : Kind} (h : Gives n body words ts trees) :
    Gives n (.node kind body) words ts [.node kind trees] :=
  fun _ _ _ => ⟨some kind, h.derives_node⟩

/-- The rule of a goal is read where the goal is called. -/
theorem call (h : Gives n (grammar goal) words ts trees) :
    Gives n (.call goal) words ts trees :=
  fun depth out last => (h depth out last).imp fun _ => .call

/-- The rule of a goal is read one level further down where the goal nests. -/
theorem nested (h : Gives n (grammar goal) words ts trees) :
    Gives (n + 1) (.nested goal) words ts trees :=
  fun depth out last => (h (depth + 1) out last).imp fun _ derived =>
    .nested (derived.reaching (by omega))

end Gives

end PerlOutline.Grammar

namespace PerlOutline.Program

open PerlOutline.Syntax (Kind Token Tree Parse tokenize)
open PerlOutline.Grammar

/-! ## Trees -/

/-- The kind of the node of a variable. -/
def Sigil.nodeKind : Sigil → Kind
  | .scalar => .scalarVariable
  | .array => .arrayVariable
  | .hash => .hashVariable

/-- The tree of a variable: one token in a node. -/
def SigiledName.tree (v : SigiledName) : Tree :=
  .node v.sigil.nodeKind [.token v.word]

/-- The trees of what a declaration introduces. -/
def Declared.trees : Declared → List Tree
  | .one v => [v.tree]
  | .several vs => .token lParen ::
      ((vs.map SigiledName.tree).intersperse (.token comma) ++ [.token rParen])

/-- The tree of a declaration. -/
def Declaration.tree (d : Declaration) : Tree :=
  .node .variableDeclaration (.token d.declarator.val :: d.declared.trees)

/-- A declaration with its first value, if it has one. -/
def valuedTree (d : Declaration) : Option Expr → Tree
  | none => d.tree
  | some value => .node .assignExpr
      [d.tree, .token equals, enclosed .assignment value.level value.tree]

/-- The tree of a modifier. -/
def Modifier.tree (m : Modifier) : Tree :=
  .node .statementModifier [.token m.keyword.val, m.condition.tree]

/-- The trees of a part that can be left out. -/
def optionalTrees {α : Type} (treeOf : α → Tree) (part : Option α) : List Tree :=
  part.elim [] ([treeOf ·])

/-- Statements in braces. -/
def blockTree (trees : List Tree) : Tree :=
  .node .block (.token lBrace :: (trees ++ [.token rBrace]))

/-- A condition in parentheses. -/
def conditionTree (condition : Expr) : Tree :=
  .node .condition [.token lParen, condition.tree, .token rParen]

/-- The trees of what a loop runs over. The variable of a list is declared in front of it. -/
def Header.trees : Header → List Tree
  | .each name list =>
    [.node .variableDeclaration
      [.token myWord, .node .scalarVariable [.token name.scalar]], conditionTree list]
  | .count start condition step =>
    [.node .condition
      [.token lParen, start.tree, .token semicolon, condition.tree, .token semicolon, step.tree,
       .token rParen]]

mutual

/-- The tree of a statement. -/
def Stmt.tree : Stmt → Tree
  | .package name =>
    .node .packageStatement [.token packageWord, .token name.word, .token semicolon]
  | .packageBlock name body =>
    .node .packageStatement [.token packageWord, .token name.word, blockTree (treesOf body)]
  | .moduleUse name => .node .useStatement [.token useWord, .token name.word, .token semicolon]
  | .forward name => .node .subDefinition [.token subWord, .token name.word, .token semicolon]
  | .sub name body =>
    .node .subDefinition [.token subWord, .token name.word, blockTree (treesOf body)]
  | .conditional negated condition body further last =>
    .node .ifStatement (.token (conditionalWord negated) :: conditionTree condition ::
      blockTree (treesOf body) :: (furtherTrees further ++ lastTrees last))
  | .whileLoop negated condition body =>
    .node .whileStatement
      [.token (whileWord negated), conditionTree condition, blockTree (treesOf body)]
  | .forLoop each header body =>
    .node .forStatement (.token (forWord each) :: (header.trees ++ [blockTree (treesOf body)]))
  | .returning value modifier =>
    .node .returnStatement (.token returnWord :: (optionalTrees Expr.tree value ++
      (optionalTrees Modifier.tree modifier ++ [.token semicolon])))
  -- a block of its own is not wrapped in a node of a statement
  | .block body => blockTree (treesOf body)
  | .expression e modifier =>
    .node .exprStatement (e.tree :: (optionalTrees Modifier.tree modifier ++ [.token semicolon]))
  | .declaration d value => .node .exprStatement [valuedTree d value, .token semicolon]

/-- The trees of statements, one after the other. -/
def treesOf : List Stmt → List Tree
  | [] => []
  | s :: rest => s.tree :: treesOf rest

/-- The clauses of the further conditions of a choice. -/
def furtherTrees : List (Expr × List Stmt) → List Tree
  | [] => []
  | (condition, body) :: rest =>
    .node .elsifClause [.token elsifWord, conditionTree condition, blockTree (treesOf body)] ::
      furtherTrees rest

/-- The clause of the last block of a choice. -/
def lastTrees : Option (List Stmt) → List Tree
  | none => []
  | some body => [.node .elseClause [.token elseWord, blockTree (treesOf body)]]

end

variable {n : Nat} {words ts : List Token} {trees : List Tree} {t : Tree} {e : Expr}

/-! ## Expressions and declarations -/

/-- Every expression is read where an expression is wanted. -/
theorem Expr.reads (e : Expr) : Reads (.binary .lowOr) e.words e.nesting e.tree :=
  e.isRead.reads.loosen e.begins (rank_loosest_le e.level)

/-- Every expression begins as one does where any expression is wanted. -/
theorem Expr.begins_loosest (e : Expr) : Begins (.binary .lowOr) e.words :=
  e.begins.mono (rank_loosest_le e.level)

/-- An expression does not end where one begins. -/
theorem answer_endsExpression_of_begins {out : List Tree} {last : Option Kind}
    (begins : Begins (.binary .lowOr) words) :
    Config.answer ⟨words ++ ts, out, last⟩ .endsExpression = some false := by
  have noEnd : Config.answer ⟨words ++ ts, out, last⟩ (.next expressionEnds) = some false :=
    answer_next_of_begins begins (by decide)
  obtain ⟨t, us, rfl, -⟩ := begins
  exact answer_or_of_fails rfl noEnd

/-- What is read at the loosest level is read as an expression, one level further down. -/
theorem Reads.gives (h : Reads (.binary .lowOr) words n t) (stops : Stops (.binary .lowOr) ts) :
    Gives (n + 1) .expression words ts [t] :=
  fun depth out last => ⟨some t.kind, .call ((h depth ts out last stops).reaching (by omega))⟩

/-- An expression that is required is there. -/
theorem Reads.gives_required {problem : Syntax.Problem} {code : Syntax.ErrorCode}
    (h : Reads (.binary .lowOr) words n t) (stops : Stops (.binary .lowOr) ts) :
    Gives (n + 1) (.andThen .expression (.required problem code)) words ts [t] :=
  fun depth out last => ⟨some t.kind,
    .thenStay (.call ((h depth ts out last stops).reaching (by omega))) .parsed⟩

/-- A variable is read where a variable is wanted. -/
theorem SigiledName.gives (v : SigiledName) :
    Gives 0 (grammar .plainVariable) [v.word] ts [v.tree] := by
  obtain ⟨sigil, name⟩ := v
  cases sigil with
  | scalar => exact .no (fun _ _ => rfl) (.no (fun _ _ => rfl) (.no (fun _ _ => rfl) (.node .take)))
  | array => exact .yes (fun _ _ => rfl) (.node .take)
  | hash => exact .no (fun _ _ => rfl) (.yes (fun _ _ => rfl) (.node .take))

/-- What can be declared, and the comma between. -/
theorem SigiledName.declarable (v : SigiledName) : v.word.kind ∈ Rule.declarable := by
  obtain ⟨sigil, name⟩ := v
  show sigil.tokenKind ∈ Rule.declarable
  cases sigil <;> decide

/-- The turns that a declared list takes. -/
def declaredTurns : Rule :=
  .loop (.next (Rule.declarable ++ [.ident, .comma])) <| Rule.select
    [(.next Rule.declarable, .call .plainVariable),
     (.next [.ident], .node .barewordExpr .take)]
    .take

/-- The variables of a declared list are read up to its closing parenthesis. -/
theorem gives_declaredTurns (vs : List SigiledName) :
    Gives 0 declaredTurns ((vs.map (·.word)).intersperse comma) (rParen :: ts)
      ((vs.map SigiledName.tree).intersperse (.token comma)) := by
  -- one turn reads a variable, whatever the turns after it read
  have turn {v : SigiledName} {words : List Token} {trees : List Tree}
      (more : Gives 0 declaredTurns words (rParen :: ts) trees) :
      Gives 0 declaredTurns (v.word :: words) (rParen :: ts) (v.tree :: trees) :=
    have continues : v.word.kind ∈ Rule.declarable ++ [.ident, .comma] :=
      List.mem_append_left _ v.declarable
    Gives.turn (fun _ _ => answer_next_head continues)
      (.yes (fun _ _ => answer_next_head v.declarable) (.call v.gives)) more
  induction vs with
  | nil => exact .stop fun _ _ => rfl
  | cons v vs ih =>
    cases vs with
    | nil => exact turn (.stop fun _ _ => rfl)
    | cons w ws =>
      -- between two variables there is a turn for the comma
      have separated : Gives 0 declaredTurns
          (comma :: ((w :: ws).map (·.word)).intersperse comma) (rParen :: ts)
          (.token comma :: ((w :: ws).map SigiledName.tree).intersperse (.token comma)) :=
        Gives.turn (fun _ _ => rfl) (.no (fun _ _ => rfl) (.no (fun _ _ => rfl) .take)) ih
      exact turn separated

/-- A declaration is read where one is wanted. -/
theorem Declaration.derives (d : Declaration) {depth : Nat} {out : List Tree}
    {last : Option Kind} :
    Derives depth depth (grammar .declaration) ⟨d.words ++ ts, out, last⟩
      ⟨ts, d.tree :: out, some .variableDeclaration⟩ := by
  obtain ⟨⟨declarator, known⟩, declared⟩ := d
  -- none of these words is the one that takes an expression instead
  have kinds : ∀ t ∈ declaringWords, t.kind ∉ [Kind.localKw] := by decide
  have noParen : ∀ k ∈ Rule.declarable, k ∉ [Kind.lParen] := by decide
  show Derives depth (depth + 0) _ _ _
  apply Gives.derives_node
  refine .no (fun _ _ => answer_next_other (kinds _ known)) (.cons .take ?_)
  cases declared with
  | one v =>
    exact .no (fun _ _ => answer_next_other (noParen _ v.declarable))
      (.yes (fun _ _ => answer_next_head v.declarable) (.call v.gives))
  | several vs =>
    exact .yes (fun _ _ => rfl) (.cons .take (.andThen (gives_declaredTurns vs)
      (.skip (.yes (fun _ _ => rfl) .done) (.expect rfl))))

/-- A declaration begins like a variable. -/
theorem Declaration.begins (d : Declaration) : Begins .atom d.words := by
  have leads : ∀ t ∈ declaringWords, Level.atom.rank ≤ lead t.kind := by decide
  exact ⟨_, _, rfl, leads _ d.declarator.property⟩

/-- A declaration is read as an atom. -/
theorem Declaration.reads (d : Declaration) : Reads .atom d.words 0 d.tree := by
  apply reads_term
  intro depth ts last
  -- the cases of an atom before that of a declaration do not take its first word
  have noVariable : ∀ t ∈ declaringWords,
      t.kind ∉ [Kind.scalarName, .arrayName, .hashName, .arrayLastIndex] := by decide
  have declares : ∀ t ∈ declaringWords, t.kind ∈ Kind.declarators := by decide
  have known := d.declarator.property
  exact .no (answer_next_other (noVariable _ known)) (.yes (answer_next_head (declares _ known))
    (.call d.derives))

/-- The words of a declaration with its first value. -/
def valuedWords (d : Declaration) (value : Option Expr) : List Token :=
  d.words ++ optionalWords valueWords value

/-- A declaration with its first value is read where an expression is wanted. -/
theorem reads_valued (d : Declaration) (value : Option Expr) :
    Reads (.binary .lowOr) (valuedWords d value) (optionalNesting valueNesting value)
      (valuedTree d value) := by
  cases value with
  | none =>
    -- without a value the declaration stands alone
    rw [valuedWords, optionalWords, Option.elim_none, List.append_nil]
    exact d.reads.loosen d.begins (by decide)
  | some value =>
    -- with one it is the left side of an assignment
    have target : Reads (.binary .range) d.words 0 d.tree := d.reads.loosen d.begins (by decide)
    have known : equals ∈ assignmentOperators := by decide
    have assigned := reads_assign known target (value.isRead.enclosed .assignment)
    rw [Nat.zero_max] at assigned
    exact assigned.loosen ((d.begins.mono (by decide)).append _) (by decide)

/-- A modifier, if there is one, ends before the semicolon. -/
theorem gives_modifier (modifier : Option Modifier) :
    Gives (optionalNesting (·.condition.levels) modifier) (grammar .modifier)
      (optionalWords Modifier.words modifier) (semicolon :: ts)
      (optionalTrees Modifier.tree modifier) := by
  cases modifier with
  -- a semicolon is no word of a modifier
  | none => exact .no (fun _ _ => rfl) .done
  | some modifier =>
    have kinds : ∀ t ∈ modifyingWords,
        t.kind ∈ [Kind.ifKw, .unlessKw, .whileKw, .untilKw, .forKw, .foreachKw] := by decide
    refine .yes (fun _ _ => answer_next_head (kinds _ modifier.keyword.property))
      (.node (.cons .take (modifier.condition.reads.gives_required ?_)))
    -- nothing that stands in an expression goes on with the semicolon
    intro t head
    cases head
    decide

/-- A modifier or a semicolon lets go of what stands before it. -/
theorem stops_modifier (modifier : Option Modifier) (level : Level) :
    Stops level (optionalWords Modifier.words modifier ++ semicolon :: ts) := by
  have grips : ∀ t ∈ modifyingWords, grip t.kind = 0 := by decide
  intro t head
  -- without a modifier the semicolon comes first
  cases modifier with
  | none =>
    cases head
    exact Nat.zero_le _
  | some modifier =>
    cases head
    rw [grips _ modifier.keyword.property]
    exact Nat.zero_le _

/-! ## Statements -/

/-- The test fails because of the kind of the next token. -/
def misses (k : Kind) : Test → Bool
  | .next kinds => !kinds.contains k
  | .both first _ => misses k first
  | _ => false

/-- A test that the next kind misses fails. -/
theorem answer_of_misses {test : Test} {u : Token} {out : List Tree} {last : Option Kind}
    (missed : misses u.kind test = true) :
    Config.answer ⟨u :: ts, out, last⟩ test = some false := by
  induction test with
  | next kinds => exact answer_next_other (by simpa [misses] using missed)
  | both a b ih _ => exact answer_and_of_fails (ih missed)
  | _ => exact absurd missed Bool.false_ne_true

/-- The rule of a case is followed if the next token fails the tests of all cases before it. -/
theorem select_of_misses {P : Rule → Prop} {cases : List (Test × Rule)} {otherwise rule : Rule}
    {test : Test} {k : Kind}
    (skip : ∀ test other rule, misses k test = true → P rule → P (.branch test other rule))
    (i : Nat) (case : cases[i]? = some (test, rule))
    (missed : (cases.take i).all (misses k ·.1) = true)
    (h : ∀ other, P (.branch test rule other)) : P (.select cases otherwise) := by
  -- Induction on the place of the case among all.
  induction cases generalizing i with
  | nil => exact absurd case (by simp)
  | cons entry cases ih =>
    cases i with
    | zero =>
      -- this is the case
      obtain rfl : entry = (test, rule) := by simpa using case
      exact h _
    | succ i =>
      -- the case is behind this one, whose test is missed
      simp only [List.take_succ_cons, List.all_cons, Bool.and_eq_true] at missed
      exact skip _ _ _ missed.1 (ih i case missed.2)

/-- The rule of a case is read where the kind of the first word misses the cases before it. -/
theorem gives_select {cases : List (Test × Rule)} {otherwise rule : Rule} {test : Test} {u : Token}
    (i : Nat) (case : cases[i]? = some (test, rule))
    (missed : (cases.take i).all (misses u.kind ·.1) = true)
    (answered : ∀ out last, Config.answer ⟨u :: (words ++ ts), out, last⟩ test = some true)
    (h : Gives n rule (u :: words) ts trees) :
    Gives n (.select cases otherwise) (u :: words) ts trees :=
  select_of_misses (P := fun rule => Gives n rule (u :: words) ts trees)
    (fun _ _ _ missed h => .no (fun _ _ => answer_of_misses missed) h) i case missed
    (fun _ => .yes answered h)

/-- What begins an expression begins a statement. -/
theorem mem_expressionStarts {k : Kind} (leading : (Level.binary .lowOr).rank ≤ lead k) :
    k ∈ Rule.expressionStarts := by
  revert leading
  cases k <;> decide

/-- What begins an expression begins no other statement. -/
theorem statement_of_leading {P : Rule → Prop} {k : Kind}
    (leading : (Level.binary .lowOr).rank ≤ lead k)
    (skip : ∀ test other rule, misses k test = true → P rule → P (.branch test other rule))
    (h : ∀ other, P (.branch (.next Rule.expressionStarts) (.call .expressionStatement) other)) :
    P (grammar .statement) := by
  -- the case for expressions is the last of all
  refine select_of_misses skip 10 rfl ?_ h
  revert leading
  cases k <;> decide

/-- A statement that begins like an expression is one. -/
theorem gives_statement_of_begins (begins : Begins (.binary .lowOr) words)
    (h : Gives n (grammar .expressionStatement) words ts trees) :
    Gives n (grammar .statement) words ts trees := by
  obtain ⟨t, us, rfl, leading⟩ := begins
  exact statement_of_leading (P := fun rule => Gives n rule (t :: us) ts trees) leading
    (fun _ _ _ missed h => .no (fun _ _ => answer_of_misses missed) h)
    fun _ => .yes (fun _ _ => answer_next_head (mem_expressionStarts leading)) (.call h)

/-- An expression with its modifier and a semicolon is a statement. -/
theorem gives_expressionStatement (h : Reads (.binary .lowOr) words n t)
    (begins : Begins (.binary .lowOr) words) (modifier : Option Modifier) :
    Gives (max (n + 1) (optionalNesting (·.condition.levels) modifier)) (grammar .statement)
      (words ++ (optionalWords Modifier.words modifier ++ [semicolon])) ts
      [.node .exprStatement
        (t :: (optionalTrees Modifier.tree modifier ++ [.token semicolon]))] := by
  refine gives_statement_of_begins (begins.append _) (.node (.part (h.gives ?_)
    (.snoc (.call (gives_modifier modifier)) (.yes (fun _ _ => rfl) .take))))
  rw [List.append_assoc]
  exact stops_modifier modifier _

/-- A return may have a value and a modifier. -/
theorem gives_returning (value : Option Expr) (modifier : Option Modifier) :
    Gives (Stmt.nesting (.returning value modifier)) (grammar .statement)
      (Stmt.words (.returning value modifier)) ts [Stmt.tree (.returning value modifier)] := by
  have returned : Gives (optionalNesting Expr.levels value) .optionalExpression
      (optionalWords Expr.words value) (optionalWords Modifier.words modifier ++ semicolon :: ts)
      (optionalTrees Expr.tree value) := by
    cases value with
    | none =>
      -- a modifier ends an expression, and so does the semicolon
      have ends : ∀ t ∈ modifyingWords, t.kind ∈ expressionEnds := by decide
      refine .yes (fun out last => ?_) .done
      cases modifier with
      | none => rfl
      | some modifier => simp [Test.endsExpression, Config.answer, optionalWords, Modifier.words,
          ends _ modifier.keyword.property]
    -- a value begins an expression, so the test for the end of one fails
    | some value =>
      exact .no (fun _ _ => answer_endsExpression_of_begins value.begins_loosest)
        (value.reads.gives (stops_modifier modifier _))
  refine gives_select 7 rfl rfl (fun _ _ => rfl) (.call (.node (.cons .take (.andThen ?_
    (.snoc (.call (gives_modifier modifier)) (.yes (fun _ _ => rfl) .take))))))
  rw [List.append_assoc]
  exact returned

/-- An expression that may be left out is there. -/
theorem Expr.gives_present (e : Expr) {kinds : List Kind} (stops : Stops (.binary .lowOr) ts)
    (leads : ∀ k ∈ kinds, lead k < (Level.binary .lowOr).rank) :
    Gives e.levels (.lacking (.next kinds) .expression) e.words ts [e.tree] :=
  .no (fun _ _ => answer_next_of_begins e.begins_loosest leads) (e.reads.gives stops)

/-- A word that no operator goes on with. -/
theorem stops_cons {level : Level} {u : Token} (lets : grip u.kind = 0) :
    Stops level (u :: ts) := by
  intro t head
  cases head
  exact lets ▸ Nat.zero_le _

/-- A condition in parentheses. -/
theorem gives_condition (condition : Expr) :
    Gives condition.levels (grammar .parenthesizedCondition) (parenthesized condition.words) ts
      [conditionTree condition] := by
  have begins := condition.begins_loosest
  exact .node (.cons (.expect rfl) (.pair
    -- the condition is no closing parenthesis, so it is not missing
    (.no (fun _ _ => answer_next_of_begins begins (by decide))
      (condition.reads.gives (stops_cons rfl)))
    (.expect rfl)))

/-- Statements in braces. -/
theorem gives_block (h : Gives n (grammar (.statements true)) words (rBrace :: ts) trees) :
    Gives n (grammar .block) (braced words) ts [blockTree trees] :=
  .node (.cons (.expect rfl) (.snoc (.call h) (.expect rfl)))

/-- What a loop runs over, and its block. -/
theorem Header.gives (header : Header) (each : Bool)
    (h : Gives n (grammar .block) words ts [t]) :
    Gives (max header.nesting n) (grammar .forLoop) (forWord each :: (header.words ++ words)) ts
      [.node .forStatement (.token (forWord each) :: (header.trees ++ [t]))] := by
  refine .node (.cons .take ?_)
  cases header with
  | each name list =>
    -- what the loop declares is a declaration of one scalar
    let declared : Declaration := ⟨⟨myWord, by decide⟩, .one ⟨.scalar, name⟩⟩
    have declares : Gives 0 (grammar .declaration) declared.words
        (parenthesized list.words ++ words ++ ts) [declared.tree] :=
      fun _ _ _ => ⟨_, declared.derives⟩
    have split : (Header.each name list).words ++ words =
      declared.words ++ (parenthesized list.words ++ words) := rfl
    rw [split]
    refine .reaching (.part (.yes (fun _ _ => rfl) (.call declares))
      (.part (.node (.cons (.expect rfl) ?_)) (.call h))) (Nat.zero_max _)
    -- no semicolon follows the list, so there are no further parts
    exact .pair (list.gives_present (stops_cons rfl) (by decide))
      (.skip (.no (fun _ _ => rfl) .done) (.expect rfl))
  | count start condition step =>
    -- a header that counts begins with a parenthesis, so nothing is declared
    refine .skip (.no (fun _ _ => rfl) (.no (fun _ _ => rfl) .done)) ?_
    refine .part (.node (.cons (.expect rfl) ?_)) (.call h)
    rw [List.append_assoc]
    refine .part (start.gives_present (stops_cons rfl) (by decide)) ?_
    -- the first semicolon asks for the two other parts
    have others : Gives (max condition.levels step.levels)
        (.given (.next [.semicolon]) <| .steps
          [.take, .lacking (.next [.semicolon]) .expression, .expect .semicolon .e0201,
           .lacking (.next [.rParen]) .expression])
        (semicolon :: (condition.words ++ semicolon :: step.words)) (rParen :: (words ++ ts))
        [.token semicolon, condition.tree, .token semicolon, step.tree] :=
      .yes (fun _ _ => rfl) (.cons .take
        (.part (condition.gives_present (stops_cons rfl) (by decide))
          (.cons (.expect rfl) (step.gives_present (stops_cons rfl) (by decide)))))
    exact others.snoc (.expect rfl)

/-- The further conditions of a choice, with their blocks. -/
def furtherTurns : Rule :=
  .loop (.next [.elsifKw]) <| .node .elsifClause <| .steps
    [.take,
     .call .parenthesizedCondition,
     .call .block]

/-- The last block of a choice, if there is one. -/
def lastBlock : Rule :=
  .given (.next [.elseKw]) <| .node .elseClause <| .steps
    [.take,
     .call .block]

/-- A choice does not go on with the words. -/
def EndsChoice (ts : List Token) : Prop :=
  ∀ u ∈ ts.head?, u.kind ∉ [Kind.elsifKw, .elseKw]

/-- The kinds of the words with which statements begin go on with no choice and end no block. -/
theorem openers_apart : ∀ k ∈ openers, k ∉ [Kind.elsifKw, .elseKw, .rBrace] := by
  decide

/-! ## Programs -/

/-- Statements end here: before a closing brace, or with the text. -/
inductive EndsBody : Bool → List Token → Prop where
  | block (us : List Token) : EndsBody true (rBrace :: us)
  | text : EndsBody false []

/-- What begins an expression begins a statement. -/
theorem begins_opens {level : Level} (begins : Begins level words) :
    ∀ u ∈ words.head?, u.kind ∈ openers := by
  obtain ⟨u, us, rfl, leading⟩ := begins
  have opens : ∀ k, 1 ≤ lead k → k ∈ openers := by
    intro k
    cases k <;> decide
  have positive : 1 ≤ level.rank := rank_loosest_le level
  rintro _ ⟨⟩
  exact opens _ (Nat.le_trans positive leading)

/-- A statement begins as statements do. -/
theorem Stmt.opens (s : Stmt) : ∃ u us, s.words = u :: us ∧ u.kind ∈ openers := by
  -- a statement of an expression or of a declaration begins as its first part does
  have expression {words more : List Token} {level : Level} (begins : Begins level words) :
      ∃ u us, words ++ more = u :: us ∧ u.kind ∈ openers := by
    have opens := begins_opens begins
    obtain ⟨u, us, rfl, -⟩ := begins
    exact ⟨u, us ++ more, rfl, opens u rfl⟩
  cases s with
  | conditional negated => exact ⟨_, _, rfl, by cases negated <;> decide⟩
  | whileLoop negated => exact ⟨_, _, rfl, by cases negated <;> decide⟩
  | forLoop each => exact ⟨_, _, rfl, by cases each <;> decide⟩
  | expression e modifier => exact expression e.begins
  | declaration d value => exact expression d.begins
  | _ => exact ⟨_, _, rfl, by decide⟩

/-- What follows a statement in a list goes on with no choice. -/
theorem endsChoice_rest (rest : List Stmt) {inBlock : Bool} (ended : EndsBody inBlock ts) :
    EndsChoice (wordsOf rest ++ ts) := by
  cases rest with
  | nil =>
    -- at the end of the list comes a brace or nothing
    cases ended with
    | block us =>
      rintro _ ⟨⟩
      decide
    | text => exact nofun
  | cons s rest =>
    obtain ⟨u, us, words, opens⟩ := s.opens
    -- and in the list comes another statement, whose first word opens it
    have apart := openers_apart _ opens
    rw [wordsOf, words]
    rintro _ ⟨⟩
    simp_all

mutual

/-- The grammar reads every statement as its tree. -/
theorem Stmt.gives : (s : Stmt) → ∀ {ts}, EndsChoice ts →
    Gives s.nesting (grammar .statement) s.words ts [s.tree]
  | .package name, _, _ =>
    gives_select 1 rfl rfl (fun _ _ => rfl) (.call (.node (.cons .take (.cons (.expect rfl)
      (.skip (.no (fun _ _ => rfl) .done) (.no (fun _ _ => rfl) (.yes (fun _ _ => rfl) .take)))))))
  | .packageBlock name body, ts, _ =>
    -- the block ends at its own brace, whatever follows
    have inner := gives_statements body (.block ts)
    gives_select 1 rfl rfl (fun _ _ => rfl) (.call (.node (.cons .take (.cons (.expect rfl)
      (.skip (.no (fun _ _ => rfl) .done) (.yes (fun _ _ => rfl) (.call (gives_block inner))))))))
  | .moduleUse name, _, _ =>
    gives_select 2 rfl rfl (fun _ _ => rfl) (.call (.node (.cons .take (.cons
      (.yes (fun _ _ => rfl) (.cons .take (.no (fun _ _ => answer_and_of_fails rfl) .done)))
      (.skip (.yes (fun _ _ => rfl) .done) (.yes (fun _ _ => rfl) .take))))))
  | .forward name, _, _ =>
    gives_select 3 rfl rfl (fun _ _ => rfl) (.call (.node (.cons .take (.cons (.expect rfl)
      (.skip (.no (fun _ _ => rfl) .done) (.no (fun _ _ => rfl) (.yes (fun _ _ => rfl) .take)))))))
  | .sub name body, ts, _ =>
    have inner := gives_statements body (.block ts)
    gives_select 3 rfl rfl (fun _ _ => rfl) (.call (.node (.cons .take (.cons (.expect rfl)
      (.skip (.no (fun _ _ => rfl) .done) (.yes (fun _ _ => rfl) (.call (gives_block inner))))))))
  | .conditional negated condition body further last, ts, ended => by
    have inner := gives_statements body (.block (furtherWords further ++ lastWords last ++ ts))
    -- an `else` or what follows the statement is no further `elsif`
    have noElsif : ∀ u ∈ (lastWords last ++ ts).head?, u.kind ≠ .elsifKw := by
      cases last with
      | none => exact fun u head same => ended u head (by simp [same])
      | some body =>
        rintro _ ⟨⟩
        decide
    have others := (gives_further further noElsif).andThen
      (gives_last last fun u head same => ended u head (by simp [same]))
    exact gives_select 4 rfl (by cases negated <;> rfl)
      (fun _ _ => answer_next_head (by cases negated <;> decide))
      (.call (.node (.cons .take (.part (.call (gives_condition condition))
        (.part (.call (gives_block inner)) others)))))
  | .whileLoop negated condition body, ts, _ =>
    have inner := gives_statements body (.block ts)
    gives_select 5 rfl (by cases negated <;> rfl)
      (fun _ _ => answer_next_head (by cases negated <;> decide))
      (.call (.node (.cons .take (.part (.call (gives_condition condition))
        (.call (gives_block inner))))))
  | .forLoop each header body, ts, _ =>
    have inner := gives_statements body (.block ts)
    gives_select 6 rfl (by cases each <;> rfl)
      (fun _ _ => answer_next_head (by cases each <;> decide))
      (.call (header.gives each (gives_block inner)))
  | .returning value modifier, _, _ => gives_returning value modifier
  | .block body, ts, _ =>
    have inner := gives_statements body (.block ts)
    gives_select 8 rfl rfl (fun _ _ => rfl) (.call (gives_block inner))
  | .expression e modifier, _, _ => gives_expressionStatement e.reads e.begins_loosest modifier
  | .declaration d value, ts, _ => by
    -- a declaration is an expression statement, which begins with the declaring word
    have begins : Begins (.binary .lowOr) (valuedWords d value) :=
      (d.begins.mono (by decide)).append _
    have valued : Gives (optionalNesting valueNesting value + 1) (grammar .statement)
        (valuedWords d value ++ [semicolon]) ts
        [.node .exprStatement [valuedTree d value, .token semicolon]] :=
      (gives_expressionStatement (reads_valued d value) begins none).reaching (Nat.max_zero _)
    rw [valuedWords, List.append_assoc] at valued
    exact valued

/-- The grammar reads statements up to their end. -/
theorem gives_statements : (body : List Stmt) → ∀ {inBlock ts}, EndsBody inBlock ts →
    Gives (nestingOf body) (grammar (.statements inBlock)) (wordsOf body) ts (treesOf body)
  | [], _, _, ended => by
    cases ended with
    | block us => exact .stop fun _ _ => rfl
    | text => exact .stop fun _ _ => rfl
  | s :: rest, inBlock, ts, ended => by
    -- what follows is another statement or the end, so this one is read as it is alone
    have first := s.gives (endsChoice_rest rest ended)
    obtain ⟨u, us, words, opens⟩ := s.opens
    have apart := openers_apart _ opens
    refine Gives.turn (fun _ _ => ?_) (.insist first.nested ?_) (gives_statements rest ended)
    · -- the first word does not end the list, so there is a turn
      rw [words]
      cases inBlock <;> simp_all [Config.answer]
    · -- and a statement has a word, so the turn moves on
      rw [words]
      exact List.cons_ne_nil _ _

/-- The grammar reads the further conditions of a choice with their blocks. -/
theorem gives_further : (further : List (Expr × List Stmt)) → ∀ {ts},
    (∀ u ∈ ts.head?, u.kind ≠ .elsifKw) →
    Gives (furtherNesting further) furtherTurns (furtherWords further) ts (furtherTrees further)
  | [], ts, ended => by
    refine .stop fun _ _ => ?_
    cases ts with
    | nil => rfl
    | cons u us => exact answer_next_other (by simpa using ended u rfl)
  | (condition, body) :: rest, ts, ended =>
    have inner := gives_statements body (.block (furtherWords rest ++ ts))
    .reaching (.turn (fun _ _ => rfl) (.node (.cons .take (.part (.call (gives_condition condition))
      (.call (gives_block inner))))) (gives_further rest ended)) (Nat.max_assoc ..)

/-- The grammar reads the last block of a choice. -/
theorem gives_last : (last : Option (List Stmt)) → ∀ {ts}, (∀ u ∈ ts.head?, u.kind ≠ .elseKw) →
    Gives (lastNesting last) lastBlock (lastWords last) ts (lastTrees last)
  | none, ts, ended => by
    refine .no (fun _ _ => ?_) .done
    cases ts with
    | nil => rfl
    | cons u us => exact answer_next_other (by simpa using ended u rfl)
  | some body, ts, _ =>
    have inner := gives_statements body (.block ts)
    .yes (fun _ _ => rfl) (.node (.cons .take (.call (gives_block inner))))

end

/-- The tokens of a written program are its words, with blanks between them. -/
theorem tokens_written (body : List Stmt) :
    (tokenize (Token.spaced (wordsOf body))).filter (!·.isTrivia) = wordsOf body := by
  -- each word is read back, and the first one begins a statement
  apply tokenize_words (wordsOf_written body)
  cases body with
  | nil => exact nofun
  | cons s rest =>
    obtain ⟨u, us, words, opens⟩ := s.opens
    rw [wordsOf, words]
    rintro _ ⟨⟩
    exact opens

/-- A program that nests no deeper than the limit is parsed without an error. The parse comes down
just as deep as the program nests, and its tree is that of the program. -/
theorem parse_written {maxDepth : Nat} (body : List Stmt) (room : nestingOf body ≤ maxDepth) :
    let parse := Parse.ofTextWithin maxDepth (Token.spaced (wordsOf body))
    parse.errors = [] ∧ parse.depth = nestingOf body ∧
      parse.tree.bare = [.node .sourceFile (treesOf body)] := by
  -- the whole program is read from the start of the text, at depth zero
  obtain ⟨ended, derived⟩ := gives_statements body .text 0 [] none
  rw [List.append_nil, List.append_nil, Nat.zero_add, ← tokens_written body] at derived
  have parsed := derived.parse room
  rw [List.reverse_reverse] at parsed
  exact parsed

end PerlOutline.Program
