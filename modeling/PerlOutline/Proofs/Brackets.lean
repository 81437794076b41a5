import PerlOutline.Proofs.Survey
import PerlOutline.Proofs.Lossless
import PerlOutline.Proofs.Outlining

/-!
# Brackets

Where a parse reports nothing, every bracket that is opened is closed by one of its own type, and
what stands between the two is closed before. The parts of a node hold no loose bracket, so it is
enough to look at the brackets directly under each node. Only a prototype may hold any tokens
between its parentheses.

## Layers
- **Bracket kinds** and how they pair.
- **`nested`**: a list of kinds whose brackets close in turn.
- **Trees**: brackets directly under a node, and the tokens outside of prototypes.
- **Surveys** of the brackets and of prototypes.
- **Texts** without reports.
-/

namespace PerlOutline.Syntax

/-! ## Brackets -/

namespace Kind

/-- The kinds that open a bracket, each with the kind that closes it. -/
def bracketPairs : List (Kind × Kind) :=
  [(.lParen, .rParen), (.lBracket, .rBracket), (.lBrace, .rBrace)]

/-- The kind that closes what a kind opens. -/
def closer? (k : Kind) : Option Kind :=
  bracketPairs.lookup k

/-- The kind closes a bracket. -/
def isCloser (k : Kind) : Bool :=
  bracketPairs.any (·.2 == k)

/-- The kind opens a bracket or closes one. -/
def isBracket (k : Kind) : Bool :=
  k.closer?.isSome || k.isCloser

/-! ## Nesting -/

/-- Brackets close in turn: each closing one is of the type that was opened last and is not closed
yet, and at the end nothing is open. `awaited` are the closing brackets that are to come, the next
one first. -/
def nested : List Kind → List Kind → Bool
  | awaited, [] => awaited.isEmpty
  | awaited, k :: ks =>
    match k.closer? with
    | some closer => nested (closer :: awaited) ks
    | none =>
      if k.isCloser then
        match awaited with
        | [] => false
        | closer :: outer => k == closer && nested outer ks
      else nested awaited ks

/-- The kinds close all brackets that they open, and no others. -/
def Neutral (ks : List Kind) : Prop :=
  ∀ awaited after, nested awaited (ks ++ after) = nested awaited after

/-- Nothing opens and closes nothing. -/
theorem neutral_nil : Neutral [] :=
  fun _ _ => rfl

/-- What closes all that it opens may be followed by more of that. -/
theorem Neutral.append {ks ls : List Kind} (first : Neutral ks) (next : Neutral ls) :
    Neutral (ks ++ ls) := by
  intro awaited after
  rw [List.append_assoc, first, next]

/-- What is no bracket opens and closes nothing. -/
theorem neutral_of_not_isBracket {k : Kind} (h : k.isBracket = false) : Neutral [k] := by
  obtain ⟨opens, closes⟩ := Bool.or_eq_false_iff.mp h
  intro awaited after
  simp [nested, Option.not_isSome_iff_eq_none.mp (Bool.eq_false_iff.mp opens), closes]

/-- The kind that opens a pair does not close one, and the kind that closes it does not open one. -/
theorem closer?_of_mem_bracketPairs {pair : Kind × Kind} (h : pair ∈ bracketPairs) :
    pair.1.closer? = some pair.2 ∧ pair.2.closer? = none ∧ pair.2.isCloser = true := by
  revert pair
  decide

/-- What is neutral stays so between two brackets of one type. -/
theorem Neutral.enclose {opener closer : Kind} (pair : (opener, closer) ∈ bracketPairs)
    {ks : List Kind} (inside : Neutral ks) : Neutral (opener :: ks ++ [closer]) := by
  obtain ⟨opens, only, closes⟩ := closer?_of_mem_bracketPairs pair
  intro awaited after
  -- the first bracket awaits its own closing one, which is there when all inside is closed
  have step : nested awaited (opener :: ks ++ [closer] ++ after) =
      nested (closer :: awaited) (ks ++ closer :: after) := by
    simp [nested, opens]
  rw [step, inside]
  simp [nested, only, closes]

/-- What closes all that it opens is nested. -/
theorem Neutral.nested {ks : List Kind} (h : Neutral ks) : nested [] ks = true := by
  have whole := h [] []
  rwa [List.append_nil] at whole

end Kind

/-! ## Trees -/

namespace Tree

/-- The brackets among the tokens of a list of trees, each of which stands for itself. -/
def directBrackets (ts : List Tree) : List Kind :=
  ts.filterMap bracket?
where
  /-- The kind of a token that is a bracket. -/
  bracket? : Tree → Option Kind
    | .token t => if t.kind.isBracket then some t.kind else none
    | .node .. => none

/-- There is no bracket, or one that is opened and one that closes it. -/
def Paired (ks : List Kind) : Prop :=
  ks = [] ∨ ∃ pair ∈ Kind.bracketPairs, ks = [pair.1, pair.2]

/-- The first and the last one of a list. -/
def ends {α : Type} (l : List α) : List α :=
  l.head?.toList ++ l.tail.getLast?.toList

mutual

/-- The tokens of a tree in source order, without those that stand between the parentheses of a
prototype. -/
def exposed : Tree → List Token
  | .token t => [t]
  | .node .prototype children => ends ((forestLeaves children).filter (!·.isTrivia))
  | .node _ children => forestExposed children

/-- The tokens of trees in source order, without those that stand between the parentheses of a
prototype. -/
def forestExposed : List Tree → List Token
  | [] => []
  | t :: ts => t.exposed ++ forestExposed ts

end

/-- A node holds no brackets of its own or one pair of them; a prototype begins with the
parenthesis that opens and ends with the one that closes. -/
def Matched : Kind → List Tree → Prop
  | .prototype, children =>
    ∃ opener inside closer,
      (forestLeaves children).filter (!·.isTrivia) = opener :: (inside ++ [closer]) ∧
        opener.kind = .lParen ∧ closer.kind = .rParen
  | _, children => Paired (directBrackets children)

/-! ### Tokens outside of prototypes -/

/-- The ends of a list of two or more are the first and the last. -/
theorem ends_append {α : Type} (first : α) (inside : List α) (last : α) :
    ends (first :: (inside ++ [last])) = [first, last] := by
  simp [ends]

/-- The kinds of the tokens that are outside of prototypes. -/
def exposedKinds (ts : List Tree) : List Kind :=
  (forestExposed ts).map (·.kind)

/-- The tokens outside of prototypes are found tree by tree. -/
theorem forestExposed_append (ts us : List Tree) :
    forestExposed (ts ++ us) = forestExposed ts ++ forestExposed us := by
  induction ts with
  | nil => rfl
  | cons t ts ih => rw [List.cons_append, forestExposed, forestExposed, ih, List.append_assoc]

/-- The kinds of the tokens outside of prototypes are found tree by tree. -/
theorem exposedKinds_append (ts us : List Tree) :
    exposedKinds (ts ++ us) = exposedKinds ts ++ exposedKinds us := by
  rw [exposedKinds, forestExposed_append, List.map_append, exposedKinds, exposedKinds]

/-- A tree that is a bracket shows its own kind. -/
theorem exposedKinds_of_bracket? {t : Tree} {k : Kind}
    (h : directBrackets.bracket? t = some k) : exposedKinds [t] = [k] := by
  unfold directBrackets.bracket? at h
  split at h
  · next token =>
    split at h
    · exact congrArg ([·]) (Option.some.inj h)
    · exact absurd h.symm (Option.some_ne_none k)
  · exact absurd h.symm (Option.some_ne_none k)

/-! ### Matched nodes close what they open -/

/-- The tree is a bracket, or closes what it opens. -/
def Closes (t : Tree) : Prop :=
  directBrackets.bracket? t = none → Kind.Neutral (exposedKinds [t])

/-- Trees without brackets of their own close all that they open. -/
theorem neutral_of_unpaired {ts : List Tree} (closes : ∀ t ∈ ts, t.Closes)
    (unpaired : ∀ t ∈ ts, directBrackets.bracket? t = none) :
    Kind.Neutral (exposedKinds ts) := by
  induction ts with
  | nil => exact Kind.neutral_nil
  | cons t ts ih =>
    have later := ih (fun u hu => closes u (List.mem_cons_of_mem _ hu))
      fun u hu => unpaired u (List.mem_cons_of_mem _ hu)
    rw [← List.singleton_append, exposedKinds_append]
    exact (closes t (List.mem_cons_self ..) (unpaired t (List.mem_cons_self ..))).append later

/-- Trees with one pair of brackets of their own close all that they open. -/
theorem neutral_of_paired {ts : List Tree} (closes : ∀ t ∈ ts, t.Closes)
    (paired : Paired (directBrackets ts)) : Kind.Neutral (exposedKinds ts) := by
  rcases paired with unpaired | ⟨pair, listed, both⟩
  · exact neutral_of_unpaired closes (List.filterMap_eq_nil_iff.mp unpaired)
  · -- The two brackets split the trees into three parts without brackets.
    obtain ⟨before, opener, later, rfl, noneBefore, opens, one⟩ :=
      List.filterMap_eq_cons_iff.mp both
    obtain ⟨inside, closer, after, rfl, noneInside, closesIt, rest⟩ :=
      List.filterMap_eq_cons_iff.mp one
    have noneAfter := List.filterMap_eq_nil_iff.mp rest
    have first : Kind.Neutral (exposedKinds before) :=
      neutral_of_unpaired (fun t ht => closes t (by simp [ht])) noneBefore
    have middle : Kind.Neutral (exposedKinds inside) :=
      neutral_of_unpaired (fun t ht => closes t (by simp [ht])) noneInside
    have last : Kind.Neutral (exposedKinds after) :=
      neutral_of_unpaired (fun t ht => closes t (by simp [ht])) noneAfter
    -- The outer two stand beside the pair, and the middle one in between.
    have parts : exposedKinds (before ++ opener :: (inside ++ closer :: after)) =
        exposedKinds before ++ (pair.1 :: exposedKinds inside ++ [pair.2]) ++
          exposedKinds after := by
      rw [exposedKinds_append, ← List.singleton_append, exposedKinds_append,
        exposedKinds_of_bracket? opens, exposedKinds_append, ← List.singleton_append (l := after),
        exposedKinds_append [closer], exposedKinds_of_bracket? closesIt]
      simp
    rw [parts]
    exact (first.append (middle.enclose listed)).append last

/-- A token is a bracket, or opens nothing. -/
theorem closes_token (t : Token) : Closes (.token t) := by
  intro unpaired
  refine Kind.neutral_of_not_isBracket (Bool.eq_false_iff.mpr fun bracket => ?_)
  simp [directBrackets.bracket?, bracket] at unpaired

/-- A node that is matched closes what it opens, if all that it holds does. -/
theorem closes_node {kind : Kind} {children : List Tree} (matched : Matched kind children)
    (closes : ∀ t ∈ children, t.Closes) : Closes (.node kind children) := by
  intro _
  unfold Matched at matched
  split at matched
  · next proto =>
    -- Of a prototype the two parentheses are seen and nothing else.
    obtain ⟨opener, inside, closer, all, opens, closesIt⟩ := matched
    have shown : exposedKinds [.node .prototype children] = [.lParen, .rParen] := by
      simp [exposedKinds, forestExposed, exposed, all, ends_append, opens, closesIt]
    rw [shown]
    exact Kind.neutral_nil.enclose (List.mem_cons_self ..)
  · next other =>
    -- any other node shows what its children show
    have shown : exposedKinds [.node kind children] = exposedKinds children := by
      rw [exposedKinds, forestExposed, forestExposed, List.append_nil, exposed, exposedKinds]
      exact other
    rw [shown]
    exact neutral_of_paired closes matched

mutual

/-- A tree whose nodes are matched closes what it opens. -/
theorem closes_of_matched {t : Tree} (h : t.Throughout Matched) : t.Closes := by
  match t with
  | .token t => exact closes_token t
  | .node kind children => exact closes_node h.1 (closes_of_forestMatched h.2)

/-- Trees whose nodes are matched close what they open. -/
theorem closes_of_forestMatched {ts : List Tree} (h : ForestThroughout Matched ts) :
    ∀ t ∈ ts, t.Closes := by
  match ts with
  | [] => exact fun _ member => absurd member List.not_mem_nil
  | t :: ts => exact List.forall_mem_cons.mpr ⟨closes_of_matched h.1, closes_of_forestMatched h.2⟩

end

/-! ### Facts about all nodes -/

mutual

/-- What two facts about a node tell is so of all nodes of which both hold. -/
theorem throughout_of_both {P Q R : Kind → List Tree → Prop}
    (both : ∀ kind children, P kind children → Q kind children → R kind children) {t : Tree}
    (first : t.Throughout P) (second : t.Throughout Q) : t.Throughout R := by
  match t with
  | .token _ => trivial
  | .node kind children =>
    exact ⟨both kind children first.1 second.1,
      forestThroughout_of_both both first.2 second.2⟩

/-- What two facts about a node tell is so of all nodes of trees of which both hold. -/
theorem forestThroughout_of_both {P Q R : Kind → List Tree → Prop}
    (both : ∀ kind children, P kind children → Q kind children → R kind children)
    {ts : List Tree} (first : ForestThroughout P ts) (second : ForestThroughout Q ts) :
    ForestThroughout R ts := by
  match ts with
  | [] => trivial
  | t :: ts =>
    exact ⟨throughout_of_both both first.1 second.1,
      forestThroughout_of_both both first.2 second.2⟩

end

mutual

/-- Without prototypes nothing is left out. -/
theorem exposed_eq_leaves {t : Tree} (h : t.Built (· ≠ .prototype)) : t.exposed = t.leaves := by
  match t with
  | .token _ => rfl
  | .node kind children =>
    rw [exposed, forestExposed_eq_leaves h.2, leaves_node]
    exact h.1

/-- Without prototypes no token of the trees is left out. -/
theorem forestExposed_eq_leaves {ts : List Tree} (h : ForestBuilt (· ≠ .prototype) ts) :
    forestExposed ts = forestLeaves ts := by
  match ts with
  | [] => rfl
  | t :: ts =>
    rw [forestExposed, exposed_eq_leaves h.1, forestExposed_eq_leaves h.2, forestLeaves_cons]

end

end Tree

end PerlOutline.Syntax

namespace PerlOutline.Grammar

open PerlOutline.Syntax (Kind Token Tree Parse tokenize)

/-! ## Surveys -/

/-- No kind of trivia is a bracket. -/
theorem isBracket_of_isTrivia {k : Kind} (trivia : k.isTrivia = true) : k.isBracket = false := by
  revert trivia
  cases k <;> decide

namespace Survey

/-- How many brackets are counted. Two may be a pair, and three are too many. -/
def bracketCap : Nat := 3

/-- The bracket that a token is. -/
def bracketOf (k : Kind) : List Kind :=
  if k.isBracket then [k] else []

/-- The kinds that are brackets. -/
def allBrackets : List Kind :=
  Kind.bracketPairs.flatMap fun pair => [pair.1, pair.2]

/-- There is no bracket, or one pair. -/
def pairs : List (List Kind) :=
  [] :: Kind.bracketPairs.map fun pair => [pair.1, pair.2]

/-- The brackets directly under a node, as far as they are counted. -/
def bracketGauge : Gauge (List Kind) where
  of ts := (Tree.directBrackets ts).take bracketCap
  token := bracketOf
  tokens := [] :: allBrackets.map ([·])
  node _ _ := []
  join ks ls := (ks ++ ls).take bracketCap
  token_mem k := by cases k <;> decide
  of_append ts us := by
    -- of two lists that were cut to three, the first three of both are the first three of all
    simp only [Tree.directBrackets, List.filterMap_append, List.take_append, List.take_take,
      List.length_take, Nat.min_self]
    congr 2
    omega
  of_token t := by
    cases trivia : t.isTrivia with
    | true =>
      simp [Tree.directBrackets, Tree.directBrackets.bracket?, isBracket_of_isTrivia trivia]
    | false =>
      cases bracket : t.kind.isBracket <;>
        simp [Tree.directBrackets, Tree.directBrackets.bracket?, bracketOf, bracket, bracketCap]
  of_node kind children := by simp [Tree.directBrackets, Tree.directBrackets.bracket?]

/-- The brackets of all nodes but prototypes, where nothing is reported. -/
def brackets : Survey (List Kind) where
  gauge := bracketGauge
  reports := false
  cuts := true
  fits kind held := kind == .prototype || pairs.contains held
  plain kind := kind == .prototype
  leaves
    | .subscript => [(none, some [.lBracket, .rBracket]), (none, some [.lBrace, .rBrace])]
    | _ => [(none, some [])]
  of_plain kind listed held := ⟨by simp [listed], rfl⟩
  plain_error reports := Bool.noConfusion reports

/-- The survey of brackets is right about every goal. -/
theorem brackets_checks (goal : Goal) : brackets.checks goal = true := by
  revert goal
  decide +kernel

/-- What a tree is that stands first or last in a prototype. -/
inductive Edge where
  | opening
  | closing
  | other
  deriving DecidableEq, Repr

/-- What a token is that stands first or last in a prototype. -/
def Edge.ofKind : Kind → Edge
  | .lParen => .opening
  | .rParen => .closing
  | _ => .other

/-- What a tree is that is no trivia. -/
def Edge.of? : Tree → Option Edge
  | .token t => if t.isTrivia then none else some (.ofKind t.kind)
  | .node .. => some .other

/-- The first and the last tree that is no trivia. -/
def edgeGauge : Gauge (Option Edge × Option Edge) where
  of ts := ((ts.filterMap Edge.of?).head?, (ts.filterMap Edge.of?).getLast?)
  token k := (some (.ofKind k), some (.ofKind k))
  tokens := [Edge.opening, .closing, .other].map fun edge => (some edge, some edge)
  node _ _ := (some .other, some .other)
  join a b := (a.1.or b.1, b.2.or a.2)
  token_mem k := by cases k <;> decide
  of_append ts us := by
    rw [List.filterMap_append, List.head?_append, List.getLast?_append]
  of_token t := by cases trivia : t.isTrivia <;> simp [Edge.of?, trivia]
  of_node kind children := rfl

/-- How prototypes begin and end, where nothing is reported. -/
def prototypes : Survey (Option Edge × Option Edge) where
  gauge := edgeGauge
  reports := false
  cuts := true
  fits kind held := kind != .prototype || held == (some .opening, some .closing)
  plain kind := kind != .prototype
  leaves _ := [(none, none)]
  of_plain kind listed held := ⟨by simp [listed], rfl⟩
  plain_error reports := Bool.noConfusion reports

/-- The survey of prototypes is right about every goal. -/
theorem prototypes_checks (goal : Goal) : prototypes.checks goal = true := by
  revert goal
  decide +kernel

/-! ### What the surveys say of a node -/

/-- The lists that a survey lets pass are those of no bracket or one pair. -/
theorem paired_of_mem_pairs {ks : List Kind} (h : ks ∈ pairs) : Tree.Paired ks := by
  rcases List.mem_cons.mp h with none | listed
  · exact .inl none
  · obtain ⟨pair, member, same⟩ := List.mem_map.mp listed
    exact .inr ⟨pair, member, same.symm⟩

/-- A node that the survey lets pass holds one pair of brackets or none, unless it is a prototype.
-/
theorem paired_of_fitting {kind : Kind} {children : List Tree}
    (h : brackets.Fitting kind children) (other : kind ≠ .prototype) :
    Tree.Paired (Tree.directBrackets children) := by
  have listed : (Tree.directBrackets children).take bracketCap ∈ pairs := by
    rcases Bool.or_eq_true_iff.mp h with proto | listed
    · exact absurd (beq_iff_eq.mp proto) other
    · exact List.contains_iff_mem.mp listed
  -- No more than two were counted, so all were.
  have short : ∀ ks ∈ pairs, ks.length < bracketCap := by decide
  have few : (Tree.directBrackets children).length ≤ bracketCap := by
    have := short _ listed
    rw [List.length_take] at this
    omega
  rw [List.take_of_length_le few] at listed
  exact paired_of_mem_pairs listed

/-- An edge that is a parenthesis is a token. -/
theorem Edge.exists_token {t : Tree} {edge : Edge} (h : Edge.of? t = some edge)
    (paren : edge ≠ .other) :
    ∃ token, t = .token token ∧ token.isTrivia = false ∧ Edge.ofKind token.kind = edge := by
  cases t with
  | token t =>
    simp only [Edge.of?] at h
    split at h
    · exact absurd h nofun
    · next solid => exact ⟨t, rfl, Bool.eq_false_iff.mpr solid, Option.some.inj h⟩
  | node kind children => exact absurd (Option.some.inj h).symm paren

/-- Only an opening parenthesis opens a prototype. -/
theorem Edge.kind_of_opening {k : Kind} (h : Edge.ofKind k = .opening) : k = .lParen := by
  revert h
  cases k <;> decide

/-- Only a closing parenthesis closes a prototype. -/
theorem Edge.kind_of_closing {k : Kind} (h : Edge.ofKind k = .closing) : k = .rParen := by
  revert h
  cases k <;> decide

/-- Trees without an edge are trivia. -/
theorem filter_forestLeaves_eq_nil {ts : List Tree} (h : ∀ t ∈ ts, Edge.of? t = none) :
    (Tree.forestLeaves ts).filter (!·.isTrivia) = [] := by
  induction ts with
  | nil => rfl
  | cons t ts ih =>
    have later := ih fun u hu => h u (List.mem_cons_of_mem _ hu)
    have first := h t (List.mem_cons_self ..)
    cases t with
    | token t => simp_all [Edge.of?]
    | node kind children => exact absurd first nofun

/-- A prototype that the survey lets pass begins and ends with its parentheses. -/
theorem matched_prototype_of_fitting {children : List Tree}
    (h : prototypes.Fitting .prototype children) : Tree.Matched .prototype children := by
  have edges : (children.filterMap Edge.of?).head? = some .opening ∧
      (children.filterMap Edge.of?).getLast? = some .closing := by
    simpa [Fitting, prototypes, edgeGauge] using h
  obtain ⟨first, last⟩ := edges
  obtain ⟨more, split⟩ := List.head?_eq_some_iff.mp first
  obtain ⟨between, split'⟩ := List.getLast?_eq_some_iff.mp last
  -- One edge cannot both open and close, so the last one comes after the first one.
  obtain ⟨middle, rfl⟩ : ∃ middle, more = middle ++ [.closing] := by
    rw [split] at split'
    cases between with
    | nil => exact absurd (List.cons.inj split').1 nofun
    | cons edge between => exact ⟨between, (List.cons.inj split').2⟩
  -- the trivia before the first parenthesis, what is between the two, and the trivia after the last
  obtain ⟨before, opener, later, rfl, noneBefore, opens, rest⟩ :=
    List.filterMap_eq_cons_iff.mp split
  obtain ⟨inside, later, rfl, -, rest⟩ := List.filterMap_eq_append_iff.mp rest
  obtain ⟨gap, closer, after, rfl, noneGap, closes, rest⟩ := List.filterMap_eq_cons_iff.mp rest
  have noneAfter := List.filterMap_eq_nil_iff.mp rest
  obtain ⟨o, rfl, solid, opening⟩ := Edge.exists_token opens (by decide)
  obtain ⟨c, rfl, solid', closing⟩ := Edge.exists_token closes (by decide)
  refine ⟨o, (Tree.forestLeaves (inside ++ gap)).filter (!·.isTrivia), c, ?_,
    Edge.kind_of_opening opening, Edge.kind_of_closing closing⟩
  simp [filter_forestLeaves_eq_nil noneBefore, filter_forestLeaves_eq_nil noneAfter, solid, solid']

end Survey

/-! ## Texts -/

/-- All nodes of a text without reports hold their brackets in pairs. -/
theorem matched_of_ok {maxDepth : Nat} {tokens : List Token}
    (ok : (Parse.ofTokensWithin maxDepth tokens).ok = true) :
    (Parse.ofTokensWithin maxDepth tokens).tree.Throughout Tree.Matched := by
  -- no report is among the errors of the last state
  have quiet : (finalState maxDepth tokens).errors = [] :=
    List.reverse_eq_nil_iff.mp (List.isEmpty_iff.mp ok)
  have surveyed {α : Type} (v : Survey α) (cuts : v.cuts = true) :
      ¬ (finalState maxDepth tokens).Spoiled v (Limits.forTokens maxDepth tokens) :=
    State.not_spoiled (finalState_not_starved maxDepth tokens) (fun _ => quiet)
      fun uncut => Bool.noConfusion (cuts.symm.trans uncut)
  -- A parse that reports nothing spoils neither survey, so what they check holds of every node.
  have pairs := (Survey.throughout_finalState Survey.brackets_checks (by decide) maxDepth
    tokens).resolve_left (surveyed Survey.brackets rfl)
  have edges := (Survey.throughout_finalState Survey.prototypes_checks (by decide) maxDepth
    tokens).resolve_left (surveyed Survey.prototypes rfl)
  refine Tree.throughout_of_both ?_ pairs edges
  intro kind children pair edge
  unfold Tree.Matched
  split
  · -- a prototype is matched by its edges, and any other node by its brackets
    exact Survey.matched_prototype_of_fitting edge
  · next other => exact Survey.paired_of_fitting pair other

end PerlOutline.Grammar

namespace PerlOutline.Syntax.Parse

open PerlOutline.Grammar

/-- Accepted texts have matched brackets. Where a parse reports nothing, each node but a prototype
holds no bracket of its own, or one that opens and one of the same type that closes. So the brackets
of the text are nested, without those between the parentheses of a prototype; where there is no
prototype these are all brackets of the text. -/
theorem brackets_nested_of_ok (maxDepth : Nat) (text : List Char)
    (ok : (ofTextWithin maxDepth text).ok = true) :
    let tree := (ofTextWithin maxDepth text).tree
    tree.Throughout Tree.Matched ∧
      Kind.nested [] (tree.exposed.map (·.kind)) = true ∧
      (tree.Built (· ≠ .prototype) → tree.exposed = tokenize text) := by
  intro tree
  have matched : tree.Throughout Tree.Matched := matched_of_ok ok
  refine ⟨matched, ?_, fun built => ?_⟩
  · -- the root is a node, and so the text closes what it opens
    have neutral : Kind.Neutral (Tree.exposedKinds [tree]) := Tree.closes_of_matched matched rfl
    rw [Tree.exposedKinds, Tree.forestExposed, Tree.forestExposed, List.append_nil] at neutral
    exact neutral.nested
  · rw [Tree.exposed_eq_leaves built]
    exact finalState_leaves maxDepth (tokenize text)

/-- A prototype may hold a loose bracket, so it does not count what is inside of it. -/
theorem brackets_nested_of_ok_prototype :
    let text := "sub f([) { my ($a) = @_; $a->[0]{k} ? (f()) : [{}] }".toList
    let tree := (ofTextWithin defaultMaxDepth text).tree
    (ofTextWithin defaultMaxDepth text).ok = true ∧
      tree.Throughout Tree.Matched ∧
      Kind.nested [] (tree.exposed.map (·.kind)) = true ∧
      Kind.nested [] ((tokenize text).map (·.kind)) = false := by
  intro text tree
  have ok : (ofTextWithin defaultMaxDepth text).ok = true := by decide +kernel
  have holds := brackets_nested_of_ok defaultMaxDepth text ok
  exact ⟨ok, holds.1, holds.2.1, by decide +kernel⟩

end PerlOutline.Syntax.Parse
