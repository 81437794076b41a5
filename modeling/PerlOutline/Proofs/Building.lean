import Mathlib.Data.List.Basic
import PerlOutline.Proofs.Lossless
import PerlOutline.Proofs.Outlining

/-!
# The grammar builds trees in order

A tree can be put together from the bottom up by a builder that knows nothing of the grammar: it
holds the children that are finished and the nodes that are open, and refuses whatever makes no
tree. Every parse can be carried out on such a builder. It is never refused, and in the end the
builder holds the syntax tree and nothing else.

## Layers
- **Numbers** of kinds. A builder sees only numbers.
- **`Builder`**: its steps, and what it refuses.
- **`Driven`**: a parse that gives all that it reads and all nodes to a builder.
- **`wrapsInGroups`**: checkpoints are used only where they were taken.
- **`Mirrors`**: a parse on a builder follows a parse on scopes step by step.
- **Token lists**: no parse is refused.
-/

namespace PerlOutline.Syntax

/-! ## Numbers -/

namespace Kind

/-- The place of a kind in the list of kinds. -/
def index (k : Kind) : Nat :=
  all.idxOf k

/-- The number that stands for the end of the text in place of a kind. It is past the last kind. -/
def endIndex : Nat :=
  all.length

@[simp] theorem ofNumber?_index (k : Kind) : ofNumber? k.index = some k :=
  List.getElem?_idxOf k.mem_all

/-- The numbers of the kinds are those below the number that stands for the end. -/
theorem lt_endIndex_iff {n : Nat} : n < endIndex ↔ ∃ k, ofNumber? n = some k := by
  simp [ofNumber?, endIndex, List.getElem?_eq_some_iff]

end Kind

/-! ## The builder -/

/-- A node that is not finished yet. -/
structure OpenNode where
  kind : Kind
  /-- How many children were finished before its first one. -/
  first : Nat
  /-- How many nodes were started before it. No two nodes share this number. -/
  serial : Nat
  deriving DecidableEq, Repr

/-- A place between children at which a node may begin later. -/
structure Checkpoint where
  /-- How many children were finished. -/
  place : Nat
  /-- The serial number of the innermost open node, if there was one. -/
  owner : Option Nat
  deriving DecidableEq, Repr

/-- What a builder refuses. -/
inductive Misuse where
  /-- A token or a node with a number that is of no kind. -/
  | unknownKind (number : Nat)
  /-- A node of a kind that only tokens have. -/
  | noNodeKind (kind : Kind)
  /-- A node begins at a checkpoint that lies outside the innermost open node, or past the children
  that are left, or that was taken in another node. -/
  | strayCheckpoint (checkpoint : Checkpoint)
  /-- A node begins at a checkpoint that was never taken. -/
  | noCheckpoint
  /-- A node is finished where none is open. -/
  | nothingOpen
  deriving DecidableEq, Repr

/-- What a builder holds. -/
structure Builder where
  /-- The children that are finished, last first. Those of a finished node are inside of it. -/
  children : List Tree
  /-- The nodes that are open, innermost first. -/
  opened : List OpenNode
  /-- How many nodes were started so far. -/
  started : Nat

namespace Builder

/-- The builder that holds nothing. -/
def empty : Builder where
  children := []
  opened := []
  started := 0

/-- Add a token to the children that are finished. -/
def token (b : Builder) (number : Nat) (text : List Char) (nonempty : text ≠ []) :
    Except Misuse Builder :=
  match Kind.ofNumber? number with
  | none => .error (.unknownKind number)
  | some kind => .ok { b with children := .token ⟨kind, text, nonempty⟩ :: b.children }

/-- Start a node whose first child comes after `first` children. -/
def openAt (b : Builder) (first number : Nat) : Except Misuse Builder :=
  match Kind.ofNumber? number with
  | none => .error (.unknownKind number)
  | some kind =>
    if kind ∈ Kind.nodeKinds then
      .ok { b with opened := ⟨kind, first, b.started⟩ :: b.opened, started := b.started + 1 }
    else .error (.noNodeKind kind)

/-- Start a node whose first child is the next one that is finished. -/
def startNode (b : Builder) (number : Nat) : Except Misuse Builder :=
  b.openAt b.children.length number

/-- The place behind the children that are finished so far. -/
def checkpoint (b : Builder) : Checkpoint :=
  ⟨b.children.length, b.opened.head?.map (·.serial)⟩

/-- The checkpoint lies among the children of the innermost open node, or right after them, and was
taken while this node was the innermost one. -/
def Admits (b : Builder) (c : Checkpoint) : Prop :=
  c.place ≤ b.children.length ∧
    (∀ node ∈ b.opened.head?, node.first ≤ c.place) ∧
    c.owner = b.opened.head?.map (·.serial)

instance (b : Builder) (c : Checkpoint) : Decidable (b.Admits c) :=
  inferInstanceAs (Decidable (_ ∧ _ ∧ _))

/-- Start a node whose first child is the one behind a checkpoint. -/
def startNodeAt (b : Builder) (c : Checkpoint) (number : Nat) : Except Misuse Builder :=
  if b.Admits c then b.openAt c.place number else .error (.strayCheckpoint c)

/-- Finish the innermost open node. The children since it began become its children. -/
def finishNode (b : Builder) : Except Misuse Builder :=
  match b.opened with
  | [] => .error .nothingOpen
  | node :: outer =>
    -- No open node began after more children than there are, so the difference cuts nothing off.
    let inside := b.children.length - node.first
    let finished : Tree := .node node.kind (b.children.take inside).reverse
    .ok { b with children := finished :: b.children.drop inside, opened := outer }

/-! ### What is refused -/

/-- A token is accepted just if its number is that of a kind. -/
theorem isOk_token {b : Builder} {number : Nat} {text : List Char} {nonempty : text ≠ []} :
    (b.token number text nonempty).isOk ↔ number < Kind.endIndex := by
  rw [Kind.lt_endIndex_iff, token]
  cases Kind.ofNumber? number <;> simp [Except.isOk, Except.toBool]

/-- A node is accepted just if its number is that of a kind of nodes. -/
theorem isOk_openAt {b : Builder} {first number : Nat} :
    (b.openAt first number).isOk ↔ ∃ kind ∈ Kind.nodeKinds, Kind.ofNumber? number = some kind := by
  unfold openAt
  cases Kind.ofNumber? number with
  | none => simp [Except.isOk, Except.toBool]
  | some kind =>
    by_cases isNode : kind ∈ Kind.nodeKinds
    · simp [isNode, Except.isOk, Except.toBool]
    · simp [isNode, Except.isOk, Except.toBool]

/-- Beyond that the checkpoint has to be admitted. -/
theorem isOk_startNodeAt {b : Builder} {c : Checkpoint} {number : Nat} :
    (b.startNodeAt c number).isOk ↔
      b.Admits c ∧ ∃ kind ∈ Kind.nodeKinds, Kind.ofNumber? number = some kind := by
  unfold startNodeAt
  split
  · next admits => rw [isOk_openAt, and_iff_right admits]
  · next stray => simp [stray, Except.isOk, Except.toBool]

/-- A node is finished just if one is open. -/
theorem isOk_finishNode {b : Builder} : b.finishNode.isOk ↔ b.opened ≠ [] := by
  unfold finishNode
  cases b.opened <;> simp [Except.isOk, Except.toBool]

/-! ### What is accepted -/

/-- A token of any kind is accepted. -/
theorem token_index (b : Builder) (t : Token) :
    b.token t.kind.index t.text t.text_ne_nil =
      .ok { b with children := .token t :: b.children } := by
  simp only [token, Kind.ofNumber?_index]

/-- A node of a kind of nodes is accepted. -/
theorem openAt_index (b : Builder) (first : Nat) {kind : Kind} (isNode : kind ∈ Kind.nodeKinds) :
    b.openAt first kind.index =
      .ok { b with opened := ⟨kind, first, b.started⟩ :: b.opened, started := b.started + 1 } := by
  simp only [openAt, Kind.ofNumber?_index, if_pos isNode]

/-- So it is at a checkpoint that is admitted. -/
theorem startNodeAt_index {b : Builder} {c : Checkpoint} {kind : Kind} (admits : b.Admits c)
    (isNode : kind ∈ Kind.nodeKinds) :
    b.startNodeAt c kind.index =
      .ok { b with
        opened := ⟨kind, c.place, b.started⟩ :: b.opened
        started := b.started + 1 } := by
  rw [startNodeAt, if_pos admits, openAt_index b c.place isNode]

/-- A node that began after all children but `built` is finished with these as its children. -/
theorem finishNode_append {b : Builder} {kind : Kind} {serial : Nat} {built around : List Tree}
    {outer : List OpenNode} (children : b.children = built ++ around)
    (opened : b.opened = ⟨kind, around.length, serial⟩ :: outer) :
    b.finishNode =
      .ok { b with children := .node kind built.reverse :: around, opened := outer } := by
  have inside : b.children.length - around.length = built.length := by
    rw [children, List.length_append, Nat.add_sub_cancel]
  simp only [finishNode, opened, inside]
  rw [children, List.take_left, List.drop_left]

end Builder

end PerlOutline.Syntax

namespace PerlOutline.Grammar

open PerlOutline.Syntax (Kind Token Tree Problem ErrorCode Builder OpenNode Checkpoint Misuse Parse)

/-! ## Driving a builder -/

/-- A parse that builds its tree with a builder. -/
structure Driven where
  /-- How far the parse is. It has no scope of its own. -/
  reading : State
  builder : Builder

namespace Driven

/-- The state in which a parse of `tokens` begins. -/
def start (tokens : List Token) : Driven where
  reading := State.start tokens
  builder := Builder.empty

/-- Read a token and add it to the builder. At the end nothing is done. -/
def advance (d : Driven) : Except Misuse Driven :=
  match d.reading.rest with
  | [] => .ok d
  | t :: _ => do
    -- The token goes to the builder, so the reading keeps an empty scope.
    let builder ← d.builder.token t.kind.index t.text t.text_ne_nil
    return { reading := d.reading.advance.opened, builder }

/-- Read `n` tokens. -/
def consume : Nat → Driven → Except Misuse Driven
  | 0, d => .ok d
  | n + 1, d => do (← d.advance).consume n

/-- Read the trivia ahead. -/
def skipTrivia (d : Driven) : Except Misuse Driven :=
  d.consume d.reading.triviaAhead

/-- Read the trivia ahead and a token behind it. -/
def take (d : Driven) : Except Misuse Driven :=
  d.consume (d.reading.triviaAhead + 1)

/-- What `body` builds, and all since the node was started, becomes the node. -/
def enclose (start : Builder → Except Misuse Builder) (body : Driven → Except Misuse Driven)
    (d : Driven) : Except Misuse Driven := do
  let inside ← body { d with builder := ← start d.builder }
  return { inside with builder := ← inside.builder.finishNode }

/-- Say what was parsed last. The builder is not concerned. -/
def record (d : Driven) (last : Option Kind) : Driven :=
  { d with reading := { d.reading with last := last } }

/-- Report a problem at the next token. Nor is it here. -/
def complain (d : Driven) (problem : Problem) (code : ErrorCode) : Driven :=
  { d with reading := d.reading.complain problem code }

/-- Read `n` tokens, after the trivia before them, as an error node. -/
def setAside (d : Driven) (n : Nat) : Except Misuse Driven := do
  (← d.skipTrivia).enclose (·.startNode Kind.error.index) (·.consume n)

/-- Report a problem, and set the next token aside if there is one. -/
def reject (d : Driven) (problem : Problem) (code : ErrorCode) : Except Misuse Driven :=
  if d.reading.next?.isNone then .ok (d.complain problem code)
  else (d.complain problem code).setAside 1

/-- Reject the next token, if there is one, as unexpected. -/
def rejectNext (d : Driven) (code : ErrorCode) : Except Misuse Driven :=
  match d.reading.next? with
  | some t => d.reject (.unexpected t.kind) code
  | none => .ok d

/-- Reject the next token if nothing was read since `start`. -/
def insisted (d : Driven) (start : Nat) : Except Misuse Driven :=
  if d.reading.offset = start then do return (← d.rejectNext .e0901).record none
  else .ok (d.record none)

/-- Give up a goal at the nesting limit, together with the rest of the group. -/
def giveUp (d : Driven) (limit : Nat) (goal : Goal) : Except Misuse Driven :=
  if d.reading.satisfies .endsExpression then
    -- As in a parse on scopes, a goal that could end here is no group, and nothing is set aside.
    .ok { d with reading := d.reading.giveUp limit goal }
  else do
    let group := State.groupLength 0 0 0 (State.significant d.reading.rest)
    return (← (d.complain (.tooDeep limit) .e0205).setAside group).record (some .error)

/-- Reach a goal one nesting level deeper, or give it up at the limit. -/
def deeper (limits : Limits) (reach : Goal → Driven → Except Misuse Driven) (goal : Goal)
    (d : Driven) : Except Misuse Driven :=
  if d.reading.depth < limits.maxDepth then do
    let inside ← reach goal { d with reading := d.reading.entered }
    return { inside with reading := { inside.reading with depth := d.reading.depth } }
  else d.giveUp limits.maxDepth goal

/-- Repeat `body` while `test` holds, for at most the given number of turns. -/
def repeatWhile (test : State → Bool) (body : Driven → Except Misuse Driven) :
    Nat → Driven → Except Misuse Driven
  | 0, d =>
    if test d.reading then .ok { d with reading := { d.reading with starved := true } } else .ok d
  | turns + 1, d =>
    if test d.reading then do repeatWhile test body turns (← body d) else .ok d

end Driven

/-- Follow a rule on a builder. A group takes a checkpoint, and the nodes that wrap what the group
has built so far begin there. -/
def Rule.drive (limits : Limits) (reach : Goal → Driven → Except Misuse Driven) :
    Rule → Option Checkpoint → Driven → Except Misuse Driven
  | .done, _, d => .ok d
  | .andThen first next, c, d => do next.drive limits reach c (← first.drive limits reach c d)
  | .take, _, d => d.take
  | .complain problem code, _, d => .ok (d.complain problem code)
  | .reject problem code, _, d => d.reject problem code
  | .rejectNext code, _, d => d.rejectNext code
  | .yield parsed, _, d => .ok (d.record parsed)
  | .branch test yes no, c, d =>
    if d.reading.satisfies test then yes.drive limits reach c d else no.drive limits reach c d
  | .loop test body, c, d =>
    Driven.repeatWhile (·.satisfies test) (body.drive limits reach c) limits.maxTurns d
  | .insist body, c, d => do (← body.drive limits reach c d).insisted d.reading.offset
  | .node kind body, c, d => do
    -- The checkpoint is handed on, and a builder would refuse it in here.
    let built ← (← d.skipTrivia).enclose (·.startNode kind.index) (body.drive limits reach c)
    return built.record (some kind)
  | .group body, _, d => do
    -- Trivia comes before the checkpoint, so no node that wraps the group begins with it.
    let ready ← d.skipTrivia
    body.drive limits reach (some ready.builder.checkpoint) ready
  | .wrap _ _, none, _ => .error .noCheckpoint
  | .wrap kind body, some c, d => do
    let built ← d.enclose (·.startNodeAt c kind.index) (body.drive limits reach (some c))
    return built.record (some kind)
  | .call goal, _, d => reach goal d
  | .nested goal, _, d => d.deeper limits reach goal

/-- Reach a goal of a grammar on a builder, with an allowance of calls. A goal knows no checkpoint
but its own ones. -/
def drive (grammar : Goal → Rule) (limits : Limits) :
    Nat → Goal → Driven → Except Misuse Driven
  | 0, _, d => .ok { d with reading := { d.reading with starved := true } }
  | allowance + 1, goal, d =>
    (grammar goal).drive limits (drive grammar limits allowance) none d

/-- Parse tokens on a builder. All that is built becomes one node. -/
def driveAll (maxDepth : Nat) (tokens : List Token) : Except Misuse Driven :=
  let limits := Limits.forTokens maxDepth tokens
  (Driven.start tokens).enclose (·.startNode Kind.sourceFile.index) fun d => do
    (← drive grammar limits (callAllowance maxDepth) (.statements false) d).skipTrivia

/-! ## Where rules wrap -/

/-- A rule wraps what a group of its own has built, and does so in no other node of the group.
`grouped` says whether the rule stands in a group. -/
def Rule.wrapsInGroups : Bool → Rule → Bool
  | grouped, .andThen first next => first.wrapsInGroups grouped && next.wrapsInGroups grouped
  | grouped, .branch _ yes no => yes.wrapsInGroups grouped && no.wrapsInGroups grouped
  | grouped, .loop _ body | grouped, .insist body => body.wrapsInGroups grouped
  | _, .node _ body => body.wrapsInGroups false
  | _, .group body => body.wrapsInGroups true
  | grouped, .wrap _ body => grouped && body.wrapsInGroups false
  | _, _ => true

/-- No goal of the grammar wraps what it has not built. -/
theorem wrapsInGroups_grammar (goal : Goal) : (grammar goal).wrapsInGroups false = true := by
  revert goal
  decide +kernel

/-! ## Step by step -/

/-- The parse on a builder is as far as `s`. The builder holds what the open scope of `s` holds on
top of `outer`, and the nodes `opened` are open. -/
structure Driven.Mirrors (outer : List Tree) (opened : List OpenNode) (d : Driven) (s : State) :
    Prop where
  reading : d.reading = s.opened
  children : d.builder.children = s.out ++ outer
  opened : d.builder.opened = opened

/-- The parse on a builder was not refused, and came as far as `s`. -/
def Reaches (outer : List Tree) (opened : List OpenNode) (outcome : Except Misuse Driven)
    (s : State) : Prop :=
  ∃ d, outcome = .ok d ∧ d.Mirrors outer opened s

/-- The innermost open node began before anything that was built after `outer`. -/
def Began (opened : List OpenNode) (outer : List Tree) : Prop :=
  ∀ node ∈ opened.head?, node.first ≤ outer.length

/-- A node that was started last began where it was started. -/
theorem began_cons {kind : Kind} {serial : Nat} {opened : List OpenNode} {outer : List Tree} :
    Began (⟨kind, outer.length, serial⟩ :: opened) outer := by
  intro node innermost
  obtain rfl := Option.some.inj innermost
  exact Nat.le_refl _

/-- Children that are finished later come behind its beginning. -/
theorem Began.append {opened : List OpenNode} {outer : List Tree} (began : Began opened outer)
    (held : List Tree) : Began opened (held ++ outer) := by
  intro node innermost
  rw [List.length_append]
  exact Nat.le_add_left_of_le (began node innermost)

variable {outer : List Tree} {opened : List OpenNode} {d : Driven} {s : State}

/-- A step that follows may rely on the parse of the first one. -/
theorem Reaches.bind {outer' : List Tree} {opened' : List OpenNode} {s' : State}
    {outcome : Except Misuse Driven} {next : Driven → Except Misuse Driven}
    (first : Reaches outer opened outcome s)
    (later : ∀ d, d.Mirrors outer opened s → Reaches outer' opened' (next d) s') :
    Reaches outer' opened' (outcome >>= next) s' := by
  obtain ⟨d, rfl, mirrors⟩ := first
  exact later d mirrors

/-- A step that no builder sees can be taken after the others. -/
theorem Reaches.map {s' : State} {outcome : Except Misuse Driven} {step : Driven → Driven}
    (first : Reaches outer opened outcome s)
    (later : ∀ d, d.Mirrors outer opened s → (step d).Mirrors outer opened s') :
    Reaches outer opened (do return step (← outcome)) s' :=
  first.bind fun d mirrors => ⟨step d, rfl, later d mirrors⟩

namespace Driven.Mirrors

/-- Where nothing is done nothing is refused. -/
theorem reaches (h : d.Mirrors outer opened s) : Reaches outer opened (.ok d) s :=
  ⟨d, rfl, h⟩

/-- Both parses have the same tokens left. -/
theorem rest (h : d.Mirrors outer opened s) : d.reading.rest = s.rest := by
  rw [h.reading, State.opened]

/-- They are at the same place. -/
theorem offset (h : d.Mirrors outer opened s) : d.reading.offset = s.offset := by
  rw [h.reading, State.opened]

/-- They are on the same level. -/
theorem depth (h : d.Mirrors outer opened s) : d.reading.depth = s.depth := by
  rw [h.reading, State.opened]

/-- They have the same token before them. -/
theorem next? (h : d.Mirrors outer opened s) : d.reading.next? = s.next? := by
  rw [State.next?, h.rest, State.next?]

/-- They have the same trivia before them. -/
theorem triviaAhead (h : d.Mirrors outer opened s) : d.reading.triviaAhead = s.triviaAhead := by
  rw [State.triviaAhead, h.rest, State.triviaAhead]

/-- What is held can be counted among what is around it. -/
theorem inside (h : d.Mirrors outer opened s) : d.Mirrors (s.out ++ outer) opened s.opened where
  reading := h.reading
  children := h.children
  opened := h.opened

/-- And what is around can be counted among what is held. -/
theorem outside {held : List Tree} (h : d.Mirrors (held ++ outer) opened s) :
    d.Mirrors outer opened (s.merged held) where
  reading := h.reading
  children := by rw [h.children, State.merged, List.append_assoc]
  opened := h.opened

/-- What was parsed last is said on both sides. -/
theorem record (h : d.Mirrors outer opened s) (last : Option Kind) :
    (d.record last).Mirrors outer opened { s with last := last } where
  reading := congrArg (fun r : State => { r with last := last }) h.reading
  children := h.children
  opened := h.opened

/-- A problem is reported on both sides. -/
theorem complain (h : d.Mirrors outer opened s) (problem : Problem) (code : ErrorCode) :
    (d.complain problem code).Mirrors outer opened (s.complain problem code) where
  reading := congrArg (fun r : State => r.complain problem code) h.reading
  children := h.children
  opened := h.opened

/-- The tests see the tokens and the last expression, and nothing of what is built. -/
theorem satisfies (h : d.Mirrors outer opened s) (test : Test) :
    d.reading.satisfies test = s.satisfies test := by
  rw [h.reading]
  induction test with
  | both a b iha ihb | either a b iha ihb => simp only [State.satisfies, iha, ihb]
  | fails t ih => simp only [State.satisfies, ih]
  | _ => rfl

/-! ### Reading -/

theorem advance (h : d.Mirrors outer opened s) : Reaches outer opened d.advance s.advance := by
  simp only [Driven.advance, h.rest, State.advance]
  cases hrest : s.rest with
  | nil => exact h.reaches
  | cons t ts =>
    -- Every token has a kind, so its number is accepted.
    simp only [Builder.token_index]
    refine ⟨_, rfl, ?_, ?_, h.opened⟩
    · rw [h.reading]
      rfl
    · rw [h.children, List.cons_append]

-- Token by token.
theorem consume (n : Nat) (h : d.Mirrors outer opened s) :
    Reaches outer opened (d.consume n) (s.consume n) := by
  induction n generalizing d s with
  | zero => exact h.reaches
  | succ n ih => exact h.advance.bind fun d' mirrors => ih mirrors

/-- Trivia is read on both sides, and there is the same of it. -/
theorem skipTrivia (h : d.Mirrors outer opened s) :
    Reaches outer opened d.skipTrivia s.skipTrivia := by
  rw [Driven.skipTrivia, h.triviaAhead]
  exact h.consume _

/-- So is the token behind it. -/
theorem take (h : d.Mirrors outer opened s) : Reaches outer opened d.take s.take := by
  rw [Driven.take, h.triviaAhead]
  exact h.consume _

/-! ### Nodes -/

/-- Finishing a node takes what was built since it began, and leaves what is around it. -/
theorem finishNode {kind : Kind} {serial : Nat} {held : List Tree}
    (h : d.Mirrors (held ++ outer) (⟨kind, (held ++ outer).length, serial⟩ :: opened) s) :
    Reaches outer opened (do return { d with builder := ← d.builder.finishNode })
      { s with out := .node kind s.out.reverse :: held } := by
  rw [Builder.finishNode_append h.children h.opened]
  exact ⟨_, rfl, h.reading, rfl, rfl⟩

/-- What is built in a node that is started here becomes the node. -/
theorem encloseNode {kind : Kind} {inner : State} {body : Driven → Except Misuse Driven}
    (isNode : kind ∈ Kind.nodeKinds) (h : d.Mirrors outer opened s)
    (build : ∀ serial d', d'.Mirrors (s.out ++ outer)
      (⟨kind, (s.out ++ outer).length, serial⟩ :: opened) s.opened →
      Reaches (s.out ++ outer) (⟨kind, (s.out ++ outer).length, serial⟩ :: opened) (body d')
        inner) :
    Reaches outer opened (d.enclose (·.startNode kind.index) body)
      { inner with out := .node kind inner.out.reverse :: s.out } := by
  simp only [Driven.enclose, Builder.startNode, Builder.openAt_index _ _ isNode]
  refine (build d.builder.started _ ?_).bind fun d' mirrors => mirrors.finishNode
  exact ⟨h.reading, h.children, by simp only [h.children, h.opened]⟩

/-- What is built in a node that is started at the beginning of the scope becomes the node, with
all that the scope held before. -/
theorem encloseScope {kind : Kind} {inner : State} {body : Driven → Except Misuse Driven}
    {c : Checkpoint} (isNode : kind ∈ Kind.nodeKinds) (h : d.Mirrors outer opened s)
    (began : Began opened outer) (own : c = ⟨outer.length, opened.head?.map (·.serial)⟩)
    (build : ∀ serial d', d'.Mirrors outer (⟨kind, outer.length, serial⟩ :: opened) s →
      Reaches outer (⟨kind, outer.length, serial⟩ :: opened) (body d') inner) :
    Reaches outer opened (d.enclose (·.startNodeAt c kind.index) body)
      { inner with out := [.node kind inner.out.reverse] } := by
  have admits : d.builder.Admits c := by
    -- The scope begins where the checkpoint was taken, and no node that began in it is open.
    subst own
    rw [Builder.Admits, h.opened]
    refine ⟨?_, began, rfl⟩
    rw [h.children, List.length_append]
    exact Nat.le_add_left _ _
  simp only [Driven.enclose, Builder.startNodeAt_index admits isNode]
  refine (build d.builder.started _ ?_).bind fun d' mirrors => ?_
  · exact ⟨h.reading, h.children, by simp only [own, h.opened]⟩
  · -- Nothing that the scope holds stays outside of the node.
    have all : d'.Mirrors ([] ++ outer)
        (⟨kind, ([] ++ outer).length, d.builder.started⟩ :: opened) inner := mirrors
    exact all.finishNode

/-! ### Recovery -/

/-- What is set aside becomes an error node of the builder, too. -/
theorem setAside (n : Nat) (h : d.Mirrors outer opened s) :
    Reaches outer opened (d.setAside n) (s.setAside n) :=
  h.skipTrivia.bind fun _ ready =>
    ready.encloseNode (by decide) fun _ _ inside => inside.consume n

/-- What is rejected is set aside on both sides. -/
theorem reject (problem : Problem) (code : ErrorCode) (h : d.Mirrors outer opened s) :
    Reaches outer opened (d.reject problem code) (s.reject problem code) := by
  simp only [Driven.reject, State.reject, h.next?]
  split
  · exact (h.complain problem code).reaches
  · exact (h.complain problem code).setAside 1

/-- The next token is the same on both sides. -/
theorem rejectNext (code : ErrorCode) (h : d.Mirrors outer opened s) :
    Reaches outer opened (d.rejectNext code) (s.rejectNext code) := by
  simp only [Driven.rejectNext, State.rejectNext, h.next?]
  cases s.next? with
  | some t => exact h.reject _ code
  | none => exact h.reaches

/-- Whether something was read shows in the place that was reached. -/
theorem insisted (start : Nat) (h : d.Mirrors outer opened s) :
    Reaches outer opened (d.insisted start) (s.insisted start) := by
  unfold Driven.insisted State.insisted
  rw [h.offset]
  split
  · exact (h.rejectNext .e0901).map fun _ mirrors => mirrors.record none
  · exact (h.record none).reaches

/-- A group is given up on both sides, of the same length. -/
theorem giveUp (limit : Nat) (goal : Goal) (h : d.Mirrors outer opened s) :
    Reaches outer opened (d.giveUp limit goal) (s.giveUp limit goal) := by
  unfold Driven.giveUp
  rw [h.satisfies]
  split
  · next ends =>
    -- Nothing is read and nothing is built.
    have still : d.reading.satisfies .endsExpression = true := (h.satisfies _).trans ends
    rw [State.giveUp, State.giveUp, if_pos ends, if_pos still, h.reading]
    exact ⟨_, rfl, rfl, h.children, h.opened⟩
  · next goesOn =>
    rw [State.giveUp, if_neg goesOn, h.rest]
    exact ((h.complain _ _).setAside _).map fun _ mirrors => mirrors.record (some .error)

/-! ### Loops and nesting -/

/-- A parse without calls left is cut off on both sides. -/
theorem starve (h : d.Mirrors outer opened s) :
    { d with reading := { d.reading with starved := true } }.Mirrors outer opened
      { s with starved := true } where
  reading := congrArg (fun r : State => { r with starved := true }) h.reading
  children := h.children
  opened := h.opened

/-- A loop makes as many turns on a builder. -/
theorem repeatWhile {test : Test} {body : Driven → Except Misuse Driven} {plain : State → State}
    (hbody : ∀ {d s}, d.Mirrors outer opened s → Reaches outer opened (body d) (plain s))
    (turns : Nat) (h : d.Mirrors outer opened s) :
    Reaches outer opened (Driven.repeatWhile (·.satisfies test) body turns d)
      (State.repeatWhile (·.satisfies test) plain turns s) := by
  induction turns generalizing d s with
  | zero =>
    simp only [Driven.repeatWhile, State.repeatWhile, h.satisfies]
    split
    · exact h.starve.reaches
    · exact h.reaches
  | succ turns ih =>
    simp only [Driven.repeatWhile, State.repeatWhile, h.satisfies]
    split
    · exact (hbody h).bind fun _ mirrors => ih mirrors
    · exact h.reaches

/-- The levels are counted alike, so both enter a goal or both give it up. -/
theorem deeper {limits : Limits} {driven : Goal → Driven → Except Misuse Driven}
    {plain : Goal → State → State} (goal : Goal)
    (hreach : ∀ {d s}, d.Mirrors outer opened s →
      Reaches outer opened (driven goal d) (plain goal s))
    (h : d.Mirrors outer opened s) :
    Reaches outer opened (d.deeper limits driven goal) (s.deeper limits plain goal) := by
  have entered : { d with reading := d.reading.entered }.Mirrors outer opened s.entered :=
    ⟨congrArg State.entered h.reading, h.children, h.opened⟩
  unfold Driven.deeper State.deeper
  rw [h.depth]
  split
  · -- The depth is part of the reading alone.
    refine (hreach entered).map fun d' mirrors => ?_
    exact ⟨congrArg (fun r : State => { r with depth := s.depth }) mirrors.reading,
      mirrors.children, mirrors.opened⟩
  · exact h.giveUp limits.maxDepth goal

end Driven.Mirrors

/-! ## Rules and goals -/

variable {limits : Limits}

/-- A rule that wraps in groups is never refused, where the goals that it reaches are not. -/
theorem Rule.drive_reaches {driven : Goal → Driven → Except Misuse Driven}
    {plain : Goal → State → State}
    (hreach : ∀ goal {outer opened d s}, Began opened outer → d.Mirrors outer opened s →
      Reaches outer opened (driven goal d) (plain goal s))
    (rule : Rule) (hkinds : ∀ k ∈ rule.nodeKinds, k ∈ Kind.nodeKinds) {grouped : Bool}
    (wraps : rule.wrapsInGroups grouped = true) {c : Option Checkpoint}
    (began : Began opened outer)
    (own : grouped = true → c = some ⟨outer.length, opened.head?.map (·.serial)⟩)
    (h : d.Mirrors outer opened s) :
    Reaches outer opened (rule.drive limits driven c d) (rule.follow limits plain s) := by
  -- Induction on the rule. In a group the checkpoint at hand is the one with which its scope
  -- begins, and no node that was started since is open where it is used.
  induction rule generalizing grouped c outer opened d s with
  | done => exact h.reaches
  | andThen first next ihFirst ihNext =>
    obtain ⟨wrapsFirst, wrapsNext⟩ := Bool.and_eq_true_iff.mp wraps
    have before := ihFirst (fun k hk => hkinds k (List.mem_append_left _ hk)) wrapsFirst began own h
    exact before.bind fun _ later =>
      ihNext (fun k hk => hkinds k (List.mem_append_right _ hk)) wrapsNext began own later
  | take => exact h.take
  | complain problem code => exact (h.complain problem code).reaches
  | reject problem code => exact h.reject problem code
  | rejectNext code => exact h.rejectNext code
  | yield parsed => exact (h.record parsed).reaches
  | branch test yes no ihYes ihNo =>
    obtain ⟨wrapsYes, wrapsNo⟩ := Bool.and_eq_true_iff.mp wraps
    simp only [Rule.drive, Rule.follow, h.satisfies]
    split
    · exact ihYes (fun k hk => hkinds k (List.mem_append_left _ hk)) wrapsYes began own h
    · exact ihNo (fun k hk => hkinds k (List.mem_append_right _ hk)) wrapsNo began own h
  | loop test body ih => exact h.repeatWhile (ih hkinds wraps began own) limits.maxTurns
  | insist body ih =>
    simp only [Rule.drive, Rule.follow, h.offset]
    exact (ih hkinds wraps began own h).bind fun _ later => later.insisted s.offset
  | node kind body ih =>
    refine h.skipTrivia.bind fun ready mirrors => ?_
    have isNode := hkinds kind (List.mem_cons_self ..)
    refine Reaches.map (mirrors.encloseNode isNode fun serial d' inside => ?_)
      fun _ built => built.record (some kind)
    -- No rule in the body wraps, so it does not matter which checkpoint is at hand.
    exact ih (fun k hk => hkinds k (List.mem_cons_of_mem _ hk)) wraps began_cons
      (fun grouped => Bool.noConfusion grouped) inside
  | group body ih =>
    -- The checkpoint comes behind the trivia, which belongs to what is around the group.
    refine h.skipTrivia.bind fun ready mirrors => ?_
    have checkpoint : ready.builder.checkpoint =
        ⟨(s.skipTrivia.out ++ outer).length, opened.head?.map (·.serial)⟩ := by
      rw [Builder.checkpoint, mirrors.children, mirrors.opened]
    obtain ⟨d', success, built⟩ := ih hkinds wraps (began.append s.skipTrivia.out)
      (fun _ => congrArg some checkpoint) mirrors.inside
    exact ⟨d', success, built.outside⟩
  | wrap kind body ih =>
    obtain ⟨grouped, wraps⟩ := Bool.and_eq_true_iff.mp wraps
    -- The checkpoint at hand is the one of this scope, and it may be used again after the node.
    obtain rfl := own grouped
    have isNode := hkinds kind (List.mem_cons_self ..)
    refine Reaches.map (h.encloseScope isNode began rfl fun serial d' inside => ?_)
      fun _ built => built.record (some kind)
    exact ih (fun k hk => hkinds k (List.mem_cons_of_mem _ hk)) wraps began_cons
      (fun grouped => Bool.noConfusion grouped) inside
  | call goal => exact hreach goal began h
  | nested goal => exact h.deeper goal (fun inside => hreach goal began inside)

/-- Without that a rule may be refused: a node cannot begin outside of the one that is open. -/
example :
    (Rule.group (.node .block (.wrap .listExpr .done))).drive ⟨0, 0⟩ (fun _ d => .ok d) none
      (Driven.start []) = .error (.strayCheckpoint ⟨0, none⟩) := rfl

/-- No goal of the grammar is refused, however many calls it is allowed. -/
theorem drive_reaches (allowance : Nat) (goal : Goal) (began : Began opened outer)
    (h : d.Mirrors outer opened s) :
    Reaches outer opened (drive grammar limits allowance goal d)
      (reach grammar limits allowance goal s) := by
  -- Induction on the allowance, which every call lowers.
  induction allowance generalizing goal outer opened d s with
  | zero => exact h.starve.reaches
  | succ allowance ih =>
    exact (grammar goal).drive_reaches (fun called => ih called) (nodeKinds_grammar goal)
      (wrapsInGroups_grammar goal) began (fun grouped => Bool.noConfusion grouped) h

/-! ## Token lists -/

/-- At the end of a parse everything that was built is in the one node around it. -/
theorem driveAll_reaches (maxDepth : Nat) (tokens : List Token) :
    Reaches [] [] (driveAll maxDepth tokens)
      { finalState maxDepth tokens with
        out := [(Parse.ofTokensWithin maxDepth tokens).tree] } := by
  have begun : (Driven.start tokens).Mirrors [] [] (State.start tokens) := ⟨rfl, rfl, rfl⟩
  have isNode : Kind.sourceFile ∈ Kind.nodeKinds := by decide
  have inside : ∀ serial d, d.Mirrors [] [⟨.sourceFile, 0, serial⟩] (State.start tokens) →
      Reaches [] [⟨.sourceFile, 0, serial⟩]
        (do (← drive grammar (Limits.forTokens maxDepth tokens) (callAllowance maxDepth)
          (.statements false) d).skipTrivia)
        (finalState maxDepth tokens) := fun serial d starts =>
    -- The trivia at the end of the text comes into the same node.
    (drive_reaches _ _ began_cons starts).bind fun _ parsed => parsed.skipTrivia
  exact begun.encloseNode isNode inside

end PerlOutline.Grammar

namespace PerlOutline.Syntax.Parse

open PerlOutline.Grammar

/-- Every list of tokens can be parsed on a builder, and no step is refused. At the end no node is
open and the syntax tree is the only child. What is not refused is said beside: a token has the
number of a kind, which the number for the end of the text is not; a node has a kind of nodes; a
checkpoint at which a node is started lies in the innermost open node and was taken there; a node
that is finished was open. -/
theorem ofTokensWithin_built (maxDepth : Nat) (tokens : List Token) :
    let parse := ofTokensWithin maxDepth tokens
    (∃ final, driveAll maxDepth tokens = .ok final ∧
      final.builder.opened = [] ∧
      final.builder.children = [parse.tree] ∧
      final.reading.rest = [] ∧
      final.reading.errors.reverse = parse.errors ∧
      final.reading.starved = false) ∧
    parse.tree.kind = .sourceFile ∧
    parse.tree.Built (· ∈ Kind.nodeKinds) ∧
    parse.tree.leaves = tokens ∧
    ∀ b : Builder,
      (∀ number text nonempty, (b.token number text nonempty).isOk ↔ number < Kind.endIndex) ∧
      (∀ number, (b.startNode number).isOk ↔
        ∃ kind ∈ Kind.nodeKinds, Kind.ofNumber? number = some kind) ∧
      (∀ c number, (b.startNodeAt c number).isOk ↔
        b.Admits c ∧ ∃ kind ∈ Kind.nodeKinds, Kind.ofNumber? number = some kind) ∧
      (b.finishNode.isOk ↔ b.opened ≠ []) := by
  intro parse
  refine ⟨?_, rfl, ?_, finalState_leaves maxDepth tokens, fun b => ?_⟩
  · obtain ⟨final, success, mirrors⟩ := driveAll_reaches maxDepth tokens
    refine ⟨final, success, mirrors.opened, mirrors.children, ?_, ?_, ?_⟩
    · exact mirrors.rest.trans (finalState_rest maxDepth tokens)
    · rw [mirrors.reading]
      rfl
    · rw [mirrors.reading]
      exact finalState_not_starved maxDepth tokens
  · apply Tree.built_node (by decide)
    intro child member
    exact finalState_built maxDepth tokens child (List.mem_reverse.mp member)
  · exact ⟨fun _ _ _ => Builder.isOk_token, fun _ => Builder.isOk_openAt,
      fun _ _ => Builder.isOk_startNodeAt, Builder.isOk_finishNode⟩

end PerlOutline.Syntax.Parse
