import PerlOutline.Proofs.FirstToken

/-!
# What may lie ahead

What is known of the next two tokens and of the expression just parsed, as it changes on the way
through a rule. A test that holds or fails tells more; where it can do so in several ways, there
are several cases.

## Layers
- **`Glimpse`**: what is known of one token.
- **`Prospect`**: what is known of a state.
- **Reading** shifts it by a token.
- **Tests** refine it.
- **Entering**: when enough is known.
-/

namespace PerlOutline.Grammar

open PerlOutline.Syntax (Kind Token)

/-! ## Glimpses -/

/-- What is known of a token ahead. -/
inductive Glimpse where
  /-- Nothing is known, and there may be none. -/
  | unknown
  /-- There is a token. -/
  | present
  /-- There is a token, and it has one of the kinds. -/
  | among (kinds : List Kind)
  deriving DecidableEq, Repr

namespace Glimpse

/-- What is known of a token is true of it. -/
def Tells (seen : Option Token) : Glimpse → Prop
  | .unknown => True
  | .present => seen.isSome = true
  | .among kinds => (seen.any fun t => kinds.contains t.kind) = true

variable {seen : Option Token} {g : Glimpse} {kinds : List Kind}

/-- A token of which the kinds are known is there. -/
theorem Tells.exists_token (h : (among kinds).Tells seen) :
    ∃ t, seen = some t ∧ t.kind ∈ kinds := by
  obtain ⟨t, there, listed⟩ := Option.any_eq_true _ _ |>.mp h
  exact ⟨t, there, List.contains_iff_mem.mp listed⟩

/-- Of a missing token nothing is known. -/
theorem Tells.isSome (h : g.Tells seen) (known : g ≠ .unknown) : seen.isSome = true := by
  cases g with
  | unknown => exact absurd rfl known
  | present => exact h
  | among kinds =>
    obtain ⟨t, rfl, -⟩ := h.exists_token
    rfl

/-- What is known of a token after a test whether it has one of the kinds. -/
def narrowed (kinds : List Kind) (holds : Bool) : Glimpse → Glimpse
  | .among before => .among (before.filter fun k => kinds.contains k == holds)
  -- Where no kinds were known only a test that holds names some.
  | g => if holds then .among kinds else g

/-- The token can be there. -/
def possible : Glimpse → Bool
  | .among [] => false
  | _ => true

/-- What is true of some token is possible. -/
theorem Tells.possible (h : g.Tells seen) : g.possible = true := by
  unfold Glimpse.possible
  split
  · obtain ⟨t, -, listed⟩ := h.exists_token
    exact absurd listed List.not_mem_nil
  · rfl

/-- The answer of the test is known of the token afterwards, too. -/
theorem Tells.narrowed {holds : Bool} (h : g.Tells seen)
    (answer : (seen.any fun t => kinds.contains t.kind) = holds) :
    (g.narrowed kinds holds).Tells seen := by
  cases g with
  | among before =>
    obtain ⟨t, rfl, listed⟩ := h.exists_token
    have same : (kinds.contains t.kind == holds) = true := beq_iff_eq.mpr answer
    exact List.contains_iff_mem.mpr (List.mem_filter.mpr ⟨listed, same⟩)
  -- A test that fails leaves what was known, and one that holds puts its kinds in the place of
  -- that.
  | unknown | present =>
    cases holds with
    | true => exact answer
    | false => exact h

/-- All that is wanted to be known is known. -/
def entails (known wanted : Glimpse) : Bool :=
  match wanted, known with
  | .unknown, _ => true
  | .present, known => known != .unknown
  | .among accepted, .among kinds => kinds.all accepted.contains
  | .among _, _ => false

/-- What entails the wanted is enough for it. -/
theorem Tells.of_entails {wanted : Glimpse} (h : g.Tells seen) (enough : g.entails wanted = true) :
    wanted.Tells seen := by
  cases wanted with
  | unknown => trivial
  | present => exact h.isSome (bne_iff_ne.mp enough)
  | among accepted =>
    cases g with
    | among kinds =>
      obtain ⟨t, rfl, listed⟩ := h.exists_token
      exact List.all_eq_true.mp enough t.kind listed
    | unknown | present => exact absurd enough (by simp [entails])

end Glimpse

/-! ## Prospects -/

/-- What is known of a state. -/
structure Prospect where
  /-- The next token. -/
  next : Glimpse
  /-- The token after the next one. -/
  second : Glimpse
  /-- Whether an expression was just parsed. -/
  parsed : Option Bool
  deriving DecidableEq, Repr

/-- Nothing is known but whether an expression was just parsed. -/
def Prospect.unseen (parsed : Option Bool) : Prospect :=
  ⟨.unknown, .unknown, parsed⟩

namespace State

/-- What is known of a state is true of it. -/
structure Faces (s : State) (p : Prospect) : Prop where
  next : p.next.Tells s.next?
  second : p.second.Tells s.second?
  parsed : ∀ b, p.parsed = some b → s.last.isSome = b

variable {s : State} {p : Prospect}

/-- Before anything is known of the tokens, nothing about them can be wrong. -/
theorem faces_unseen {parsed : Option Bool} (known : ∀ b, parsed = some b → s.last.isSome = b) :
    s.Faces (.unseen parsed) :=
  ⟨trivial, trivial, known⟩

/-! ## Reading -/

/-- Nothing is told about trivia. -/
theorem Faces.skipTrivia (h : s.Faces p) : s.skipTrivia.Faces p where
  next := s.next?_skipTrivia ▸ h.next
  second := s.second?_skipTrivia ▸ h.second
  parsed := s.last_skipTrivia ▸ h.parsed

/-- The next token is gone, with the trivia before it. -/
theorem rest_take (s : State) : s.take.rest = (significant s.rest).tail := by
  rw [take_eq, rest_advance, rest_skipTrivia]

/-- Where the next token was taken, the one after it is the next. -/
theorem next?_take (s : State) : s.take.next? = s.second? := by
  rw [next?, second?, rest_take]

/-- To take a token is not to parse an expression. -/
theorem last_take (s : State) : s.take.last = s.last := by
  rw [take, consume_frame]

/-- Where a token is taken, what was known of the second becomes known of the next. -/
theorem Faces.take (h : s.Faces p) : s.take.Faces ⟨p.second, .unknown, p.parsed⟩ where
  next := s.next?_take ▸ h.second
  second := trivial
  parsed := s.last_take ▸ h.parsed

end State

/-! ## Tests -/

/-- What is known after a test has been answered, in each of the ways in which it can have come to
the answer. -/
def Test.refine : Test → Bool → Prospect → List Prospect
  | .next kinds, holds, p =>
    if (p.next.narrowed kinds holds).possible then
      [{ p with next := p.next.narrowed kinds holds }]
    else []
  | .second kinds, holds, p =>
    if (p.second.narrowed kinds holds).possible then
      [{ p with second := p.second.narrowed kinds holds }]
    else []
  | .atEnd, true, p => if p.next = .unknown then [p] else []
  | .atEnd, false, p => if p.next = .unknown then [{ p with next := .present }] else [p]
  | .parsed, holds, p =>
    if p.parsed = some !holds then [] else [{ p with parsed := some holds }]
  | .parsedAs _, true, p =>
    if p.parsed = some false then [] else [{ p with parsed := some true }]
  | .both a b, true, p => (a.refine true p).flatMap (b.refine true)
  | .both a b, false, p => a.refine false p ++ (a.refine true p).flatMap (b.refine false)
  | .either a b, true, p => a.refine true p ++ (a.refine false p).flatMap (b.refine true)
  | .either a b, false, p => (a.refine false p).flatMap (b.refine false)
  | .fails t, holds, p => t.refine (!holds) p
  | .word _, _, p | .adjacent, _, p | .parsedAs _, false, p => [p]

namespace State

variable {s : State} {p : Prospect}

/-- Whether an expression was just parsed is known after the question, and known rightly. -/
theorem Faces.parsed_of_answer (h : s.Faces p) {holds : Bool} (answer : s.last.isSome = holds) :
    ∃ q ∈ (if p.parsed = some !holds then [] else [{ p with parsed := some holds }]),
      s.Faces q := by
  split
  · next other =>
    have known := h.parsed _ other
    simp [answer] at known
  · refine ⟨_, List.mem_singleton_self _, h.next, h.second, ?_⟩
    intro b same
    obtain rfl := Option.some.inj same
    exact answer

/-- One after the other, two tests tell what both tell. -/
theorem Faces.refine_both {a b : Test} {x y : Bool}
    (first : ∀ {p}, s.Faces p → ∃ q ∈ a.refine x p, s.Faces q)
    (next : ∀ {p}, s.Faces p → ∃ q ∈ b.refine y p, s.Faces q) (h : s.Faces p) :
    ∃ q ∈ (a.refine x p).flatMap (b.refine y), s.Faces q := by
  obtain ⟨middle, here, faces⟩ := first h
  obtain ⟨q, there, faces'⟩ := next faces
  exact ⟨q, List.mem_flatMap.mpr ⟨middle, here, there⟩, faces'⟩

/-- What a test tells is true. -/
theorem Faces.refine {test : Test} {holds : Bool} (h : s.Faces p)
    (answer : s.satisfies test = holds) : ∃ q ∈ test.refine holds p, s.Faces q := by
  -- Induction on the test, for any prospect, since the second of two tests refines that of the
  -- first.
  induction test generalizing holds p with
  | next kinds =>
    have told := h.next.narrowed answer
    simp only [Test.refine, if_pos told.possible]
    exact ⟨_, List.mem_singleton_self _, told, h.second, h.parsed⟩
  | second kinds =>
    have told := h.second.narrowed answer
    simp only [Test.refine, if_pos told.possible]
    exact ⟨_, List.mem_singleton_self _, h.next, told, h.parsed⟩
  -- These tests are about words and blanks, of which a prospect says nothing.
  | word words | adjacent => exact ⟨p, List.mem_singleton_self p, h⟩
  | atEnd =>
    cases holds with
    | false =>
      simp only [Test.refine]
      split
      · exact ⟨_, List.mem_singleton_self _, Option.isNone_eq_false_iff.mp answer, h.second,
          h.parsed⟩
      · exact ⟨p, List.mem_singleton_self p, h⟩
    -- The end is there only where nothing was known of the next token.
    | true =>
      have unknown : p.next = .unknown := by
        refine Decidable.byContradiction fun known => ?_
        have there := h.next.isSome known
        rw [Option.isNone_iff_eq_none.mp answer] at there
        exact absurd there (by decide)
      simp only [Test.refine, if_pos unknown]
      exact ⟨p, List.mem_singleton_self p, h⟩
  | parsed => exact h.parsed_of_answer answer
  | parsedAs kinds =>
    cases holds with
    | false => exact ⟨p, List.mem_singleton_self p, h⟩
    | true =>
      have parsed : s.last.isSome = true := by
        obtain ⟨kind, found, -⟩ := Option.any_eq_true _ _ |>.mp answer
        rw [found]
        rfl
      exact h.parsed_of_answer parsed
  | both a b iha ihb =>
    have told (x : Bool) (answered : s.satisfies a = x) (y : Bool)
        (answered' : s.satisfies b = y) : ∃ q ∈ (a.refine x p).flatMap (b.refine y), s.Faces q :=
      h.refine_both (fun faces => iha faces answered) fun faces => ihb faces answered'
    cases holds with
    | true =>
      obtain ⟨left, right⟩ := Bool.and_eq_true_iff.mp answer
      exact told true left true right
    | false =>
      -- Where the first test fails the second one is not asked.
      simp only [Test.refine, List.mem_append]
      cases left : s.satisfies a with
      | false =>
        obtain ⟨q, listed, faces⟩ := iha h left
        exact ⟨q, .inl listed, faces⟩
      | true =>
        have right : s.satisfies b = false := by simpa [satisfies, left] using answer
        obtain ⟨q, listed, faces⟩ := told true left false right
        exact ⟨q, .inr listed, faces⟩
  -- Dually, where the first test holds the second one is not asked.
  | either a b iha ihb =>
    have told (x : Bool) (answered : s.satisfies a = x) (y : Bool)
        (answered' : s.satisfies b = y) : ∃ q ∈ (a.refine x p).flatMap (b.refine y), s.Faces q :=
      h.refine_both (fun faces => iha faces answered) fun faces => ihb faces answered'
    cases holds with
    | false =>
      obtain ⟨left, right⟩ := Bool.or_eq_false_iff.mp answer
      exact told false left false right
    | true =>
      simp only [Test.refine, List.mem_append]
      cases left : s.satisfies a with
      | true =>
        obtain ⟨q, listed, faces⟩ := iha h left
        exact ⟨q, .inl listed, faces⟩
      | false =>
        have right : s.satisfies b = true := by simpa [satisfies, left] using answer
        obtain ⟨q, listed, faces⟩ := told false left true right
        exact ⟨q, .inr listed, faces⟩
  | fails t ih =>
    have inner : s.satisfies t = !holds := by
      rw [← answer, satisfies, Bool.not_not]
    exact ih h inner

end State

/-! ## Entering -/

/-- All that is wanted to be known is known. -/
def Prospect.covers (p wanted : Prospect) : Bool :=
  p.next.entails wanted.next && p.second.entails wanted.second &&
    (wanted.parsed == none || wanted.parsed == p.parsed)

/-- A state of which more is known is one of which the wanted is known. -/
theorem State.Faces.of_covers {s : State} {p wanted : Prospect} (h : s.Faces p)
    (covers : p.covers wanted = true) : s.Faces wanted := by
  obtain ⟨tokens, parsed⟩ := Bool.and_eq_true_iff.mp covers
  obtain ⟨next, second⟩ := Bool.and_eq_true_iff.mp tokens
  refine ⟨h.next.of_entails next, h.second.of_entails second, fun b known => ?_⟩
  rcases Bool.or_eq_true_iff.mp parsed with silent | same
  · simp [beq_iff_eq.mp silent] at known
  · exact h.parsed b (beq_iff_eq.mp same ▸ known)

end PerlOutline.Grammar
