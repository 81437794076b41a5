import PerlOutline.Proofs.Indexing

/-!
# An indexer is a ledger

The ledger of an indexer has, for each file, the version and the text that were last accepted. What
the indexer answers and what it has committed can be read off the ledger: the digests only save
work, whatever happens to the store behind the back of the indexer.

## Layers
- **`Ledger`**: what was accepted.
- **`Faithful`**: store and digests agree with the ledger, and what may happen to either.
- **Requests** to an indexer and to its store, and the ledger of what was accepted.
- **Runs** of requests keep store and digests in agreement with the ledger.
-/

namespace PerlOutline.Index

open PerlOutline.Source (FileId byteWidth)

/-! ## Ledgers -/

/-- The version and the text of each file that were last accepted. -/
abbrev Ledger : Type :=
  FileId → Option (Version × List Char)

namespace Ledger

/-- Nothing was accepted. -/
def blank : Ledger :=
  fun _ => none

/-- The ledger with another line for a file. -/
def set (m : Ledger) (file : FileId) (line : Option (Version × List Char)) : Ledger :=
  fun other => if file = other then line else m other

/-- Why a text is refused as a version of a file: a newer version was accepted, or else the text is
not too large and has a declaration without a key. -/
def refusal? (m : Ledger) (r : Registry) (c : Config) (file : FileId) (version : Version)
    (text : List Char) : Option IndexError :=
  r.refusal? ((m file).map (·.1)) file version (c.stubsOf file text)

@[simp] theorem set_self (m : Ledger) (file : FileId) (line : Option (Version × List Char)) :
    m.set file line file = line :=
  if_pos rfl

theorem set_of_ne {m : Ledger} {file other : FileId} {line : Option (Version × List Char)}
    (different : other ≠ file) : m.set file line other = m other :=
  if_neg (Ne.symm different)

/-- What a ledger says after a line was set is that line, or was there before for another file. -/
theorem set_eq_some {m : Ledger} {file other : FileId} {line : Option (Version × List Char)}
    {known : Version × List Char} :
    m.set file line other = some known ↔
      (other = file ∧ line = some known) ∨ (other ≠ file ∧ m other = some known) := by
  by_cases here : other = file
  · simp [here]
  · simp [here, set_of_ne here]

end Ledger

/-! ## Sessions -/

/-- Digests that tell texts apart. -/
def TellsApart {δ : Type} (digest : List Char → δ) (texts : List (List Char)) : Prop :=
  ∀ a ∈ texts, ∀ b ∈ texts, digest a = digest b → a = b

/-- An indexer with the ledger of what it accepted. -/
structure Session (δ : Type) where
  indexer : Indexer δ
  ledger : Ledger

namespace Session

variable {δ : Type}

/-- The session of an indexer to which nothing was said. -/
def opened (digest : List Char → δ) (config : Config) (registry : Registry) : Session δ :=
  ⟨⟨digest, config, Store.empty registry, ∅⟩, .blank⟩

/-- What is committed is what the ledger says, and a digest of the committed version is the digest
of the text in the ledger. Of other versions digests can say anything. -/
structure Faithful (digest : List Char → δ) (config : Config) (registry : Registry)
    (texts : List (List Char)) (s : Session δ) : Prop where
  sameDigest : s.indexer.digest = digest
  sameConfig : s.indexer.config = config
  sameRegistry : s.indexer.store.registry = registry
  absent : ∀ file, s.ledger file = none → s.indexer.store.fileStubs? file = none
  committed : ∀ file version text, s.ledger file = some (version, text) →
    ∃ set, s.indexer.store.fileStubs? file = some set ∧
      StubSet.ofStubs registry version (config.stubsOf file text) = .ok set
  given : ∀ file version text, s.ledger file = some (version, text) → text ∈ texts
  digested : ∀ file version text d, s.ledger file = some (version, text) →
    s.indexer.digests[file]? = some (version, d) →
      d = digest text ∧ byteWidth text ≤ config.maxFileBytes

variable {digest : List Char → δ} {config : Config} {registry : Registry}
variable {texts : List (List Char)} {s : Session δ}

/-- Nothing was accepted, and nothing is committed. -/
theorem faithful_opened (digest : List Char → δ) (config : Config) (registry : Registry)
    (texts : List (List Char)) :
    (opened digest config registry).Faithful digest config registry texts where
  sameDigest := rfl
  sameConfig := rfl
  sameRegistry := rfl
  absent file _ := by simp [opened, Store.fileStubs?, Entry.blank]
  committed file version text h := by simp [opened, Ledger.blank] at h
  given file version text h := by simp [opened, Ledger.blank] at h
  digested file version text d h := by simp [opened, Ledger.blank] at h

namespace Faithful

/-- What is known of versions that are not committed does not matter. -/
theorem withStore (h : s.Faithful digest config registry texts) {store : Store}
    (same : s.indexer.store.SameStubs store) :
    Faithful digest config registry texts ⟨s.indexer.withStore store, s.ledger⟩ where
  sameDigest := h.sameDigest
  sameConfig := h.sameConfig
  sameRegistry := same.registry.trans h.sameRegistry
  absent file line := (same.stubs file).trans (h.absent file line)
  committed file version text line := by
    obtain ⟨set, found, filed⟩ := h.committed file version text line
    exact ⟨set, (same.stubs file).trans found, filed⟩
  given := h.given
  digested := h.digested

/-- A file can be forgotten with its digest or without. -/
theorem cleared (h : s.Faithful digest config registry texts) {x : Indexer δ} {file : FileId}
    (hdigest : x.digest = s.indexer.digest) (hconfig : x.config = s.indexer.config)
    (replaces : s.indexer.store.Replaces file none x.store)
    (others : ∀ other, other ≠ file → x.digests[other]? = s.indexer.digests[other]?) :
    Faithful digest config registry texts ⟨x, s.ledger.set file none⟩ where
  sameDigest := hdigest.trans h.sameDigest
  sameConfig := hconfig.trans h.sameConfig
  sameRegistry := replaces.registry.trans h.sameRegistry
  absent other line := by
    rw [replaces.stubs]
    -- The file itself has lost its stubs. Any other file has what it had.
    by_cases here : other = file
    · rw [if_pos here.symm]
    · rw [if_neg (Ne.symm here)]
      exact h.absent other ((Ledger.set_of_ne here).symm.trans line)
  committed other version text line := by
    -- The cleared line is empty, so a line that is there belongs to another file.
    rcases Ledger.set_eq_some.mp line with ⟨_, gone⟩ | ⟨elsewhere, before⟩
    · contradiction
    · rw [replaces.stubs, if_neg (Ne.symm elsewhere)]
      exact h.committed other version text before
  given other version text line := by
    rcases Ledger.set_eq_some.mp line with ⟨_, gone⟩ | ⟨_, before⟩
    · contradiction
    · exact h.given other version text before
  digested other version text d line known := by
    rcases Ledger.set_eq_some.mp line with ⟨_, gone⟩ | ⟨elsewhere, before⟩
    · contradiction
    · rw [others other elsewhere] at known
      exact h.digested other version text d before known

/-- A text that is accepted is what the ledger then says. -/
theorem accepts (h : s.Faithful digest config registry texts) {x : Indexer δ} {file : FileId}
    {version : Version} {text : List Char} {set : StubSet} (member : text ∈ texts)
    (accepted : s.indexer.Accepts file version text set x) :
    Faithful digest config registry texts ⟨x, s.ledger.set file (some (version, text))⟩ where
  sameDigest := accepted.digest.trans h.sameDigest
  sameConfig := accepted.config.trans h.sameConfig
  sameRegistry := accepted.store.registry.trans h.sameRegistry
  absent other line := by
    -- The new line is not empty, so a file without a line is another one.
    by_cases here : other = file
    · simp [here] at line
    · rw [accepted.store.stubs, if_neg (Ne.symm here)]
      exact h.absent other ((Ledger.set_of_ne here).symm.trans line)
  committed other v t line := by
    rw [accepted.store.stubs]
    -- Either the line is the new one, which the indexer just committed, or it was there before.
    rcases Ledger.set_eq_some.mp line with ⟨rfl, new⟩ | ⟨elsewhere, before⟩
    · obtain ⟨rfl, rfl⟩ := Prod.mk.inj (Option.some.inj new)
      refine ⟨set, if_pos rfl, ?_⟩
      rw [← h.sameConfig, ← h.sameRegistry]
      exact accepted.filed
    · rw [if_neg (Ne.symm elsewhere)]
      exact h.committed other v t before
  given other v t line := by
    rcases Ledger.set_eq_some.mp line with ⟨rfl, new⟩ | ⟨_, before⟩
    · obtain ⟨rfl, rfl⟩ := Prod.mk.inj (Option.some.inj new)
      exact member
    · exact h.given other v t before
  digested other v t d line known := by
    -- Of the new version only the digest of the new text is known.
    rcases Ledger.set_eq_some.mp line with ⟨rfl, new⟩ | ⟨elsewhere, before⟩
    · obtain ⟨rfl, rfl⟩ := Prod.mk.inj (Option.some.inj new)
      rw [← h.sameConfig, ← h.sameDigest]
      exact accepted.known d known
    · rw [accepted.others other elsewhere] at known
      exact h.digested other v t d before known

/-- The committed version is the one in the ledger. -/
theorem committedVersion? (h : s.Faithful digest config registry texts) (file : FileId) :
    s.indexer.store.committedVersion? file = (s.ledger file).map (·.1) := by
  show (s.indexer.store.fileStubs? file).map StubSet.version = _
  cases line : s.ledger file with
  | none => rw [h.absent file line, Option.map_none, Option.map_none]
  | some known =>
    obtain ⟨version, text⟩ := known
    obtain ⟨set, found, filed⟩ := h.committed file version text line
    rw [found, Option.map_some, Option.map_some, (StubSet.wellFiled_of_ofStubs filed).2.1]

/-- The committed stubs are those of the text in the ledger. -/
theorem stubs (h : s.Faithful digest config registry texts) (file : FileId) :
    (s.indexer.store.fileStubs? file).map (·.stubs) =
      (s.ledger file).map fun known => config.stubsOf file known.2 := by
  cases line : s.ledger file with
  | none => rw [h.absent file line, Option.map_none, Option.map_none]
  | some known =>
    obtain ⟨version, text⟩ := known
    obtain ⟨set, found, filed⟩ := h.committed file version text line
    rw [found, Option.map_some, Option.map_some, (StubSet.wellFiled_of_ofStubs filed).2.2]

/-- A digest that is found again is the digest of the text in the ledger, so the stubs that are
kept are those of the text. -/
theorem turn [DecidableEq δ] (h : s.Faithful digest config registry texts) (file : FileId)
    (version : Version) {text : List Char} (member : text ∈ texts)
    (apart : TellsApart digest texts) :
    s.indexer.Turn file version text (s.indexer.indexText file version text) := by
  apply Indexer.turn_indexText
  intro _ committed unchanged
  -- The digest was kept for the committed version, whose text the ledger has.
  obtain ⟨current, hcurrent, found⟩ := Option.bind_eq_some_iff.mp unchanged
  obtain ⟨⟨v, d⟩, hknown, rfl⟩ := Option.map_eq_some_iff.mp found
  obtain ⟨known, matching⟩ := Option.filter_eq_some_iff.mp hknown
  obtain ⟨hd, hv⟩ : d = s.indexer.digest text ∧ v = current := by simpa using matching
  subst hv
  rw [h.committedVersion?] at hcurrent
  obtain ⟨⟨_, t⟩, line, rfl⟩ := Option.map_eq_some_iff.mp hcurrent
  have same : digest t = digest text := by
    rw [← (h.digested file _ t d line known).1, hd, h.sameDigest]
  -- Equal digests of two texts of the run mean that the texts are equal.
  have again : t = text :=
    apart t (h.given file _ t line) text member same
  rw [h.sameConfig, h.sameRegistry, ← again]
  exact h.committed file _ t line

/-- The ledger refuses what the indexer refuses, for the same cause. -/
theorem refusal? (h : s.Faithful digest config registry texts) (file : FileId)
    (version : Version) (text : List Char) :
    s.indexer.refusal? file version text = s.ledger.refusal? registry config file version text := by
  rw [Indexer.refusal?, Ledger.refusal?, h.committedVersion?, h.sameRegistry, h.sameConfig]

end Faithful

end Session

/-! ## Requests -/

/-- A request to an indexer, or to the store behind its back. -/
inductive Request where
  | index (file : FileId) (version : Version) (text : List Char)
  | forget (file : FileId)
  | store (request : Operation)

/-- What is said to a request. -/
inductive Reply where
  | indexed (result : Except IndexError Report)
  | forgot (known : Bool)
  | stored (answer : Answer)

/-- The text that a request gives to the indexer. -/
def Request.text? : Request → Option (List Char)
  | .index _ _ text => some text
  | _ => none

/-- The ledger after a request to which a reply was given. -/
def Ledger.note (m : Ledger) : Request → Reply → Ledger
  | .index file version text, .indexed (.ok _) => m.set file (some (version, text))
  | .forget file, _ => m.set file none
  | .store (.remove file), _ => m.set file none
  | .store (.load file _), .stored (.loaded (.rebuildRequired _)) => m.set file none
  | _, _ => m

namespace Session

variable {δ : Type} [DecidableEq δ]

/-- What is said to a request, and the indexer afterwards. -/
def reply (x : Indexer δ) : Request → Reply × Indexer δ
  | .index file version text =>
    let (result, x) := x.indexText file version text
    (.indexed result, x)
  | .forget file =>
    let (known, x) := x.removeFile file
    (.forgot known, x)
  | .store request =>
    let (answer, store) := x.store.perform request
    (.stored answer, x.withStore store)

/-- The session after a request. -/
def serve (s : Session δ) (request : Request) : Session δ :=
  let (said, indexer) := reply s.indexer request
  ⟨indexer, s.ledger.note request said⟩

/-- The session after requests, one after the other. -/
def serveAll (s : Session δ) (requests : List Request) : Session δ :=
  requests.foldl serve s

/-- Behind the back of the indexer nothing is committed: bytes that are loaded are corrupt. -/
def Allows (s : Session δ) : Request → Prop
  | .store (.commit ..) | .store (.recommit ..) => False
  | .store (.load file bytes) =>
    ∃ cause, (s.indexer.store.load file bytes).1 = .ok (.rebuildRequired cause)
  | _ => True

/-- Each of the requests is allowed when its turn comes. -/
def AllowsAll (s : Session δ) : List Request → Prop
  | [] => True
  | request :: requests => s.Allows request ∧ (s.serve request).AllowsAll requests

/-! ## Runs -/

variable {digest : List Char → δ} {config : Config} {registry : Registry}
variable {texts : List (List Char)} {s : Session δ}

theorem serve_index (s : Session δ) (file : FileId) (version : Version) (text : List Char) :
    s.serve (.index file version text) =
      ⟨(s.indexer.indexText file version text).2,
        s.ledger.note (.index file version text)
          (.indexed (s.indexer.indexText file version text).1)⟩ := rfl

theorem serve_store (s : Session δ) (request : Operation) :
    s.serve (.store request) =
      ⟨s.indexer.withStore (s.indexer.store.perform request).2,
        s.ledger.note (.store request) (.stored (s.indexer.store.perform request).1)⟩ := rfl

/-- A request keeps store and digests in agreement with the ledger. -/
theorem Faithful.serve (h : s.Faithful digest config registry texts) {request : Request}
    (allowed : s.Allows request) (given : ∀ text, request.text? = some text → text ∈ texts)
    (apart : TellsApart digest texts) :
    (s.serve request).Faithful digest config registry texts := by
  -- One case for each request: indexing takes one of two turns, and the store is only changed in
  -- what is not committed or by forgetting a file.
  cases request with
  | index file version text =>
    have member : text ∈ texts := given text rfl
    have turn := h.turn file version member apart
    rw [serve_index]
    generalize s.indexer.indexText file version text = outcome at turn
    cases turn with
    | refused _ same => exact h.withStore same
    | accepted _ _ _ accepted => exact h.accepts member accepted
  | forget file =>
    -- The digest is dropped with the stubs, and those of other files stay.
    refine h.cleared rfl rfl (Store.replaces_remove _ file) ?_
    intro other different
    simp [Indexer.forgetDigest, Indexer.withStore, Std.ExtTreeMap.getElem?_erase,
      Ne.symm different]
  | store request =>
    rw [serve_store]
    cases request with
    | markStale file version => exact h.withStore (Store.sameStubs_markStale _ file version)
    | begin file version =>
      rw [Store.perform, Store.snd_answer]
      exact h.withStore (Store.sameStubs_begin _ file version)
    | commit file version stubs => exact allowed.elim
    | recommit file expected version => exact allowed.elim
    | cancel file version => exact h.withStore (Store.sameStubs_cancel _ file version)
    | remove file => exact h.cleared rfl rfl (Store.replaces_remove _ file) fun _ _ => rfl
    | load file bytes =>
      -- The bytes are corrupt where they are allowed, so the file is forgotten.
      obtain ⟨cause, corrupt⟩ := allowed
      have replaces := Store.replaces_load corrupt
      rw [Store.perform]
      generalize s.indexer.store.load file bytes = outcome at corrupt replaces
      obtain ⟨answer, store⟩ := outcome
      obtain rfl : answer = .ok (.rebuildRequired cause) := corrupt
      exact h.cleared (x := s.indexer.withStore store) rfl rfl replaces fun _ _ => rfl

/-- Requests keep store and digests in agreement with the ledger while each is allowed. -/
theorem Faithful.serveAll (h : s.Faithful digest config registry texts) {requests : List Request}
    (allowed : s.AllowsAll requests)
    (given : ∀ text ∈ requests.filterMap Request.text?, text ∈ texts)
    (apart : TellsApart digest texts) :
    (s.serveAll requests).Faithful digest config registry texts := by
  induction requests generalizing s with
  | nil => exact h
  | cons request requests ih =>
    have first : ∀ text, request.text? = some text → text ∈ texts := by
      intro text htext
      exact given text (List.mem_filterMap.mpr ⟨request, List.mem_cons_self .., htext⟩)
    -- Induction on the requests: the first one is served, the others go on from there.
    apply ih (h.serve allowed.1 first apart) allowed.2
    intro text htext
    obtain ⟨later, member, is⟩ := List.mem_filterMap.mp htext
    exact given text (List.mem_filterMap.mpr ⟨later, List.mem_cons_of_mem _ member, is⟩)

/-- Whatever was requested, what is committed for a file is the version and the stubs of the text
that the ledger has for it, and the next text is refused or accepted as the ledger says. -/
theorem refines_ledger (digest : List Char → δ) (config : Config) (registry : Registry)
    (requests : List Request)
    (allowed : (opened digest config registry).AllowsAll requests)
    (apart : TellsApart digest (requests.filterMap Request.text?)) :
    let s := (opened digest config registry).serveAll requests
    Indexer.start digest config (Store.empty registry) =
        .ok (opened digest config registry).indexer ∧
      (∀ file,
        s.indexer.store.committedVersion? file = (s.ledger file).map (·.1) ∧
          (s.indexer.store.fileStubs? file).map (·.stubs) =
            (s.ledger file).map fun line => config.stubsOf file line.2) ∧
      ∀ file version text, TellsApart digest (text :: requests.filterMap Request.text?) →
        (s.indexer.indexText file version text).1.map
            (fun report => (report.file, report.version, report.stubCount)) =
          match s.ledger.refusal? registry config file version text with
          | some cause => .error cause
          | none => .ok (file, version, (config.stubsOf file text).length) := by
  intro s
  refine ⟨?_, ?_, ?_⟩
  · -- The standard kinds pass their check, so an indexer can be started.
    rw [Indexer.start, Element.Factory.checkStandard_ok]
    rfl
  · intro file
    have faithful : s.Faithful digest config registry (requests.filterMap Request.text?) :=
      (faithful_opened digest config registry _).serveAll allowed (fun _ member => member) apart
    exact ⟨faithful.committedVersion? file, faithful.stubs file⟩
  · intro file version text apart
    -- The next text must be told apart from those of the run as well.
    have faithful : s.Faithful digest config registry
        (text :: requests.filterMap Request.text?) :=
      (faithful_opened digest config registry _).serveAll allowed
        (fun _ member => List.mem_cons_of_mem _ member) apart
    have turn := faithful.turn file version (List.mem_cons_self ..) apart
    -- The turn that is taken says both how the text is refused and what is reported of it.
    generalize s.indexer.indexText file version text = outcome at turn
    cases turn with
    | refused refusal _ =>
      rw [← faithful.refusal?, refusal]
      rfl
    | @accepted report set _ refusal named accepted =>
      obtain ⟨hfile, hversion, hcount⟩ := named
      have stubs := (StubSet.wellFiled_of_ofStubs accepted.filed).2.2
      rw [faithful.sameConfig] at stubs
      have told : (report.file, report.version, report.stubCount) =
          (file, version, set.stubs.length) := by
        rw [hfile, hversion, hcount]
        rfl
      rw [← faithful.refusal?, refusal, ← stubs]
      exact congrArg Except.ok told

/-- A file that was removed behind the back of the indexer takes an older version again. -/
theorem refines_ledger_removed :
    let program := "sub f { }".toList
    let s := (opened (fun text : List Char => text) Config.standard Registry.perl).serveAll
      [.index ⟨1⟩ 2 program, .store (.markStale ⟨1⟩ 3), .store (.remove ⟨1⟩)]
    s.indexer.store.committedVersion? ⟨1⟩ = none ∧
      (s.indexer.indexText ⟨1⟩ 1 program).1.map
          (fun report => (report.file, report.version, report.stubCount)) =
        .ok (⟨1⟩, 1, 1) := by
  intro program s
  have refined := refines_ledger (fun text : List Char => text) Config.standard Registry.perl
    [.index ⟨1⟩ 2 program, .store (.markStale ⟨1⟩ 3), .store (.remove ⟨1⟩)]
    ⟨trivial, trivial, trivial, trivial⟩ (fun _ _ _ _ same => same)
  have line : s.ledger ⟨1⟩ = none := rfl
  have one : (Config.standard.stubsOf ⟨1⟩ program).length = 1 := by decide +kernel
  have filed : Registry.perl.unfiled? (Config.standard.stubsOf ⟨1⟩ program) = none := by
    decide +kernel
  refine ⟨(refined.2.1 ⟨1⟩).1.trans (congrArg _ line), ?_⟩
  refine (refined.2.2 ⟨1⟩ 1 program fun _ _ _ _ same => same).trans ?_
  have accepted : s.ledger.refusal? Registry.perl Config.standard ⟨1⟩ 1 program = none := by
    rw [Ledger.refusal?, line, Registry.refusal?, filed]
    rfl
  rw [accepted, one]

end Session

end PerlOutline.Index
