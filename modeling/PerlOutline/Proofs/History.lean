import PerlOutline.Proofs.Lookup

/-!
# The state of a file is its history

An entry keeps three versions of all that happened to a file. They are enough: how far the index is
with a file can be read off the history of the file, and what an entry forgets of it never matters
again.

## Layers
- **Versions**: the greatest of many, and what is left of it above another one.
- **`Event`**: what requests do to a file, and the history of a file.
- **Reading a history**: open begins, the committed version, the newest version that was mentioned.
- **Steps**: each event changes the entry in its own way.
- **`Tells`**: an entry tells of a history what matters, and goes on to do so.
-/

namespace PerlOutline.Index

open PerlOutline.Source (FileId)

/-! ## Versions -/

/-- The later of two versions, as the library picks it. -/
theorem max_eq (v w : Version) : max v w = if v ≤ w then w else v := rfl

instance : Std.LawfulOrderMax Version where
  max_eq_or v w := by
    rw [max_eq]
    split <;> simp
  max_le_iff v w u := by
    rw [max_eq]
    grind

/-- The greatest of some versions and one more. -/
theorem max?_concat (vs : List Version) (v : Version) : (vs ++ [v]).max? = atLeast vs.max? v := by
  cases vs with
  | nil => rfl
  | cons w ws => simp [List.max?, atLeast, List.foldl_append]

/-- The greatest of the versions above `v` is the greatest of all, unless that is not above `v`. -/
theorem max?_filter_lt (vs : List Version) (v : Version) :
    (vs.filter (v < ·)).max? = vs.max?.filter (v < ·) := by
  cases greatest : vs.max? with
  | none =>
    rw [List.max?_eq_none_iff.mp greatest]
    rfl
  | some m =>
    obtain ⟨member, above⟩ := List.max?_eq_some_iff.mp greatest
    by_cases later : v < m
    · -- The greatest of all is above the bound, so it is the greatest of those that are.
      rw [Option.filter_some_pos (by simpa using later), List.max?_eq_some_iff]
      exact ⟨List.mem_filter.mpr ⟨member, by simpa using later⟩,
        fun w hw => above w (List.mem_filter.mp hw).1⟩
    · -- If even the greatest is not above the bound, no version is.
      rw [Option.filter_some_neg (by simpa using later), List.max?_eq_none_iff,
        List.filter_eq_nil_iff]
      intro w hw below
      exact later (UInt64.lt_of_lt_of_le (by simpa using below) (above w hw))

/-! ## Events -/

/-- What can happen to a file. -/
inductive Event where
  /-- A version was announced. -/
  | marked (version : Version)
  /-- Indexing of a version was begun. -/
  | begun (version : Version)
  /-- Stubs of a version were committed or restored, or committed stubs came to stand for it. -/
  | installed (version : Version)
  /-- Indexing of a version was given up. -/
  | cancelled (version : Version)
  /-- What was restored was corrupt. -/
  | emptied
  /-- The file was known and was forgotten. -/
  | removed
  deriving DecidableEq, Repr

/-- The file that a request is about. -/
def Operation.file : Operation → FileId
  | .markStale file _ | .begin file _ | .commit file _ _ | .recommit file _ _ | .cancel file _
  | .remove file | .load file _ => file

/-- What a request did to its file, to judge by the answer. A request that was refused did nothing,
and so did one that found nothing to do. -/
def Operation.event? : Operation → Answer → Option Event
  | .markStale _ version, _ => some (.marked version)
  | .begin _ version, .done => some (.begun version)
  | .commit _ version _, .done => some (.installed version)
  | .recommit _ _ version, .told true => some (.installed version)
  | .cancel _ version, _ => some (.cancelled version)
  | .remove _, .told true => some .removed
  | .load _ _, .loaded (.loaded version _) => some (.installed version)
  | .load _ _, .loaded (.rebuildRequired _) => some .emptied
  | _, _ => none

/-- What a request did to a file. -/
def Operation.eventAt? (file : FileId) (request : Operation) (answer : Answer) : Option Event :=
  if request.file = file then request.event? answer else none

/-- What requests do to a file, one after the other. -/
def Store.history (file : FileId) (s : Store) : List Operation → List Event
  | [] => []
  | request :: requests =>
    let (answer, next) := s.perform request
    (request.eventAt? file answer).toList ++ next.history file requests

theorem Store.history_cons (file : FileId) (s : Store) (request : Operation)
    (requests : List Operation) :
    s.history file (request :: requests) =
      (request.eventAt? file (s.perform request).1).toList ++
        (s.perform request).2.history file requests := rfl

/-! ## Reading a history -/

namespace Event

/-- The version that an event mentions. To give a version up does not mention it. -/
def mentioned? : Event → Option Version
  | .marked version | .begun version | .installed version => some version
  | .cancelled _ | .emptied | .removed => none

/-- The version that an event commits. -/
def installed? : Event → Option Version
  | .installed version => some version
  | _ => none

/-- The event ends the indexing of a version. -/
def ends (begun : Version) : Event → Bool
  | .installed version | .cancelled version => begun ≤ version
  | .emptied => true
  | _ => false

/-- What happened to a file since it was forgotten last. -/
def sinceRemoval (history : List Event) : List Event :=
  (history.reverse.takeWhile (· ≠ .removed)).reverse

/-- The versions of which indexing has begun and not ended. -/
def openBegins : List Event → List Version
  | [] => []
  | .begun version :: later =>
    if later.any (ends version) then openBegins later else version :: openBegins later
  | _ :: later => openBegins later

/-- The version that was committed last, unless corrupt stubs came after it. -/
def committedIn (history : List Event) : Option Version :=
  (history.reverse.takeWhile (· ≠ .emptied)).findSome? installed?

/-- The greatest version that was mentioned. -/
def latestIn (history : List Event) : Option Version :=
  (history.filterMap mentioned?).max?

/-- How far the index is with a file of this history. -/
def stateIn (history : List Event) : FileState :=
  if openBegins history ≠ [] then .indexing
  else
    match committedIn history with
    | none => .notIndexed
    | some committed => if (latestIn history).any (committed < ·) then .stale else .indexed

/-! ### One event more -/

/-- A removal begins a new stretch of history. Any other event prolongs the one there is. -/
theorem sinceRemoval_concat (history : List Event) (e : Event) :
    sinceRemoval (history ++ [e]) = if e = .removed then [] else sinceRemoval history ++ [e] := by
  by_cases gone : e = .removed
  · simp [sinceRemoval, gone]
  · simp [sinceRemoval, gone]

/-- One event more ends what it ends, and may begin something. -/
theorem openBegins_concat (history : List Event) (e : Event) :
    openBegins (history ++ [e]) =
      (openBegins history).filter (fun version => !e.ends version) ++ openBegins [e] := by
  induction history with
  | nil => simp [openBegins]
  | cons first later ih =>
    cases first with
    | begun version =>
      simp only [List.cons_append, openBegins, List.any_append, List.any_cons, List.any_nil,
        Bool.or_false, ih]
      -- The begin stays open if no event ends it, the new one included.
      cases ended : later.any (ends version) with
      | true => simp
      | false => cases endsNow : e.ends version <;> simp [endsNow]
    | marked | installed | cancelled | emptied | removed => simpa [openBegins] using ih

/-- An event commits what it installs, and corrupt stubs leave nothing committed. -/
theorem committedIn_concat (history : List Event) (e : Event) :
    committedIn (history ++ [e]) =
      if e = .emptied then none else e.installed?.or (committedIn history) := by
  by_cases gone : e = .emptied
  · simp [committedIn, gone]
  · cases version : e.installed? <;> simp [committedIn, gone, version]

/-- An event that mentions a version can only raise the latest one. -/
theorem latestIn_concat (history : List Event) (e : Event) :
    latestIn (history ++ [e]) =
      match e.mentioned? with
      | some version => atLeast (latestIn history) version
      | none => latestIn history := by
  cases version : e.mentioned? with
  | none => simp [latestIn, version]
  | some v => simp [latestIn, version, max?_concat]

end Event

/-! ## Steps -/

/-- What an event does to the entry of its file. Only versions that are not older than the
committed one are installed. -/
inductive Entry.Step (e : Entry) : Event → Entry → Prop where
  | marked (version : Version) : Step e (.marked version) (e.mention version)
  | begun (version : Version) : Step e (.begun version) (e.begin version)
  | installed (set : StubSet)
      (newest : ∀ committed, e.committedVersion? = some committed → committed ≤ set.version) :
      Step e (.installed set.version) (e.install set)
  | cancelled (version : Version) : Step e (.cancelled version) (e.settle version)
  | emptied : Step e .emptied e.reset
  | removed : Step e .removed .blank

namespace Store

/-- The entry of a file after something may have happened to it. -/
def StepsTo (s : Store) (file : FileId) (event? : Option Event) (s' : Store) : Prop :=
  match event? with
  | none => s'.entry file = s.entry file
  | some event => (s.entry file).Step event (s'.entry file)

variable {s : Store} {file : FileId}

/-- What is not refused is not older than the committed version. -/
theorem newest_of_refusal? {e : Entry} {version : Version}
    (granted : e.refusal? file version = none)
    {committed : Version} (h : e.committedVersion? = some committed) : committed ≤ version := by
  simp only [Entry.refusal?, h] at granted
  split at granted
  · contradiction
  · next notOlder => exact UInt64.not_lt.mp notOlder

/-- A request does to its file what its answer says. -/
theorem perform_stepsTo_file (s : Store) (request : Operation) :
    s.StepsTo request.file (request.event? (s.perform request).1) (s.perform request).2 := by
  cases request with
  | markStale file version =>
    simp only [perform, Operation.file, Operation.event?, StepsTo, markStale, entry_change]
    exact .marked version
  | begin file version =>
    simp only [perform, Operation.file, begin, entry_touch]
    cases granted : (s.entry file).refusal? file version with
    | some refused => exact entry_touch s file file
    | none =>
      simp only [Outcome.answer, Operation.event?, StepsTo, entry_change, entry_touch]
      exact .begun version
  | commit file version stubs =>
    simp only [perform, Operation.file, commit]
    cases filed : StubSet.ofStubs s.registry version stubs with
    | error kind => exact rfl
    | ok set =>
      simp only [entry_touch]
      cases granted : (s.entry file).refusal? file version with
      | some refused => exact entry_touch s file file
      | none =>
        -- The installed set carries the version that was asked for.
        obtain ⟨-, rfl, -⟩ := StubSet.wellFiled_of_ofStubs filed
        simp only [Outcome.answer, Operation.event?, StepsTo, entry_install, entry_touch]
        exact .installed set fun _ => newest_of_refusal? granted
  | recommit file expected version =>
    simp only [perform, Operation.file, recommit]
    cases known : s.files[file]? with
    | none => exact rfl
    | some entry =>
      -- A known file answers with its own entry, so the guards are read off `s.entry file`.
      have here : s.entry file = entry := by rw [Store.entry, known, Option.getD_some]
      subst here
      cases granted : (s.entry file).refusal? file version with
      | some refused => simp only [granted]; exact rfl
      | none =>
        cases committed : (s.entry file).committed? with
        | none => simp only [granted, committed]; exact rfl
        | some set =>
          simp only [granted, committed]
          -- Granted, the request still does nothing unless the committed version is the expected
          -- one.
          split
          · simp only [Outcome.answer, Operation.event?, StepsTo, entry_change]
            exact .installed { set with version := version } fun _ => newest_of_refusal? granted
          · exact rfl
  | cancel file version =>
    simp only [perform, Operation.file, Operation.event?, StepsTo, cancel]
    split
    · rw [entry_change, if_pos rfl]
      exact .cancelled version
    · -- of a file that is not known there is nothing to give up
      next unknown =>
      rw [entry_of_unknown unknown]
      exact .cancelled version
  | remove file =>
    simp only [perform, Operation.file]
    cases known : s.files.contains file with
    | true =>
      have gone := entry_remove s file file
      simp only [remove, known] at gone ⊢
      simp only [Operation.event?, StepsTo, gone]
      exact .removed
    | false =>
      simp only [remove, known]
      exact rfl
  | load file bytes =>
    simp only [perform, Operation.file, load]
    cases restored : s.restore bytes with
    | error cause =>
      simp only [Outcome.answer, Operation.event?, StepsTo, entry_change, entry_unlinkAll,
        entry_touch]
      exact .emptied
    | ok set =>
      simp only [entry_touch]
      cases granted : (s.entry file).refusal? file set.version with
      | some refused => exact entry_touch s file file
      | none =>
        simp only [Outcome.answer, Operation.event?, StepsTo, entry_install, entry_touch]
        exact .installed set fun _ => newest_of_refusal? granted

/-- A request leaves other files alone: it does not even make them known. -/
theorem getElem?_perform_of_ne (s : Store) {request : Operation} {file : FileId}
    (other : request.file ≠ file) : (s.perform request).2.files[file]? = s.files[file]? := by
  -- Where an operation changes an entry at all, it is the entry of its own file.
  cases request with
  | markStale g version =>
    have different : g ≠ file := other
    simp [perform, markStale, different]
  | begin g version =>
    have different : g ≠ file := other
    simp only [perform, snd_answer, begin]
    split <;> simp [touch, different]
  | commit g version stubs =>
    have different : g ≠ file := other
    simp only [perform, snd_answer, commit]
    split
    · rfl
    · split <;> simp [touch, different]
  | recommit g expected version =>
    have different : g ≠ file := other
    simp only [perform, snd_answer, recommit]
    split
    · rfl
    · split
      · rfl
      · split
        · rfl
        · split <;> simp [different]
  | cancel g version =>
    have different : g ≠ file := other
    simp only [perform, cancel]
    split <;> simp [different]
  | remove g =>
    have different : g ≠ file := other
    simp [perform, different]
  | load g bytes =>
    have different : g ≠ file := other
    simp only [perform, snd_answer, load]
    split
    · split <;> simp [touch, different]
    · simp [touch, different]

/-- A request leaves the entries of other files alone. -/
theorem entry_perform_of_ne (s : Store) {request : Operation} {file : FileId}
    (other : request.file ≠ file) : (s.perform request).2.entry file = s.entry file := by
  rw [entry, s.getElem?_perform_of_ne other, entry]

/-- A request does to each file what its answer says of that file. -/
theorem perform_stepsTo (s : Store) (request : Operation) (file : FileId) :
    s.StepsTo file (request.eventAt? file (s.perform request).1) (s.perform request).2 := by
  unfold Operation.eventAt?
  split
  · next here =>
    subst here
    exact s.perform_stepsTo_file request
  · next elsewhere => exact s.entry_perform_of_ne elsewhere

end Store

/-! ## What an entry tells of a history -/

/-- The three versions of an entry are what its history says. -/
structure Entry.Tells (e : Entry) (history : List Event) : Prop where
  committed : e.committedVersion? = Event.committedIn history
  indexing : e.indexing? = (Event.openBegins history).max?
  latest : e.latest? = Event.latestIn history

namespace Entry

theorem tells_blank : blank.Tells [] :=
  ⟨rfl, rfl, rfl⟩

variable {e e' : Entry} {past : List Event} {event : Event}

/-- Only installing and emptying touch the committed version. -/
theorem Step.committedVersion? (step : e.Step event e') (kept : event ≠ .removed) :
    e'.committedVersion? =
      if event = .emptied then none else event.installed?.or e.committedVersion? := by
  cases step with
  | removed => contradiction
  | marked | begun | installed | cancelled | emptied => rfl

/-- Only an event that mentions a version touches the latest one. -/
theorem Step.latest? (step : e.Step event e') (kept : event ≠ .removed) :
    e'.latest? =
      match event.mentioned? with
      | some version => atLeast e.latest? version
      | none => e.latest? := by
  cases step with
  | removed => contradiction
  | marked | begun | installed | cancelled | emptied => rfl

/-- An event that ends nothing leaves open what was open, and adds what it begins. -/
theorem openBegins_of_keeps (keeps : ∀ v, event.ends v = false) :
    Event.openBegins (past ++ [event]) = Event.openBegins past ++ Event.openBegins [event] := by
  have kept : ∀ v ∈ Event.openBegins past, (!event.ends v) = true := by simp [keeps]
  rw [Event.openBegins_concat, List.filter_eq_self.mpr kept]

/-- What is still open after an event that ends the versions up to `version` and begins none. -/
theorem max?_openBegins_of_ends {version : Version}
    (ends : ∀ v, event.ends v = decide (v ≤ version)) (none : Event.openBegins [event] = []) :
    (Event.openBegins (past ++ [event])).max? =
      (Event.openBegins past).max?.filter (version < ·) := by
  have kept : (Event.openBegins past).filter (fun v => !event.ends v) =
      (Event.openBegins past).filter (version < ·) := by
    apply List.filter_congr
    intro v _
    rw [ends, ← decide_not]
    exact decide_eq_decide.mpr UInt64.not_le
  rw [Event.openBegins_concat, none, List.append_nil, kept, max?_filter_lt]

/-- The version that is being indexed stays the greatest begin that is open. -/
theorem Step.indexing? (step : e.Step event e') (kept : event ≠ .removed)
    (before : e.indexing? = (Event.openBegins past).max?) :
    e'.indexing? = (Event.openBegins (past ++ [event])).max? := by
  cases step with
  | removed => contradiction
  | marked version =>
    -- To mark a version ends nothing and begins nothing.
    have same : Event.openBegins (past ++ [.marked version]) = Event.openBegins past :=
      (openBegins_of_keeps fun _ => rfl).trans (List.append_nil _)
    rw [same]
    exact before
  | begun version =>
    have more : Event.openBegins (past ++ [.begun version]) =
        Event.openBegins past ++ [version] :=
      openBegins_of_keeps fun _ => rfl
    rw [more, max?_concat, ← before]
    rfl
  | installed set newest =>
    rw [max?_openBegins_of_ends (fun _ => rfl) rfl, ← before]
    rfl
  | cancelled version =>
    rw [max?_openBegins_of_ends (fun _ => rfl) rfl, ← before]
    rfl
  | emptied =>
    -- Corrupt stubs end every begin, whatever its version.
    have nothing : Event.openBegins (past ++ [.emptied]) = [] := by
      have dropped : (Event.openBegins past).filter (fun v => !Event.ends v .emptied) = [] :=
        List.filter_eq_nil_iff.mpr fun _ _ => Bool.false_ne_true
      rw [Event.openBegins_concat, dropped]
      rfl
    rw [nothing]
    rfl

/-- Whatever happens, the entry goes on to tell of the history since the last removal. -/
theorem Tells.step {history : List Event} (h : e.Tells (Event.sinceRemoval history))
    (step : e.Step event e') : e'.Tells (Event.sinceRemoval (history ++ [event])) := by
  rw [Event.sinceRemoval_concat]
  by_cases gone : event = .removed
  · -- a removal ends the history, and begins the next one
    subst gone
    cases step
    rw [if_pos rfl]
    exact tells_blank
  · rw [if_neg gone]
    -- What is being indexed follows the open begins, the other two versions the event alone.
    refine ⟨?_, step.indexing? gone h.indexing, ?_⟩
    · rw [step.committedVersion? gone, Event.committedIn_concat, h.committed]
    · rw [step.latest? gone, Event.latestIn_concat, h.latest]

/-- How far the index is with a file is told by its history. -/
theorem Tells.state (h : e.Tells past) : e.state = Event.stateIn past := by
  unfold Entry.state Event.stateIn
  rw [← h.committed, ← h.latest, h.indexing]
  cases opened : Event.openBegins past with
  | nil => cases e.committedVersion? <;> rfl
  | cons version versions =>
    rw [List.max?_cons]
    rfl

end Entry

/-! ## Runs -/

namespace Store

variable {s : Store} {file : FileId}

theorem run_append (s : Store) (first later : List Operation) :
    s.run (first ++ later) = (s.run first).run later :=
  List.foldl_append

/-- A run keeps entries and histories together. -/
theorem tells_run {past : List Event} (h : (s.entry file).Tells (Event.sinceRemoval past))
    (requests : List Operation) :
    ((s.run requests).entry file).Tells
      (Event.sinceRemoval (past ++ s.history file requests)) := by
  induction requests generalizing s past with
  | nil =>
    rw [history, List.append_nil]
    exact h
  | cons request requests ih =>
    rw [history_cons, ← List.append_assoc]
    -- The history of the rest goes on from what the first request did.
    refine ih ?_
    have did := s.perform_stepsTo request file
    cases happened : request.eventAt? file (s.perform request).1 with
    | none =>
      rw [happened] at did
      rw [Option.toList_none, List.append_nil, did]
      exact h
    | some event =>
      rw [happened] at did
      exact h.step did

/-- One event that neither removes nor empties leaves the committed version alone, or installs one
that is not older. -/
theorem committedVersion?_step {e e' : Entry} {event : Event} (step : e.Step event e')
    (quiet : event ≠ .removed ∧ event ≠ .emptied) {version : Version}
    (committed : e.committedVersion? = some version) :
    ∃ later, e'.committedVersion? = some later ∧ version ≤ later := by
  cases step with
  | removed | emptied => simp at quiet
  | installed set newest => exact ⟨set.version, rfl, newest version committed⟩
  | marked | begun | cancelled => exact ⟨version, committed, UInt64.le_refl _⟩

/-- The committed version does not go down while the file is not removed and nothing corrupt is
restored. -/
theorem committedVersion?_mono (requests : List Operation)
    (quiet : ∀ event ∈ s.history file requests, event ≠ .removed ∧ event ≠ .emptied)
    {version : Version} (committed : s.committedVersion? file = some version) :
    ∃ later, (s.run requests).committedVersion? file = some later ∧ version ≤ later := by
  induction requests generalizing s version with
  | nil => exact ⟨version, committed, UInt64.le_refl _⟩
  | cons request requests ih =>
    rw [history_cons] at quiet
    have did := s.perform_stepsTo request file
    -- Either the request did nothing to the file, or it took one quiet step.
    have next : ∃ middle, (s.perform request).2.committedVersion? file = some middle ∧
        version ≤ middle := by
      cases happened : request.eventAt? file (s.perform request).1 with
      | none =>
        rw [happened] at did
        exact ⟨version, (congrArg Entry.committedVersion? did).trans committed,
          UInt64.le_refl _⟩
      | some event =>
        rw [happened] at did quiet
        exact committedVersion?_step did (quiet event (List.mem_append_left _ (by simp))) committed
    obtain ⟨middle, hmiddle, le⟩ := next
    obtain ⟨later, hlater, le'⟩ :=
      ih (fun event member => quiet event (List.mem_append_right _ member)) hmiddle
    exact ⟨later, hlater, UInt64.le_trans le le'⟩

/-- How far the index is with a file, and which version of it is committed, is determined by what
happened to the file since it was forgotten last. The committed version does not go down unless the
file is forgotten or something corrupt is restored. -/
theorem state_determined_by_history (registry : Registry) (requests : List Operation)
    (file : FileId) :
    let s := (empty registry).run requests
    let past := Event.sinceRemoval ((empty registry).history file requests)
    s.fileState file = Event.stateIn past ∧
      s.committedVersion? file = Event.committedIn past ∧
      (s.fileStubs? file).map (·.version) = Event.committedIn past ∧
      ∀ earlier later, earlier ++ later = requests →
        (∀ event ∈ ((empty registry).run earlier).history file later,
          event ≠ .removed ∧ event ≠ .emptied) →
        ∀ version, ((empty registry).run earlier).committedVersion? file = some version →
          ∃ newer, s.committedVersion? file = some newer ∧ version ≤ newer := by
  intro s past
  have start : ((empty registry).entry file).Tells (Event.sinceRemoval []) := by
    rw [entry_empty]
    exact Entry.tells_blank
  have tells : (s.entry file).Tells past := tells_run start requests
  refine ⟨tells.state, tells.committed, tells.committed, ?_⟩
  -- The run goes through the earlier store, so the later requests go on from its version.
  rintro earlier later rfl quiet version committed
  show ∃ newer, ((empty registry).run (earlier ++ later)).committedVersion? file = some newer ∧ _
  rw [run_append]
  exact committedVersion?_mono later quiet committed

end Store

end PerlOutline.Index
