import PerlOutline.Proofs.Lookup
import PerlOutline.Proofs.Outlining

/-!
# What indexing a text does

Indexing refuses a text and leaves all committed stubs alone, or it commits the stubs of the text.
Which of the two happens does not depend on whether the text is parsed or the stubs are kept.

## Layers
- **Refusals**: an older version, or a declaration without a key.
- **`commit`** and **`recommit`**: what they answer, and what is committed afterwards.
- **`Turn`**: what may come of indexing a text, and that it does.
-/

namespace PerlOutline.Index

open PerlOutline (Stub)
open PerlOutline.Source (FileId byteWidth)
open PerlOutline.Stub (DeclarationKind)

/-! ## Refusals -/

/-- The kind of the first stub that has no key. -/
def Registry.unfiled? (r : Registry) (stubs : List Stub) : Option DeclarationKind :=
  (stubs.find? fun stub => (r.keyFor? stub.kind).isNone).map (·.kind)

/-- Why stubs of a version are refused where `committed` is committed: they are older, or else one
of them has no key. -/
def Registry.refusal? (r : Registry) (committed : Option Version) (file : FileId)
    (version : Version) (stubs : List Stub) : Option IndexError :=
  match committed.filter (version < ·) with
  | some newer => some (.superseded file version newer)
  | none => (r.unfiled? stubs).map .unregisteredKind

/-- An entry refuses what is older than its committed version, and names that version. -/
theorem Entry.refusal?_eq (e : Entry) (file : FileId) (version : Version) :
    e.refusal? file version =
      (e.committedVersion?.filter (version < ·)).map (.superseded file version ·) := by
  unfold Entry.refusal?
  cases e.committedVersion? with
  | none => rfl
  | some committed =>
    by_cases older : version < committed
    · simp [Option.filter, older]
    · simp [Option.filter, older]

namespace StubSet

variable {r : Registry}

/-- Stubs are filed unless one of them has no key. -/
theorem ofStubs_eq (version : Version) (stubs : List Stub) :
    (∃ kind, r.unfiled? stubs = some kind ∧ ofStubs r version stubs = .error kind) ∨
      r.unfiled? stubs = none ∧ ∃ set, ofStubs r version stubs = .ok set := by
  -- The stubs are filed in order, and the first one without a key ends that.
  -- `ofStubs` only builds on the names, so it is enough to say when the names are found.
  have names : (∃ kind, r.unfiled? stubs = some kind ∧ stubs.mapM (nameKey r) = .error kind) ∨
      r.unfiled? stubs = none ∧ ∃ names, stubs.mapM (nameKey r) = .ok names := by
    induction stubs with
    | nil => exact .inr ⟨rfl, [], rfl⟩
    | cons stub stubs ih =>
      rw [List.mapM_cons]
      -- Induction on the stubs: without a key the first one is to blame, else the rest decides.
      cases key : r.keyFor? stub.kind with
      | none =>
        refine .inl ⟨stub.kind, ?_, ?_⟩
        · simp [Registry.unfiled?, key]
        · simp only [nameKey, key]
          rfl
      | some key' =>
        have same : r.unfiled? (stub :: stubs) = r.unfiled? stubs := by
          simp [Registry.unfiled?, key]
        rw [same]
        simp only [nameKey, key]
        rcases ih with ⟨kind, unfiled, failed⟩ | ⟨unfiled, names, filed⟩
        · rw [failed]
          exact .inl ⟨kind, unfiled, rfl⟩
        · rw [filed]
          exact .inr ⟨unfiled, ⟨key', stub.name⟩ :: names, rfl⟩
  simp only [ofStubs]
  rcases names with ⟨kind, unfiled, failed⟩ | ⟨unfiled, names, filed⟩
  · rw [failed]
    exact .inl ⟨kind, unfiled, rfl⟩
  · rw [filed]
    exact .inr ⟨unfiled, _, rfl⟩

/-- Stubs that were filed all have a key. -/
theorem unfiled?_of_ofStubs {version : Version} {stubs : List Stub} {set : StubSet}
    (filed : ofStubs r version stubs = .ok set) : r.unfiled? stubs = none := by
  rcases ofStubs_eq (r := r) version stubs with ⟨kind, _, failed⟩ | ⟨unfiled, _⟩
  · rw [filed] at failed
    simp at failed
  · exact unfiled

end StubSet

/-! ## Stores -/

namespace Store

/-- Two stores that differ at most in what is known of versions that are not committed. -/
structure SameStubs (s s' : Store) : Prop where
  registry : s'.registry = s.registry
  stubs : ∀ file, s'.fileStubs? file = s.fileStubs? file

/-- A store that differs from another at most in the stubs of one file, and in what is known of
versions that are not committed. -/
structure Replaces (s : Store) (file : FileId) (committed? : Option StubSet) (s' : Store) :
    Prop where
  registry : s'.registry = s.registry
  stubs : ∀ other, s'.fileStubs? other =
    if file = other then committed? else s.fileStubs? other

variable {s : Store}

theorem SameStubs.refl (s : Store) : s.SameStubs s :=
  ⟨rfl, fun _ => rfl⟩

theorem SameStubs.trans {a b c : Store} (ab : a.SameStubs b) (bc : b.SameStubs c) :
    a.SameStubs c :=
  ⟨bc.registry.trans ab.registry, fun file => (bc.stubs file).trans (ab.stubs file)⟩

theorem SameStubs.replaces {a b c : Store} (ab : a.SameStubs b) {file : FileId}
    {committed? : Option StubSet} (bc : b.Replaces file committed? c) :
    a.Replaces file committed? c := by
  refine ⟨bc.registry.trans ab.registry, ?_⟩
  intro other
  rw [bc.stubs, ab.stubs]

theorem SameStubs.committedVersion? {s' : Store} (h : s.SameStubs s') (file : FileId) :
    s'.committedVersion? file = s.committedVersion? file :=
  congrArg (Option.map StubSet.version) (h.stubs file)

/-- A change that leaves the committed stubs of a file alone leaves all stubs alone. -/
theorem sameStubs_change (s : Store) (file : FileId) (f : Entry → Entry)
    (same : (f (s.entry file)).committed? = (s.entry file).committed?) :
    s.SameStubs (s.change file f) := by
  refine ⟨rfl, ?_⟩
  intro other
  simp only [fileStubs?, entry_change]
  split
  · next here => rw [← here, same]
  · rfl

theorem sameStubs_touch (s : Store) (file : FileId) : s.SameStubs (s.touch file) :=
  s.sameStubs_change file id rfl

theorem sameStubs_markStale (s : Store) (file : FileId) (version : Version) :
    s.SameStubs (s.markStale file version) :=
  s.sameStubs_change file (·.mention version) rfl

theorem sameStubs_begin (s : Store) (file : FileId) (version : Version) :
    s.SameStubs (s.begin file version).2 := by
  have touched := s.sameStubs_touch file
  simp only [begin]
  split
  · exact touched
  · exact touched.trans (sameStubs_change _ file (·.begin version) rfl)

theorem sameStubs_cancel (s : Store) (file : FileId) (version : Version) :
    s.SameStubs (s.cancel file version) := by
  unfold cancel
  split
  · exact s.sameStubs_change file (·.settle version) rfl
  · exact .refl s

theorem replaces_change (s : Store) (file : FileId) (f : Entry → Entry) :
    s.Replaces file (f (s.entry file)).committed? (s.change file f) := by
  refine ⟨rfl, ?_⟩
  intro other
  simp only [fileStubs?, entry_change]
  split
  · rfl
  · rfl

theorem replaces_install (s : Store) (file : FileId) (set : StubSet) :
    s.Replaces file (some set) (s.install file set) :=
  ⟨rfl, (s.replaces_change file (·.install set)).stubs⟩

theorem replaces_remove (s : Store) (file : FileId) :
    s.Replaces file none (s.remove file).2 := by
  refine ⟨registry_remove s file, ?_⟩
  intro other
  simp only [fileStubs?, entry_remove]
  split
  · rfl
  · rfl

/-- Corrupt bytes leave nothing committed. -/
theorem replaces_load {file : FileId} {bytes : MessagePack.Bytes} {cause : Stub.Corruption}
    (corrupt : (s.load file bytes).1 = .ok (.rebuildRequired cause)) :
    s.Replaces file none (s.load file bytes).2 := by
  unfold load at corrupt ⊢
  cases restored : s.restore bytes with
  | ok set =>
    simp only [restored] at corrupt
    -- Neither what is restored nor what is refused says that a rebuild is required.
    split at corrupt
    · simp at corrupt
    · simp at corrupt
  | error found =>
    refine (s.sameStubs_touch file).replaces ?_
    exact ⟨rfl, ((s.touch file).replaces_change file Entry.reset).stubs⟩

/-- To begin is refused for an older version and for no other reason. -/
theorem fst_begin (s : Store) (file : FileId) (version : Version) :
    (s.begin file version).1 =
      match (s.committedVersion? file).filter (version < ·) with
      | some newer => .error (.superseded file version newer)
      | none => .ok () := by
  simp only [begin, entry_touch, Entry.refusal?_eq]
  rw [← committedVersion?]
  cases (s.committedVersion? file).filter (version < ·) with
  | none => rfl
  | some newer => rfl

/-- What a commit answers and leaves behind. -/
theorem commit_cases (s : Store) (file : FileId) (version : Version) (stubs : List Stub) :
    (∃ refused, (s.commit file version stubs).1 = .error refused ∧
        s.SameStubs (s.commit file version stubs).2 ∧
        (s.registry.unfiled? stubs = none ∨
            (s.committedVersion? file).filter (version < ·) = none →
          s.registry.refusal? (s.committedVersion? file) file version stubs = some refused)) ∨
      ∃ set, StubSet.ofStubs s.registry version stubs = .ok set ∧
        (s.commit file version stubs).1 = .ok () ∧
        s.Replaces file (some set) (s.commit file version stubs).2 ∧
        s.registry.refusal? (s.committedVersion? file) file version stubs = none := by
  have older : (s.entry file).refusal? file version =
      ((s.committedVersion? file).filter (version < ·)).map (.superseded file version ·) :=
    Entry.refusal?_eq ..
  unfold commit Registry.refusal?
  rcases StubSet.ofStubs_eq (r := s.registry) version stubs with
    ⟨kind, unfiled, failed⟩ | ⟨unfiled, set, filed⟩
  · rw [failed]
    refine .inl ⟨_, rfl, .refl s, ?_⟩
    -- A stub without a key is reported before the versions are compared. That is what `refusal?`
    -- says only where no newer version is committed.
    rintro (none | none)
    · rw [none] at unfiled
      simp at unfiled
    · rw [none, unfiled]
      rfl
  · simp only [filed, entry_touch, older]
    cases newer : (s.committedVersion? file).filter (version < ·) with
    | some committed => exact .inl ⟨_, rfl, s.sameStubs_touch file, fun _ => rfl⟩
    | none =>
      -- Nothing newer is committed, so the stubs are installed and the answer is `.ok`.
      refine .inr ⟨set, rfl, rfl, ?_, by rw [unfiled]; rfl⟩
      exact (s.sameStubs_touch file).replaces (replaces_install _ file set)

/-- What it does to let committed stubs stand for a version. -/
theorem recommit_cases {file : FileId} {set : StubSet} (committed : s.fileStubs? file = some set)
    (version : Version) :
    (∃ refused, s.recommit file set.version version = (.error refused, s) ∧
        ∀ stubs, s.registry.refusal? (s.committedVersion? file) file version stubs =
          some refused) ∨
      (s.recommit file set.version version).1 = .ok true ∧
        s.Replaces file (some { set with version := version })
          (s.recommit file set.version version).2 ∧
        (s.committedVersion? file).filter (version < ·) = none := by
  have found : (s.entry file).committed? = some set := committed
  have older : (s.entry file).refusal? file version =
      ((s.committedVersion? file).filter (version < ·)).map (.superseded file version ·) :=
    Entry.refusal?_eq ..
  cases known : s.files[file]? with
  | none =>
    -- a file of which nothing is known has no committed stubs
    rw [entry, known] at found
    simp [Entry.blank] at found
  | some entry =>
    have here : s.entry file = entry := by rw [Store.entry, known, Option.getD_some]
    rw [here] at found older
    simp only [recommit, known, older, Registry.refusal?]
    cases newer : (s.committedVersion? file).filter (version < ·) with
    | some committed => exact .inl ⟨_, rfl, fun _ => rfl⟩
    | none =>
      simp only [Option.map_none, found, if_pos]
      refine .inr ⟨trivial, ?_, trivial⟩
      exact s.replaces_change file (·.install { set with version := version })

end Store

/-! ## Indexing -/

/-- The stubs of a text as they are committed: a text that is too large has none. -/
def Config.stubsOf (c : Config) (file : FileId) (text : List Char) : List Stub :=
  if c.maxFileBytes < byteWidth text then []
  else (Outline.ofText file text).toOption.elim [] (·.stubs)

namespace Indexer

variable {δ : Type}

/-- Why a text is refused as a version of a file. -/
def refusal? (x : Indexer δ) (file : FileId) (version : Version) (text : List Char) :
    Option IndexError :=
  x.store.registry.refusal? (x.store.committedVersion? file) file version
    (x.config.stubsOf file text)

/-- A text was committed as a version of a file. The digest that is then known of that version is
the digest of the text, and none is known of a text that is too large. -/
structure Accepts (x : Indexer δ) (file : FileId) (version : Version) (text : List Char)
    (set : StubSet) (x' : Indexer δ) : Prop where
  filed : StubSet.ofStubs x.store.registry version (x.config.stubsOf file text) = .ok set
  store : x.store.Replaces file (some set) x'.store
  digest : x'.digest = x.digest
  config : x'.config = x.config
  others : ∀ other, other ≠ file → x'.digests[other]? = x.digests[other]?
  known : ∀ d, x'.digests[file]? = some (version, d) →
    d = x.digest text ∧ byteWidth text ≤ x.config.maxFileBytes

/-- What may come of indexing a text. -/
inductive Turn (x : Indexer δ) (file : FileId) (version : Version) (text : List Char) :
    Except IndexError Report × Indexer δ → Prop where
  | refused {cause : IndexError} {store : Store}
      (refusal : x.refusal? file version text = some cause)
      (same : x.store.SameStubs store) :
      Turn x file version text (.error cause, x.withStore store)
  | accepted {report : Report} (set : StubSet) {x' : Indexer δ}
      (refusal : x.refusal? file version text = none)
      (named : report.file = file ∧ report.version = version ∧ report.stubCount = set.size)
      (accepts : x.Accepts file version text set x') :
      Turn x file version text (.ok report, x')

variable {x : Indexer δ} {file : FileId} {version : Version} {text : List Char}

/-- A text within the size is remembered by its digest. -/
theorem accepts_remember {set : StubSet} {store : Store}
    (filed : StubSet.ofStubs x.store.registry version (x.config.stubsOf file text) = .ok set)
    (replaces : x.store.Replaces file (some set) store)
    (small : byteWidth text ≤ x.config.maxFileBytes) :
    x.Accepts file version text set
      ((x.withStore store).remember file version (x.digest text)) where
  filed := filed
  store := replaces
  digest := rfl
  config := rfl
  others other different := by
    simp [remember, withStore, Std.ExtTreeMap.getElem?_alter, Ne.symm different]
  known d found := by
    refine ⟨?_, small⟩
    simp only [remember, withStore, Std.ExtTreeMap.getElem?_alter, Std.ReflCmp.compare_self,
      if_pos] at found
    split at found
    · simp_all
    · split at found
      · simp_all
      · -- what is known is of a newer version, so it is not of this one
        next older =>
        simp only [Option.some.injEq, Prod.mk.injEq] at found
        rw [found.1] at older
        exact absurd (UInt64.le_refl version) older

/-- A text that is too large is committed without stubs, or refused for its version. -/
theorem turn_tooLarge (large : x.config.maxFileBytes < byteWidth text) :
    x.Turn file version text (x.commitTooLarge file version) := by
  have none : x.config.stubsOf file text = [] := if_pos large
  unfold commitTooLarge
  rcases x.store.commit_cases file version [] with
    ⟨refused, answer, same, why⟩ | ⟨set, filed, answer, replaces, why⟩
  · -- The text has no stubs, so the store is right to refuse: the version is too old.
    generalize x.store.commit file version [] = outcome at answer same
    obtain ⟨result, store⟩ := outcome
    obtain rfl : result = .error refused := answer
    refine .refused ?_ same
    rw [refusal?, none]
    exact why (.inl rfl)
  · generalize x.store.commit file version [] = outcome at answer replaces
    obtain ⟨result, store⟩ := outcome
    obtain rfl : result = .ok () := answer
    have size : set.size = 0 := by
      rw [StubSet.size, (StubSet.wellFiled_of_ofStubs filed).2.2, List.length_nil]
    refine .accepted set (by rw [refusal?, none]; exact why) ⟨rfl, rfl, size.symm⟩ ?_
    -- Too large a text leaves no digest behind, so nothing can be known of it.
    exact {
      filed := by rw [none]; exact filed
      store := replaces
      digest := rfl
      config := rfl
      others := fun other different => by
        simp [forgetDigest, withStore, Std.ExtTreeMap.getElem?_erase, Ne.symm different]
      known := fun d found => by simp [forgetDigest] at found }

/-- Stubs that are kept are those that parsing the text would give, if the digest does not
mistake the text for another. -/
theorem turn_keep [DecidableEq δ] (small : byteWidth text ≤ x.config.maxFileBytes)
    (trusted : ∀ committed, x.unchangedSince? file (x.digest text) = some committed →
      ∃ set, x.store.fileStubs? file = some set ∧
        StubSet.ofStubs x.store.registry committed (x.config.stubsOf file text) = .ok set)
    {outcome : Except IndexError Report × Indexer δ}
    (kept : x.keep? file version (x.digest text) = some outcome) :
    x.Turn file version text outcome := by
  unfold keep? at kept
  split at kept
  · -- The stubs of the committed version are let stand for the new one.
    obtain ⟨expected, unchanged, restamped⟩ := Option.bind_eq_some_iff.mp kept
    obtain ⟨set, committed, filed⟩ := trusted expected unchanged
    obtain ⟨wellFiled, rfl, stubs⟩ := StubSet.wellFiled_of_ofStubs filed
    unfold restamp? at restamped
    rcases Store.recommit_cases committed version with
      ⟨refused, answer, why⟩ | ⟨answer, replaces, newest⟩
    · rw [answer] at restamped
      obtain rfl := Option.some.inj restamped
      exact .refused (why _) (.refl _)
    · generalize x.store.recommit file set.version version = result at answer replaces restamped
      obtain ⟨result, store⟩ := result
      obtain rfl : result = .ok true := answer
      have now : store.fileStubs? file = some { set with version := version } := by
        rw [replaces.stubs, if_pos rfl]
      simp only [now, Option.elim_some] at restamped
      obtain rfl := Option.some.inj restamped
      -- The committed stubs were filed for this text, so the text has a key for each of them.
      have refusal : x.refusal? file version text = none := by
        rw [refusal?, Registry.refusal?, newest, StubSet.unfiled?_of_ofStubs filed]
        rfl
      refine .accepted { set with version := version } refusal ⟨rfl, rfl, rfl⟩ ?_
      refine accepts_remember ?_ replaces small
      rw [← stubs]
      exact wellFiled.restamp version
  · simp at kept

/-- A text that is parsed is begun, outlined and committed, or it is refused on the way. -/
theorem turn_parse (small : byteWidth text ≤ x.config.maxFileBytes) :
    x.Turn file version text (x.parseAndCommit file version text) := by
  obtain ⟨outline, outlined⟩ := Outline.exists_ofText file text
  have stubs : x.config.stubsOf file text = outline.stubs := by
    rw [Config.stubsOf, if_neg (Nat.not_lt.mpr small), outlined]
    rfl
  have begun := x.store.sameStubs_begin file version
  have answer := x.store.fst_begin file version
  unfold parseAndCommit
  -- To begin already finds a newer version, so the commit that follows cannot.
  generalize x.store.begin file version = outcome at begun answer
  obtain ⟨result, store⟩ := outcome
  cases newer : (x.store.committedVersion? file).filter (version < ·) with
  | some committed =>
    rw [newer] at answer
    obtain rfl : result = .error (.superseded file version committed) := answer
    refine .refused ?_ begun
    rw [refusal?, Registry.refusal?, newer]
  | none =>
    rw [newer] at answer
    obtain rfl : result = .ok () := answer
    rw [outlined]
    -- The begin changed no stubs, so the commit meets the refusals that the text had before it.
    have refusal : x.refusal? file version text =
        store.registry.refusal? (store.committedVersion? file) file version outline.stubs := by
      rw [refusal?, stubs, begun.committedVersion?, begun.registry]
    have newest : (store.committedVersion? file).filter (version < ·) = none := by
      rw [begun.committedVersion?, newer]
    dsimp only
    rcases store.commit_cases file version outline.stubs with
      ⟨refused, answer, same, why⟩ | ⟨set, filed, answer, replaces, why⟩
    · generalize store.commit file version outline.stubs = outcome at answer same
      obtain ⟨result, after⟩ := outcome
      obtain rfl : result = .error refused := answer
      -- The begin and the cancel around the failed commit leave no trace in the stubs.
      refine .refused (refusal.trans (why (.inr newest))) ?_
      exact (begun.trans same).trans (after.sameStubs_cancel file version)
    · generalize store.commit file version outline.stubs = outcome at answer replaces
      obtain ⟨result, after⟩ := outcome
      obtain rfl : result = .ok () := answer
      have size : outline.stubs.length = set.size := by
        rw [StubSet.size, (StubSet.wellFiled_of_ofStubs filed).2.2]
      refine .accepted set (refusal.trans why) ⟨rfl, rfl, size⟩ ?_
      refine accepts_remember ?_ (begun.replaces replaces) small
      rw [stubs, ← begun.registry]
      exact filed

/-- Indexing refuses a text or commits its stubs, whichever way it goes about it. -/
theorem turn_indexText [DecidableEq δ]
    (trusted : byteWidth text ≤ x.config.maxFileBytes →
      ∀ committed, x.unchangedSince? file (x.digest text) = some committed →
        ∃ set, x.store.fileStubs? file = some set ∧
          StubSet.ofStubs x.store.registry committed (x.config.stubsOf file text) = .ok set) :
    x.Turn file version text (x.indexText file version text) := by
  unfold indexText
  split
  · next large => exact turn_tooLarge large
  · next notLarge =>
    have small : byteWidth text ≤ x.config.maxFileBytes := Nat.not_lt.mp notLarge
    cases kept : x.keep? file version (x.digest text) with
    | some outcome => exact turn_keep small (trusted small) kept
    | none => exact turn_parse small

end Indexer

end PerlOutline.Index
