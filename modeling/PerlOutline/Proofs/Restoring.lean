import PerlOutline.Proofs.DeclaredNames
import PerlOutline.Proofs.History
import PerlOutline.Proofs.Indexing

/-!
# What was indexed can be restored

The committed stubs of a file are written to bytes, and a store without files that loads the bytes
has them again. Nothing that was indexed is refused on the way, since every stub of a text can be
stored.

## Layers
- **Operations** that commit no stubs but those of some texts.
- **Indexing** is made of such operations.
- **`Storable`** stubs come back from the bytes of a file.
- **Lookups** of one file.
-/

namespace PerlOutline.Index

open PerlOutline (Stub)
open PerlOutline.Source (FileId byteWidth)
open PerlOutline.Stub (IndexKey FileStubs)
open PerlOutline.MessagePack (Bytes)

/-! ## Operations -/

/-- The operation commits no stubs but such as `ok` holds of, and restores none. -/
def Operation.Commits (ok : List Stub → Prop) : Operation → Prop
  | .commit _ _ stubs => ok stubs
  | .load _ _ => False
  | _ => True

/-- Of all committed stubs `ok` holds. -/
def Store.Holds (ok : List Stub → Prop) (s : Store) : Prop :=
  ∀ file set, s.fileStubs? file = some set → ok set.stubs

namespace Store

variable {ok : List Stub → Prop} {s s' : Store}

/-- A store without files has no committed stubs. -/
theorem holds_empty (ok : List Stub → Prop) (r : Registry) : (empty r).Holds ok := by
  intro file set committed
  simp [fileStubs?, Entry.blank] at committed

/-- What is true of all committed stubs stays true where the stubs stay the same. -/
theorem SameStubs.holds (same : s.SameStubs s') (h : s.Holds ok) : s'.Holds ok := by
  intro file set committed
  exact h file set (same.stubs file ▸ committed)

/-- What is true of all committed stubs stays true where those of one file are replaced by good
ones. -/
theorem Replaces.holds {file : FileId} {committed? : Option StubSet}
    (replaces : s.Replaces file committed? s') (h : s.Holds ok)
    (good : ∀ set, committed? = some set → ok set.stubs) : s'.Holds ok := by
  intro other set committed
  rw [replaces.stubs] at committed
  split at committed
  · exact good set committed
  · exact h other set committed

/-- To let stubs stand for another version brings in no stubs. -/
theorem Holds.recommit (h : s.Holds ok) (file : FileId) (expected version : Version) :
    (s.recommit file expected version).2.Holds ok := by
  unfold Store.recommit
  split
  · exact h
  · -- only a file that has an entry, and in it the expected content, is committed again
    next entry known =>
    have here : s.entry file = entry := by rw [Store.entry, known, Option.getD_some]
    split
    · exact h
    · split
      · exact h
      · next set committed =>
        split
        · refine (s.replaces_change file _).holds h ?_
          rintro _ ⟨⟩
          -- the stubs are those that were committed before
          exact h file set (by rw [fileStubs?, here, committed])
        · exact h

/-- A commit brings in the stubs that it commits, if it is not refused. -/
theorem Holds.commit (h : s.Holds ok) (file : FileId) (version : Version) {stubs : List Stub}
    (good : ok stubs) : (s.commit file version stubs).2.Holds ok := by
  rcases s.commit_cases file version stubs with ⟨_, _, same, _⟩ | ⟨set, filed, _, replaces, _⟩
  · exact same.holds h
  · refine replaces.holds h ?_
    rintro _ ⟨⟩
    exact (StubSet.wellFiled_of_ofStubs filed).2.2 ▸ good

/-- An operation that commits good stubs leaves all committed stubs good. -/
theorem Holds.perform (h : s.Holds ok) {request : Operation} (commits : request.Commits ok) :
    (s.perform request).2.Holds ok := by
  cases request with
  -- announcing, beginning and cancelling change no committed stubs
  | markStale file version => exact (s.sameStubs_markStale file version).holds h
  | begin file version =>
    simp only [Store.perform, snd_answer]
    exact (s.sameStubs_begin file version).holds h
  | commit file version stubs =>
    simp only [Store.perform, snd_answer]
    exact h.commit file version commits
  | recommit file expected version =>
    simp only [Store.perform, snd_answer]
    exact h.recommit file expected version
  | cancel file version => exact (s.sameStubs_cancel file version).holds h
  | remove file =>
    refine (s.replaces_remove file).holds h ?_
    rintro _ ⟨⟩
  | load file bytes => exact commits.elim

end Store

/-! ## Indexing -/

namespace Indexer

variable {δ : Type} {x : Indexer δ} {file : FileId} {version : Version} {text : List Char}

/-- To remember the digest of a file changes no other digest. -/
theorem getElem?_remember_of_ne (x : Indexer δ) {other : FileId} (different : other ≠ file)
    (digest : δ) : (x.remember file version digest).digests[other]? = x.digests[other]? := by
  simp [remember, Std.ExtTreeMap.getElem?_alter, different.symm]

/-- To forget the digest of a file changes no other digest. -/
theorem getElem?_forgetDigest_of_ne (x : Indexer δ) {other : FileId} (different : other ≠ file) :
    (x.forgetDigest file).digests[other]? = x.digests[other]? := by
  simp [forgetDigest, Std.ExtTreeMap.getElem?_erase, different.symm]

/-- To index a text is made of operations on its file, which commit no stubs but those of the text,
and of changes to the digest of the file. What these keep, indexing keeps. -/
theorem indexText_keeps [DecidableEq δ] {P : Indexer δ → Prop}
    (stored : ∀ y (request : Operation), request.file = file →
      request.Commits (· = x.config.stubsOf file text) → P y →
        P (y.withStore (y.store.perform request).2))
    (digested : ∀ (y : Indexer δ) digests,
      (∀ other, other ≠ file → digests[other]? = y.digests[other]?) → P y →
        P { y with digests := digests })
    (h : P x) : P (x.indexText file version text).2 := by
  -- the operations on the store that indexing is made of, and the one change to a digest
  have commit (s : Store) {stubs : List Stub} (same : stubs = x.config.stubsOf file text)
      (h : P (x.withStore s)) : P (x.withStore (s.commit file version stubs).2) := by
    have after := stored _ (.commit file version stubs) rfl same h
    rwa [Store.perform, Store.snd_answer] at after
  have cancel (s : Store) (h : P (x.withStore s)) : P (x.withStore (s.cancel file version)) :=
    stored _ (.cancel file version) rfl trivial h
  have remember (s : Store) (digest : δ) (h : P (x.withStore s)) :
      P ((x.withStore s).remember file version digest) :=
    digested _ _ (fun _ different => getElem?_remember_of_ne _ different digest) h
  unfold indexText
  split
  · -- a text that is too large is committed without stubs, and its digest is forgotten
    next large =>
    have after := commit x.store (if_pos large).symm h
    unfold commitTooLarge
    generalize x.store.commit file version [] = outcome at after ⊢
    obtain ⟨_ | _, store⟩ := outcome
    · exact after
    · exact digested _ _ (fun _ different => getElem?_forgetDigest_of_ne _ different) after
  · -- a text that is known by its digest may be committed again for the new version
    next small =>
    cases found : x.keep? file version (x.digest text) with
    | some outcome =>
      obtain ⟨_, found⟩ := Option.ite_none_right_eq_some.mp found
      obtain ⟨expected, -, found⟩ := Option.bind_eq_some_iff.mp found
      have after := stored x (.recommit file expected version) rfl trivial h
      rw [Store.perform, Store.snd_answer] at after
      unfold restamp? at found
      generalize x.store.recommit file expected version = result at after found
      obtain ⟨_ | _ | _, store⟩ := result
      · -- the version was refused, other content is committed, or the stubs were committed again
        obtain ⟨⟩ := found
        exact after
      · cases found
      · obtain ⟨⟩ := found
        exact remember store _ after
    -- every other text is parsed, and its stubs are committed
    | none =>
      have begun := stored x (.begin file version) rfl trivial h
      rw [Store.perform, Store.snd_answer] at begun
      simp only [Option.getD_none, parseAndCommit]
      generalize x.store.begin file version = result at begun ⊢
      obtain ⟨_ | _, store⟩ := result
      · exact begun
      · obtain ⟨outline, outlined⟩ := Outline.exists_ofText file text
        have stubs : outline.stubs = x.config.stubsOf file text := by
          rw [Config.stubsOf, if_neg small, outlined]
          rfl
        have after := commit store stubs begun
        rw [outlined]
        dsimp only
        generalize store.commit file version outline.stubs = result at after ⊢
        obtain ⟨_ | _, committed⟩ := result
        · exact cancel committed after
        · exact remember committed _ after

/-- To index a text changes no configuration. -/
theorem config_indexText [DecidableEq δ] (x : Indexer δ) (file : FileId) (version : Version)
    (text : List Char) : (x.indexText file version text).2.config = x.config :=
  indexText_keeps (P := (·.config = x.config)) (fun _ _ _ _ same => same) (fun _ _ _ same => same)
    rfl

/-- What each operation of indexing keeps, indexing texts one after the other keeps. -/
theorem indexFiles_keeps [DecidableEq δ] {P : Store → Prop} {texts : List FileText}
    (kept : ∀ f ∈ texts, ∀ s (request : Operation),
      request.Commits (· = x.config.stubsOf f.file f.text) → P s → P (s.perform request).2)
    (h : P x.store) : P (x.indexFiles texts).2.store := by
  induction texts generalizing x with
  | nil => exact h
  | cons f texts ih =>
    have first : P (x.indexText f.file f.version f.text).2.store := by
      apply indexText_keeps (P := fun y => P y.store)
      · intro y request _ commits
        exact kept f (List.mem_cons_self ..) y.store request commits
      · exact fun _ _ _ same => same
      · exact h
    -- the configuration is the same for the texts that follow
    refine ih (x := (x.indexText f.file f.version f.text).2) ?_ first
    rw [config_indexText]
    exact fun later member => kept later (List.mem_cons_of_mem _ member)

end Indexer

/-- An operation that commits only such stubs commits only stubs of a weaker kind. -/
theorem Operation.Commits.mono {ok ok' : List Stub → Prop} {request : Operation}
    (h : request.Commits ok) (weaker : ∀ stubs, ok stubs → ok' stubs) : request.Commits ok' := by
  cases request with
  | commit file version stubs => exact weaker stubs h
  | load file bytes => exact h.elim
  | _ => trivial

/-! ## Stubs that come back -/

/-- All stubs can be stored, and there are not too many of them. -/
def AllStorable (stubs : List Stub) : Prop :=
  (∀ s ∈ stubs, s.Storable) ∧ stubs.length < 4294967296

/-- Offsets into the texts that are parsed have 32 bits, as the program counts them. -/
def Addressable (config : Config) (texts : List FileText) : Prop :=
  ∀ f ∈ texts, byteWidth f.text ≤ config.maxFileBytes → byteWidth f.text < 4294967296

/-- The stubs of an addressable text can be stored, also where it is too large to be parsed. -/
theorem allStorable_stubsOf {config : Config} {texts : List FileText}
    (addressable : Addressable config texts) {f : FileText} (member : f ∈ texts) :
    AllStorable (config.stubsOf f.file f.text) := by
  unfold Config.stubsOf
  split
  · -- a text that is too large has no stubs
    exact ⟨by simp, by simp⟩
  · next small =>
    exact storable_stubs (addressable f member (Nat.not_lt.mp small)) f.file

/-- The committed stubs of an index can be stored, and its names are in step with them. -/
structure Store.Sound (registry : Registry) (s : Store) : Prop where
  registry : s.registry = registry
  consistent : s.Consistent
  storable : s.Holds AllStorable

/-- Indexing texts into an empty store leaves a sound store. -/
theorem sound_indexFiles {δ : Type} [DecidableEq δ] {registry : Registry} {x : Indexer δ}
    {texts : List FileText} (addressable : Addressable x.config texts)
    (fresh : x.store = Store.empty registry) :
    (x.indexFiles texts).2.store.Sound registry := by
  apply Indexer.indexFiles_keeps
  · intro f member s request commits sound
    -- all that is committed on the way are stubs of the texts
    have stored : request.Commits AllStorable := by
      refine commits.mono ?_
      rintro _ rfl
      exact allStorable_stubsOf addressable member
    exact ⟨(Store.registry_perform s request).trans sound.registry,
      sound.consistent.perform request, sound.storable.perform stored⟩
  · rw [fresh]
    exact ⟨rfl, Store.consistent_empty registry, Store.holds_empty _ registry⟩

/-- Stubs that can be stored are restored from their bytes. -/
theorem Store.restore_encode {s : Store} {set : StubSet} (filed : set.WellFiled s.registry)
    (storable : AllStorable set.stubs) :
    s.restore (FileStubs.encode ⟨set.version, set.stubs⟩) = .ok set := by
  -- the frame is written whole, since no stub has an empty name
  have framed := Stub.framed_fileStubs (f := ⟨set.version, set.stubs⟩)
    (fun stub member => (storable.1 stub member).1) storable.2
  rw [if_neg (by
    rintro ⟨stub, member, empty⟩
    exact (storable.1 stub member).2 empty)] at framed
  rw [StubSet.WellFiled] at filed
  simp only [restore, framed.whole, bind, Except.bind, filed, pure, Except.pure]

/-! ## Lookups of one file -/

namespace Store

variable {s : Store} {file : FileId} {key : IndexKey} {name : String}

/-- Where only one of some files gives anything, all together give what that one gives. -/
theorem flatMap_eq_of_single {β : Type} {g : FileId → List β} {files : List FileId}
    (distinct : files.Nodup) (others : ∀ other, other ≠ file → g other = [])
    (absent : file ∉ files → g file = []) : files.flatMap g = g file := by
  induction files with
  | nil => exact (absent List.not_mem_nil).symm
  | cons first files ih =>
    obtain ⟨fresh, distinct⟩ := List.nodup_cons.mp distinct
    rw [List.flatMap_cons]
    by_cases same : first = file
    · subst same
      -- the file is listed here, and nowhere else
      have nothing : files.flatMap g = [] := by
        rw [List.flatMap_eq_nil_iff]
        intro other member
        exact others other fun same => fresh (same ▸ member)
      rw [nothing, List.append_nil]
    · -- another file is listed here, and gives nothing
      rw [others first same, List.nil_append]
      apply ih distinct
      intro missing
      exact absent (by simp [Ne.symm same, missing])

/-- No file is listed twice. -/
theorem nodup_fileIds (s : Store) : s.fileIds.Nodup :=
  s.fileIds_ascending.imp fun {a b} before same => by
    rw [same] at before
    simp at before

/-- The stubs of a name that going through the stubs of one file finds. -/
def scanFile (s : Store) (file : FileId) (key : IndexKey) (name : String) : List FoundStub :=
  ((s.fileStubs? file).elim [] (·.scan s.registry key name)).map fun found =>
    ⟨file, found.1, found.2⟩

/-- Nothing is found in a file that is not known. -/
theorem scanFile_of_unknown (unknown : file ∉ s.fileIds) : s.scanFile file key name = [] := by
  cases committed : s.fileStubs? file with
  | none => rw [scanFile, committed]; rfl
  | some set => exact absurd (mem_fileIds_of_committed committed) unknown

/-- What is found in a file has that file. -/
theorem file_of_mem_scanFile {found : FoundStub} (h : found ∈ s.scanFile file key name) :
    found.file = file := by
  obtain ⟨_, _, rfl⟩ := List.mem_map.mp h
  rfl

/-- A scan may go through files that are not known as well. -/
theorem scan_eq_flatMap {files : List FileId} (ascending : files.Pairwise (compare · · = .lt))
    (known : ∀ other ∈ s.fileIds, other ∈ files) :
    s.scan key name = files.flatMap (s.scanFile · key name) := by
  -- the files that are known are those among all that are, in the same order
  have same : files.filter (· ∈ s.fileIds) = s.fileIds := by
    apply eq_of_ascending (ascending.filter _) s.fileIds_ascending
    intro other
    rw [List.mem_filter, decide_eq_true_iff]
    exact ⟨And.right, fun member => ⟨known other member, member⟩⟩
  rw [← flatMap_filter (· ∈ s.fileIds) _ files, same]
  · rfl
  · intro other _ unknown
    exact scanFile_of_unknown (of_decide_eq_false unknown)

/-- Of all that a scan finds, what it finds in one file is found by going through that file. -/
theorem filter_scan (s : Store) (file : FileId) (key : IndexKey) (name : String) :
    (s.scan key name).filter (·.file = file) = s.scanFile file key name := by
  have whole : (s.scanFile file key name).filter (·.file = file) = s.scanFile file key name := by
    rw [List.filter_eq_self]
    intro found member
    exact decide_eq_true (file_of_mem_scanFile member)
  -- every other file gives only what is in that file
  have single : s.fileIds.flatMap (fun other =>
      (s.scanFile other key name).filter (·.file = file)) =
        (s.scanFile file key name).filter (·.file = file) := by
    apply flatMap_eq_of_single s.nodup_fileIds
    · intro other different
      rw [List.filter_eq_nil_iff]
      intro found member
      have elsewhere : found.file = other := file_of_mem_scanFile member
      simpa [elsewhere] using different
    · intro unknown
      exact whole.trans (scanFile_of_unknown unknown)
  rw [scan, List.filter_flatMap]
  exact single.trans whole

/-- If nothing is committed for other files, a scan goes through the stubs of one file. -/
theorem scan_of_single (others : ∀ other, other ≠ file → s.fileStubs? other = none) :
    s.scan key name = s.scanFile file key name := by
  refine flatMap_eq_of_single s.nodup_fileIds ?_ scanFile_of_unknown
  intro other different
  rw [others other different]
  rfl

/-- A store without files has after a load what the bytes hold. -/
theorem load_empty {registry : Registry} {set : StubSet} (filed : set.WellFiled registry)
    (storable : AllStorable set.stubs) (file : FileId) :
    let outcome := (empty registry).load file (FileStubs.encode ⟨set.version, set.stubs⟩)
    outcome.1 = .ok (.loaded set.version set.size) ∧
      outcome.2 = ((empty registry).touch file).install file set := by
  have restored := restore_encode (s := empty registry) filed storable
  simp [load, restored, Entry.refusal?, Entry.committedVersion?, Entry.blank]

end Store

/-- Whatever was indexed from texts can be persisted and restored. The bytes of a file are loaded by
a store without files that has the same registry; then that store has the same stubs of the same
version, shows the file as indexed, and finds under every key and name what the index found in
that file. -/
theorem Indexer.indexed_restorable {δ : Type} [DecidableEq δ] (digest : List Char → δ)
    (config : Config) (registry : Registry) (texts : List FileText)
    (addressable : Addressable config texts) :
    ∃ x : Indexer δ, Indexer.start digest config (Store.empty registry) = .ok x ∧
      let s := (x.indexFiles texts).2.store
      ∀ file set, s.fileStubs? file = some set →
        ∃ bytes, s.fileBytes? file = some bytes ∧
          let outcome := (Store.empty registry).load file bytes
          outcome.1 = .ok (.loaded set.version set.size) ∧
            outcome.2.fileStubs? file = some set ∧
            outcome.2.committedVersion? file = s.committedVersion? file ∧
            outcome.2.fileState file = .indexed ∧
            ∀ key name,
              outcome.2.lookup key name =
                (s.lookup key name).map (·.filter (·.file = file)) := by
  refine ⟨⟨digest, config, Store.empty registry, ∅⟩, ?_, ?_⟩
  · -- the standard configuration of factories passes its check
    rw [Indexer.start, Element.Factory.checkStandard_ok]
  intro s file set committed
  have sound : s.Sound registry := sound_indexFiles addressable rfl
  have filed : set.WellFiled registry :=
    sound.registry ▸ sound.consistent.filed file set committed
  have storable : AllStorable set.stubs := sound.storable file set committed
  refine ⟨FileStubs.encode ⟨set.version, set.stubs⟩, by rw [Store.fileBytes?, committed]; rfl, ?_⟩
  have loaded := Store.load_empty filed storable file
  generalize (Store.empty registry).load file _ = outcome at loaded ⊢
  obtain ⟨answer, store⟩ := loaded
  -- after the load nothing is committed but for this one file
  have stubs (other : FileId) :
      outcome.2.fileStubs? other = if file = other then some set else none := by
    simp only [Store.fileStubs?, store, Store.entry_install]
    split
    · rfl
    · simp [Entry.blank]
  have here : outcome.2.fileStubs? file = some set := (stubs file).trans (if_pos rfl)
  refine ⟨answer, here, ?_, ?_, ?_⟩
  · rw [Store.committedVersion?, Store.committedVersion?, Entry.committedVersion?,
      Entry.committedVersion?]
    exact congrArg _ (here.trans committed.symm)
  · -- The version that is committed is the newest that was mentioned.
    have entry : outcome.2.entry file = Entry.blank.install set := by simp [store]
    simp [Store.fileState, entry, Entry.state, Entry.install, Entry.settle, Entry.mention,
      Entry.blank, Entry.committedVersion?, atLeast]
  · -- a lookup goes through the stubs of the files, here and there
    intro key name
    have others (other : FileId) (different : other ≠ file) :
        outcome.2.fileStubs? other = none := (stubs other).trans (if_neg different.symm)
    have restored : outcome.2.Consistent := by
      rw [store]
      exact ((Store.consistent_empty registry).touch file).install file filed
    have same : outcome.2.registry = registry := by rw [store]; rfl
    have found : outcome.2.scanFile file key name = s.scanFile file key name := by
      rw [Store.scanFile, Store.scanFile, here, committed, same, sound.registry]
    rw [restored.lookup_eq, sound.consistent.lookup_eq, same, sound.registry,
      Store.scan_of_single others, found, ← Store.filter_scan]
    split
    · rfl
    · rfl

/-- A variable of the main package and a sub of another package come back. -/
theorem Indexer.indexed_restorable_qualified_names :
    let texts : List FileText := [⟨⟨1⟩, 3, "our $::x; sub A::f { }".toList⟩]
    let x : Indexer (List Char) := ⟨fun text => text, .standard, .empty .perl, ∅⟩
    let s := (x.indexFiles texts).2.store
    Addressable .standard texts ∧
      ∃ set bytes, s.fileStubs? ⟨1⟩ = some set ∧
        set.stubs.map (fun stub => (stub.name, stub.inPackage)) =
          [("x", "main"), ("f", "A")] ∧
        s.fileBytes? ⟨1⟩ = some bytes ∧
        ((Store.empty .perl).load ⟨1⟩ bytes).1 = .ok (.loaded 3 2) := by
  intro texts x s
  have addressable : Addressable .standard texts := by
    intro f member _
    obtain rfl := List.mem_singleton.mp member
    decide
  have names : (s.fileStubs? ⟨1⟩).map (fun set =>
      (set.version, set.stubs.map fun stub => (stub.name, stub.inPackage))) =
        some (3, [("x", "main"), ("f", "A")]) := by
    decide +kernel
  obtain ⟨set, committed, told⟩ := Option.map_eq_some_iff.mp names
  obtain ⟨version, stubs⟩ := Prod.mk.inj told
  obtain ⟨y, started, restored⟩ :=
    Indexer.indexed_restorable (fun text : List Char => text) .standard .perl texts addressable
  obtain rfl : x = y := by
    rw [Indexer.start, Element.Factory.checkStandard_ok] at started
    exact Except.ok.inj started
  obtain ⟨bytes, written, answer, -⟩ := restored ⟨1⟩ set committed
  have size : set.stubs.length = 2 := by
    simpa using congrArg List.length stubs
  refine ⟨addressable, set, bytes, committed, stubs, written, ?_⟩
  rw [answer, version, StubSet.size, size]

end PerlOutline.Index
