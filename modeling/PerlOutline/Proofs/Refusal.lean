import PerlOutline.Proofs.Convergence
import PerlOutline.Proofs.Restoring

/-!
# What fails changes nothing

A call that is refused leaves the store as it was: no file becomes known by it, and table and
entries stay. Corrupt bytes are no refusal; they empty the entry of their file and no other.

## Layers
- **`Call`**: requests and the queries that may be refused.
- **Known files**: to touch one changes nothing, and only known files refuse versions.
- **Failures**.
- **Corrupt bytes**: what is left of their file, and of lookups.
-/

namespace PerlOutline.Index

open PerlOutline (Stub)
open PerlOutline.Source (FileId)
open PerlOutline.Stub (Corruption IndexKey)
open PerlOutline.MessagePack (Bytes)

/-! ## Calls -/

/-- A request, or a query that may be refused. -/
inductive Call where
  | request (request : Operation)
  | lookup (key : IndexKey) (name : String)
  | fileBytes (file : FileId)

/-- What a store says to a call. -/
inductive Response where
  | answered (answer : Answer)
  | found (result : Except IndexError (List FoundStub))
  | persisted (bytes? : Option Bytes)

/-- The call was refused, or it found nothing to do and said so. -/
def Response.Failed : Response → Prop
  | .answered (.refused _) | .answered (.told false) | .found (.error _) => True
  | _ => False

namespace Store

/-- Answer a call. -/
def call (s : Store) : Call → Response × Store
  | .request request =>
    let (answer, s) := s.perform request
    (.answered answer, s)
  | .lookup key name => (.found (s.lookup key name), s)
  | .fileBytes file => (.persisted (s.fileBytes? file), s)

/-! ## Known files -/

variable {s : Store} {file : FileId}

/-- A file that is known is not made known again. -/
theorem touch_of_known (known : s.files.contains file = true) : s.touch file = s := by
  obtain ⟨entry, found⟩ : ∃ entry, s.files[file]? = some entry :=
    Option.isSome_iff_exists.mp (by rwa [← Std.ExtTreeMap.contains_eq_isSome_getElem?])
  -- The entry that is put in is the one that is there.
  have same : s.files.insert file (s.entry file) = s.files := by
    apply Std.ExtTreeMap.ext_getElem?
    intro other
    rw [Std.ExtTreeMap.getElem?_insert]
    split
    · next here =>
      rw [← Std.LawfulEqOrd.compare_eq_iff_eq.mp here, Store.entry, found, Option.getD_some]
    · rfl
  simp only [touch, change, id_eq, same]

/-- A version is refused only for what is committed. -/
theorem known_of_refusal? {version : Version} {refused : IndexError}
    (h : (s.entry file).refusal? file version = some refused) :
    s.files.contains file = true := by
  by_contra unknown
  rw [entry_of_unknown unknown] at h
  simp [Entry.refusal?, Entry.committedVersion?, Entry.blank] at h

/-! ## Failures -/

/-- Where nothing that is granted counts as a failure, a failure is a refusal. -/
theorem refused_of_failed {α : Type} {say : α → Answer} {o : Outcome α}
    (granted : ∀ a, ¬ (Response.answered (say a)).Failed)
    (h : (Response.answered (o.answer say).1).Failed) : ∃ cause, o.1 = .error cause := by
  obtain ⟨_ | a, s⟩ := o
  · exact ⟨_, rfl⟩
  · exact (granted a h).elim

/-- What cannot be begun changes nothing. -/
theorem begin_of_error {version : Version} {cause : IndexError}
    (h : (s.begin file version).1 = .error cause) : (s.begin file version).2 = s := by
  simp only [begin, entry_touch] at h ⊢
  split at h
  · next newer => exact touch_of_known (known_of_refusal? newer)
  · contradiction

/-- What cannot be committed changes nothing. -/
theorem commit_of_error {version : Version} {stubs : List Stub} {cause : IndexError}
    (h : (s.commit file version stubs).1 = .error cause) :
    (s.commit file version stubs).2 = s := by
  simp only [commit, entry_touch] at h ⊢
  split at h
  · -- a kind has no key, and the file was not touched yet
    rfl
  · split at h
    · next newer => exact touch_of_known (known_of_refusal? newer)
    · contradiction

/-- Stubs that cannot stand for another version stay what they were. -/
theorem recommit_of_ne_true {expected version : Version}
    (h : (s.recommit file expected version).1 ≠ .ok true) :
    (s.recommit file expected version).2 = s := by
  unfold recommit at h ⊢
  split
  · -- The file is unknown, its version is refused, or nothing is committed of it.
    rfl
  · split
    · rfl
    · split
      · rfl
      · split
        · -- Only where the versions agree does the entry change, and then the answer is yes.
          next same => simp_all
        · rfl

/-- What is not known cannot be forgotten. -/
theorem remove_of_unknown (h : (s.remove file).1 = false) : (s.remove file).2 = s := by
  unfold remove at h ⊢
  split
  · next known => simp [known] at h
  · rfl

/-- Readable bytes that come too late change nothing. -/
theorem load_of_error {bytes : Bytes} {cause : IndexError}
    (h : (s.load file bytes).1 = .error cause) : (s.load file bytes).2 = s := by
  simp only [load, entry_touch] at h ⊢
  split at h
  · split at h
    · next newer => exact touch_of_known (known_of_refusal? newer)
    · contradiction
  · contradiction

/-- A request that fails leaves the store as it was. -/
theorem perform_of_failed {request : Operation}
    (h : (Response.answered (s.perform request).1).Failed) : (s.perform request).2 = s := by
  cases request with
  -- These two are never refused.
  | markStale file version => exact h.elim
  | cancel file version => exact h.elim
  | begin file version =>
    obtain ⟨cause, refused⟩ := refused_of_failed (by exact fun _ => id) h
    rw [perform, snd_answer]
    exact begin_of_error refused
  | commit file version stubs =>
    obtain ⟨cause, refused⟩ := refused_of_failed (by exact fun _ => id) h
    rw [perform, snd_answer]
    exact commit_of_error refused
  | recommit file expected version =>
    rw [perform, snd_answer]
    apply recommit_of_ne_true
    -- Had it succeeded, it would have said so, and that is no failure.
    intro told
    have said : (s.perform (.recommit file expected version)).1 = .told true := by
      simp only [perform]
      generalize s.recommit file expected version = outcome at told
      obtain ⟨result, _⟩ := outcome
      obtain rfl : result = .ok true := told
      rfl
    rw [said] at h
    exact h.elim
  | remove file =>
    apply remove_of_unknown
    cases known : (s.remove file).1 with
    | false => rfl
    | true =>
      simp only [perform, known] at h
      exact h.elim
  | load file bytes =>
    obtain ⟨cause, refused⟩ := refused_of_failed (by exact fun _ => id) h
    rw [perform, snd_answer]
    exact load_of_error refused

/-- A call that fails leaves the store as it was. -/
-- Queries do not change the store.
theorem call_of_failed {call : Call} (h : (s.call call).1.Failed) : (s.call call).2 = s := by
  cases call with
  | request request => exact perform_of_failed h
  | lookup key name => rfl
  | fileBytes file => rfl

/-! ## Corrupt bytes -/

variable {bytes : Bytes} {cause : Corruption}

/-- The entry is emptied and its names are taken out, of a file that is known from then on. -/
theorem load_of_corrupt (h : (s.load file bytes).1 = .ok (.rebuildRequired cause)) :
    (s.load file bytes).2 = ((s.touch file).unlinkAll file).change file Entry.reset := by
  simp only [load] at h ⊢
  split at h
  · split at h <;> cases h
  · rfl

/-- Of the file only the newest version that was mentioned is left, and of other files all. -/
theorem files_of_corrupt (h : (s.load file bytes).1 = .ok (.rebuildRequired cause)) :
    (s.load file bytes).2.files =
      s.files.insert file ⟨none, none, (s.entry file).latest?⟩ := by
  rw [load_of_corrupt h, change, entry_unlinkAll, entry_touch]
  exact insert_insert s.files file _ _

/-- The table loses the names of the file, and no other file loses any. -/
theorem lists_of_corrupt (consistent : s.Consistent)
    (h : (s.load file bytes).1 = .ok (.rebuildRequired cause)) (name : NameKey) (other : FileId) :
    (s.load file bytes).2.names.Lists name other ↔ other ≠ file ∧ s.names.Lists name other := by
  rw [load_of_corrupt h, names_change, (consistent.touch file).unlinkAll_lists, entry_touch,
    consistent.listed, ne_comm]

/-- Lookups find what they found before, but for the file of the bytes. -/
theorem lookup_of_corrupt (consistent : s.Consistent)
    (h : (s.load file bytes).1 = .ok (.rebuildRequired cause)) (key : IndexKey) (name : String) :
    (s.load file bytes).2.lookup key name =
      (s.lookup key name).map (·.filter (·.file ≠ file)) := by
  have after := consistent.load file bytes
  have files := files_of_corrupt h
  have registry : (s.load file bytes).2.registry = s.registry := by rw [load_of_corrupt h]; rfl
  generalize (s.load file bytes).2 = s' at after files registry
  have known : ∀ other ∈ s.fileIds, other ∈ s'.fileIds := by
    intro other member
    rw [fileIds, files, Std.ExtTreeMap.mem_keys, Std.ExtTreeMap.mem_insert]
    exact .inr (Std.ExtTreeMap.mem_keys.mp member)
  -- The file of the bytes gives nothing any more, and each other file gives what it gave.
  have each (other : FileId) : s'.scanFile other key name =
      (s.scanFile other key name).filter (·.file ≠ file) := by
    have entry : s'.entry other =
        if file = other then ⟨none, none, (s.entry file).latest?⟩ else s.entry other := by
      simp only [Store.entry, files, Std.ExtTreeMap.getElem?_insert,
        Std.LawfulEqOrd.compare_eq_iff_eq]
      split <;> rfl
    -- The entry that was put in is the one of the file, and no other entry has changed.
    by_cases here : file = other
    · subst here
      have nothing : s'.scanFile file key name = [] := by
        rw [scanFile, fileStubs?, entry, if_pos rfl]
        rfl
      rw [nothing, eq_comm, List.filter_eq_nil_iff]
      intro found member
      simp [file_of_mem_scanFile member]
    · have same : s'.scanFile other key name = s.scanFile other key name := by
        rw [scanFile, fileStubs?, entry, if_neg here, registry]
        rfl
      rw [same, eq_comm, List.filter_eq_self]
      intro found member
      simp [file_of_mem_scanFile member, Ne.symm here]
  -- Both lookups are scans. The store that was knows no file that the new one does not, so both
  -- scan the files of the new one.
  rw [after.lookup_eq, consistent.lookup_eq, registry]
  split
  · rw [scan_eq_flatMap s'.fileIds_ascending known, Except.map, List.filter_flatMap]
    exact congrArg _ (List.flatMap_congr fun other _ => each other)
  · rfl

/-- After any requests a call that fails leaves the whole store as it is: the files that are known
with all their versions and stubs, and the table. Corrupt bytes that are loaded leave of their file
only the newest version that was mentioned, and take its names out of the table; of other files,
and of lookups that find stubs in them, all stays. -/
theorem failures_change_nothing (registry : Registry) (requests : List Operation) :
    let s := (empty registry).run requests
    (∀ call : Call, (s.call call).1.Failed → (s.call call).2 = s) ∧
    ∀ file bytes cause, (s.load file bytes).1 = .ok (.rebuildRequired cause) →
      let after := (s.load file bytes).2
      after.registry = s.registry ∧
      after.files[file]? = some ⟨none, none, (s.entry file).latest?⟩ ∧
      (∀ other, other ≠ file → after.files[other]? = s.files[other]?) ∧
      (∀ name other, after.names.Lists name other ↔
        other ≠ file ∧ s.names.Lists name other) ∧
      after.names.Populated ∧
      ∀ key name, after.lookup key name =
        (s.lookup key name).map (·.filter (·.file ≠ file)) := by
  intro s
  have consistent : s.Consistent := (consistent_empty registry).run requests
  refine ⟨fun call failed => call_of_failed failed, ?_⟩
  intro file bytes cause corrupt after
  have files : after.files = s.files.insert file ⟨none, none, (s.entry file).latest?⟩ :=
    files_of_corrupt corrupt
  refine ⟨?_, ?_, ?_, lists_of_corrupt consistent corrupt, (consistent.load file bytes).populated,
    lookup_of_corrupt consistent corrupt⟩
  · show (s.load file bytes).2.registry = s.registry
    rw [load_of_corrupt corrupt]
    rfl
  · rw [files, Std.ExtTreeMap.getElem?_insert_self]
  · intro other elsewhere
    rw [files, Std.ExtTreeMap.getElem?_insert, if_neg]
    rw [Std.LawfulEqOrd.compare_eq_iff_eq]
    exact elsewhere.symm

/-- Two files have a sub of one name. An old version of the first file is refused, and then corrupt
bytes are loaded for it. -/
theorem failures_change_nothing_shared_name :
    let run : Stub := ⟨.sub, "run", "main", .empty⟩
    let s := (empty .perl).run
      [.commit ⟨1⟩ 4 [run], .begin ⟨1⟩ 6, .commit ⟨2⟩ 1 [run], .markStale ⟨3⟩ 9]
    let call : Call := .request (.begin ⟨1⟩ 3)
    (s.call call).1 = .answered (.refused (.superseded ⟨1⟩ 3 4)) ∧
      (s.call call).2 = s ∧
      (∃ cause, (s.load ⟨1⟩ [0xc1]).1 = .ok (.rebuildRequired cause)) ∧
      (s.load ⟨1⟩ [0xc1]).2.files[(⟨1⟩ : FileId)]? = some ⟨none, none, some 6⟩ ∧
      (s.load ⟨1⟩ [0xc1]).2.lookup ⟨"perl.sub"⟩ "run" = .ok [⟨⟨2⟩, 0, run⟩] := by
  intro run s call
  obtain ⟨failures, loads⟩ := failures_change_nothing .perl
    [.commit ⟨1⟩ 4 [run], .begin ⟨1⟩ 6, .commit ⟨2⟩ 1 [run], .markStale ⟨3⟩ 9]
  -- The first file is committed at version 4, so version 3 is refused.
  have refused : (s.call call).1 = .answered (.refused (.superseded ⟨1⟩ 3 4)) := rfl
  have failed : (s.call call).1.Failed := by rw [refused]; trivial
  obtain ⟨cause, corrupt⟩ : ∃ cause, (s.load ⟨1⟩ [0xc1]).1 = .ok (.rebuildRequired cause) :=
    ⟨_, rfl⟩
  obtain ⟨-, own, -, -, -, lookups⟩ := loads ⟨1⟩ [0xc1] cause corrupt
  have latest : (s.entry ⟨1⟩).latest? = some 6 := by decide +kernel
  have both : s.lookup ⟨"perl.sub"⟩ "run" = .ok [⟨⟨1⟩, 0, run⟩, ⟨⟨2⟩, 0, run⟩] := by
    decide +kernel
  refine ⟨refused, failures call failed, ⟨cause, corrupt⟩, ?_, ?_⟩
  · -- The newest version that was mentioned is the one that was begun and not committed.
    rw [← latest]
    exact own
  · rw [lookups]
    exact congrArg _ both

end Store

end PerlOutline.Index
