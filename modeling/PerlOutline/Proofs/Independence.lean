import PerlOutline.Proofs.Convergence
import PerlOutline.Proofs.Ledger
import PerlOutline.Proofs.Restoring

/-!
# Files are independent

All files share one table of entries and one of names. Still whatever is done to other files, a file
is treated as if there were no others, and lookups put together what each file gives by itself.

## Layers
- **`Alike`** stores and indexers know the same of one file.
- **`Concord`**: the same is said, and what is left is alike. Requests about the file keep it.
- **Frames**: requests about another file leave the file alone.
- **Many requests**, and those among them that are about some files.
- **`Job`**: requests and batches of texts, and the parts of them that are about some files.
- **Batches** of different files, in any order.
- **Lookups** and forgotten files.
-/

namespace PerlOutline.Index

open PerlOutline (Stub)
open PerlOutline.Source (FileId)
open PerlOutline.Stub (IndexKey)
open PerlOutline.MessagePack (Bytes)

/-- The same is said, and what is left is related. -/
inductive Concord {α σ : Type} (R : σ → σ → Prop) : α × σ → α × σ → Prop where
  | mk (said : α) {s t : σ} (left : R s t) : Concord R (said, s) (said, t)

namespace Concord

variable {α σ : Type} {R : σ → σ → Prop} {o p : α × σ}

/-- The same is said. -/
theorem said (h : Concord R o p) : o.1 = p.1 := by
  cases h
  rfl

/-- What is left is related. -/
theorem left (h : Concord R o p) : R o.2 p.2 := by
  cases h
  assumption

end Concord

/-! ## Stores -/

namespace Store

/-- Two stores know the same of a file. -/
structure Alike (file : FileId) (s t : Store) : Prop where
  registry : s.registry = t.registry
  known : s.files[file]? = t.files[file]?

namespace Alike

variable {file : FileId} {s t u : Store}

/-- A store knows of a file what it knows. -/
theorem refl (file : FileId) (s : Store) : s.Alike file s :=
  ⟨rfl, rfl⟩

/-- Knowing the same of a file has no direction. -/
theorem symm (h : s.Alike file t) : t.Alike file s :=
  ⟨h.registry.symm, h.known.symm⟩

/-- Knowing the same of a file passes on from store to store. -/
theorem trans (h : s.Alike file t) (h' : t.Alike file u) : s.Alike file u :=
  ⟨h.registry.trans h'.registry, h.known.trans h'.known⟩

/-- The entry of the file is the same, even where there is none. -/
theorem entry (h : s.Alike file t) : s.entry file = t.entry file := by
  rw [Store.entry, h.known, Store.entry]

/-- The file is known to both stores or to none. -/
theorem contains (h : s.Alike file t) : s.files.contains file = t.files.contains file := by
  rw [Std.ExtTreeMap.contains_eq_isSome_getElem?, h.known,
    Std.ExtTreeMap.contains_eq_isSome_getElem?]

/-! ### Operations -/

/-- The same change of the entry leaves the stores alike. -/
theorem change (h : s.Alike file t) (f : Entry → Entry) :
    (s.change file f).Alike file (t.change file f) :=
  ⟨h.registry, by rw [getElem?_change, getElem?_change, h.entry, h.known]⟩

/-- Noting the file leaves the stores alike. -/
theorem touch (h : s.Alike file t) : (s.touch file).Alike file (t.touch file) :=
  h.change id

/-- Installing the same stubs leaves the stores alike, whatever the tables of names list. -/
theorem install (h : s.Alike file t) (set : StubSet) :
    (s.install file set).Alike file (t.install file set) :=
  ⟨h.registry, (h.change (·.install set)).known⟩

/-- Beginning a version is answered alike. -/
theorem begin (h : s.Alike file t) (version : Version) :
    Concord (Alike file) (s.begin file version) (t.begin file version) := by
  simp only [Store.begin, entry_touch, h.entry]
  split
  · exact .mk _ h.touch
  · exact .mk _ (h.touch.change _)

/-- Committing stubs is answered alike. -/
theorem commit (h : s.Alike file t) (version : Version) (stubs : List Stub) :
    Concord (Alike file) (s.commit file version stubs) (t.commit file version stubs) := by
  -- what the branches ask is the registry and the entry of the file, which are the same
  simp only [Store.commit, entry_touch, h.entry, h.registry]
  split
  · exact .mk _ h
  · split
    · exact .mk _ h.touch
    · exact .mk _ (h.touch.install _)

/-- Committing stubs again is answered alike. -/
theorem recommit (h : s.Alike file t) (expected version : Version) :
    Concord (Alike file) (s.recommit file expected version) (t.recommit file expected version) := by
  simp only [Store.recommit, h.known]
  split
  · exact .mk _ h
  · split
    · exact .mk _ h
    · split
      · exact .mk _ h
      · split
        · exact .mk _ (h.change _)
        · exact .mk _ h

/-- Cancelling a version leaves the stores alike. -/
theorem cancel (h : s.Alike file t) (version : Version) :
    (s.cancel file version).Alike file (t.cancel file version) := by
  simp only [Store.cancel, h.contains]
  split
  · exact h.change _
  · exact h

/-- Removing the file is answered alike. -/
theorem remove (h : s.Alike file t) :
    Concord (Alike file) (s.remove file) (t.remove file) := by
  simp only [Store.remove, h.contains]
  split
  · -- neither store has an entry of the file afterwards
    refine .mk _ ⟨h.registry, ?_⟩
    simp
  · exact .mk _ h

/-- Loading bytes is answered alike. -/
theorem load (h : s.Alike file t) (bytes : Bytes) :
    Concord (Alike file) (s.load file bytes) (t.load file bytes) := by
  -- whether the bytes can be read depends on the registry alone
  have restored : s.restore bytes = t.restore bytes := by
    rw [restore, h.registry, restore]
  simp only [Store.load, entry_touch, h.entry, restored]
  split
  · split
    · exact .mk _ h.touch
    · exact .mk _ (h.touch.install _)
  · refine .mk _ ⟨h.registry, ?_⟩
    simp [h.entry]

/-- An outcome is answered alike. -/
theorem answer {α : Type} {o p : Outcome α} (h : Concord (Alike file) o p) (say : α → Answer) :
    Concord (Alike file) (o.answer say) (p.answer say) := by
  obtain ⟨said, left⟩ := h
  cases said with
  | error cause => exact .mk _ left
  | ok a => exact .mk _ left

/-- A request about the file gets the same answer, and leaves the stores alike. -/
theorem perform {request : Operation} (h : s.Alike request.file t) :
    Concord (Alike request.file) (s.perform request) (t.perform request) := by
  cases request with
  | markStale file version => exact .mk _ (h.change _)
  | begin file version => exact answer (h.begin version) _
  | commit file version stubs => exact answer (h.commit version stubs) _
  | recommit file expected version => exact answer (h.recommit expected version) _
  | cancel file version => exact .mk _ (h.cancel version)
  | remove file =>
    have both : Concord (Alike file) (s.remove file) (t.remove file) := h.remove
    simp only [Store.perform, both.said]
    exact .mk _ both.left
  | load file bytes => exact answer (h.load bytes) _

end Alike

/-- A request about another file leaves the file alone. -/
theorem alike_perform (s : Store) {request : Operation} {file : FileId}
    (elsewhere : request.file ≠ file) : s.Alike file (s.perform request).2 :=
  ⟨(registry_perform s request).symm, (s.getElem?_perform_of_ne elsewhere).symm⟩

/-- Removing another file leaves the file alone. -/
theorem alike_remove (s : Store) {file other : FileId} (elsewhere : other ≠ file) :
    s.Alike file (s.remove other).2 := by
  have frame : s.Alike file (s.perform (.remove other)).2 := s.alike_perform elsewhere
  exact frame

/-- Stores that know the same of all files are the same, when tables and stubs are in step. -/
theorem eq_of_alike {s t : Store} (hs : s.Consistent) (ht : t.Consistent)
    (alike : ∀ file, s.Alike file t) : s = t :=
  eq_of_files hs ht (alike ⟨0⟩).registry
    (Std.ExtTreeMap.ext_getElem? fun file => (alike file).known)

end Store

/-! ## Indexers -/

/-- The file that a request is about. -/
def Request.file : Request → FileId
  | .index file _ _ | .forget file => file
  | .store request => request.file

namespace Indexer

variable {δ : Type}

/-- Two indexers know the same of a file. -/
structure Alike (file : FileId) (x y : Indexer δ) : Prop where
  digest : x.digest = y.digest
  config : x.config = y.config
  store : x.store.Alike file y.store
  known : x.digests[file]? = y.digests[file]?

namespace Alike

variable {file : FileId} {x y z : Indexer δ}

/-- An indexer knows of a file what it knows. -/
theorem refl (file : FileId) (x : Indexer δ) : x.Alike file x :=
  ⟨rfl, rfl, .refl file x.store, rfl⟩

/-- Knowing the same of a file has no direction. -/
theorem symm (h : x.Alike file y) : y.Alike file x :=
  ⟨h.digest.symm, h.config.symm, h.store.symm, h.known.symm⟩

/-- Knowing the same of a file passes on from indexer to indexer. -/
theorem trans (h : x.Alike file y) (h' : y.Alike file z) : x.Alike file z :=
  ⟨h.digest.trans h'.digest, h.config.trans h'.config, h.store.trans h'.store,
    h.known.trans h'.known⟩

/-- Stores that are alike keep the indexers alike. -/
theorem withStore (h : x.Alike file y) {s t : Store} (stores : s.Alike file t) :
    (x.withStore s).Alike file (y.withStore t) :=
  ⟨h.digest, h.config, stores, h.known⟩

/-- Remembering the same digest keeps the indexers alike. -/
theorem remember (h : x.Alike file y) (version : Version) (digest : δ) :
    (x.remember file version digest).Alike file (y.remember file version digest) := by
  refine ⟨h.digest, h.config, h.store, ?_⟩
  simp [Indexer.remember, h.known]

/-- Forgetting the digest keeps the indexers alike. -/
theorem forgetDigest (h : x.Alike file y) :
    (x.forgetDigest file).Alike file (y.forgetDigest file) := by
  refine ⟨h.digest, h.config, h.store, ?_⟩
  simp [Indexer.forgetDigest]

/-! ### Indexing -/

/-- A text that is too large is treated the same. -/
theorem commitTooLarge (h : x.Alike file y) (version : Version) :
    Concord (Alike file) (x.commitTooLarge file version) (y.commitTooLarge file version) := by
  have committed := h.store.commit version []
  simp only [Indexer.commitTooLarge]
  -- Both stores say the same, so both indexers go the same way.
  generalize x.store.commit file version [] = o at committed ⊢
  generalize y.store.commit file version [] = p at committed ⊢
  obtain ⟨said, left⟩ := committed
  cases said with
  | error refused => exact .mk _ (h.withStore left)
  | ok _ => exact .mk _ (h.withStore left).forgetDigest

/-- Letting committed stubs stand for another version is treated the same. -/
theorem restamp? (h : x.Alike file y) (expected version : Version) (digest : δ) :
    Option.Rel (Concord (Alike file)) (x.restamp? file expected version digest)
      (y.restamp? file expected version digest) := by
  have recommitted := h.store.recommit expected version
  simp only [Indexer.restamp?]
  generalize x.store.recommit file expected version = o at recommitted ⊢
  generalize y.store.recommit file expected version = p at recommitted ⊢
  obtain ⟨said, left⟩ := recommitted
  match said with
  | .error refused => exact .some (.mk _ (h.withStore left))
  | .ok false => exact .none
  | .ok true =>
    simp only [Store.fileStubs?, left.entry]
    exact .some (.mk _ ((h.withStore left).remember version digest))

variable [DecidableEq δ]

/-- Keeping the stubs of an unchanged text is treated the same. -/
theorem keep? (h : x.Alike file y) (version : Version) (digest : δ) :
    Option.Rel (Concord (Alike file)) (x.keep? file version digest)
      (y.keep? file version digest) := by
  have unchanged : x.unchangedSince? file digest = y.unchangedSince? file digest := by
    simp only [unchangedSince?, Store.committedVersion?, h.store.entry, h.known]
  simp only [Indexer.keep?, h.config, unchanged]
  split
  · cases y.unchangedSince? file digest with
    | none => exact .none
    | some expected => exact h.restamp? expected version digest
  · exact .none

omit [DecidableEq δ] in
theorem parseAndCommit (h : x.Alike file y) (version : Version) (text : List Char) :
    Concord (Alike file) (x.parseAndCommit file version text)
      (y.parseAndCommit file version text) := by
  have begun := h.store.begin version
  simp only [Indexer.parseAndCommit]
  generalize x.store.begin file version = o at begun ⊢
  generalize y.store.begin file version = p at begun ⊢
  obtain @⟨said, s, t, left⟩ := begun
  cases said with
  | error refused => exact .mk _ (h.withStore left)
  -- the version was begun in both, and the same stubs or the same cause come from the text
  | ok _ =>
    cases Outline.ofText file text with
    | error cause => exact .mk _ (h.withStore (left.cancel version))
    | ok outline =>
      have committed := left.commit version outline.stubs
      dsimp only
      generalize s.commit file version outline.stubs = o at committed ⊢
      generalize t.commit file version outline.stubs = p at committed ⊢
      obtain ⟨said, left⟩ := committed
      -- a refused commit cancels the version in both
      cases said with
      | error refused => exact .mk _ (h.withStore (left.cancel version))
      | ok _ =>
        rw [h.digest]
        exact .mk _ ((h.withStore left).remember version _)

/-- A text of the file is treated the same, and leaves the indexers alike. -/
theorem indexText (h : x.Alike file y) (version : Version) (text : List Char) :
    Concord (Alike file) (x.indexText file version text) (y.indexText file version text) := by
  simp only [Indexer.indexText, h.config, h.digest]
  split
  · exact h.commitTooLarge version
  · -- the text is kept in both or parsed in both
    have kept := h.keep? version (y.digest text)
    generalize x.keep? file version (y.digest text) = o at kept ⊢
    generalize y.keep? file version (y.digest text) = p at kept ⊢
    cases kept with
    | some concord => exact concord
    | none => exact h.parseAndCommit version text

omit [DecidableEq δ] in
/-- Removing the file is treated the same. -/
theorem removeFile (h : x.Alike file y) :
    Concord (Alike file) (x.removeFile file) (y.removeFile file) := by
  have removed := h.store.remove
  simp only [Indexer.removeFile]
  generalize x.store.remove file = o at removed ⊢
  generalize y.store.remove file = p at removed ⊢
  obtain ⟨said, left⟩ := removed
  exact .mk _ (h.withStore left).forgetDigest

/-- A request about the file gets the same reply, and leaves the indexers alike. -/
theorem reply {request : Request} (h : x.Alike request.file y) :
    Concord (Alike request.file) (Session.reply x request) (Session.reply y request) := by
  cases request with
  | index file version text =>
    have alike : x.Alike file y := h
    have concord := alike.indexText version text
    simp only [Session.reply, concord.said]
    exact .mk _ concord.left
  | forget file =>
    have alike : x.Alike file y := h
    have concord := alike.removeFile
    simp only [Session.reply, concord.said]
    exact .mk _ concord.left
  | store request =>
    have concord : Concord (Store.Alike request.file) _ _ := h.store.perform
    simp only [Session.reply, concord.said]
    exact .mk _ (h.withStore concord.left)

end Alike

variable [DecidableEq δ]

/-! ### Frames -/

/-- A text of another file leaves the file alone. -/
theorem alike_indexText (x : Indexer δ) {file other : FileId} (elsewhere : other ≠ file)
    (version : Version) (text : List Char) : x.Alike file (x.indexText other version text).2 := by
  apply indexText_keeps (P := x.Alike file)
  · -- every operation of indexing is about the other file
    intro y request about _ same
    exact same.trans
      ⟨rfl, rfl, y.store.alike_perform (about.trans_ne elsewhere), rfl⟩
  · -- and so is every change of a digest
    intro y digests others same
    exact same.trans ⟨rfl, rfl, .refl file y.store, (others file elsewhere.symm).symm⟩
  · exact .refl file x

/-- A request about another file leaves the file alone. -/
theorem alike_reply (x : Indexer δ) {request : Request} {file : FileId}
    (elsewhere : request.file ≠ file) : x.Alike file (Session.reply x request).2 := by
  cases request with
  | index other version text => exact x.alike_indexText elsewhere version text
  | forget other =>
    exact ⟨rfl, rfl, x.store.alike_remove elsewhere,
      (getElem?_forgetDigest_of_ne _ (Ne.symm elsewhere)).symm⟩
  | store request => exact ⟨rfl, rfl, x.store.alike_perform elsewhere, rfl⟩

/-! ## Many requests -/

/-- What is said to requests, one after the other, each time with the file. -/
def answer (x : Indexer δ) : List Request → List (FileId × Reply) × Indexer δ
  | [] => ([], x)
  | request :: requests =>
    let (said, x) := Session.reply x request
    let (later, x) := x.answer requests
    ((request.file, said) :: later, x)

/-- The first request is replied to, and then the others. -/
theorem answer_cons (x : Indexer δ) (request : Request) (requests : List Request) :
    x.answer (request :: requests) =
      ((request.file, (Session.reply x request).1) ::
          ((Session.reply x request).2.answer requests).1,
        ((Session.reply x request).2.answer requests).2) := rfl

/-- Some requests are replied to, and then the others. -/
theorem answer_append (x : Indexer δ) (first later : List Request) :
    x.answer (first ++ later) =
      ((x.answer first).1 ++ ((x.answer first).2.answer later).1,
        ((x.answer first).2.answer later).2) := by
  induction first generalizing x with
  | nil => rfl
  | cons request first ih => simp only [List.cons_append, answer_cons, ih]

/-- Requests that are about some files get the replies that they get without the other requests,
and leave the indexers alike in these files. -/
theorem answer_filter (keep : FileId → Bool) {x y : Indexer δ}
    (alike : ∀ file, keep file = true → x.Alike file y) (requests : List Request) :
    (x.answer requests).1.filter (keep ·.1) =
        (y.answer (requests.filter (keep ·.file))).1 ∧
      ∀ file, keep file = true →
        (x.answer requests).2.Alike file (y.answer (requests.filter (keep ·.file))).2 := by
  induction requests generalizing x y with
  | nil => exact ⟨rfl, alike⟩
  | cons request requests ih =>
    rw [answer_cons]
    cases about : keep request.file with
    | true =>
      -- Both runs meet this request, and it leaves the other files alone in both.
      have concord := (alike request.file about).reply
      have next (file : FileId) (kept : keep file = true) :
          (Session.reply x request).2.Alike file (Session.reply y request).2 := by
        by_cases here : request.file = file
        · exact here ▸ concord.left
        · exact ((x.alike_reply here).symm.trans (alike file kept)).trans (y.alike_reply here)
      obtain ⟨replies, left⟩ := ih next
      simp only [List.filter_cons, about, if_true, answer_cons, replies, concord.said]
      exact ⟨trivial, left⟩
    | false =>
      -- Only the first run meets it, and it is about none of the files that count.
      have next (file : FileId) (kept : keep file = true) :
          (Session.reply x request).2.Alike file y := by
        have elsewhere : request.file ≠ file := by
          rintro rfl
          rw [about] at kept
          contradiction
        exact (x.alike_reply elsewhere).symm.trans (alike file kept)
      simp only [List.filter_cons, about, Bool.false_eq_true, if_false]
      exact ih next

/-- Requests about other files leave a file alone. -/
theorem alike_answer (x : Indexer δ) {file : FileId} {requests : List Request}
    (elsewhere : ∀ request ∈ requests, request.file ≠ file) :
    x.Alike file (x.answer requests).2 := by
  induction requests generalizing x with
  | nil => exact .refl file x
  | cons request requests ih =>
    obtain ⟨first, later⟩ := List.forall_mem_cons.mp elsewhere
    exact (x.alike_reply first).trans (ih _ later)

/-! ### What all requests keep -/

/-- Two indexers digest texts in the same way, have the same configuration and file stubs under the
same keys. -/
structure SameSettings (x y : Indexer δ) : Prop where
  digest : x.digest = y.digest
  config : x.config = y.config
  registry : x.store.registry = y.store.registry

/-- A request leaves the settings as they are. -/
theorem sameSettings_reply (x : Indexer δ) (request : Request) :
    x.SameSettings (Session.reply x request).2 := by
  cases request with
  | index file version text =>
    apply indexText_keeps (P := x.SameSettings)
    · exact fun y request _ _ same =>
        ⟨same.digest, same.config, same.registry.trans (Store.registry_perform _ request).symm⟩
    · exact fun _ _ _ same => ⟨same.digest, same.config, same.registry⟩
    · exact ⟨rfl, rfl, rfl⟩
  | forget file => exact ⟨rfl, rfl, (Store.registry_remove x.store file).symm⟩
  | store request => exact ⟨rfl, rfl, (Store.registry_perform x.store request).symm⟩

/-- Requests leave the settings as they are. -/
theorem sameSettings_answer (x : Indexer δ) (requests : List Request) :
    x.SameSettings (x.answer requests).2 := by
  induction requests generalizing x with
  | nil => exact ⟨rfl, rfl, rfl⟩
  | cons request requests ih =>
    have first := x.sameSettings_reply request
    have later := ih (Session.reply x request).2
    exact ⟨first.digest.trans later.digest, first.config.trans later.config,
      first.registry.trans later.registry⟩

/-- A request leaves tables and stubs in step. -/
theorem consistent_reply {x : Indexer δ} (h : x.store.Consistent) (request : Request) :
    (Session.reply x request).2.store.Consistent := by
  cases request with
  | index file version text =>
    apply indexText_keeps (P := fun y => y.store.Consistent)
    · exact fun y request _ _ consistent => consistent.perform request
    · exact fun _ _ _ consistent => consistent
    · exact h
  | forget file => exact h.remove file
  | store request => exact h.perform request

/-- Requests leave tables and stubs in step. -/
theorem consistent_answer {x : Indexer δ} (h : x.store.Consistent) (requests : List Request) :
    (x.answer requests).2.store.Consistent := by
  induction requests generalizing x with
  | nil => exact h
  | cons request requests ih => exact ih (consistent_reply h request)

omit [DecidableEq δ] in
/-- Indexers that know the same of all files are the same, when tables and stubs are in step. -/
theorem eq_of_alike {x y : Indexer δ} (hx : x.store.Consistent) (hy : y.store.Consistent)
    (alike : ∀ file, x.Alike file y) : x = y := by
  have store : x.store = y.store := Store.eq_of_alike hx hy fun file => (alike file).store
  have digests : x.digests = y.digests :=
    Std.ExtTreeMap.ext_getElem? fun file => (alike file).known
  -- the settings are known from any one file, since they are the same for all
  obtain ⟨digest, config, s, ds⟩ := x
  obtain ⟨digest', config', s', ds'⟩ := y
  obtain ⟨rfl, rfl, rfl, rfl⟩ :=
    And.intro (alike ⟨0⟩).digest (And.intro (alike ⟨0⟩).config (And.intro store digests))
  rfl

end Indexer

/-! ## Jobs -/

/-- A request, or a batch of texts that are indexed together. -/
inductive Job where
  | single (request : Request)
  | batch (texts : List FileText)

namespace Job

/-- The part of a job that is about some files, if there is one. -/
def within (keep : FileId → Bool) : Job → Option Job
  | .single request => if keep request.file then some (.single request) else none
  | .batch texts => some (.batch (texts.filter (keep ·.file)))

/-- The request that a text of a batch makes. -/
def ofText (t : FileText) : Request :=
  .index t.file t.version t.text

/-- The requests that a job is made of. -/
def requests : Job → List Request
  | .single request => [request]
  | .batch texts => texts.map ofText

/-- The requests of the parts that are about some files are the requests about these files. -/
theorem requests_within (keep : FileId → Bool) (jobs : List Job) :
    (jobs.filterMap (within keep)).flatMap requests =
      (jobs.flatMap requests).filter (keep ·.file) := by
  induction jobs with
  | nil => rfl
  | cons job jobs ih =>
    rw [List.flatMap_cons, List.filter_append, ← ih]
    cases job with
    | single request =>
      cases about : keep request.file with
      | true => simp [within, requests, about]
      | false => simp [within, requests, about]
    | batch texts =>
      simp [within, requests, List.filter_map, Function.comp_def, ofText, Request.file]

end Job

namespace Indexer

variable {δ : Type} [DecidableEq δ]

/-- What is said to a job, each time with the file. -/
def work (x : Indexer δ) : Job → List (FileId × Reply) × Indexer δ
  | .single request =>
    let (said, x) := Session.reply x request
    ([(request.file, said)], x)
  | .batch texts =>
    let (results, x) := x.indexFiles texts
    (results.map fun (file, result) => (file, .indexed result), x)

/-- What is said to jobs, one after the other. -/
def workAll (x : Indexer δ) : List Job → List (FileId × Reply) × Indexer δ
  | [] => ([], x)
  | job :: jobs =>
    let (said, x) := x.work job
    let (later, x) := x.workAll jobs
    (said ++ later, x)

/-- A batch is treated as the texts one after the other. -/
theorem work_batch (x : Indexer δ) (texts : List FileText) :
    x.work (.batch texts) = x.answer (texts.map Job.ofText) := by
  induction texts generalizing x with
  | nil => rfl
  | cons t texts ih =>
    -- the result of the first text, and then those of the others
    have later := ih (x.indexText t.file t.version t.text).2
    simp only [work, indexFiles, List.map_cons, answer_cons, Job.ofText, Session.reply,
      Request.file] at later ⊢
    rw [← later]

/-- A job is the requests that it is made of. -/
theorem work_eq (x : Indexer δ) (job : Job) : x.work job = x.answer job.requests := by
  cases job with
  | single request => rfl
  | batch texts => exact x.work_batch texts

/-- Jobs are the requests that they are made of, one after the other. -/
theorem workAll_eq (x : Indexer δ) (jobs : List Job) :
    x.workAll jobs = x.answer (jobs.flatMap Job.requests) := by
  induction jobs generalizing x with
  | nil => rfl
  | cons job jobs ih => simp only [workAll, List.flatMap_cons, answer_append, work_eq, ih]

/-! ### Parts of jobs -/

variable {x : Indexer δ} {keep : FileId → Bool} {file : FileId}

/-- The parts of jobs are the requests about the files that count. -/
theorem workAll_within (x : Indexer δ) (keep : FileId → Bool) (jobs : List Job) :
    x.workAll (jobs.filterMap (Job.within keep)) =
      x.answer ((jobs.flatMap Job.requests).filter (keep ·.file)) := by
  rw [workAll_eq, Job.requests_within]

/-- What is said about some files is what is said where only they are worked on. -/
theorem workAll_filter (x : Indexer δ) (keep : FileId → Bool) (jobs : List Job) :
    (x.workAll jobs).1.filter (keep ·.1) =
      (x.workAll (jobs.filterMap (Job.within keep))).1 := by
  rw [workAll_within, workAll_eq]
  exact (answer_filter keep (fun file _ => .refl file x) _).1

/-- Of some files the same is left where only they are worked on. -/
theorem alike_workAll_of_kept (x : Indexer δ) (kept : keep file = true) (jobs : List Job) :
    (x.workAll jobs).2.Alike file (x.workAll (jobs.filterMap (Job.within keep))).2 := by
  rw [workAll_within, workAll_eq]
  exact (answer_filter keep (fun file _ => .refl file x) _).2 file kept

/-- A file that is not worked on stays as it is. -/
theorem alike_workAll_of_dropped (x : Indexer δ) (dropped : keep file = false)
    (jobs : List Job) : x.Alike file (x.workAll (jobs.filterMap (Job.within keep))).2 := by
  rw [workAll_within]
  apply alike_answer
  -- a request about the file would count
  intro request member here
  have kept := (List.mem_filter.mp member).2
  rw [here, dropped] at kept
  contradiction

/-- Jobs leave the settings as they are. -/
theorem sameSettings_workAll (x : Indexer δ) (jobs : List Job) :
    x.SameSettings (x.workAll jobs).2 := by
  rw [workAll_eq]
  exact x.sameSettings_answer _

/-- Jobs leave tables and stubs in step. -/
theorem consistent_workAll (h : x.store.Consistent) (jobs : List Job) :
    (x.workAll jobs).2.store.Consistent := by
  rw [workAll_eq]
  exact consistent_answer h _

/-! ## Batches -/

/-- In a batch of texts of different files each is treated as if it were the first. -/
theorem fst_indexFiles (x : Indexer δ) {texts : List FileText}
    (distinct : (texts.map (·.file)).Nodup) :
    (x.indexFiles texts).1 =
      texts.map fun t => (t.file, (x.indexText t.file t.version t.text).1) := by
  induction texts generalizing x with
  | nil => rfl
  | cons t texts ih =>
    obtain ⟨fresh, distinct⟩ := List.nodup_cons.mp distinct
    have later := ih (x.indexText t.file t.version t.text).2 distinct
    -- The first text is of another file than all later ones.
    have same : ∀ u ∈ texts,
        (u.file, ((x.indexText t.file t.version t.text).2.indexText u.file u.version u.text).1) =
          (u.file, (x.indexText u.file u.version u.text).1) := by
      intro u member
      have elsewhere : t.file ≠ u.file := fun here =>
        fresh (List.mem_map.mpr ⟨u, member, here.symm⟩)
      have alike := x.alike_indexText elsewhere t.version t.text
      rw [(alike.indexText u.version u.text).said]
    simp only [indexFiles, List.map_cons]
    rw [later, List.map_congr_left same]

/-- The order in which the texts of a batch are indexed does not matter. -/
theorem snd_indexFiles_perm {x : Indexer δ} (consistent : x.store.Consistent)
    {texts texts' : List FileText} (distinct : (texts.map (·.file)).Nodup)
    (perm : texts.Perm texts') : (x.indexFiles texts).2 = (x.indexFiles texts').2 := by
  have batch (texts : List FileText) :
      (x.indexFiles texts).2 = (x.answer (texts.map Job.ofText)).2 := by
    rw [← work_batch]
    rfl
  rw [batch, batch]
  apply eq_of_alike (consistent_answer consistent _) (consistent_answer consistent _)
  intro file
  -- Of each file at most one text is in the batch, so the part that is about it has no order.
  have part : (texts.map Job.ofText).filter (·.file = file) =
      (texts'.map Job.ofText).filter (·.file = file) := by
    have single {texts : List FileText} (distinct : (texts.map (·.file)).Nodup) :
        (texts.filter (·.file = file)).Pairwise fun _ _ => False := by
      refine ((List.pairwise_map.mp distinct).filter _).imp_of_mem ?_
      intro t u ht hu different
      have hereT : t.file = file := of_decide_eq_true (List.mem_filter.mp ht).2
      have hereU : u.file = file := of_decide_eq_true (List.mem_filter.mp hu).2
      -- of two texts of one file at most one would be in the batch
      exact different (hereT.trans hereU.symm)
    have same : texts.filter (·.file = file) = texts'.filter (·.file = file) :=
      (perm.filter _).eq_of_pairwise (fun _ _ _ _ never => never.elim) (single distinct)
        (single ((perm.map _).nodup_iff.mp distinct))
    rw [List.filter_map, List.filter_map]
    exact congrArg (List.map Job.ofText) same
  -- what is left of a file depends only on the requests about it
  have alone (requests : List Request) :=
    (answer_filter (· = file) (fun other _ => .refl other x) requests).2 file (by simp)
  exact (alone _).trans (part ▸ (alone _).symm)

end Indexer

/-! ## Lookups -/

namespace Store

variable {file : FileId} {s t : Store}

/-- Going through the stubs of a file finds the same in both stores. -/
theorem Alike.scanFile (h : s.Alike file t) (key : IndexKey) (name : String) :
    s.scanFile file key name = t.scanFile file key name := by
  rw [Store.scanFile, fileStubs?, h.entry, h.registry, Store.scanFile, fileStubs?]

/-- A store that knows only one file finds what another finds in this file. -/
theorem Alike.lookup_of_single (h : s.Alike file t) (ht : t.Consistent)
    (others : ∀ other, other ≠ file → t.files[other]? = none) {key : IndexKey}
    (registered : s.registry.contains key = true) (name : String) :
    t.lookup key name = .ok (s.scanFile file key name) := by
  rw [ht.lookup_eq, ← h.registry, if_pos registered, scan_of_single, h.scanFile]
  intro other elsewhere
  rw [fileStubs?, Store.entry, others other elsewhere]
  rfl

end Store

namespace Indexer

variable {δ : Type} [DecidableEq δ] {x : Indexer δ}

/-- Where only one file was ever known, a lookup finds what it finds in this file among others. -/
theorem lookup_workAll_alone (consistent : x.store.Consistent)
    (fresh : ∀ file : FileId, x.store.files[file]? = none) {key : IndexKey}
    (registered : x.store.registry.contains key = true) (name : String) (file : FileId)
    (jobs : List Job) :
    (x.workAll (jobs.filterMap (Job.within (· = file)))).2.store.lookup key name =
      .ok ((x.workAll jobs).2.store.scanFile file key name) := by
  -- the file is alike in the two runs, and no other file is known to the second one
  have own : (x.workAll jobs).2.Alike file (x.workAll (jobs.filterMap (Job.within (· = file)))).2 :=
    x.alike_workAll_of_kept (decide_eq_true rfl) jobs
  apply own.store.lookup_of_single (consistent_workAll consistent _)
  · intro other elsewhere
    have blank : x.Alike other (x.workAll (jobs.filterMap (Job.within (· = file)))).2 :=
      x.alike_workAll_of_dropped (decide_eq_false elsewhere) jobs
    exact blank.store.known.symm.trans (fresh other)
  · rw [← (x.sameSettings_workAll jobs).registry]
    exact registered

/-! ## Forgotten files -/

/-- What is left when a file is forgotten is what is left where it was never worked on. -/
theorem removeFile_workAll (consistent : x.store.Consistent) {file : FileId}
    (fresh : x.store.files[file]? = none) (undigested : x.digests[file]? = none)
    (jobs : List Job) :
    ((x.workAll jobs).2.removeFile file).2 =
      (x.workAll (jobs.filterMap (Job.within (· ≠ file)))).2 := by
  apply eq_of_alike ((consistent_workAll consistent jobs).remove file)
    (consistent_workAll consistent _)
  intro other
  by_cases here : other = file
  · -- Neither knows anything of the file.
    subst here
    have before := x.sameSettings_workAll jobs
    have blank : x.Alike other (x.workAll (jobs.filterMap (Job.within (· ≠ other)))).2 :=
      x.alike_workAll_of_dropped (by simp) jobs
    refine ⟨before.digest.symm.trans blank.digest, before.config.symm.trans blank.config,
      ⟨?_, Eq.trans ?_ blank.store.known⟩, Eq.trans ?_ blank.known⟩
    · -- both have the registry of the start
      exact (Store.registry_remove _ other).trans
        (before.registry.symm.trans blank.store.registry)
    · simp [removeFile, withStore, forgetDigest, fresh]
    · simp [removeFile, withStore, forgetDigest, undigested]
  · -- every other file was left alone when this one was forgotten
    have gone : (x.workAll jobs).2.Alike other
        (Session.reply (x.workAll jobs).2 (.forget file)).2 := alike_reply _ (Ne.symm here)
    exact gone.symm.trans (x.alike_workAll_of_kept (decide_eq_true here) jobs)

/-! ## All files -/

/-- Whatever is done, files are independent. The replies about a file, and all that can be asked
about it afterwards, are as if there were no other files. A lookup gives, in ascending order of
files, what each file by itself would give. A file that is forgotten leaves nothing behind; one that
is removed behind the back of the indexer leaves nothing in the store. A batch of texts of different
files gives the result of each text in the given order, and may be indexed in any order. -/
theorem files_independent (digest : List Char → δ) (config : Config) (registry : Registry)
    (jobs : List Job) :
    let start := (Session.opened digest config registry).indexer
    let whole := start.workAll jobs
    let alone (file : FileId) := start.workAll (jobs.filterMap (Job.within (· = file)))
    let without (file : FileId) := start.workAll (jobs.filterMap (Job.within (· ≠ file)))
    Indexer.start digest config (Store.empty registry) = .ok start ∧
      (∀ file,
        whole.1.filter (·.1 = file) = (alone file).1 ∧
        whole.2.store.committedVersion? file = (alone file).2.store.committedVersion? file ∧
        whole.2.store.fileState file = (alone file).2.store.fileState file ∧
        whole.2.store.fileStubs? file = (alone file).2.store.fileStubs? file ∧
        whole.2.store.fileBytes? file = (alone file).2.store.fileBytes? file) ∧
      (∀ key name, registry.contains key = true →
        ∃ hits : FileId → List FoundStub,
          (∀ file, (alone file).2.store.lookup key name = .ok (hits file)) ∧
          whole.2.store.lookup key name = .ok (whole.2.store.fileIds.flatMap hits) ∧
          whole.2.store.fileIds.Pairwise (compare · · = .lt) ∧
          ∀ file, file ∉ whole.2.store.fileIds → hits file = []) ∧
      (∀ file, (whole.2.removeFile file).2 = (without file).2 ∧
        (whole.2.store.remove file).2 = (without file).2.store) ∧
      ∀ texts, (texts.map (·.file)).Nodup →
        (whole.2.indexFiles texts).1 =
          texts.map (fun t => (t.file, (whole.2.indexText t.file t.version t.text).1)) ∧
        ∀ texts', texts.Perm texts' →
          (whole.2.indexFiles texts').2 = (whole.2.indexFiles texts).2 := by
  intro start whole alone without
  have consistent : start.store.Consistent := Store.consistent_empty registry
  -- at the start nothing is known of any file
  have fresh (file : FileId) : start.store.files[file]? = none := by
    simp [start, Session.opened, Store.empty]
  have undigested (file : FileId) : start.digests[file]? = none := by
    simp [start, Session.opened]
  refine ⟨?_, ?_, ?_, ?_, ?_⟩
  · rw [Indexer.start, Element.Factory.checkStandard_ok]
    rfl
  · intro file
    -- what is asked about the file shows only its entry
    have own : whole.2.Alike file (alone file).2 :=
      start.alike_workAll_of_kept (decide_eq_true rfl) jobs
    simp only [Store.committedVersion?, Store.fileState, Store.fileBytes?, Store.fileStubs?,
      own.store.entry]
    exact ⟨start.workAll_filter (· = file) jobs, trivial, trivial, trivial, trivial⟩
  · intro key name registered
    refine ⟨(whole.2.store.scanFile · key name),
      fun file => lookup_workAll_alone consistent fresh registered name file jobs, ?_,
      whole.2.store.fileIds_ascending, fun file unknown => Store.scanFile_of_unknown unknown⟩
    -- the lookup goes through the known files in order, and in each of them finds what is in it
    have same : registry = whole.2.store.registry := (start.sameSettings_workAll jobs).registry
    rw [(consistent_workAll consistent jobs).lookup_eq, if_pos (same ▸ registered)]
    rfl
  · intro file
    have same : (whole.2.removeFile file).2 = (without file).2 :=
      removeFile_workAll consistent (fresh file) (undigested file) jobs
    -- removing the file from the store is the part of forgetting it that concerns the store
    exact ⟨same, congrArg Indexer.store same⟩
  · intro texts distinct
    refine ⟨whole.2.fst_indexFiles distinct, ?_⟩
    intro texts' perm
    exact (snd_indexFiles_perm (consistent_workAll consistent jobs) distinct perm).symm

/-- Two files have a sub of one name. An older text of the first one is refused, and a newer version
of the second one is announced. -/
theorem files_independent_shared_name :
    let program := "sub f { }".toList
    let texts : List FileText := [⟨⟨2⟩, 1, program⟩, ⟨⟨1⟩, 4, program⟩]
    let jobs : List Job :=
      [.batch texts, .single (.store (.markStale ⟨2⟩ 3)), .single (.index ⟨1⟩ 2 program)]
    let start := (Session.opened (fun text : List Char => text) .standard .perl).indexer
    let x := (start.workAll jobs).2
    Registry.perl.contains ⟨"perl.sub"⟩ = true ∧
      (∃ hits : FileId → List FoundStub,
        (start.workAll (jobs.filterMap (Job.within (· = ⟨2⟩)))).2.store.lookup ⟨"perl.sub"⟩ "f" =
          .ok (hits ⟨2⟩) ∧
        x.store.lookup ⟨"perl.sub"⟩ "f" = .ok (hits ⟨1⟩ ++ hits ⟨2⟩)) ∧
      (texts.map (·.file)).Nodup ∧ texts.Perm texts.reverse ∧
      (x.indexFiles texts.reverse).2 = (x.indexFiles texts).2 := by
  intro program texts jobs start x
  obtain ⟨-, -, lookups, -, batches⟩ :=
    files_independent (fun text : List Char => text) .standard .perl jobs
  have registered : Registry.perl.contains ⟨"perl.sub"⟩ = true := by decide +kernel
  have distinct : (texts.map (·.file)).Nodup := by decide
  have perm : texts.Perm texts.reverse := texts.reverse_perm.symm
  have known : x.store.fileIds = [⟨1⟩, ⟨2⟩] := by decide +kernel
  -- each file gives what it would give alone
  obtain ⟨hits, own, all, -, -⟩ := lookups ⟨"perl.sub"⟩ "f" registered
  beta_reduce at own
  have both : x.store.fileIds.flatMap hits = hits ⟨1⟩ ++ hits ⟨2⟩ := by
    rw [known]
    simp
  refine ⟨registered, ⟨hits, ?_, ?_⟩, distinct, perm, (batches texts distinct).2 _ perm⟩
  -- Unfolded, the two runs would be compared step by step.
  · with_reducible exact own ⟨2⟩
  · with_reducible exact all.trans (congrArg Except.ok both)

end Indexer

end PerlOutline.Index
