import PerlOutline.Index.Store

/-!
# Operations of the store as data

Every way to change a store, and what a sequence of such changes leads to.

## Layers
- **`Operation`** and **`Answer`**: requests, and what the store says to them.
- **`perform`** and **`run`**: one request, and many.
- **Entries** after a change: only the entry of the file is touched, and the registry never is.
-/

namespace PerlOutline.Index

open PerlOutline (Stub)
open PerlOutline.Source (FileId)
open PerlOutline.MessagePack (Bytes)

/-- A request to change what the store knows of a file. -/
inductive Operation where
  | markStale (file : FileId) (version : Version)
  | begin (file : FileId) (version : Version)
  | commit (file : FileId) (version : Version) (stubs : List Stub)
  | recommit (file : FileId) (expected version : Version)
  | cancel (file : FileId) (version : Version)
  | remove (file : FileId)
  | load (file : FileId) (bytes : Bytes)

/-- What the store says to a request. -/
inductive Answer where
  | done
  | told (b : Bool)
  | loaded (outcome : LoadOutcome)
  | refused (cause : IndexError)

/-- The answer that an outcome is, where `say` gives the answer to what was granted. -/
def Outcome.answer {α : Type} (say : α → Answer) (o : Outcome α) : Answer × Store :=
  match o with
  | (.ok a, s) => (say a, s)
  | (.error cause, s) => (.refused cause, s)

namespace Store

/-- Do what is requested. -/
def perform (s : Store) : Operation → Answer × Store
  | .markStale file version => (.done, s.markStale file version)
  | .begin file version => Outcome.answer (fun _ => .done) (s.begin file version)
  | .commit file version stubs => Outcome.answer (fun _ => .done) (s.commit file version stubs)
  | .recommit file expected version => Outcome.answer .told (s.recommit file expected version)
  | .cancel file version => (.done, s.cancel file version)
  | .remove file => ((s.remove file).1 |> .told, (s.remove file).2)
  | .load file bytes => Outcome.answer .loaded (s.load file bytes)

/-- The store after requests, one after the other. -/
def run (s : Store) (requests : List Operation) : Store :=
  requests.foldl (fun s request => (s.perform request).2) s

/-! ## Entries after a change -/

@[simp] theorem entry_empty (r : Registry) (file : FileId) : (empty r).entry file = .blank := by
  simp [entry, empty]

@[simp] theorem getElem?_change (s : Store) (file other : FileId) (f : Entry → Entry) :
    (s.change file f).files[other]? =
      if file = other then some (f (s.entry file)) else s.files[other]? := by
  simp only [change, Std.ExtTreeMap.getElem?_insert, Std.LawfulEqOrd.compare_eq_iff_eq]

/-- An entry that was changed is what the change made of it, and no other entry changes. -/
@[simp] theorem entry_change (s : Store) (file other : FileId) (f : Entry → Entry) :
    (s.change file f).entry other = if file = other then f (s.entry file) else s.entry other := by
  rw [entry, getElem?_change]
  split <;> rfl

@[simp] theorem registry_change (s : Store) (file : FileId) (f : Entry → Entry) :
    (s.change file f).registry = s.registry := rfl

@[simp] theorem names_change (s : Store) (file : FileId) (f : Entry → Entry) :
    (s.change file f).names = s.names := rfl

/-- To make a file known says nothing about it. -/
@[simp] theorem entry_touch (s : Store) (file other : FileId) :
    (s.touch file).entry other = s.entry other := by
  simp only [touch, entry_change, id_eq]
  split
  · next same => rw [same]
  · rfl

@[simp] theorem registry_touch (s : Store) (file : FileId) :
    (s.touch file).registry = s.registry := rfl

@[simp] theorem names_touch (s : Store) (file : FileId) : (s.touch file).names = s.names := rfl

@[simp] theorem getElem?_install (s : Store) (file other : FileId) (set : StubSet) :
    (s.install file set).files[other]? =
      if file = other then some ((s.entry file).install set) else s.files[other]? :=
  getElem?_change s file other (·.install set)

/-- What was installed is in the entry of its file, and in no other. -/
@[simp] theorem entry_install (s : Store) (file other : FileId) (set : StubSet) :
    (s.install file set).entry other =
      if file = other then (s.entry file).install set else s.entry other :=
  entry_change s file other (·.install set)

@[simp] theorem registry_install (s : Store) (file : FileId) (set : StubSet) :
    (s.install file set).registry = s.registry := rfl

/-- The new names are in the table before the old ones go. -/
theorem names_install (s : Store) (file : FileId) (set : StubSet) :
    (s.install file set).names =
      (s.names.link file set.names).unlink file
        ((s.entry file).names.filter (!set.holds ·)) := rfl

@[simp] theorem files_unlinkAll (s : Store) (file : FileId) :
    (s.unlinkAll file).files = s.files := rfl

@[simp] theorem entry_unlinkAll (s : Store) (file other : FileId) :
    (s.unlinkAll file).entry other = s.entry other := rfl

/-- Of a file that is not known nothing is known. -/
theorem entry_of_unknown {s : Store} {file : FileId} (h : ¬ s.files.contains file = true) :
    s.entry file = .blank := by
  rw [Std.ExtTreeMap.contains_iff_mem] at h
  rw [entry, Std.ExtTreeMap.getElem?_eq_none h, Option.getD_none]

@[simp] theorem getElem?_remove (s : Store) (file other : FileId) :
    (s.remove file).2.files[other]? = if file = other then none else s.files[other]? := by
  unfold remove
  split
  · simp only [Std.ExtTreeMap.getElem?_erase, Std.LawfulEqOrd.compare_eq_iff_eq]
  · -- Nothing is removed, and the file was not there before.
    next unknown =>
    split
    · next same =>
      rw [← same, Std.ExtTreeMap.getElem?_eq_none]
      rwa [← Std.ExtTreeMap.contains_iff_mem]
    · rfl

/-- Of a file that was removed nothing is known. -/
@[simp] theorem entry_remove (s : Store) (file other : FileId) :
    (s.remove file).2.entry other = if file = other then .blank else s.entry other := by
  rw [entry, getElem?_remove]
  split <;> rfl

@[simp] theorem registry_remove (s : Store) (file : FileId) :
    (s.remove file).2.registry = s.registry := by
  unfold remove
  split <;> rfl

/-! ## The store after an answer -/

/-- What is said of an outcome does not change the store. -/
theorem snd_answer {α : Type} (say : α → Answer) (o : Outcome α) : (o.answer say).2 = o.2 := by
  obtain ⟨result, s⟩ := o
  cases result <;> rfl

end Store

end PerlOutline.Index
