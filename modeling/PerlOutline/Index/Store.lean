import Std.Data.ExtTreeSet
import PerlOutline.Index.Entry
import PerlOutline.Index.SharedRegistry

/-!
# The store

The entries of all files, with a table that says for each name in which files it is. A lookup goes
to those files only. Every operation says how the store is afterwards, also when it refuses.

## Layers
- **Name table**: link a file to names, and unlink it.
- **Entries**: find, touch and change the entry of a file.
- **Operations** on one file.
- **Queries**.
-/

namespace PerlOutline.Index

open PerlOutline (Stub)
open PerlOutline.Source (FileId)
open PerlOutline.Stub (Corruption FileStubs IndexKey)
open PerlOutline.MessagePack (Bytes)

/-! ## Name table -/

/-- The files in which each name is. -/
abbrev NameTable : Type :=
  Std.ExtTreeMap NameKey (Std.ExtTreeSet FileId)

namespace NameTable

/-- Say that a name is in a file. -/
def linkName (file : FileId) (table : NameTable) (name : NameKey) : NameTable :=
  table.alter name fun files => some ((files.getD ∅).insert file)

/-- Say that names are in a file. -/
def link (table : NameTable) (file : FileId) (names : List NameKey) : NameTable :=
  names.foldl (linkName file) table

/-- Say that a name is not in a file. A name that is in no file leaves the table. -/
def unlinkName (file : FileId) (table : NameTable) (name : NameKey) : NameTable :=
  table.alter name fun files =>
    files.bind fun files =>
      let others := files.erase file
      if others.isEmpty then none else some others

/-- Say that names are not in a file. -/
def unlink (table : NameTable) (file : FileId) (names : List NameKey) : NameTable :=
  names.foldl (unlinkName file) table

/-- The files in which a name is, in ascending order. -/
def filesOf (table : NameTable) (name : NameKey) : List FileId :=
  (table[name]?.getD ∅).toList

end NameTable

/-! ## The store -/

/-- Stubs of all files. -/
structure Store where
  /-- The key of each kind of declaration. -/
  registry : Registry
  /-- What is known of each file. -/
  files : Std.ExtTreeMap FileId Entry
  /-- In which files each name is. -/
  names : NameTable

/-- What an operation answers, and the store after it. -/
abbrev Outcome (α : Type) : Type :=
  Except IndexError α × Store

/-- A stub that a lookup found. -/
structure FoundStub where
  file : FileId
  /-- The position among the stubs of the file. -/
  position : Nat
  stub : Stub
  deriving DecidableEq, Repr

/-- What became of persisted stubs. -/
inductive LoadOutcome where
  | loaded (version : Version) (count : Nat)
  /-- The bytes are no stubs, so the file has to be indexed again. -/
  | rebuildRequired (cause : Corruption)
  deriving DecidableEq, Repr

namespace Store

/-- The store without files. -/
def empty (registry : Registry) : Store :=
  ⟨registry, ∅, ∅⟩

/-- The store without files that uses the shared registry. -/
def overShared (shared : SharedRegistry) : Except IndexError Store :=
  shared.get.map empty

/-! ## Entries -/

/-- What is known of a file; of a file that is not known, nothing is. -/
def entry (s : Store) (file : FileId) : Entry :=
  s.files[file]?.getD .blank

/-- Change the entry of a file; the file is known afterwards. -/
def change (s : Store) (file : FileId) (f : Entry → Entry) : Store :=
  { s with files := s.files.insert file (f (s.entry file)) }

/-- Make a file known. -/
def touch (s : Store) (file : FileId) : Store :=
  s.change file id

/-- Replace the committed stubs of a file. The table has the new names before the old ones go, so
no name is missing meanwhile. -/
def install (s : Store) (file : FileId) (set : StubSet) : Store :=
  -- A name that the file keeps must not be taken out after it was put in.
  let dropped := (s.entry file).names.filter (!set.holds ·)
  let linked := s.names.link file set.names
  { s.change file (·.install set) with names := linked.unlink file dropped }

/-- Take all names of a file out of the table. -/
def unlinkAll (s : Store) (file : FileId) : Store :=
  { s with names := s.names.unlink file (s.entry file).names }

/-! ## Operations -/

/-- Say that a file changed to a version. -/
def markStale (s : Store) (file : FileId) (version : Version) : Store :=
  s.change file (·.mention version)

/-- Begin to index a version of a file, unless a newer one is committed. -/
def begin (s : Store) (file : FileId) (version : Version) : Outcome Unit :=
  let s := s.touch file
  match (s.entry file).refusal? file version with
  | some refused => (.error refused, s)
  | none => (.ok (), s.change file (·.begin version))

/-- Replace the stubs of a file by those of a version, unless a newer version is committed. -/
def commit (s : Store) (file : FileId) (version : Version) (stubs : List Stub) : Outcome Unit :=
  -- The stubs are filed first, so a kind without a key is refused before the file is made known.
  match StubSet.ofStubs s.registry version stubs with
  | .error kind => (.error (.unregisteredKind kind), s)
  | .ok set =>
    let s := s.touch file
    match (s.entry file).refusal? file version with
    | some refused => (.error refused, s)
    | none => (.ok (), s.install file set)

/-- Let the stubs of version `expected` stand for `version`. The answer says whether `expected`
was what is committed. -/
def recommit (s : Store) (file : FileId) (expected version : Version) : Outcome Bool :=
  -- A file that is not known stays unknown.
  match s.files[file]? with
  | none => (.ok false, s)
  | some entry =>
    match entry.refusal? file version with
    | some refused => (.error refused, s)
    | none =>
      match entry.committed? with
      | none => (.ok false, s)
      | some set =>
        -- The names stay the same, so the table need not change.
        if set.version = expected then
          (.ok true, s.change file (·.install { set with version := version }))
        else (.ok false, s)

/-- Give up indexing a version of a file. Indexing of a newer version goes on. -/
def cancel (s : Store) (file : FileId) (version : Version) : Store :=
  if s.files.contains file then s.change file (·.settle version) else s

/-- Forget a file. The answer says whether it was known. -/
def remove (s : Store) (file : FileId) : Bool × Store :=
  if s.files.contains file then
    -- The names go first, since the entry tells which names those are.
    (true, { s.unlinkAll file with files := s.files.erase file })
  else (false, s)

/-- The stubs that persisted bytes hold, if each kind has a key. -/
def restore (s : Store) (bytes : Bytes) : Except Corruption StubSet := do
  let held ← FileStubs.decode bytes
  match StubSet.ofStubs s.registry held.version held.stubs with
  | .ok set => return set
  -- A kind that the registry does not know makes the bytes as useless as an unknown tag.
  | .error kind => .error (.unknownKind kind.tag)

/-- Restore a file from persisted bytes, unless a newer version is committed. Corrupt bytes are no
refusal: the file is then as if nothing was committed. -/
def load (s : Store) (file : FileId) (bytes : Bytes) : Outcome LoadOutcome :=
  -- The bytes are read before the file is made known.
  let restored := s.restore bytes
  -- A file with corrupt bytes is known as well.
  let s := s.touch file
  match restored with
  | .ok set =>
    match (s.entry file).refusal? file set.version with
    | some refused => (.error refused, s)
    | none => (.ok (.loaded set.version set.size), s.install file set)
  | .error cause => (.ok (.rebuildRequired cause), (s.unlinkAll file).change file Entry.reset)

/-! ## Queries -/

/-- The stubs of a name under a key in all files, by file and then by position. -/
def lookup (s : Store) (key : IndexKey) (name : String) : Except IndexError (List FoundStub) :=
  if s.registry.contains key then
    let wanted : NameKey := ⟨key, name⟩
    .ok ((s.names.filesOf wanted).flatMap fun file =>
      ((s.entry file).committed?.elim [] (·.matching wanted)).map fun found =>
        ⟨file, found.1, found.2⟩)
  else .error (.unknownKey key)

/-- The committed stubs of a file. -/
def fileStubs? (s : Store) (file : FileId) : Option StubSet :=
  (s.entry file).committed?

/-- How far the index is with a file. -/
def fileState (s : Store) (file : FileId) : FileState :=
  (s.entry file).state

/-- The version of the committed stubs of a file. -/
def committedVersion? (s : Store) (file : FileId) : Option Version :=
  (s.entry file).committedVersion?

/-- The known files, in ascending order. -/
def fileIds (s : Store) : List FileId :=
  s.files.keys

/-- The committed stubs of a file in their persisted form. -/
def fileBytes? (s : Store) (file : FileId) : Option Bytes :=
  (s.fileStubs? file).map fun set => FileStubs.encode ⟨set.version, set.stubs⟩

end Store

end PerlOutline.Index
