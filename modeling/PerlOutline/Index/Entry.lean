import PerlOutline.Index.StubSet

/-!
# Entries

What the index knows of one file: the committed stubs, the newest version that is being indexed,
and the newest version that was ever mentioned.

```text
             begin                 commit
NotIndexed ────────→ Indexing ─────────────→ Indexed
                         ↑                      │ newer version mentioned
                         └────── begin ───── Stale
```
-/

namespace PerlOutline.Index

open PerlOutline.Source (FileId)

/-- What the index knows of one file. -/
structure Entry where
  /-- The stubs that lookups see. -/
  committed? : Option StubSet
  /-- The newest version of which indexing has begun and not ended. -/
  indexing? : Option Version
  /-- The newest version that was mentioned. -/
  latest? : Option Version

/-- How far the index is with a file. -/
inductive FileState where
  | notIndexed
  | indexing
  | indexed
  | stale
  deriving DecidableEq, Repr

/-- How a state is called. -/
def FileState.label : FileState → String
  | .notIndexed => "NotIndexed"
  | .indexing => "Indexing"
  | .indexed => "Indexed"
  | .stale => "Stale"

/-- The greater of a version and one that may be there. -/
def atLeast (known : Option Version) (version : Version) : Option Version :=
  some (known.elim version (max · version))

namespace Entry

/-- The entry of a file of which nothing was heard. -/
def blank : Entry :=
  ⟨none, none, none⟩

/-- The version of the committed stubs. -/
def committedVersion? (e : Entry) : Option Version :=
  e.committed?.map (·.version)

/-- How far the index is with the file. -/
def state (e : Entry) : FileState :=
  match e.indexing?, e.committedVersion? with
  -- While a version is being indexed, what is committed does not show.
  | some _, _ => .indexing
  | none, none => .notIndexed
  | none, some committed => if e.latest?.any (committed < ·) then .stale else .indexed

/-- Why a version is refused: a newer one is committed. -/
def refusal? (e : Entry) (file : FileId) (version : Version) : Option IndexError :=
  match e.committedVersion? with
  | some committed =>
    if version < committed then some (.superseded file version committed) else none
  | none => none

/-- The names under which lookups find the file. -/
def names (e : Entry) : List NameKey :=
  e.committed?.elim [] StubSet.names

/-- Whether lookups find the file under a name. -/
def holds (e : Entry) (name : NameKey) : Bool :=
  e.committed?.any (·.holds name)

/-- Hear of a version. -/
def mention (e : Entry) (version : Version) : Entry :=
  { e with latest? := atLeast e.latest? version }

/-- Begin to index a version. -/
def begin (e : Entry) (version : Version) : Entry :=
  { e with indexing? := atLeast e.indexing? version }.mention version

/-- End the indexing of a version and of all older ones. -/
def settle (e : Entry) (version : Version) : Entry :=
  -- A newer version is still being indexed then.
  { e with indexing? := e.indexing?.filter (version < ·) }

/-- Replace the committed stubs. -/
def install (e : Entry) (set : StubSet) : Entry :=
  ({ e with committed? := some set }.mention set.version).settle set.version

/-- Forget the committed stubs and what is being indexed. -/
-- What was mentioned stays known, so the file can be told to be stale later.
def reset (e : Entry) : Entry :=
  { blank with latest? := e.latest? }

end Entry

end PerlOutline.Index
