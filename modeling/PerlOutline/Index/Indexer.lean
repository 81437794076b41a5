import PerlOutline.Index.Config
import PerlOutline.Index.Outline
import PerlOutline.Index.Store

/-!
# Indexing texts

An indexer commits the outlines of texts to a store. It keeps a digest of the text of each file
that it committed, so that it need not parse a text again that did not change. Any digest will do
that tells the texts apart which it is given.

## Layers
- **Digests**: what is known of committed texts.
- **`indexText`**: too large, unchanged, or parsed and committed.
- **Many files**.
-/

namespace PerlOutline.Index

open PerlOutline.Source (FileId byteWidth)
open PerlOutline.Element (Factory)

/-- What indexing did with a text. -/
inductive Activity where
  /-- Parsed and committed. -/
  | indexed
  /-- The committed stubs were kept. -/
  | unchanged
  /-- Committed without stubs. -/
  | tooLarge
  deriving DecidableEq, Repr

/-- What was done with a text, in a word. -/
def Activity.label : Activity → String
  | .indexed => "Indexed"
  | .unchanged => "Unchanged"
  | .tooLarge => "TooLarge"

/-- What came of indexing a text. -/
structure Report where
  file : FileId
  version : Version
  activity : Activity
  /-- How many stubs are committed for the file. -/
  stubCount : Nat
  diagnostics : List Diagnostic
  deriving DecidableEq, Repr

/-- A text that is to be indexed as a version of a file. -/
structure FileText where
  file : FileId
  version : Version
  text : List Char

/-- An indexer that tells texts apart by digests of type `δ`. -/
structure Indexer (δ : Type) where
  /-- The digest of a text. -/
  digest : List Char → δ
  config : Config
  store : Store
  /-- The version and the digest of the text that was last committed for a file. -/
  digests : Std.ExtTreeMap FileId (Version × δ)

namespace Indexer

variable {δ : Type}

/-- An indexer that has committed nothing yet. -/
def start (digest : List Char → δ) (config : Config) (store : Store) :
    Except IndexError (Indexer δ) :=
  match Factory.checkStandard with
  | .ok () => .ok ⟨digest, config, store, ∅⟩
  | .error cause => .error (.unknownElement cause)

/-- The indexer with another state of its store. -/
def withStore (x : Indexer δ) (store : Store) : Indexer δ :=
  { x with store := store }

/-! ## Digests -/

/-- Remember the digest of a committed text, unless one of a newer version is known. -/
def remember (x : Indexer δ) (file : FileId) (version : Version) (digest : δ) : Indexer δ :=
  { x with digests := x.digests.alter file fun known =>
      match known with
      | none => some (version, digest)
      -- A digest that is kept for a newer version may be of a text that is not committed any more.
      | some (v, d) => if v ≤ version then some (version, digest) else some (v, d) }

/-- Forget which text was committed. -/
def forgetDigest (x : Indexer δ) (file : FileId) : Indexer δ :=
  { x with digests := x.digests.erase file }

/-- The committed version of a file, if the digest of its text is known to be the given one. -/
def unchangedSince? [DecidableEq δ] (x : Indexer δ) (file : FileId) (digest : δ) :
    Option Version :=
  (x.store.committedVersion? file).bind fun committed =>
    -- The digest counts only for the version that is committed now.
    (x.digests[file]?.filter fun known => known.2 = digest ∧ known.1 = committed).map (·.1)

/-! ## One text -/

/-- Commit a text that is too large without stubs. -/
def commitTooLarge (x : Indexer δ) (file : FileId) (version : Version) :
    Except IndexError Report × Indexer δ :=
  match x.store.commit file version [] with
  | (.error refused, store) => (.error refused, x.withStore store)
  | (.ok (), store) =>
    -- The digest that may be there is of a text whose stubs are no longer committed.
    (.ok ⟨file, version, .tooLarge, 0, []⟩, (x.withStore store).forgetDigest file)

/-- Let the stubs that were committed at version `expected` stand for a version, if they are still
committed. -/
def restamp? (x : Indexer δ) (file : FileId) (expected version : Version) (digest : δ) :
    Option (Except IndexError Report × Indexer δ) :=
  match x.store.recommit file expected version with
  | (.error refused, store) => some (.error refused, x.withStore store)
  -- What is committed has changed behind the back of the indexer, so the text is parsed after all.
  | (.ok false, _) => none
  | (.ok true, store) =>
    let count := (store.fileStubs? file).elim 0 StubSet.size
    some (.ok ⟨file, version, .unchanged, count, []⟩,
      (x.withStore store).remember file version digest)

/-- Keep the committed stubs of a file, if its text is unchanged. -/
def keep? [DecidableEq δ] (x : Indexer δ) (file : FileId) (version : Version) (digest : δ) :
    Option (Except IndexError Report × Indexer δ) :=
  if x.config.skipUnchanged then
    (x.unchangedSince? file digest).bind fun expected => x.restamp? file expected version digest
  else none

/-- Parse a text and commit its outline. -/
def parseAndCommit (x : Indexer δ) (file : FileId) (version : Version) (text : List Char) :
    Except IndexError Report × Indexer δ :=
  match x.store.begin file version with
  | (.error refused, store) => (.error refused, x.withStore store)
  | (.ok (), begun) =>
    match Outline.ofText file text with
    -- Whatever fails after this point gives the begun version up again.
    | .error cause => (.error (.unknownElement cause), x.withStore (begun.cancel file version))
    | .ok outline =>
      match begun.commit file version outline.stubs with
      | (.error refused, store) => (.error refused, x.withStore (store.cancel file version))
      | (.ok (), store) =>
        (.ok ⟨file, version, .indexed, outline.stubs.length, outline.diagnostics⟩,
          (x.withStore store).remember file version (x.digest text))

/-- Index a text as a version of a file. -/
def indexText [DecidableEq δ] (x : Indexer δ) (file : FileId) (version : Version)
    (text : List Char) : Except IndexError Report × Indexer δ :=
  if x.config.maxFileBytes < byteWidth text then x.commitTooLarge file version
  else (x.keep? file version (x.digest text)).getD (x.parseAndCommit file version text)

/-! ## Many files -/

/-- Index texts one after the other. What is refused for one does not touch the others. -/
def indexFiles [DecidableEq δ] (x : Indexer δ) :
    List FileText → List (FileId × Except IndexError Report) × Indexer δ
  | [] => ([], x)
  | f :: fs =>
    let (result, x) := x.indexText f.file f.version f.text
    let (results, x) := x.indexFiles fs
    ((f.file, result) :: results, x)

/-- Forget a file and its digest. The answer says whether the file was known. -/
def removeFile (x : Indexer δ) (file : FileId) : Bool × Indexer δ :=
  let (known, store) := x.store.remove file
  (known, (x.withStore store).forgetDigest file)

end Indexer

end PerlOutline.Index
