/-!
# Options of indexing

How much is indexed and which files are.
-/

namespace PerlOutline.Index

/-- Options of indexing. -/
structure Config where
  /-- How many workers index a batch of files; with 0 the host decides. -/
  threads : Nat
  /-- Larger texts are not parsed and have no stubs. -/
  maxFileBytes : Nat
  /-- Extensions of the files that are taken for Perl, without the dot. -/
  extensions : List String
  /-- Whether a text that did not change is not parsed again. -/
  skipUnchanged : Bool
  deriving DecidableEq, Repr

namespace Config

/-- Texts up to 4 MiB, the usual extensions, and nothing is parsed twice. -/
def standard : Config where
  threads := 0
  maxFileBytes := 4 * 1024 * 1024
  extensions := ["pl", "pm", "t"]
  skipUnchanged := true

/-! ## Paths -/

/-- The last name of a path. Slashes at the end and names of a single dot do not count. -/
def lastName? (path : String) : Option String :=
  ((path.splitOn "/").filter fun name => name != "" && name != ".").getLast?

/-- What follows the last dot of a name, given in reverse; the dot must not be its first
character. -/
def extensionOfReversed? (name : List Char) : Option (List Char) :=
  match name.dropWhile (· != '.') with
  -- Without a dot nothing is left, and a dot that is left alone was the first character.
  | [] | [_] => none
  | _ :: _ :: _ => some (name.takeWhile (· != '.')).reverse

/-- The extension of a path: what follows the last dot of its last name, if that is not its first
character. The parent directory has no extension. -/
def extension? (path : String) : Option String :=
  (lastName? path).bind fun name =>
    if name == ".." then none
    else (extensionOfReversed? name.toList.reverse).map String.ofList

/-- Whether two texts are the same when capital letters from A to Z count as small ones. -/
def sameIgnoringCase (a b : String) : Bool :=
  a.toList.map Char.toLower == b.toList.map Char.toLower

/-- Whether a path has one of the extensions, in any mix of cases. -/
def acceptsPath (c : Config) (path : String) : Bool :=
  (extension? path).any fun extension => c.extensions.any (sameIgnoringCase · extension)

end Config

end PerlOutline.Index
