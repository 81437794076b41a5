import PerlOutline.Element.Factory
import PerlOutline.Source.FileId
import PerlOutline.Stub.Record

/-!
# Errors of the index

Why an operation of the index was refused.
-/

namespace PerlOutline.Index

open PerlOutline.Source (FileId)
open PerlOutline.Element (UnknownKind)
open PerlOutline.Stub (DeclarationKind IndexKey)

/-- The host numbers the contents of a file in ascending order. -/
abbrev Version : Type :=
  UInt64

/-- An operation of the index was refused. -/
inductive IndexError where
  /-- Content that is older than what is committed. -/
  | superseded (file : FileId) (version committed : Version)
  /-- A key that the registry does not have. -/
  | unknownKey (key : IndexKey)
  | unregisteredKind (kind : DeclarationKind)
  /-- A key that already stands for another kind. -/
  | duplicateKey (key : IndexKey) (existing : DeclarationKind)
  /-- A second shared registry. -/
  | alreadyInstalled
  /-- No shared registry. -/
  | notInstalled
  /-- A node of which no element can be made. -/
  | unknownElement (cause : UnknownKind)
  deriving DecidableEq, Repr

/-- Why an operation was refused, in words. -/
def IndexError.message : IndexError → String
  | .superseded file version committed =>
    file.label ++ ": version " ++ toString version ++ " is older than committed version " ++
      toString committed
  | .unknownKey key => "index key `" ++ key.name ++ "` is not registered"
  | .unregisteredKind kind => "no index key registered for " ++ kind.label ++ " stubs"
  | .duplicateKey key existing =>
    "index key `" ++ key.name ++ "` is already registered for " ++ existing.label ++ " stubs"
  | .alreadyInstalled => "stub index registry is already installed"
  | .notInstalled => "stub index registry is not installed"
  | .unknownElement cause => cause.message

end PerlOutline.Index
