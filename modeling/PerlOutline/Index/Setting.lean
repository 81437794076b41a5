import PerlOutline.Index.Config

/-!
# Options as settings

A host gives options as a value: a record with a field for each option, or a list of options in
order. Options that are not given are standard, and fields that are no option do not count.
-/

namespace PerlOutline.Index

/-- A value in the settings of a host. -/
inductive Setting where
  | null
  | bool (value : Bool)
  /-- A whole number without a sign. -/
  | natural (value : Nat)
  /-- Any other number. -/
  | otherNumber
  | text (value : String)
  | list (items : List Setting)
  /-- Fields in the order in which they are written. -/
  | record (fields : List (String × Setting))
  deriving Inhabited

namespace Setting

/-- A value as a size, if it is one of a machine word. -/
def asSize? : Setting → Option Nat
  | .natural n => if n < 18446744073709551616 then some n else none
  | _ => none

/-- A value as a truth value, if it is one. -/
def asBool? : Setting → Option Bool
  | .bool b => some b
  | _ => none

/-- A value as a text, if it is one. -/
def asText? : Setting → Option String
  | .text s => some s
  | _ => none

/-- A value as a list of texts, if all of its items are texts. -/
def asTexts? : Setting → Option (List String)
  | .list items => items.mapM asText?
  | _ => none

end Setting

namespace Config

/-- The options in the order in which a list gives them. -/
def optionNames : List String :=
  ["threads", "max_file_bytes", "extensions", "skip_unchanged"]

/-- Set the option of the given name. A value of the wrong form is no option. -/
def set? (c : Config) (name : String) (value : Setting) : Option Config :=
  if name = "threads" then value.asSize?.map fun n => { c with threads := n }
  else if name = "max_file_bytes" then value.asSize?.map fun n => { c with maxFileBytes := n }
  else if name = "extensions" then value.asTexts?.map fun l => { c with extensions := l }
  else if name = "skip_unchanged" then value.asBool?.map fun b => { c with skipUnchanged := b }
  -- Options of other names are left for others.
  else some c

/-- Set options one after the other, starting with the standard ones. -/
def ofFields? (fields : List (String × Setting)) : Option Config :=
  fields.foldlM (fun c field => c.set? field.1 field.2) standard

/-- The options that a value gives. -/
def ofSetting? : Setting → Option Config
  | .record fields => ofFields? fields
  | .list items =>
    -- Options that a list is too short for keep their standard values.
    if items.length ≤ optionNames.length then ofFields? (optionNames.zip items) else none
  | _ => none

end Config

end PerlOutline.Index
