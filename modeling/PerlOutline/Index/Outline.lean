import PerlOutline.Element.Visitor
import PerlOutline.Index.Diagnostic
import PerlOutline.Stub.Declaration

/-!
# Outlines

The outline of a text is the stubs of its declarations in source order, with the reports of what
is wrong. It is gathered in one walk; a declaration that cannot be summarised is reported and
passed over.
-/

namespace PerlOutline.Index

open PerlOutline (Stub)
open PerlOutline.Source (FileId LineIndex)
open PerlOutline.Syntax (Parse)
open PerlOutline.Element (Node StructuralError UnknownKind Visitor)
open PerlOutline.Stub (DeclarationKind)

/-- The summary of a node that declares something. -/
def summaryOf? (n : Node) : Option (Except StructuralError Stub) :=
  (DeclarationKind.ofNodeKind? n.kind).bind fun k =>
    if k.declares n then some (k.summarize n) else none

/-- The visitor that gathers the summary of each declaration, last first. -/
def summaryCollector : Visitor (List (Except StructuralError Stub)) where
  handler?
    | .element => some fun n summaries => (summaryOf? n).toList ++ summaries
    | _ => none

/-- The stubs of a text with the reports about it. -/
structure Outline where
  stubs : List Stub
  diagnostics : List Diagnostic
  deriving DecidableEq, Repr

namespace Outline

/-- The outline of a parsed text: reports of syntax errors come first. -/
def ofParse (file : FileId) (lines : LineIndex) (parse : Parse) : Except UnknownKind Outline := do
  let gathered ← summaryCollector.walk (Node.root parse) []
  let summaries := gathered.reverse
  return {
    stubs := summaries.filterMap (·.toOption)
    diagnostics :=
      parse.errors.map (Diagnostic.ofSyntaxError file lines) ++
        summaries.filterMap fun summary =>
          match summary with
          | .error e => some (Diagnostic.ofStructuralError file lines e)
          | .ok _ => none }

/-- The outline of a text. -/
def ofText (file : FileId) (text : List Char) : Except UnknownKind Outline :=
  ofParse file (LineIndex.ofText text) (Parse.ofText text)

end Outline

end PerlOutline.Index
