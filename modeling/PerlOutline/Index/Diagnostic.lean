import PerlOutline.Element.Part
import PerlOutline.Source.FileId
import PerlOutline.Source.LineIndex
import PerlOutline.Syntax.Problem

/-!
# Diagnostics

What indexing a file reports to people: each syntax error, and each declaration that has no stub
because a part is missing.
-/

namespace PerlOutline.Index

open PerlOutline.Source (FileId LineCol LineIndex Range)
open PerlOutline.Syntax (ErrorCode SyntaxError)
open PerlOutline.Element (StructuralError)

/-- How bad a report is. -/
inductive Severity where
  | error
  | warning
  deriving DecidableEq, Repr

/-- How bad a report is, in a word. -/
def Severity.label : Severity → String
  | .error => "error"
  | .warning => "warning"

/-- A report about a place in a file. -/
structure Diagnostic where
  file : FileId
  range : Range
  /-- Where the range begins, as people read it. -/
  start : LineCol
  severity : Severity
  /-- The code of a syntax error. -/
  code : Option ErrorCode
  message : String
  deriving DecidableEq, Repr

namespace Diagnostic

/-- Whether a report is more than a warning. -/
def isError (d : Diagnostic) : Bool :=
  d.severity == .error

/-- The report of a syntax error. -/
def ofSyntaxError (file : FileId) (lines : LineIndex) (e : SyntaxError) : Diagnostic :=
  ⟨file, e.range, lines.lineCol e.range.start, .error, some e.code, e.message⟩

/-- The report of a declaration without a stub; only that declaration is lost. -/
def ofStructuralError (file : FileId) (lines : LineIndex) (e : StructuralError) : Diagnostic :=
  ⟨file, e.range, lines.lineCol e.range.start, .warning, none, e.message⟩

end Diagnostic

end PerlOutline.Index
