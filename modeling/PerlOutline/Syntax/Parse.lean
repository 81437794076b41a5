import PerlOutline.Syntax.Tokenize
import PerlOutline.Syntax.Placed
import PerlOutline.Grammar.Table

/-!
# Parsing

Every text has a syntax tree, with a list of errors beside it. The root of the tree is a source
file. The tree holds every token of the text, so it spells the text.
-/

namespace PerlOutline.Syntax

open PerlOutline.Grammar (finalState defaultMaxDepth)

/-- The outcome of a parse. -/
structure Parse where
  /-- What the source file holds. -/
  items : List Tree
  /-- The errors in the order in which they were noticed. -/
  errors : List SyntaxError
  /-- The deepest nesting level that was followed. -/
  depth : Nat

namespace Parse

/-- Parse tokens, following at most `maxDepth` nesting levels. -/
def ofTokensWithin (maxDepth : Nat) (tokens : List Token) : Parse :=
  let final := finalState maxDepth tokens
  { items := final.out.reverse
    errors := final.errors.reverse
    depth := final.deepest }

/-- Parse a text, following at most `maxDepth` nesting levels. -/
def ofTextWithin (maxDepth : Nat) (text : List Char) : Parse :=
  ofTokensWithin maxDepth (tokenize text)

/-- Parse a text. -/
def ofText (text : List Char) : Parse :=
  ofTextWithin defaultMaxDepth text

/-- The text has no errors. -/
def ok (p : Parse) : Bool :=
  p.errors.isEmpty

/-- The syntax tree of the whole text. -/
def tree (p : Parse) : Tree :=
  .node .sourceFile p.items

/-- The syntax tree with the places of its tokens and nodes. -/
def placed (p : Parse) : Placed :=
  .ofTree 0 p.tree

end Parse

end PerlOutline.Syntax
