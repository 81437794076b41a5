import PerlOutline.Proofs.Lexing
import PerlOutline.Proofs.Termination
import PerlOutline.Syntax.Parse

/-!
# Parsing loses nothing

Every text has a parse, and the leaves of its tree are the tokens of the text: each once, in
order, and where it stands in the text. This holds of text that is no program as well, and
whatever nesting level a parse follows.
-/

namespace PerlOutline.Grammar

open PerlOutline.Syntax (Token Tree)

/-- What a parse has built holds all tokens in order. -/
theorem finalState_leaves (maxDepth : Nat) (tokens : List Token) :
    Tree.forestLeaves (finalState maxDepth tokens).out.reverse = tokens := by
  have read : (State.start tokens).Advances (finalState maxDepth tokens) :=
    (reach_advances grammar _ _ _).trans (State.skipTrivia_advances _)
  -- At the start no token is in the open scope, at the end none is left outside of it.
  have same := read.tokens
  rw [State.tokens, finalState_rest, List.append_nil] at same
  exact same

end PerlOutline.Grammar

namespace PerlOutline.Syntax.Parse

open PerlOutline.Source (Range byteWidth)
open PerlOutline.Grammar

/-- Parsing is total and lossless. A parse is never cut off, and to allow more turns of loops and
more calls changes nothing. The leaves of the tree are the tokens of the text, those tokens tile the
text from its start to its end, and together they spell it. -/
theorem total_and_lossless (maxDepth : Nat) (text : List Char) :
    let parse := ofTextWithin maxDepth text
    let tokens := tokenize text
    (finalState maxDepth tokens).starved = false ∧
      (∀ turns calls : Nat,
        (reach grammar ⟨maxDepth, tokens.length + turns⟩ (callAllowance maxDepth + calls)
          (.statements false) (State.start tokens)).skipTrivia = finalState maxDepth tokens) ∧
      parse.tree.leaves = tokens ∧
      parse.placed.leaves = Token.placed 0 tokens ∧
      Range.Tile 0 ((Token.placed 0 tokens).map Token.rangeAt) (byteWidth text) ∧
      Token.spell tokens = text := by
  intro parse tokens
  have leaves : parse.tree.leaves = tokens := finalState_leaves maxDepth tokens
  have tiles := Token.tile_placed 0 tokens
  rw [spell_tokenize, Nat.zero_add] at tiles
  refine ⟨finalState_not_starved maxDepth tokens, ?_, leaves, ?_, tiles, spell_tokenize text⟩
  · intro turns calls
    exact finalState_more (Nat.le_add_right _ turns) (Nat.le_add_right _ calls)
  · rw [placed, Placed.leaves_ofTree, leaves]

end PerlOutline.Syntax.Parse
