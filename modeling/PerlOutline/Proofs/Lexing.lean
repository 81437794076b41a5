import PerlOutline.Syntax.Placed
import PerlOutline.Syntax.Tokenize

/-!
# Tokens cover their text

Cutting a text into tokens loses nothing, and a tree whose leaves are known has its tokens where
they stand in the text.

## Layers
- **Tiles**: ranges without gaps and overlaps.
- **Tokenizing**: the tokens of a text spell it.
- **Placing**: the leaves of a placed tree are the leaves of the tree, each with its offset.
-/

namespace PerlOutline.Source.Range

/-- The ranges cover all from `start` to `stop`, each beginning where the one before it ends, and
none of them is empty. -/
def Tile (start : Nat) : List Range → Nat → Prop
  | [], stop => start = stop
  | r :: rs, stop => r.start = start ∧ r.start < r.stop ∧ Tile r.stop rs stop

end PerlOutline.Source.Range

namespace PerlOutline.Syntax

open PerlOutline.Source (Range byteWidth byteWidth_append)

/-! ## Tokenizing -/

namespace Token

/-- The range of a token that begins at an offset. -/
def rangeAt (p : Nat × Token) : Range :=
  Range.sized p.1 p.2.width

theorem tile_placed (start : Nat) (ts : List Token) :
    Range.Tile start ((placed start ts).map rangeAt) (start + byteWidth (spell ts)) := by
  -- The tiles of the later tokens begin where the first token ends.
  induction ts generalizing start with
  | nil => rfl
  | cons t ts ih =>
    have ahead := ih (start + t.width)
    have total : start + byteWidth (spell (t :: ts)) =
        start + t.width + byteWidth (spell ts) := by
      rw [spell_cons, byteWidth_append, Nat.add_assoc]
      rfl
    rw [total]
    exact ⟨rfl, Nat.lt_add_of_pos_right t.width_pos, ahead⟩

/-- The first token takes its characters from the front of the text. -/
theorem text_first (atLineStart : Bool) (c : Char) (cs : List Char) :
    (first atLineStart c cs).text ++ cs.drop ((first atLineStart c cs).text.length - 1) =
      c :: cs := by
  simp only [first, List.length_cons, Nat.add_sub_cancel, List.cons_append]
  rw [List.length_take, List.cons.injEq]
  refine ⟨rfl, ?_⟩
  -- The scan may ask for more characters than the text has; `take` then takes all of them.
  rcases Nat.le_total (Lexeme.scan atLineStart c cs).more cs.length with short | long
  · rw [Nat.min_eq_left short, List.take_append_drop]
  · rw [Nat.min_eq_right long, List.take_of_length_le long, List.drop_length, List.append_nil]

end Token

theorem spell_tokenizeFrom (atLineStart : Bool) (size : Nat) (text : List Char)
    (enough : text.length ≤ size) :
    Token.spell (tokenizeFrom atLineStart size text) = text := by
  induction size generalizing atLineStart text with
  | zero => rw [List.eq_nil_of_length_eq_zero (Nat.le_zero.mp enough)]; rfl
  | succ size ih =>
    cases text with
    | nil => rfl
    | cons c cs =>
      -- Each token has a character, so the size that is left covers the text that is left.
      have left : (cs.drop ((Token.first atLineStart c cs).text.length - 1)).length ≤ size := by
        rw [List.length_drop]
        exact Nat.le_trans (Nat.sub_le _ _) (Nat.le_of_succ_le_succ enough)
      simp only [tokenizeFrom, Token.spell_cons]
      rw [ih _ _ left]
      exact Token.text_first atLineStart c cs

/-- The tokens of a text spell the text. -/
theorem spell_tokenize (text : List Char) : Token.spell (tokenize text) = text :=
  spell_tokenizeFrom true text.length text (Nat.le_refl _)

/-! ## Placing -/

namespace Placed

mutual

/-- The tokens of a placed tree in source order, each with its offset, with `rest` after them. -/
def leavesOnto (rest : List (Nat × Token)) : Placed → List (Nat × Token)
  | .token start t => (start, t) :: rest
  | .node _ _ children => forestLeavesOnto rest children

/-- The tokens of placed trees in source order, each with its offset, with `rest` after them. -/
def forestLeavesOnto (rest : List (Nat × Token)) : List Placed → List (Nat × Token)
  | [] => rest
  | t :: ts => leavesOnto (forestLeavesOnto rest ts) t

end

/-- The tokens of a placed tree in source order, each with its offset. -/
def leaves (t : Placed) : List (Nat × Token) :=
  leavesOnto [] t

mutual

theorem range_stop_ofTree (start : Nat) (t : Tree) :
    (ofTree start t).range.stop = start + byteWidth t.text := by
  match t with
  | .token t => simp [ofTree, range, Range.sized, Tree.text, Token.width]
  | .node _ children =>
    simp only [ofTree, range]
    exact ofForest_stop start children

theorem ofForest_stop (start : Nat) (ts : List Tree) :
    (ofForest start ts).2 = start + byteWidth (Token.spell (Tree.forestLeaves ts)) := by
  match ts with
  | [] => rfl
  | t :: ts =>
    simp only [ofForest]
    -- The next tree starts where this one stops.
    rw [range_stop_ofTree start t, ofForest_stop _ ts, Tree.forestLeaves_cons, Token.spell_append,
      byteWidth_append, Tree.text, Nat.add_assoc]

end

mutual

theorem leavesOnto_ofTree (rest : List (Nat × Token)) (start : Nat) (t : Tree) :
    leavesOnto rest (ofTree start t) = Token.placed start t.leaves ++ rest := by
  match t with
  | .token t => rfl
  | .node _ children => exact forestLeavesOnto_ofForest rest start children

theorem forestLeavesOnto_ofForest (rest : List (Nat × Token)) (start : Nat) (ts : List Tree) :
    forestLeavesOnto rest (ofForest start ts).1 =
      Token.placed start (Tree.forestLeaves ts) ++ rest := by
  match ts with
  | [] => rfl
  | t :: ts =>
    simp only [ofForest, forestLeavesOnto]
    -- The accumulated leaves are those of the later trees, placed after this one.
    rw [forestLeavesOnto_ofForest rest _ ts, leavesOnto_ofTree _ start t, range_stop_ofTree,
      Tree.forestLeaves_cons, Token.placed_append, List.append_assoc]
    rfl

end

/-- A tree that is placed keeps its tokens, and each stands where the ones before it end. -/
theorem leaves_ofTree (start : Nat) (t : Tree) :
    (ofTree start t).leaves = Token.placed start t.leaves := by
  rw [leaves, leavesOnto_ofTree, List.append_nil]

end Placed

end PerlOutline.Syntax
