import PerlOutline.Source.Range
import PerlOutline.Syntax.Kind

/-!
# Tokens

A token is a piece of text with a kind. No token is empty, so reading tokens always gets on.
-/

namespace PerlOutline.Syntax

open PerlOutline.Source (byteWidth byteWidth_pos)

/-- A piece of text with a kind. -/
structure Token where
  kind : Kind
  text : List Char
  /-- A piece has at least one character. -/
  text_ne_nil : text ≠ []
  deriving DecidableEq

namespace Token

/-- The number of bytes that a token takes. -/
def width (t : Token) : Nat :=
  byteWidth t.text

/-- Blanks, comments, documentation blocks and the data section. -/
def isTrivia (t : Token) : Bool :=
  t.kind.isTrivia

/-- The text of a token. -/
def string (t : Token) : String :=
  String.ofList t.text

/-- The tokens of a text that begins at `offset`, each with the offset at which it begins. -/
def placed (offset : Nat) : List Token → List (Nat × Token)
  | [] => []
  | t :: ts => (offset, t) :: placed (offset + t.width) ts

/-- The text that tokens spell. -/
def spell (ts : List Token) : List Char :=
  ts.flatMap (·.text)

/-- No token is empty, so a parse that takes tokens comes to an end. -/
theorem width_pos (t : Token) : 0 < t.width :=
  byteWidth_pos t.text_ne_nil

@[simp] theorem spell_nil : spell [] = [] := rfl

@[simp] theorem spell_cons (t : Token) (ts : List Token) : spell (t :: ts) = t.text ++ spell ts :=
  rfl

@[simp] theorem spell_append (ts us : List Token) : spell (ts ++ us) = spell ts ++ spell us :=
  List.flatMap_append

@[simp] theorem placed_nil (offset : Nat) : placed offset [] = [] := rfl

@[simp] theorem placed_cons (offset : Nat) (t : Token) (ts : List Token) :
    placed offset (t :: ts) = (offset, t) :: placed (offset + t.width) ts := rfl

/-- What stands behind other tokens begins where they end. -/
theorem placed_append (offset : Nat) (ts us : List Token) :
    placed offset (ts ++ us) = placed offset ts ++ placed (offset + byteWidth (spell ts)) us := by
  induction ts generalizing offset with
  | nil => rfl
  | cons t ts ih =>
    -- The first token moves the offset by its own width, on both sides.
    simp only [List.cons_append, placed_cons, ih, spell_cons, Source.byteWidth_append]
    rw [Nat.add_assoc]
    rfl

end Token

end PerlOutline.Syntax
