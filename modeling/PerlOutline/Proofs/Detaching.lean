import PerlOutline.Proofs.DeclaredNames
import PerlOutline.Stub.Declaration

/-!
# Declarations without their tree

A declaration of a text can be put away as bytes and taken out again. What is taken out answers all
that the stub answers as the live declaration does, and refuses all that only the tree can answer.

## Layers
- **`Answers`**: declarations that say what a stub says.
- **Live declarations** are nodes that declare, with the stubs of those nodes.
- **Texts**: declarations before and after their tree is gone.
-/

namespace PerlOutline.Stub

open PerlOutline.Element
open PerlOutline.Source (byteWidth)
open PerlOutline.Syntax (Parse)

namespace Declaration

/-! ## Answers -/

/-- A declaration is of the kind of a stub, and all that a stub answers it answers as the stub
does. -/
structure Answers (d : Declaration) (s : Stub) : Prop where
  kind : d.kind = s.kind
  toStub : d.toStub = .ok s
  name : d.name = .ok s.name
  inPackage : d.inPackage = .ok s.inPackage
  flags : d.flags = .ok s.flags
  qualifiedName : d.qualifiedName = .ok s.qualifiedName

variable {d : Declaration} {s : Stub} {n : Node} {k : DeclarationKind}

/-- The kind and the stub decide the other answers. -/
theorem Answers.of_toStub (kind : d.kind = s.kind) (made : d.toStub = .ok s) : d.Answers s where
  kind := kind
  toStub := made
  name := by rw [Declaration.name, made]; rfl
  inPackage := by rw [Declaration.inPackage, made]; rfl
  flags := by rw [Declaration.flags, made]; rfl
  qualifiedName := by rw [Declaration.qualifiedName, made]; rfl

/-! ## Live declarations -/

/-- A live declaration is a node that declares, seen as what its kind declares. -/
theorem ofNode?_eq_some_iff :
    ofNode? n = some d ↔
      ∃ k, DeclarationKind.ofNodeKind? n.kind = some k ∧ k.declares n = true ∧
        ∃ v, View.ofNode? n = some v ∧ d = .live k v := by
  simp only [ofNode?, Option.bind_eq_some_iff, Option.ite_none_right_eq_some,
    Option.map_eq_some_iff, eq_comm (a := d)]

/-- The node of a kind that declares can be seen as a node of that kind. -/
theorem isSome_ofNode?_iff :
    (ofNode? n).isSome = true ↔
      ∃ k, DeclarationKind.ofNodeKind? n.kind = some k ∧ k.declares n = true := by
  rw [Option.isSome_iff_exists]
  constructor
  · rintro ⟨d, declared⟩
    -- What declares is of the node kind of what it declares, so the view is there.
    obtain ⟨k, kind, declares, -⟩ := ofNode?_eq_some_iff.mp declared
    exact ⟨k, kind, declares⟩
  · rintro ⟨k, kind, declares⟩
    have same : (n.kind == k.nodeKind) = true :=
      (Bool.and_eq_true_iff.mp declares).1
    exact ⟨_, ofNode?_eq_some_iff.mpr ⟨k, kind, declares, ⟨n, same⟩, dif_pos same, rfl⟩⟩

/-- A summary is filed under the kind for which the node was taken. -/
theorem kind_of_summarize (declares : k.declares n = true) (made : k.summarize n = .ok s) :
    s.kind = k := by
  have kind := beq_iff_eq.mp (Bool.and_eq_true_iff.mp declares).1
  -- The rules that summarize set the kind themselves, one for variables, subs and packages each.
  cases k with
  | scalar | array | hash => exact (written_of_variable kind rfl made).1
  | sub => exact (written_of_sub made).1
  | package => exact (written_of_package made).1

end Declaration

/-! ## Texts -/

variable {maxDepth : Nat} {text : List Char} {n : Node}

/-- Live and detached declarations answer alike. A node has a live declaration just if the kind that
its nodes declare says that it declares. Where the live declaration has a stub, the stub comes back
from its bytes, and what is made of it, for the kind of the stub or for that of the declaration,
answers the same as the live one. The block around it and its range are known of the live
declaration alone; a detached one says by name what it was asked in vain. -/
theorem Declaration.detached_answers_alike (small : byteWidth text < 4294967296)
    (member : n ∈ Node.allOf (Parse.ofTextWithin maxDepth text).placed) :
    ((ofNode? n).isSome = true ↔
      ∃ k, DeclarationKind.ofNodeKind? n.kind = some k ∧ k.declares n = true) ∧
    ∀ d s, ofNode? n = some d → d.toStub = .ok s →
      d.node? = some n ∧ d.Answers s ∧
      d.enclosingBlock? = .ok n.enclosingBlock? ∧ d.textRange = .ok n.range ∧
      ∃ restored, Stub.decode s.encode = .ok restored ∧ restored = s ∧
        ∀ e, e = Declaration.ofStub restored ∨ e = .detached d.kind restored →
          e.heldStub? = some s ∧ e.Answers s ∧
          e.enclosingBlock? = .error ⟨.enclosingBlock, s.name⟩ ∧
          e.textRange = .error ⟨.textRange, s.name⟩ := by
  refine ⟨isSome_ofNode?_iff, fun d s declared made => ?_⟩
  obtain ⟨k, -, declares, v, viewed, rfl⟩ := ofNode?_eq_some_iff.mp declared
  obtain rfl : v.node = n := View.node_of_ofNode? viewed
  obtain rfl : s.kind = k := kind_of_summarize declares made
  -- The name is not empty and the texts are short, so nothing is lost on the way through bytes.
  obtain ⟨fits, named⟩ := (storable_of_summarize small member declares made).1
  have restored := (framed_stub fits).whole
  rw [if_neg named] at restored
  refine ⟨rfl, .of_toStub rfl made, rfl, rfl, s, restored, rfl, fun e detached => ?_⟩
  -- The stub is of the kind of the declaration, so both ways to detach it make the same.
  have same : e = .detached s.kind s := detached.elim id id
  subst same
  exact ⟨rfl, .of_toStub rfl rfl, rfl, rfl⟩

/-- A list variable in a sub, whose package is written before its name. -/
theorem Declaration.detached_answers_alike_state_list :
    let text := "sub f { state (%A::b, $c); }".toList
    ∃ n ∈ Node.allOf (Parse.ofText text).placed, ∃ d s,
      Declaration.ofNode? n = some d ∧ d.toStub = .ok s ∧
      s = ⟨.hash, "b", "A", ⟨true, false, false, true, false⟩⟩ ∧
      Stub.decode s.encode = .ok s ∧ (Declaration.ofStub s).Answers s ∧
      d.textRange = .ok n.range ∧
      (Declaration.ofStub s).textRange = .error ⟨.textRange, "b"⟩ := by
  intro text
  -- The list declares two variables, and the node of the first is the sixth of the text.
  have found : ((Node.allOf (Parse.ofText text).placed)[5]?.bind fun n =>
      (Declaration.ofNode? n).bind fun d => d.toStub.toOption) =
        some ⟨.hash, "b", "A", ⟨true, false, false, true, false⟩⟩ := by
    decide +kernel
  obtain ⟨n, there, found⟩ := Option.bind_eq_some_iff.mp found
  obtain ⟨d, declared, summary⟩ := Option.bind_eq_some_iff.mp found
  have made : d.toStub = .ok ⟨.hash, "b", "A", ⟨true, false, false, true, false⟩⟩ := by
    cases stub : d.toStub with
    | error e => rw [stub] at summary; cases summary
    | ok s => rw [stub] at summary; exact congrArg _ (Option.some.inj summary)
  have member : n ∈ Node.allOf (Parse.ofTextWithin Grammar.defaultMaxDepth text).placed :=
    List.mem_of_getElem? there
  obtain ⟨-, -, -, range, restored, read, rfl, detached⟩ :=
    (Declaration.detached_answers_alike (by decide +kernel) member).2 d _ declared made
  obtain ⟨-, answers, -, refused⟩ := detached _ (.inl rfl)
  exact ⟨n, member, d, _, declared, made, rfl, read, answers, range, refused⟩

end PerlOutline.Stub
