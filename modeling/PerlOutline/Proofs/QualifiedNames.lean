import Mathlib.Data.List.Infix
import PerlOutline.Proofs.DeclaredNames
import PerlOutline.Stub.Declaration

/-!
# Qualified names are written names

A stub keeps a name and a package apart. Put together again they are the name in full as it is
written: a name with a package before it stands for itself, and any other name belongs to the
package around it. Stubs of packages are the exception, since they keep their full name and the
package before it is put in front once more.

## Layers
- **`LeadsOnce`**: names that begin with two colons have no more of them.
- **`QualifiedName.full`**: a written name in full.
- **Splitting** a name and joining it gives the name in full.
- **Declarations** of texts, live and detached.
-/

namespace PerlOutline.Syntax

/-! ## Leading colons -/

/-- If the text begins with two colons, no more colons follow. -/
def LeadsOnce (name : List Char) : Prop :=
  ∀ rest, name = ':' :: ':' :: rest → ':' ∉ rest

/-- A text that does not begin with a colon has none that lead. -/
theorem leadsOnce_cons {c : Char} (h : c ≠ ':') (cs : List Char) : LeadsOnce (c :: cs) := by
  intro rest leads
  exact absurd (List.cons.inj leads).1 h

namespace Lexeme

/-- If the lexeme of a text names something, colons lead its name but once. -/
def Leads (c : Char) (cs : List Char) (lexeme : Lexeme) : Prop :=
  ∀ width, sigilWidth? lexeme.kind = some width →
    LeadsOnce ((c :: cs.take lexeme.more).drop width)

variable {c : Char} {cs : List Char} {lexeme : Lexeme}

/-- A lexeme that names nothing has no name for colons to lead. -/
theorem leads_of_nameless (h : sigilWidth? lexeme.kind = none) : lexeme.Leads c cs := by
  intro width named
  rw [h] at named
  contradiction

/-- The name of an identifier is all of it, and it begins with its first character. -/
theorem leads_ident (h : c ≠ ':') (more : Nat) : Leads c cs ⟨.ident, more⟩ := by
  intro width named
  obtain rfl := Option.some.inj named
  exact leadsOnce_cons h _

theorem leads_wordList (h : wordList? c cs = some lexeme) : lexeme.Leads c cs := by
  obtain ⟨quoting, read⟩ := Option.ite_none_right_eq_some.mp h
  simp only [Bool.and_eq_true, decide_eq_true_eq] at quoting
  obtain ⟨rfl, -⟩ := quoting
  rcases wordListTail?_cases read with nameless | rfl
  · exact leads_of_nameless nameless
  · exact leads_ident (by decide) _

theorem leads_word (h : word? c cs = some lexeme) : lexeme.Leads c cs := by
  obtain ⟨start, nameless | rfl⟩ := word?_cases h
  · exact leads_of_nameless nameless
  · exact leads_ident (ne_of_class start (by decide)) _

/-- The name of a lexeme with a sigil is what stands behind the sigil. -/
theorem leads_sigiled {kind : Kind} {more : Nat} (sigil : sigilWidth? kind = some 1)
    (h : LeadsOnce (cs.take more)) : Leads c cs ⟨kind, more⟩ := by
  intro width named
  obtain rfl := Option.some.inj (sigil.symm.trans named)
  exact h

/-- A name that may stand behind a sigil begins with a letter or an underscore. -/
theorem leadsOnce_nameLength (named : 0 < nameLength cs) :
    LeadsOnce (cs.take (nameLength cs)) := by
  cases cs with
  | nil => simp [nameLength] at named
  | cons c cs =>
    by_cases start : isNameStart c = true
    · simp only [nameLength, start, if_true, List.take_succ_cons]
      exact leadsOnce_cons (ne_of_class start (by decide)) _
    · simp [nameLength, start] at named

theorem leads_scalar (h : scalar? cs = some lexeme) : lexeme.Leads c cs := by
  cases cs with
  | nil => simp [scalar?] at h
  | cons d ds =>
    simp only [scalar?] at h
    split at h
    · -- A name, a number or a special character: none of them begins with a colon.
      next start =>
      rw [← Option.some.inj h]
      exact leads_sigiled rfl (leadsOnce_cons (ne_of_class start (by decide)) _)
    split at h
    · next digit =>
      rw [← Option.some.inj h]
      exact leads_sigiled rfl (leadsOnce_cons (ne_of_class digit (by decide)) _)
    split at h
    · next special =>
      rw [← Option.some.inj h]
      refine leads_sigiled rfl (leadsOnce_cons ?_ _)
      rintro rfl
      simp at special
    split at h
    · rw [← Option.some.inj h]; exact leads_of_nameless rfl
    -- Two colons stand before a single segment.
    obtain ⟨main, ⟨⟩⟩ := Option.ite_none_right_eq_some.mp h
    simp only [Bool.and_eq_true, decide_eq_true_eq] at main
    obtain ⟨⟨rfl, second⟩, -⟩ := main
    obtain ⟨es, rfl⟩ := List.head?_eq_some_iff.mp second
    apply leads_sigiled rfl
    intro rest leads colon
    obtain rfl : es.take (run isNameChar es) = rest := by simpa using leads
    -- The segment is a run of name characters, and a colon is not one of them.
    rw [run, ← List.prefix_iff_eq_take.mp (List.takeWhile_prefix isNameChar)] at colon
    exact absurd (List.all_eq_true.mp List.all_takeWhile ':' colon) (by decide)

theorem leads_sigiled? (h : sigiled? c cs = some lexeme) : lexeme.Leads c cs := by
  unfold sigiled? at h
  split at h
  · exact leads_scalar h
  split at h
  · next array =>
    rw [← Option.some.inj h]
    exact leads_sigiled rfl (leadsOnce_nameLength (by simp_all))
  · obtain ⟨hash, ⟨⟩⟩ := Option.ite_none_right_eq_some.mp h
    exact leads_sigiled rfl (leadsOnce_nameLength (by simp_all))

end Lexeme

/-- Colons lead the name in a token of a text but once. -/
theorem leadsOnce_of_mem_tokenize {text : List Char} {t : Token} (member : t ∈ tokenize text)
    {width : Nat} (named : sigilWidth? t.kind = some width) : LeadsOnce (t.text.drop width) := by
  obtain ⟨start, c, cs, rfl⟩ := exists_first_of_mem_tokenizeFrom member
  -- Each way to cut a lexeme leaves colons at the front of a name but once.
  exact Lexeme.scan_cases (P := Lexeme.Leads c cs) (fun _ => Lexeme.leads_of_nameless)
    (fun _ => Lexeme.leads_wordList) (fun _ => Lexeme.leads_word)
    (fun _ => Lexeme.leads_sigiled?) start width named

end PerlOutline.Syntax

/-! ## Names in full -/

namespace PerlOutline.Element.QualifiedName

open PerlOutline.Syntax (LeadsOnce)

/-- A written name in full, where the package around it is `around`. Colons in front stand for the
main package, and a name with colons is full already. -/
def full (around written : String) : String :=
  if [':', ':'] <+: written.toList then mainPackage ++ written
  else if [':', ':'] <:+: written.toList then written
  else join around written

/-! ## Splitting and joining -/

variable {name : List Char} {i : Nat}

/-- A name is what is before its last pair of colons, the colons, and what is after them. -/
theorem eq_append_of_lastSeparator? (h : lastSeparator? name = some i) :
    name = name.take i ++ ':' :: ':' :: name.drop (i + 2) := by
  obtain ⟨rest, found⟩ := drop_lastSeparator? h
  have after : name.drop (i + 2) = rest := by rw [← List.drop_drop, found]; rfl
  rw [after, ← found, List.take_append_drop]

/-- No place is found just where there is no pair of colons. -/
theorem lastSeparator?_eq_none_iff : lastSeparator? name = none ↔ ¬ [':', ':'] <:+: name := by
  induction name with
  | nil => simp [lastSeparator?]
  | cons c cs ih =>
    -- The last pair of colons is in the tail if there is one, or else it is right here.
    rw [List.infix_cons_iff, not_or, ← ih, lastSeparator?]
    cases later : lastSeparator? cs with
    | some i => simp
    | none =>
      cases cs with
      | nil => simp
      | cons d ds => simp [List.cons_prefix_cons, @eq_comm _ ':']

theorem colons_append (name : List Char) :
    "::" ++ String.ofList name = String.ofList (':' :: ':' :: name) :=
  String.ofList_append.symm

/-- Where colons lead a name but once, it has no further ones. -/
theorem not_leading_of_later {rest : List Char} (leads : LeadsOnce name)
    (later : name = name.take (i + 1) ++ ':' :: ':' :: rest) : ¬ [':', ':'] <+: name := by
  rintro ⟨tail, rfl⟩
  simp only [List.cons_append, List.nil_append, List.take_succ_cons, List.cons.injEq,
    true_and] at later
  refine leads tail rfl ?_
  -- In either case a colon of the later pair stands behind the leading two.
  cases i with
  | zero =>
    obtain rfl : tail = ':' :: rest := (List.cons.inj later).2
    exact List.mem_cons_self ..
  | succ i =>
    rw [List.take_succ_cons, List.cons_append] at later
    rw [(List.cons.inj later).2]
    exact List.mem_append_right _ (List.mem_cons_self ..)

/-- A name that is split and joined again is the name in full. -/
theorem join_ofChars (leads : LeadsOnce name) (around : String) :
    join ((ofChars name).inPackage.getD around) (ofChars name).name =
      full around (String.ofList name) := by
  unfold ofChars full
  rw [String.toList_ofList]
  split
  · next none =>
    -- A name without colons has no package of its own.
    have nowhere := lastSeparator?_eq_none_iff.mp none
    rw [if_neg (fun front => nowhere front.isInfix), if_neg nowhere]
    rfl
  · next front =>
    -- Nothing is before the colons.
    have whole := eq_append_of_lastSeparator? front
    rw [List.take_zero, List.nil_append, Nat.zero_add] at whole
    rw [if_pos (whole ▸ List.prefix_append [':', ':'] (name.drop 2)), join, Option.getD_some,
      String.append_assoc, colons_append, ← whole]
  · next i later =>
    -- The last colons stand further back, so the ones in front would be there once more.
    have whole := eq_append_of_lastSeparator? later
    have inside : [':', ':'] <:+: name :=
      ⟨name.take (i + 1), name.drop (i + 3), by rw [List.append_assoc]; exact whole.symm⟩
    rw [if_neg (not_leading_of_later leads whole), if_pos inside, join, Option.getD_some,
      String.append_assoc, colons_append, ← String.ofList_append, ← whole]

end PerlOutline.Element.QualifiedName

/-! ## Declarations -/

namespace PerlOutline.Stub

open PerlOutline.Element
open PerlOutline.Syntax

variable {maxDepth : Nat} {text : List Char} {n : Node} {written : String}

/-- Colons lead a written name but once. -/
theorem leadsOnce_of_nameIn (named : NameIn (tokenize text) written) :
    LeadsOnce written.toList := by
  obtain ⟨t, member, width, kind, rfl⟩ := named
  rw [String.toList_ofList]
  exact leadsOnce_of_mem_tokenize member kind

/-- What is filed by its written name is the name in full when it is put together again. -/
theorem qualifiedName_of_placeName {s : Stub} (leads : LeadsOnce written.toList)
    (placed : (s.name, s.inPackage) = placeName n written) :
    s.qualifiedName = QualifiedName.full n.enclosingPackage written := by
  obtain ⟨name, inPackage⟩ := Prod.mk.inj placed
  have joined := QualifiedName.join_ofChars leads n.enclosingPackage
  rw [String.ofList_toList] at joined
  rw [qualifiedName, name, inPackage]
  exact joined

/-- To put a package in front of a name always changes it. -/
theorem join_ne (inPackage name : String) : QualifiedName.join inPackage name ≠ name := by
  intro same
  -- The colons alone make the joined name two characters longer.
  have sizes := congrArg String.length same
  rw [QualifiedName.join, String.length_append, String.length_append] at sizes
  have colons : "::".length = 2 := rfl
  omega

/-- What a declaration of a text is called in full. Variables and subs have the written name with
the package that is written before it, where nothing before the colons means the main package, or
else with the package around them. The stub of a package has its written name with the package
before it put in front once more, which is never the written name. A declaration answers the same
whether it is live or detached. -/
theorem Declaration.qualifiedName_of_text
    (member : n ∈ Node.allOf (Parse.ofTextWithin maxDepth text).placed) {d : Declaration}
    (declared : Declaration.ofNode? n = some d) {s : Stub} (made : d.toStub = .ok s) :
    d.qualifiedName = .ok s.qualifiedName ∧
    (∀ k, (Declaration.detached k s).qualifiedName = .ok s.qualifiedName) ∧
    ∃ written, writtenName? d.kind n = some written ∧
      (d.kind ≠ .package → s.qualifiedName = QualifiedName.full n.enclosingPackage written) ∧
      (d.kind = .package →
        s.qualifiedName = QualifiedName.join
          ((QualifiedName.ofString written).inPackage.getD mainPackage) written ∧
        s.qualifiedName ≠ written) := by
  refine ⟨?_, fun _ => rfl, ?_⟩
  · rw [Declaration.qualifiedName, made]
    rfl
  -- A live declaration is a node with a kind of declaration that has its view.
  obtain ⟨k, -, viewed⟩ := Option.bind_eq_some_iff.mp declared
  obtain ⟨declares, viewed⟩ := Option.ite_none_right_eq_some.mp viewed
  obtain ⟨v, view, rfl⟩ := Option.map_eq_some_iff.mp viewed
  obtain rfl : v.node = n := View.node_of_ofNode? view
  have inText {written : String} (named : writtenName? k v.node = some written) :
      LeadsOnce written.toList :=
    leadsOnce_of_nameIn ((nameIn_of_written named).mono fun _ => Node.mem_tokenize member)
  have summary : k.summarize v.node = .ok s := made
  simp only [DeclarationKind.declares, Bool.and_eq_true, beq_iff_eq] at declares
  cases k with
  | scalar | array | hash =>
    obtain ⟨-, written, named, placed⟩ := written_of_variable declares.1 rfl summary
    exact ⟨written, named, fun _ => qualifiedName_of_placeName (inText named) placed,
      fun package => DeclarationKind.noConfusion package⟩
  | sub =>
    obtain ⟨-, written, named, placed⟩ := written_of_sub summary
    exact ⟨written, named, fun _ => qualifiedName_of_placeName (inText named) placed,
      fun package => DeclarationKind.noConfusion package⟩
  | package =>
    obtain ⟨-, named, inPackage⟩ := written_of_package summary
    refine ⟨s.name, named, fun other => absurd rfl other, fun _ => ⟨?_, join_ne _ _⟩⟩
    rw [Stub.qualifiedName, inPackage]

/-- A variable of the main package that is declared in another package. -/
theorem Declaration.qualifiedName_of_text_main :
    let nodes := Node.allOf (Parse.ofText "package A::B; our $::x;".toList).placed
    ∃ n ∈ nodes, ∃ d s, Declaration.ofNode? n = some d ∧ d.toStub = .ok s ∧
      n.enclosingPackage = "A::B" ∧ writtenName? d.kind n = some "::x" ∧
      s.qualifiedName = "main::x" ∧ d.qualifiedName = .ok s.qualifiedName := by
  intro nodes
  have found : (nodes[4]?.bind fun n => (Declaration.ofNode? n).bind fun d =>
      d.toStub.toOption.map fun s => (n.enclosingPackage, writtenName? d.kind n, s.qualifiedName)) =
        some ("A::B", some "::x", "main::x") := by
    decide +kernel
  obtain ⟨n, there, found⟩ := Option.bind_eq_some_iff.mp found
  obtain ⟨d, declared, found⟩ := Option.bind_eq_some_iff.mp found
  obtain ⟨s, summary, told⟩ := Option.map_eq_some_iff.mp found
  obtain ⟨around, told⟩ := Prod.mk.inj told
  obtain ⟨written, full⟩ := Prod.mk.inj told
  have made : d.toStub = .ok s := by
    cases stub : d.toStub with
    | error e => rw [stub] at summary; cases summary
    | ok s' => rw [stub] at summary; exact congrArg _ (Option.some.inj summary)
  have member : n ∈ nodes := List.mem_of_getElem? there
  have named := Declaration.qualifiedName_of_text member declared made
  exact ⟨n, member, d, s, declared, made, around, written, full, named.1⟩

end PerlOutline.Stub
