import PerlOutline.Element.Scope
import PerlOutline.Syntax.Parse

/-!
# Packages by one walk from left to right

The package of a node is found from the node: its preceding siblings are searched back and its
ancestors are climbed. The same packages are handed out by one walk over the tree that carries
the current package down and to the right, and never looks back.

## Layers
- **The walk**: what a package statement says for its children and for its later siblings.
- **One node**: searching back from a node and climbing from it, one level at a time.
- **All nodes**: the walk agrees with the search at each node.
-/

namespace PerlOutline.Syntax.Placed

open PerlOutline.Source (Range)
open PerlOutline.Element (mainPackage)

/-! ## The walk -/

/-- The first name among the tokens in a list of trees. -/
def firstName? : List Placed → Option String
  | [] => none
  | .token _ t :: rest => if t.kind = .ident then some t.string else firstName? rest
  | .node .. :: rest => firstName? rest

/-- Whether there is a block in a list of trees. -/
def hasBlock : List Placed → Bool
  | [] => false
  | .token .. :: rest => hasBlock rest
  | .node k _ _ :: rest => k == .block || hasBlock rest

/-- The package that a node in the package `current` gives to its children: that of a package
statement with a block and a name is its name. -/
def packageInside (current : String) (kind : Kind) (children : List Placed) : String :=
  if kind = .packageStatement ∧ hasBlock children = true then
    (firstName? children).getD current
  else current

/-- The current package after a tree, in a list that began with the package `entry`: after a
package statement without a block it is its name, or `entry` if it has none. -/
def packageAfter (entry current : String) : Placed → String
  | .token .. => current
  | .node kind _ children =>
    if kind = .packageStatement ∧ hasBlock children = false then
      (firstName? children).getD entry
    else current

mutual

/-- The nodes of a tree in preorder with their kinds, places and packages, where the root is in
the package `current`. -/
def packages (current : String) : Placed → List (Kind × Range × String)
  | .token .. => []
  | .node k r cs =>
    let inside := packageInside current k cs
    (k, r, current) :: forestPackages inside inside cs

/-- The nodes of a list of trees in preorder with their kinds, places and packages, where the list
began with the package `entry` and the package is now `current`. -/
def forestPackages (entry current : String) : List Placed → List (Kind × Range × String)
  | [] => []
  | t :: ts => packages current t ++ forestPackages entry (packageAfter entry current t) ts

end

end PerlOutline.Syntax.Placed

namespace PerlOutline.Element

open PerlOutline.Source (Range)
open PerlOutline.Syntax (Kind Token Placed Parse)

namespace Node

variable {k : Kind} {r : Range} {cs preceding : List Placed} {above : List Step}

/-! ## One node -/

/-- The first name under a node is the first name among its children. -/
theorem token?_ident (n : Node) :
    (n.token? .ident).map (·.string) = Placed.firstName? n.here.children := by
  simp only [token?, tokens]
  -- Nodes are passed over, and so are tokens that are no name.
  induction n.here.children with
  | nil => rfl
  | cons child rest ih =>
    cases child with
    | node => exact ih
    | token start t =>
      by_cases name : t.kind = .ident
      · simp [Placed.firstName?, name, PlacedToken.kind, PlacedToken.string, Token.string]
      · simpa [Placed.firstName?, name, PlacedToken.kind] using ih

/-- The name of a package statement is the first name under it. -/
theorem toOption_name (p : PackageStatement) :
    (PackageStatement.name p).toOption = Placed.firstName? p.node.here.children := by
  rw [← token?_ident, PackageStatement.name, PackageStatement.nameToken]
  cases p.node.token? .ident <;> rfl

/-- A block is found under a node if one is among its children. -/
theorem isSome_block? (p : PackageStatement) :
    (PackageStatement.block? p).isSome = Placed.hasBlock p.node.here.children := by
  simp only [PackageStatement.block?, childView?, children]
  -- The nodes before a child do not matter, so the induction is over any of them.
  generalize p.node.here :: p.node.above = above
  generalize ([] : List Placed) = preceding
  induction p.node.here.children generalizing preceding with
  | nil => rfl
  | cons child rest ih =>
    cases child with
    | token => exact ih preceding
    | node k r cs =>
      by_cases block : k = .block
      · simp [childrenFrom, Placed.hasBlock, block, View.ofNode?, kind]
      · have next := ih (.node k r cs :: preceding)
        simpa [childrenFrom, Placed.hasBlock, block, beq_false_of_ne block, View.ofNode?, kind]
          using next

/-- The package inside a node, told from its children. -/
theorem packageInside?_eq (n : Node) :
    n.packageInside? =
      if n.kind = .packageStatement ∧ Placed.hasBlock n.here.children = true then
        Placed.firstName? n.here.children
      else none := by
  rw [packageInside?, asPackage?, View.ofNode?]
  by_cases package : n.kind = .packageStatement
  · simp [package, toOption_name, isSome_block?]
  · simp [package]

/-- What the walk gives to the children of a node is the package inside it, or else the one in
which it stands. -/
theorem getD_packageInside? (n : Node) (current : String) :
    n.packageInside?.getD current = Placed.packageInside current n.kind n.here.children := by
  rw [packageInside?_eq, Placed.packageInside]
  split <;> rfl

/-- What is no package statement, or has a block, opens no package for its siblings. -/
theorem asOpenPackage?_eq_none {n : Node}
    (h : ¬(n.kind = .packageStatement ∧ Placed.hasBlock n.here.children = false)) :
    n.asOpenPackage? = none := by
  rw [asOpenPackage?, asPackage?, View.ofNode?]
  by_cases package : n.kind = .packageStatement
  · have block : Placed.hasBlock n.here.children = true := by simpa [package] using h
    simp [package, ← Option.not_isSome, isSome_block?, block]
  · simp [package]

/-- A package statement without a block opens a package for its siblings. -/
theorem asOpenPackage?_eq_some {n : Node} (package : n.kind = .packageStatement)
    (open_ : Placed.hasBlock n.here.children = false) :
    ∃ p : PackageStatement, n.asOpenPackage? = some p ∧ p.node = n := by
  refine ⟨⟨n, by simp [package]⟩, ?_, rfl⟩
  rw [asOpenPackage?, asPackage?, View.ofNode?]
  simp [package, ← Option.not_isSome, isSome_block?, open_]

/-- The package that the innermost of some steps gives to what is in it. -/
def entryPackage : List Step → String
  | [] => mainPackage
  | step :: above =>
    let parent : Node := ⟨step, above⟩
    parent.packageInside?.getD parent.enclosingPackage

/-- The package behind the nodes `preceding`, that the nearest open package statement among them
gives. -/
def packageBehind (above : List Step) (preceding : List Placed) : String :=
  ((searchBack above asOpenPackage? preceding).bind fun p =>
    (PackageStatement.name p).toOption).getD (entryPackage above)

/-- The ancestors are asked only if no sibling answers, and the nearest of them first. -/
theorem enclosingPackage_eq (n : Node) :
    n.enclosingPackage = packageBehind n.above n.here.preceding := by
  -- The search is split into what the siblings say and what is left to the ancestors.
  change _ = n.packageBefore?.getD (entryPackage n.above)
  cases before : n.packageBefore? with
  | some package => rw [enclosingPackage, before]; rfl
  -- No sibling opens a package, so the parent decides, and then what is around it.
  | none =>
    rw [enclosingPackage, before, ancestors]
    cases n.above with
    | nil => rfl
    | cons step above =>
      simp only [ofSteps, List.findSome?_cons, Option.getD_none, entryPackage]
      cases inside : (⟨step, above⟩ : Node).packageInside? with
      | some package => simp
      | none =>
        rw [enclosingPackage, ancestors]
        cases (⟨step, above⟩ : Node).packageBefore? <;> simp

theorem packageBehind_nil : packageBehind above [] = entryPackage above := rfl

/-- To pass a node changes the package as the walk has it. -/
theorem packageBehind_cons :
    packageBehind above (.node k r cs :: preceding) =
      Placed.packageAfter (entryPackage above) (packageBehind above preceding) (.node k r cs) := by
  let n : Node := ⟨⟨k, r, cs, preceding⟩, above⟩
  rw [packageBehind, searchBack, Placed.packageAfter]
  -- A package statement without a block decides, and everything else is passed.
  by_cases opens : k = .packageStatement ∧ Placed.hasBlock cs = false
  · obtain ⟨p, found, same⟩ := asOpenPackage?_eq_some (n := n) opens.1 opens.2
    have name : (PackageStatement.name p).toOption = Placed.firstName? cs := by
      rw [toOption_name, same]
    rw [if_pos opens, found, ← name]
    rfl
  · have skipped : n.asOpenPackage? = none := asOpenPackage?_eq_none opens
    rw [if_neg opens, skipped, packageBehind]
    rfl

/-- To go down into a node changes the package as the walk has it. -/
theorem entryPackage_cons :
    entryPackage (⟨k, r, cs, preceding⟩ :: above) =
      Placed.packageInside (packageBehind above preceding) k cs := by
  rw [entryPackage, getD_packageInside?, enclosingPackage_eq]
  rfl

/-! ## All nodes -/

/-- A node with its kind, its place and the package in which it stands. -/
def inPackage (n : Node) : Kind × Range × String :=
  (n.kind, n.range, n.enclosingPackage)

mutual

/-- The walk over a tree hands out the packages that are found from its nodes. -/
theorem map_nodesOnto (above : List Step) (preceding : List Placed) (rest : List Node)
    (t : Placed) :
    (nodesOnto above preceding rest t).map inPackage =
      t.packages (packageBehind above preceding) ++ rest.map inPackage := by
  match t with
  | .token .. => rfl
  | .node k r cs =>
    -- The root of the tree stands behind its siblings; below it the walk begins anew.
    have here : (⟨⟨k, r, cs, preceding⟩, above⟩ : Node).enclosingPackage =
        packageBehind above preceding := enclosingPackage_eq _
    have below := map_forestNodesOnto (⟨k, r, cs, preceding⟩ :: above) [] rest cs
    rw [packageBehind_nil, entryPackage_cons] at below
    simp only [nodesOnto, Placed.packages, List.map_cons, List.cons_append, below, inPackage, here]
    rfl

/-- The walk over a list of trees hands out the packages that are found from their nodes. -/
theorem map_forestNodesOnto (above : List Step) (preceding : List Placed) (rest : List Node)
    (ts : List Placed) :
    (forestNodesOnto above preceding rest ts).map inPackage =
      Placed.forestPackages (entryPackage above) (packageBehind above preceding) ts ++
        rest.map inPackage := by
  match ts with
  | [] => rfl
  -- A token changes no package.
  | .token start t :: ts =>
    simp only [forestNodesOnto, Placed.forestPackages]
    rw [map_nodesOnto above preceding _ (.token start t), map_forestNodesOnto above preceding,
      List.append_assoc]
    rfl
  -- A node is behind its preceding siblings, and before those that follow.
  | .node k r cs :: ts =>
    simp only [forestNodesOnto, Placed.forestPackages]
    rw [map_nodesOnto above preceding _ (.node k r cs),
      map_forestNodesOnto above (.node k r cs :: preceding), packageBehind_cons,
      List.append_assoc]

end

end Node

/-- In every text, well formed or not, each node is in the package that one walk from left to
right hands out to it, beginning with the main package at the root. -/
theorem enclosingPackage_eq_packages (maxDepth : Nat) (text : List Char) :
    (Node.allOf (Parse.ofTextWithin maxDepth text).placed).map
        (fun n => (n.kind, n.range, n.enclosingPackage)) =
      (Parse.ofTextWithin maxDepth text).placed.packages mainPackage := by
  have walked := Node.map_nodesOnto [] [] [] (Parse.ofTextWithin maxDepth text).placed
  rw [List.map_nil, List.append_nil] at walked
  exact walked

end PerlOutline.Element
