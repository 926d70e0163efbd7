import Lox.Tree

/-!
# Places

Where a node stands in the programs of a session: the number of its program, and the way down to it.
Two nodes that look alike are told apart by their places.

* `Node.part` — the parts of a node by their numbers;
* `nodeAt` — the node at a place;
* `enclosing` — the constructs around a place that open a scope.
-/

namespace Lox

/-- **Nodes.** At the top there is a whole program. -/
inductive Node
  | program (body : List Stmt)
  | stmt (s : Stmt)
  | expr (e : Expr)

/-- **Places.** The way to a node leads from part to part; its last step comes first in the list. -/
structure Place where
  chunk : Nat
  way : List Nat
  deriving DecidableEq, Repr, Inhabited

/-- The place of a part. -/
def Place.part (p : Place) (i : Nat) : Place := ⟨p.chunk, i :: p.way⟩

/-- The place of the next part of the same node. -/
def Place.next (p : Place) : Place := ⟨p.chunk, p.way.modifyHead (· + 1)⟩

namespace Node

/-- **The parts of a node** by their numbers. A part that may be absent keeps its number. -/
def part : Node → Nat → Option Node
  | program body, i => body[i]?.map .stmt
  | expr (.grouping inner), 0 => some (.expr inner)
  | expr (.assign _ value), 0 => some (.expr value)
  | expr (.unary _ right), 0 => some (.expr right)
  | expr (.binary left _ _), 0 | expr (.logical left _ _), 0 => some (.expr left)
  | expr (.binary _ _ right), 1 | expr (.logical _ _ right), 1 => some (.expr right)
  | expr (.call callee _ _), 0 => some (.expr callee)
  | expr (.call _ _ arguments), i + 1 => arguments[i]?.map .expr
  | stmt (.expression value), 0 | stmt (.print value), 0 => some (.expr value)
  | stmt (.variable _ initial _), 0 => initial.map .expr
  | stmt (.block body), i => body[i]?.map .stmt
  | stmt (.conditional condition _ _), 0 => some (.expr condition)
  | stmt (.conditional _ yes _), 1 => some (.stmt yes)
  | stmt (.conditional _ _ no), 2 => no.map .stmt
  | stmt (.whileLoop condition _), 0 => some (.expr condition)
  | stmt (.whileLoop _ body), 1 => some (.stmt body)
  | stmt (.forLoop start _ _ _), 0 => start.map .stmt
  | stmt (.forLoop _ condition _ _), 1 => condition.map .expr
  | stmt (.forLoop _ _ update _), 2 => update.map .expr
  | stmt (.forLoop _ _ _ body), 3 => some (.stmt body)
  | stmt (.function _ _ body), i => body[i]?.map .stmt
  | stmt (.returning _ value), 0 => value.map .expr
  | _, _ => none

/-- **Does the construct open a scope?** Blocks, for loops and functions do. -/
def opensScope : Node → Bool
  | stmt (.block _) | stmt (.forLoop ..) | stmt (.function ..) => true
  | _ => false

end Node

/-- The node at the end of a way into a program. -/
def nodeOnWay (programs : List (List Stmt)) (chunk : Nat) : List Nat → Option Node
  | [] => programs[chunk]?.map .program
  | i :: way => (nodeOnWay programs chunk way).bind (·.part i)

/-- **The node at a place.** -/
def nodeAt (programs : List (List Stmt)) (p : Place) : Option Node :=
  nodeOnWay programs p.chunk p.way

/-- The constructs that open a scope on a way into a program, its end left out. -/
def enclosingOnWay (programs : List (List Stmt)) (chunk : Nat) : List Nat → List Place
  | [] => []
  | _ :: way =>
    if (nodeOnWay programs chunk way).any (·.opensScope) then
      ⟨chunk, way⟩ :: enclosingOnWay programs chunk way
    else enclosingOnWay programs chunk way

/-- **The constructs around a place** that open a scope, the innermost first. Their number is the
nesting depth of the place. -/
def enclosing (programs : List (List Stmt)) (p : Place) : List Place :=
  enclosingOnWay programs p.chunk p.way

variable {programs : List (List Stmt)} {p : Place} {node : Node}

theorem nodeAt_part (i : Nat) : nodeAt programs (p.part i) = (nodeAt programs p).bind (·.part i) :=
  rfl

/-- The way to a part of a known node. -/
theorem nodeAt_part_of (h : nodeAt programs p = some node) (i : Nat) :
    nodeAt programs (p.part i) = node.part i := by
  rw [nodeAt_part, h, Option.bind_some]

/-- Inside a construct that opens a scope there is one more of them. -/
theorem enclosing_part_of_opensScope (h : nodeAt programs p = some node)
    (hopens : node.opensScope = true) (i : Nat) :
    enclosing programs (p.part i) = p :: enclosing programs p := by
  have hany : (nodeOnWay programs p.chunk p.way).any (·.opensScope) = true := by
    rw [show nodeOnWay programs p.chunk p.way = some node from h]
    exact hopens
  exact if_pos hany

/-- All other nodes leave their parts where they are. -/
theorem enclosing_part_of_not_opensScope (h : nodeAt programs p = some node)
    (hopens : node.opensScope = false) (i : Nat) :
    enclosing programs (p.part i) = enclosing programs p := by
  have hany : ¬ (nodeOnWay programs p.chunk p.way).any (·.opensScope) = true := by
    rw [show nodeOnWay programs p.chunk p.way = some node from h]
    simp [hopens]
  exact if_neg hany

/-! ### Further programs -/

/-- A later program leads to no new node on an old way. -/
theorem nodeOnWay_append {chunk : Nat} (hchunk : chunk < programs.length)
    (later : List (List Stmt)) (way : List Nat) :
    nodeOnWay (programs ++ later) chunk way = nodeOnWay programs chunk way := by
  induction way with
  | nil => rw [nodeOnWay, nodeOnWay, List.getElem?_append_left hchunk]
  | cons i way ih => rw [nodeOnWay, nodeOnWay, ih]

theorem enclosingOnWay_append {chunk : Nat} (hchunk : chunk < programs.length)
    (later : List (List Stmt)) (way : List Nat) :
    enclosingOnWay (programs ++ later) chunk way = enclosingOnWay programs chunk way := by
  induction way with
  | nil => rfl
  | cons i way ih => rw [enclosingOnWay, enclosingOnWay, ih, nodeOnWay_append hchunk]

/-- A place that leads to a node is in a program that exists. -/
theorem chunk_lt_of_nodeAt (h : nodeAt programs p = some node) : p.chunk < programs.length := by
  obtain ⟨chunk, way⟩ := p
  induction way generalizing node with
  | nil =>
    obtain ⟨body, hbody, -⟩ := Option.map_eq_some_iff.mp h
    exact (List.getElem?_eq_some_iff.mp hbody).1
  | cons i way ih =>
    obtain ⟨outer, houter, -⟩ := Option.bind_eq_some_iff.mp h
    exact ih houter

end Lox
