import Lox.Proofs.Lexical.Place

/-!
# Relocated trees

A relocation moves tokens to other places and changes nothing else about them; the line of a moved
token depends on its own line only. In a relocated tree every node stays where it is, and relocations
one after the other are one relocation.

* `Relocation` — what is done to tokens and lines, `Relocation.after` one after another;
* `Expr.relocate`, `Stmt.relocate`, `Node.relocate` — the tree with its tokens moved;
* `Stmt.relocate_id`, `Stmt.relocate_comp` — no move, and two moves;
* `Node.part_relocate` — the parts of a relocated node.
-/

namespace Lox

/-- **Relocations.** -/
@[ext] structure Relocation where
  move : Token → Token
  line : Int → Int
  kind_eq : ∀ t, (move t).kind = t.kind
  lexeme_eq : ∀ t, (move t).lexeme = t.lexeme
  value_eq : ∀ t, (move t).value = t.value
  line_eq : ∀ t, (move t).line = line t.line

/-- No relocation at all. -/
def Relocation.stay : Relocation where
  move := id
  line := id
  kind_eq _ := rfl
  lexeme_eq _ := rfl
  value_eq _ := rfl
  line_eq _ := rfl

/-- One relocation after another. -/
def Relocation.after (r r' : Relocation) : Relocation where
  move := r.move ∘ r'.move
  line := r.line ∘ r'.line
  kind_eq t := (r.kind_eq _).trans (r'.kind_eq t)
  lexeme_eq t := (r.lexeme_eq _).trans (r'.lexeme_eq t)
  value_eq t := (r.value_eq _).trans (r'.value_eq t)
  line_eq t := (r.line_eq _).trans (congrArg r.line (r'.line_eq t))

variable (f g : Token → Token)

/-! ### Expressions -/

mutual

/-- **A relocated expression.** -/
def Expr.relocate : Expr → Expr
  | .literal value => .literal value
  | .grouping inner => .grouping inner.relocate
  | .variable name => .variable (f name)
  | .assign name value => .assign (f name) value.relocate
  | .unary operator right => .unary (f operator) right.relocate
  | .binary left operator right => .binary left.relocate (f operator) right.relocate
  | .logical left operator right => .logical left.relocate (f operator) right.relocate
  | .call callee paren arguments => .call callee.relocate (f paren) (Expr.relocateAll arguments)
  | .foreign description => .foreign description

/-- Several expressions. -/
def Expr.relocateAll : List Expr → List Expr
  | [] => []
  | e :: es => e.relocate :: Expr.relocateAll es

end

theorem Expr.relocateAll_eq_map (es : List Expr) :
    Expr.relocateAll f es = es.map (Expr.relocate f) := by
  induction es with
  | nil => rfl
  | cons e es ih => rw [Expr.relocateAll, ih, List.map_cons]

mutual

/-- Tokens that stay where they are. -/
theorem Expr.relocate_id (e : Expr) : e.relocate id = e := by
  cases e with
  | literal value | «variable» name | foreign description => rfl
  | grouping inner => rw [Expr.relocate, Expr.relocate_id inner]
  | assign name value => rw [Expr.relocate, Expr.relocate_id value, id]
  | unary operator right => rw [Expr.relocate, Expr.relocate_id right, id]
  | binary left operator right | logical left operator right =>
    rw [Expr.relocate, Expr.relocate_id left, Expr.relocate_id right, id]
  | call callee paren arguments =>
    rw [Expr.relocate, Expr.relocate_id callee, Expr.relocateAll_id arguments, id]

theorem Expr.relocateAll_id (es : List Expr) : Expr.relocateAll id es = es := by
  cases es with
  | nil => rfl
  | cons e es => rw [Expr.relocateAll, Expr.relocate_id e, Expr.relocateAll_id es]

end

mutual

/-- **Two moves are one.** -/
theorem Expr.relocate_comp (e : Expr) : (e.relocate f).relocate g = e.relocate (g ∘ f) := by
  cases e with
  | literal value | «variable» name | foreign description => rfl
  | grouping inner => simp only [Expr.relocate, Expr.relocate_comp inner]
  | assign name value => simp only [Expr.relocate, Expr.relocate_comp value, Function.comp]
  | unary operator right => simp only [Expr.relocate, Expr.relocate_comp right, Function.comp]
  | binary left operator right | logical left operator right =>
    simp only [Expr.relocate, Expr.relocate_comp left, Expr.relocate_comp right, Function.comp]
  | call callee paren arguments =>
    simp only [Expr.relocate, Expr.relocate_comp callee, Expr.relocateAll_comp arguments,
      Function.comp]

theorem Expr.relocateAll_comp (es : List Expr) :
    Expr.relocateAll g (Expr.relocateAll f es) = Expr.relocateAll (g ∘ f) es := by
  cases es with
  | nil => rfl
  | cons e es => simp only [Expr.relocateAll, Expr.relocate_comp e, Expr.relocateAll_comp es]

end

/-! ### Statements -/

mutual

/-- **A relocated statement.** -/
def Stmt.relocate : Stmt → Stmt
  | .expression value => .expression (value.relocate f)
  | .print value => .print (value.relocate f)
  | .variable name initial const => .variable (f name) (initial.map (Expr.relocate f)) const
  | .block body => .block (Stmt.relocateAll body)
  | .conditional condition yes none => .conditional (condition.relocate f) yes.relocate none
  | .conditional condition yes (some no) =>
    .conditional (condition.relocate f) yes.relocate (some no.relocate)
  | .whileLoop condition body => .whileLoop (condition.relocate f) body.relocate
  | .forLoop none condition update body =>
    .forLoop none (condition.map (Expr.relocate f)) (update.map (Expr.relocate f)) body.relocate
  | .forLoop (some start) condition update body =>
    .forLoop (some start.relocate) (condition.map (Expr.relocate f)) (update.map (Expr.relocate f))
      body.relocate
  | .function name parameters body => .function (f name) (parameters.map f) (Stmt.relocateAll body)
  | .returning keyword value => .returning (f keyword) (value.map (Expr.relocate f))
  | .foreign description => .foreign description

/-- **A relocated program.** -/
def Stmt.relocateAll : List Stmt → List Stmt
  | [] => []
  | s :: ss => s.relocate :: Stmt.relocateAll ss

end

theorem Stmt.relocateAll_eq_map (ss : List Stmt) :
    Stmt.relocateAll f ss = ss.map (Stmt.relocate f) := by
  induction ss with
  | nil => rfl
  | cons s ss ih => rw [Stmt.relocateAll, ih, List.map_cons]

theorem Stmt.relocate_conditional (condition : Expr) (yes : Stmt) (no : Option Stmt) :
    (Stmt.conditional condition yes no).relocate f =
      .conditional (condition.relocate f) (yes.relocate f) (no.map (Stmt.relocate f)) := by
  cases no <;> rfl

theorem Stmt.relocate_forLoop (start : Option Stmt) (condition update : Option Expr) (body : Stmt) :
    (Stmt.forLoop start condition update body).relocate f =
      .forLoop (start.map (Stmt.relocate f)) (condition.map (Expr.relocate f))
        (update.map (Expr.relocate f)) (body.relocate f) := by
  cases start <;> rfl

theorem Expr.map_relocate_id (e : Option Expr) : e.map (Expr.relocate id) = e := by
  cases e with
  | none => rfl
  | some e => exact congrArg some (Expr.relocate_id e)

theorem Expr.map_relocate_comp (e : Option Expr) :
    (e.map (Expr.relocate f)).map (Expr.relocate g) = e.map (Expr.relocate (g ∘ f)) := by
  cases e with
  | none => rfl
  | some e => exact congrArg some (Expr.relocate_comp f g e)

mutual

theorem Stmt.relocate_id (s : Stmt) : s.relocate id = s := by
  cases s with
  | foreign description => rfl
  | expression value | print value => rw [Stmt.relocate, Expr.relocate_id]
  | «variable» name initial const => rw [Stmt.relocate, Expr.map_relocate_id, id]
  | block body => rw [Stmt.relocate, Stmt.relocateAll_id body]
  | conditional condition yes no =>
    cases no with
    | none => rw [Stmt.relocate, Expr.relocate_id, Stmt.relocate_id yes]
    | some no => rw [Stmt.relocate, Expr.relocate_id, Stmt.relocate_id yes, Stmt.relocate_id no]
  | whileLoop condition body => rw [Stmt.relocate, Expr.relocate_id, Stmt.relocate_id body]
  | forLoop start condition update body =>
    cases start with
    | none =>
      rw [Stmt.relocate, Expr.map_relocate_id, Expr.map_relocate_id, Stmt.relocate_id body]
    | some start =>
      rw [Stmt.relocate, Expr.map_relocate_id, Expr.map_relocate_id, Stmt.relocate_id start,
        Stmt.relocate_id body]
  | function name parameters body =>
    rw [Stmt.relocate, List.map_id, Stmt.relocateAll_id body, id]
  | returning keyword value => rw [Stmt.relocate, Expr.map_relocate_id, id]

theorem Stmt.relocateAll_id (ss : List Stmt) : Stmt.relocateAll id ss = ss := by
  cases ss with
  | nil => rfl
  | cons s ss => rw [Stmt.relocateAll, Stmt.relocate_id s, Stmt.relocateAll_id ss]

end

mutual

theorem Stmt.relocate_comp (s : Stmt) : (s.relocate f).relocate g = s.relocate (g ∘ f) := by
  cases s with
  | foreign description => rfl
  | expression value | print value => simp only [Stmt.relocate, Expr.relocate_comp]
  | «variable» name initial const =>
    simp only [Stmt.relocate, Expr.map_relocate_comp, Function.comp]
  | block body => simp only [Stmt.relocate, Stmt.relocateAll_comp body]
  | conditional condition yes no =>
    cases no with
    | none => simp only [Stmt.relocate, Expr.relocate_comp, Stmt.relocate_comp yes]
    | some no =>
      simp only [Stmt.relocate, Expr.relocate_comp, Stmt.relocate_comp yes, Stmt.relocate_comp no]
  | whileLoop condition body =>
    simp only [Stmt.relocate, Expr.relocate_comp, Stmt.relocate_comp body]
  | forLoop start condition update body =>
    cases start with
    | none => simp only [Stmt.relocate, Expr.map_relocate_comp, Stmt.relocate_comp body]
    | some start =>
      simp only [Stmt.relocate, Expr.map_relocate_comp, Stmt.relocate_comp start,
        Stmt.relocate_comp body]
  | function name parameters body =>
    simp only [Stmt.relocate, List.map_map, Stmt.relocateAll_comp body, Function.comp]
  | returning keyword value => simp only [Stmt.relocate, Expr.map_relocate_comp, Function.comp]

theorem Stmt.relocateAll_comp (ss : List Stmt) :
    Stmt.relocateAll g (Stmt.relocateAll f ss) = Stmt.relocateAll (g ∘ f) ss := by
  cases ss with
  | nil => rfl
  | cons s ss => simp only [Stmt.relocateAll, Stmt.relocate_comp s, Stmt.relocateAll_comp ss]

end

/-! ### Nodes -/

/-- **A relocated node.** -/
def Node.relocate : Node → Node
  | .program body => .program (Stmt.relocateAll f body)
  | .stmt s => .stmt (s.relocate f)
  | .expr e => .expr (e.relocate f)

theorem Node.relocate_comp (node : Node) : (node.relocate f).relocate g = node.relocate (g ∘ f) := by
  cases node with
  | program body => exact congrArg Node.program (Stmt.relocateAll_comp f g body)
  | stmt s => exact congrArg Node.stmt (Stmt.relocate_comp f g s)
  | expr e => exact congrArg Node.expr (Expr.relocate_comp f g e)

theorem Node.relocate_id (node : Node) : node.relocate id = node := by
  cases node with
  | program body => exact congrArg Node.program (Stmt.relocateAll_id body)
  | stmt s => exact congrArg Node.stmt (Stmt.relocate_id s)
  | expr e => exact congrArg Node.expr (Expr.relocate_id e)

/-- A statement of a relocated program. -/
theorem Stmt.getElem?_relocateAll (body : List Stmt) (i : Nat) :
    (Stmt.relocateAll f body)[i]?.map Node.stmt = (body[i]?.map Node.stmt).map (Node.relocate f) := by
  rw [Stmt.relocateAll_eq_map, List.getElem?_map, Option.map_map, Option.map_map]
  rfl

theorem Expr.getElem?_relocateAll (es : List Expr) (i : Nat) :
    (Expr.relocateAll f es)[i]?.map Node.expr = (es[i]?.map Node.expr).map (Node.relocate f) := by
  rw [Expr.relocateAll_eq_map, List.getElem?_map, Option.map_map, Option.map_map]
  rfl

theorem Expr.part_relocate (e : Expr) (i : Nat) :
    (Node.expr (e.relocate f)).part i = ((Node.expr e).part i).map (Node.relocate f) := by
  cases e with
  | literal value | «variable» name | foreign description => cases i <;> rfl
  | grouping inner | assign name value | unary operator right => cases i <;> rfl
  | binary left operator right | logical left operator right => obtain _ | _ | i := i <;> rfl
  | call callee paren arguments =>
    cases i with
    | zero => rfl
    | succ i => exact Expr.getElem?_relocateAll f arguments i

theorem Stmt.part_relocate (s : Stmt) (i : Nat) :
    (Node.stmt (s.relocate f)).part i = ((Node.stmt s).part i).map (Node.relocate f) := by
  cases s with
  | expression value | print value | foreign description => cases i <;> rfl
  | «variable» name initial const | returning name initial =>
    cases initial <;> cases i <;> rfl
  | block body | function name parameters body => exact Stmt.getElem?_relocateAll f body i
  | conditional condition yes no => cases no <;> obtain _ | _ | _ | i := i <;> rfl
  | whileLoop condition body => obtain _ | _ | i := i <;> rfl
  | forLoop start condition update body =>
    obtain _ | _ | _ | _ | i := i <;> cases start <;> cases condition <;> cases update <;> rfl

/-- **The parts of a relocated node** are its parts, relocated. -/
theorem Node.part_relocate (node : Node) (i : Nat) :
    (node.relocate f).part i = (node.part i).map (Node.relocate f) := by
  cases node with
  | program body => exact Stmt.getElem?_relocateAll f body i
  | stmt s => exact Stmt.part_relocate f s i
  | expr e => exact Expr.part_relocate f e i

end Lox
