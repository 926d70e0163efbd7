import Lox.Proofs.Grammar.Soundness
import Lox.Proofs.Lexical.Place

/-!
# Parts of programs

What is known of every node inside a program that was read from a source text: like the program it is
in normal form, so that it can be run; a statement that is no declaration declares nothing in the
scope it is run in; and a statement outside all functions does not return.

* `Node.Normal`, `Node.Normal.part` — normal form is inherited by all parts;
* `Node.marks`, `Node.marks_part` — the written form of a node contains that of its parts;
* `Node.IsRunnable`, `Node.Normal.isRunnable` — nodes that can be run;
* `Stmt.declaresHere`, `Stmt.declaresHere_eq_isDeclaration` — declarations in the same scope;
* `Stmt.returns`, `Stmt.Normal.returns_eq_false` — returns outside nested functions.
-/

namespace Lox

/-! ### Normal nodes -/

/-- **Normal nodes.** Statements may be inside a function or not. -/
def Node.Normal : Node → Prop
  | .program body => ∃ inside, Stmt.AllNormal inside body
  | .stmt s => ∃ inside, s.Normal inside
  | .expr e => e.Normal

theorem Stmt.AllNormal.getElem? {inside : Bool} {body : List Stmt}
    (h : Stmt.AllNormal inside body) {i : Nat} {part : Node}
    (hpart : body[i]?.map Node.stmt = some part) : part.Normal := by
  obtain ⟨s, hs, rfl⟩ := Option.map_eq_some_iff.1 hpart
  exact ⟨inside, Stmt.allNormal_iff.1 h s (List.mem_of_getElem? hs)⟩

theorem Expr.OptionNormal.map {e : Option Expr} (h : Expr.OptionNormal e) {part : Node}
    (hpart : e.map Node.expr = some part) : part.Normal := by
  obtain ⟨e', he', rfl⟩ := Option.map_eq_some_iff.1 hpart
  exact h e' he'

/-- The parts of normal expressions. -/
theorem Expr.Normal.part {e : Expr} (h : e.Normal) {i : Nat} {part : Node}
    (hpart : (Node.expr e).part i = some part) : part.Normal := by
  -- by constructors, as the numbers of the parts depend on them; a wrong number names no part
  cases e with
  | literal value => cases i <;> contradiction
  | «variable» name => cases i <;> contradiction
  | foreign description => cases i <;> contradiction
  | grouping inner =>
    match i, hpart with
    | 0, rfl => exact h
  | assign name value =>
    match i, hpart with
    | 0, rfl => exact h.2
  | unary operator right =>
    match i, hpart with
    | 0, rfl => exact h.2.1
  | binary left operator right =>
    match i, hpart with
    | 0, rfl => exact h.1
    | 1, rfl => exact h.2.1
  | logical left operator right =>
    match i, hpart with
    | 0, rfl => exact h.1
    | 1, rfl => exact h.2.1
  | call callee paren arguments =>
    match i, hpart with
    | 0, rfl => exact h.1
    -- the arguments come behind the callee
    | i + 1, hpart =>
      obtain ⟨e, he, rfl⟩ := Option.map_eq_some_iff.1 hpart
      exact Expr.allNormal_iff.1 h.2.2.2.2 e (List.mem_of_getElem? he)

/-- The parts of normal statements. The body of a function is inside it. -/
theorem Stmt.Normal.part {inside : Bool} {s : Stmt} (h : s.Normal inside) {i : Nat} {part : Node}
    (hpart : (Node.stmt s).part i = some part) : part.Normal := by
  cases s with
  | foreign description => cases i <;> contradiction
  | expression value =>
    match i, hpart with
    | 0, rfl => exact h
  | print value =>
    match i, hpart with
    | 0, rfl => exact h
  | «variable» name initial const =>
    match i, hpart with
    | 0, hpart => exact Expr.OptionNormal.map h.2.1 hpart
  | block body => exact Stmt.AllNormal.getElem? h hpart
  | conditional condition yes no =>
    -- the second branch has a number only if there is one
    cases no with
    | none =>
      match i, hpart with
      | 0, rfl => exact h.1
      | 1, rfl => exact ⟨inside, h.2.1⟩
      | i + 2, hpart => cases i <;> contradiction
    | some no =>
      match i, hpart with
      | 0, rfl => exact h.1
      | 1, rfl => exact ⟨inside, h.2.1⟩
      | 2, rfl => exact ⟨inside, h.2.2.2.2.1⟩
  | whileLoop condition body =>
    match i, hpart with
    | 0, rfl => exact h.1
    | 1, rfl => exact ⟨inside, h.2.1⟩
  | forLoop start condition update body =>
    -- the clauses keep their numbers whether they are there or not
    obtain ⟨hstart, hcondition, hupdate, hbody, -⟩ := Stmt.normal_forLoop.1 h
    match i, hpart with
    | 0, hpart =>
      obtain ⟨st, rfl, rfl⟩ := Option.map_eq_some_iff.1 hpart
      exact ⟨inside, (hstart st rfl).2⟩
    | 1, hpart => exact hcondition.map hpart
    | 2, hpart => exact hupdate.map hpart
    | 3, rfl => exact ⟨inside, hbody⟩
  | function name parameters body => exact Stmt.AllNormal.getElem? h.2.2.2 hpart
  | returning keyword value =>
    match i, hpart with
    | 0, hpart => exact Expr.OptionNormal.map h.2.2 hpart

/-- **Normal form is inherited.** -/
theorem Node.Normal.part {node : Node} (h : node.Normal) {i : Nat} {part : Node}
    (hpart : node.part i = some part) : part.Normal := by
  cases node with
  | program body =>
    obtain ⟨inside, hbody⟩ := h
    exact hbody.getElem? hpart
  | stmt s =>
    obtain ⟨inside, hs⟩ := h
    exact hs.part hpart
  | expr e => exact Expr.Normal.part h hpart

/-- **Every node of a program** that was read is normal. -/
theorem normal_of_nodeAt {programs : List (List Stmt)}
    (h : ∀ program ∈ programs, Stmt.AllNormal false program) {p : Place} {node : Node}
    (hnode : nodeAt programs p = some node) : node.Normal := by
  obtain ⟨chunk, way⟩ := p
  induction way generalizing node with
  | nil =>
    obtain ⟨program, hprogram, rfl⟩ := Option.map_eq_some_iff.1 hnode
    exact ⟨false, h program (List.mem_of_getElem? hprogram)⟩
  | cons i way ih =>
    obtain ⟨outer, houter, hpart⟩ := Option.bind_eq_some_iff.1 hnode
    exact (ih houter).part hpart

/-! ### Written form -/

/-- **The written form of a node.** -/
def Node.marks : Node → List Mark
  | .program body => Stmt.listMarks body
  | .stmt s => s.marks
  | .expr e => e.marks

theorem Expr.marks_subset_listMarks {es : List Expr} {e : Expr} (h : e ∈ es) :
    e.marks ⊆ Expr.listMarks es := by
  cases es with
  | nil => contradiction
  | cons first es =>
    rw [Expr.listMarks, Expr.moreMarks_eq]
    obtain rfl | h := List.mem_cons.1 h
    · exact List.subset_append_left _ _
    · intro mark hmark
      have hlater : mark ∈ es.flatMap fun e => .word .comma :: e.marks :=
        List.mem_flatMap.2 ⟨e, h, List.mem_cons_of_mem _ hmark⟩
      exact List.mem_append_right _ hlater

theorem Stmt.marks_subset_listMarks {ss : List Stmt} {s : Stmt} (h : s ∈ ss) :
    s.marks ⊆ Stmt.listMarks ss := by
  induction ss with
  | nil => contradiction
  | cons first ss ih =>
    rw [Stmt.listMarks]
    obtain rfl | h := List.mem_cons.1 h
    · exact List.subset_append_left _ _
    · exact List.subset_append_of_subset_right _ (ih h)

theorem Expr.optionMarks_subset {e : Option Expr} {part : Node} (h : e.map Node.expr = some part) :
    part.marks ⊆ Expr.optionMarks e := by
  obtain ⟨e', rfl, rfl⟩ := Option.map_eq_some_iff.1 h
  exact List.Subset.refl _

theorem Stmt.getElem?_subset {ss : List Stmt} {i : Nat} {part : Node}
    (h : ss[i]?.map Node.stmt = some part) : part.marks ⊆ Stmt.listMarks ss := by
  obtain ⟨s, hs, rfl⟩ := Option.map_eq_some_iff.1 h
  exact Stmt.marks_subset_listMarks (List.mem_of_getElem? hs)

theorem Expr.marks_part {e : Expr} {i : Nat} {part : Node} (h : (Node.expr e).part i = some part) :
    part.marks ⊆ e.marks := by
  cases e with
  | literal value => cases i <;> contradiction
  | «variable» name => cases i <;> contradiction
  | foreign description => cases i <;> contradiction
  | grouping inner =>
    match i, h with
    | 0, rfl => exact List.subset_cons_of_subset _ (List.subset_append_left _ _)
  | assign name value =>
    match i, h with
    | 0, rfl => exact List.subset_cons_of_subset _ (List.subset_cons_self _ _)
  | unary operator right =>
    match i, h with
    | 0, rfl => exact List.subset_cons_self _ _
  | binary left operator right | logical left operator right =>
    match i, h with
    | 0, rfl => exact List.subset_append_left _ _
    | 1, rfl => exact List.subset_append_of_subset_right _ (List.subset_cons_self _ _)
  | call callee paren arguments =>
    match i, h with
    | 0, rfl => exact List.subset_append_of_subset_left _ (List.subset_append_left _ _)
    -- an argument is written between the parenthesis and its counterpart
    | i + 1, h =>
      obtain ⟨e, he, rfl⟩ := Option.map_eq_some_iff.1 h
      have hlist : e.marks ⊆ Expr.listMarks arguments :=
        Expr.marks_subset_listMarks (List.mem_of_getElem? he)
      exact List.subset_append_of_subset_left _
        (List.subset_append_of_subset_right _ (List.subset_cons_of_subset _ hlist))

/-- Between what opens a construct and what closes it. -/
theorem subset_enclosed {first last : Mark} {marks inner : List Mark} (h : marks ⊆ inner) :
    marks ⊆ first :: inner ++ [last] :=
  List.subset_cons_of_subset _ (List.subset_append_of_subset_left _ h)

theorem Stmt.marks_part {s : Stmt} {i : Nat} {part : Node} (h : (Node.stmt s).part i = some part) :
    part.marks ⊆ s.marks := by
  cases s with
  | foreign description => cases i <;> contradiction
  | expression value =>
    match i, h with
    | 0, rfl => exact List.subset_append_left _ _
  | print value =>
    match i, h with
    | 0, rfl => exact subset_enclosed (List.Subset.refl _)
  | «variable» name initial const =>
    match i, h with
    | 0, h =>
      obtain ⟨e, rfl, rfl⟩ := Option.map_eq_some_iff.1 h
      exact subset_enclosed (List.subset_cons_of_subset _ (List.subset_cons_self _ _))
  | block body => exact subset_enclosed (Stmt.getElem?_subset h)
  | conditional condition yes no =>
    -- the condition stands behind the word and the parenthesis, with the branches behind it
    have hcondition : condition.marks ⊆ .word .ifWord :: .word .leftParen :: condition.marks :=
      List.subset_cons_of_subset _ (List.subset_cons_self _ _)
    cases no with
    | none =>
      match i, h with
      | 0, rfl => exact List.subset_append_of_subset_left _ hcondition
      | 1, rfl => exact List.subset_append_of_subset_right _ (List.subset_cons_self _ _)
      | i + 2, h => cases i <;> contradiction
    | some no =>
      match i, h with
      | 0, rfl =>
        exact List.subset_append_of_subset_left _ (List.subset_append_of_subset_left _ hcondition)
      | 1, rfl =>
        exact List.subset_append_of_subset_left _
          (List.subset_append_of_subset_right _ (List.subset_cons_self _ _))
      | 2, rfl => exact List.subset_append_of_subset_right _ (List.subset_cons_self _ _)
  | whileLoop condition body =>
    match i, h with
    | 0, rfl =>
      exact List.subset_append_of_subset_left _
        (List.subset_cons_of_subset _ (List.subset_cons_self _ _))
    | 1, rfl => exact List.subset_append_of_subset_right _ (List.subset_cons_self _ _)
  | forLoop start condition update body =>
    rw [Stmt.marks_forLoop]
    match i, h with
    -- each clause in its own place between the parentheses, the body behind them
    | 0, h =>
      obtain ⟨st, rfl, rfl⟩ := Option.map_eq_some_iff.1 h
      have hstart : st.marks ⊆ .word .forWord :: .word .leftParen :: startMarks (some st) :=
        List.subset_cons_of_subset _ (List.subset_cons_self _ _)
      exact List.subset_append_of_subset_left _ (List.subset_append_of_subset_left _
        (List.subset_append_of_subset_left _ hstart))
    | 1, h =>
      exact List.subset_append_of_subset_left _ (List.subset_append_of_subset_left _
        (List.subset_append_of_subset_right _ (Expr.optionMarks_subset h)))
    | 2, h =>
      exact List.subset_append_of_subset_left _ (List.subset_append_of_subset_right _
        (List.subset_cons_of_subset _ (Expr.optionMarks_subset h)))
    | 3, rfl => exact List.subset_append_of_subset_right _ (List.subset_cons_self _ _)
  | function name parameters body =>
    -- the body is a list between braces, behind the head of the function
    have hbody : part.marks ⊆ .word .rightParen :: .word .leftBrace :: Stmt.listMarks body :=
      List.subset_cons_of_subset _ (List.subset_cons_of_subset _ (Stmt.getElem?_subset h))
    exact List.subset_append_of_subset_left _ (List.subset_append_of_subset_right _ hbody)
  | returning keyword value =>
    match i, h with
    | 0, h => exact subset_enclosed (Expr.optionMarks_subset h)

/-- **A part is written inside the whole.** -/
theorem Node.marks_part {node : Node} {i : Nat} {part : Node} (h : node.part i = some part) :
    part.marks ⊆ node.marks := by
  cases node with
  | program body => exact Stmt.getElem?_subset h
  | stmt s => exact Stmt.marks_part h
  | expr e => exact Expr.marks_part h

/-- **Every node of a program** is written inside it. -/
theorem marks_subset_of_nodeAt {program : List Stmt} {p : Place} {node : Node}
    (h : nodeAt [program] p = some node) : node.marks ⊆ Stmt.listMarks program := by
  obtain ⟨chunk, way⟩ := p
  induction way generalizing node with
  | nil =>
    obtain ⟨body, hbody, rfl⟩ := Option.map_eq_some_iff.1 h
    obtain rfl := List.mem_singleton.1 (List.mem_of_getElem? hbody)
    exact List.Subset.refl _
  | cons i way ih =>
    obtain ⟨outer, houter, hpart⟩ := Option.bind_eq_some_iff.1 h
    exact List.Subset.trans (Node.marks_part hpart) (ih houter)

/-! ### Nodes that can be run -/

/-- **Nodes that can be run:** those of the two languages whose operators are known. -/
def Node.IsRunnable : Node → Prop
  | .expr (.foreign _) | .stmt (.foreign _) => False
  | .expr (.unary operator _) => operator.kind = .bang ∨ operator.kind = .minus
  | .expr (.binary _ operator _) => (binaryLevel? operator.kind).isSome = true
  | _ => True

theorem Node.Normal.isRunnable {node : Node} (h : node.Normal) : node.IsRunnable := by
  cases node with
  | program body => trivial
  | stmt s =>
    obtain ⟨inside, hs⟩ := h
    cases s with
    | foreign description => exact hs
    | _ => trivial
  | expr e =>
    cases e with
    | foreign description => exact h
    | unary operator right => exact h.1
    | binary left operator right =>
      obtain ⟨-, -, level, hlevel, -⟩ := h
      exact Option.isSome_of_eq_some hlevel
    | _ => trivial

/-! ### Declarations -/

/-- **Does a statement declare a name in the scope it is run in?** Branches and bodies of while loops
are run in the same scope. -/
def Stmt.declaresHere : Stmt → Bool
  | .variable .. | .function .. => true
  | .conditional _ yes none => yes.declaresHere
  | .conditional _ yes (some no) => yes.declaresHere || no.declaresHere
  | .whileLoop _ body => body.declaresHere
  | _ => false

/-- **Only declarations declare** in their own scope: no branch and no body of a normal statement is
one. -/
theorem Stmt.declaresHere_eq_isDeclaration {inside : Bool} {s : Stmt} (h : s.Normal inside) :
    s.declaresHere = s.isDeclaration := by
  fun_induction Stmt.declaresHere s with
  | case1 name initial const => rfl
  | case2 name parameters body => rfl
  | case3 condition yes ih => exact (ih h.2.1).trans h.2.2
  | case4 condition yes no ihyes ihno =>
    obtain ⟨-, hyes, hyesDeclares, -, hno, hnoDeclares⟩ := h
    rw [ihyes hyes, ihno hno, hyesDeclares, hnoDeclares]
    rfl
  | case5 condition body ih => exact (ih h.2.1).trans h.2.2
  | case6 s hvariable hfunction _ _ _ =>
    cases s with
    | «variable» name initial const => exact absurd rfl (hvariable name initial const)
    | function name parameters body => exact absurd rfl (hfunction name parameters body)
    | _ => rfl

/-! ### Returns -/

mutual

/-- **Does a statement contain a return** outside all functions in it? -/
def Stmt.returns : Stmt → Bool
  | .returning .. => true
  | .block body => Stmt.anyReturns body
  | .conditional _ yes none => yes.returns
  | .conditional _ yes (some no) => yes.returns || no.returns
  | .whileLoop _ body | .forLoop none _ _ body => body.returns
  | .forLoop (some start) _ _ body => start.returns || body.returns
  | _ => false

/-- Does one of several statements contain a return? -/
def Stmt.anyReturns : List Stmt → Bool
  | [] => false
  | s :: ss => s.returns || Stmt.anyReturns ss

end

mutual

/-- **Outside functions there is no return** in a normal statement. -/
theorem Stmt.Normal.returns_eq_false : ∀ {s : Stmt}, s.Normal false → s.returns = false
  | .returning .., h => absurd h.1 Bool.false_ne_true
  | .block body, h => @Stmt.AllNormal.anyReturns_eq_false body h
  | .conditional _ yes none, h => Stmt.Normal.returns_eq_false (s := yes) h.2.1
  | .conditional _ yes (some no), h => by
    have hyes := Stmt.Normal.returns_eq_false (s := yes) h.2.1
    have hno := Stmt.Normal.returns_eq_false (s := no) h.2.2.2.2.1
    simp only [Stmt.returns, hyes, hno, Bool.or_self]
  | .whileLoop _ body, h => Stmt.Normal.returns_eq_false (s := body) h.2.1
  | .forLoop none _ _ body, h => Stmt.Normal.returns_eq_false (s := body) h.2.2.1
  | .forLoop (some start) _ _ body, h => by
    have hstart := Stmt.Normal.returns_eq_false (s := start) h.2.1
    have hbody := Stmt.Normal.returns_eq_false (s := body) h.2.2.2.2.1
    simp only [Stmt.returns, hstart, hbody, Bool.or_self]
  | .expression _, _ | .print _, _ | .variable .., _ | .function .., _ => rfl

theorem Stmt.AllNormal.anyReturns_eq_false :
    ∀ {ss : List Stmt}, Stmt.AllNormal false ss → Stmt.anyReturns ss = false
  | [], _ => rfl
  | s :: ss, h => by
    have hs := Stmt.Normal.returns_eq_false (s := s) h.1
    have hss := @Stmt.AllNormal.anyReturns_eq_false ss h.2
    simp only [Stmt.anyReturns, hs, hss, Bool.or_self]

end

end Lox
