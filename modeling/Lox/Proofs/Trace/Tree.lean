import Lox.Proofs.Trace.Word

/-!
# Words of trees

The record of visits of a tree, and the nodes that are built in it. Every construct has its word in
brackets of its production; the word of an operand in front of an operator stands in front of the
brackets, as the production of the operator begins behind it.

* `Expr.word`, `wholeWord` — the words of expressions, inside and outside of their own productions;
* `Stmt.word` — the words of statements;
* `Expr.nodes`, `Stmt.nodes` — the expressions in a tree, each behind its parts;
* `Expr.builtBy`, `Visit.built?` — productions that build nodes, and their exits in a word;
* `Stmt.filterMap_built_word` — the exits of a tree build its nodes, each of them once and in order;
* `count_of_filterMap_built` — so there are as many pairs of brackets as nodes of that kind.
-/

namespace Lox

/-! ### Words -/

/-- The word of an operand, from the word inside. -/
def operandWord (word : List Visit) : List Visit := Production.precedence.around word

/-- The word of a whole expression, from the word inside. -/
def wholeWord (word : List Visit) : List Visit := Production.expression.around (operandWord word)

mutual

/-- **The word of an expression,** without the brackets of its level. -/
def Expr.word : Expr → List Visit
  | .literal _ => Production.literal.around []
  | .grouping inner => Production.grouping.around (wholeWord inner.word)
  | .variable _ => Production.variable.around []
  | .assign _ value => Production.variable.around (wholeWord value.word)
  | .unary _ right => Production.unary.around (operandWord right.word)
  | .binary left _ right | .logical left _ right =>
    left.word ++ Production.binary.around (operandWord right.word)
  | .call callee _ arguments =>
    callee.word ++ Production.call.around (Production.argumentList.around (Expr.words arguments))
  | .foreign _ => []

/-- The words of several whole expressions. -/
def Expr.words : List Expr → List Visit
  | [] => []
  | e :: es => wholeWord e.word ++ Expr.words es

end

/-- The word of a whole expression that may be absent. -/
def Expr.optionWord : Option Expr → List Visit
  | none => []
  | some e => wholeWord e.word

mutual

/-- **The word of a statement.** Blocks have no brackets of their own. -/
def Stmt.word : Stmt → List Visit
  | .expression value => Production.expressionStatement.around (wholeWord value.word)
  | .print value => Production.printStatement.around (wholeWord value.word)
  | .variable _ initial _ => Production.variableDeclaration.around (Expr.optionWord initial)
  | .block body => Stmt.words body
  | .conditional condition yes none =>
    Production.ifStatement.around (wholeWord condition.word ++ yes.word)
  | .conditional condition yes (some no) =>
    Production.ifStatement.around (wholeWord condition.word ++ yes.word ++ no.word)
  | .whileLoop condition body =>
    Production.whileStatement.around (wholeWord condition.word ++ body.word)
  | .forLoop none condition update body =>
    Production.forStatement.around
      (Expr.optionWord condition ++ Expr.optionWord update ++ body.word)
  | .forLoop (some start) condition update body =>
    Production.forStatement.around
      (start.word ++ Expr.optionWord condition ++ Expr.optionWord update ++ body.word)
  | .function _ _ body => Production.functionDeclaration.around (Stmt.words body)
  | .returning _ value => Production.returnStatement.around (Expr.optionWord value)
  | .foreign _ => []

/-- The words of several statements. -/
def Stmt.words : List Stmt → List Visit
  | [] => []
  | s :: ss => s.word ++ Stmt.words ss

end

theorem Expr.words_eq_flatMap (es : List Expr) :
    Expr.words es = es.flatMap fun e => wholeWord e.word := by
  induction es with
  | nil => rfl
  | cons e es ih => rw [Expr.words, List.flatMap_cons, ih]

theorem Stmt.words_eq_flatMap (ss : List Stmt) : Stmt.words ss = ss.flatMap Stmt.word := by
  induction ss with
  | nil => rfl
  | cons s ss ih => rw [Stmt.words, List.flatMap_cons, ih]

/-! ### Nodes -/

mutual

/-- **The nodes of an expression,** each behind its parts. -/
def Expr.nodes : Expr → List Expr
  | .literal value => [.literal value]
  | .grouping inner => inner.nodes ++ [.grouping inner]
  | .variable name => [.variable name]
  | .assign name value => value.nodes ++ [.assign name value]
  | .unary operator right => right.nodes ++ [.unary operator right]
  | .binary left operator right => left.nodes ++ right.nodes ++ [.binary left operator right]
  | .logical left operator right => left.nodes ++ right.nodes ++ [.logical left operator right]
  | .call callee paren arguments =>
    callee.nodes ++ Expr.allNodes arguments ++ [.call callee paren arguments]
  | .foreign description => [.foreign description]

/-- The nodes of several expressions. -/
def Expr.allNodes : List Expr → List Expr
  | [] => []
  | e :: es => e.nodes ++ Expr.allNodes es

end

/-- The nodes of an expression that may be absent. -/
def Expr.optionNodes : Option Expr → List Expr
  | none => []
  | some e => e.nodes

mutual

/-- **The expressions in a statement,** with all their nodes. -/
def Stmt.nodes : Stmt → List Expr
  | .expression value | .print value => value.nodes
  | .variable _ initial _ => Expr.optionNodes initial
  | .block body | .function _ _ body => Stmt.allNodes body
  | .conditional condition yes none => condition.nodes ++ yes.nodes
  | .conditional condition yes (some no) => condition.nodes ++ yes.nodes ++ no.nodes
  | .whileLoop condition body => condition.nodes ++ body.nodes
  | .forLoop none condition update body =>
    Expr.optionNodes condition ++ Expr.optionNodes update ++ body.nodes
  | .forLoop (some start) condition update body =>
    start.nodes ++ Expr.optionNodes condition ++ Expr.optionNodes update ++ body.nodes
  | .returning _ value => Expr.optionNodes value
  | .foreign _ => []

/-- The expressions in several statements. -/
def Stmt.allNodes : List Stmt → List Expr
  | [] => []
  | s :: ss => s.nodes ++ Stmt.allNodes ss

end

/-! ### Productions that build nodes -/

/-- **Does a production build nodes of expressions?** -/
def Production.builds : Production → Bool
  | .literal | .grouping | .variable | .unary | .binary | .call | .argumentList => true
  | _ => false

/-- **The productions that build a node,** in the order in which they are left. -/
def Expr.builtBy : Expr → List Production
  | .literal _ => [.literal]
  | .grouping _ => [.grouping]
  | .variable _ | .assign .. => [.variable]
  | .unary .. => [.unary]
  | .binary .. | .logical .. => [.binary]
  | .call .. => [.argumentList, .call]
  | .foreign _ => []

/-- The exit of a production that builds nodes. -/
def Visit.built? : Visit → Option Production
  | entering _ => none
  | exiting production => if production.builds then some production else none

@[simp] theorem filterMap_built_around (production : Production) (word : List Visit) :
    (production.around word).filterMap Visit.built? =
      word.filterMap Visit.built? ++ (if production.builds then [production] else []) := by
  rw [Production.around, List.filterMap_cons_none rfl, List.filterMap_append]
  cases hbuilds : production.builds <;> simp [Visit.built?, hbuilds]

@[simp] theorem filterMap_built_operand (word : List Visit) :
    (operandWord word).filterMap Visit.built? = word.filterMap Visit.built? := by
  simp [operandWord, Production.builds]

@[simp] theorem filterMap_built_whole (word : List Visit) :
    (wholeWord word).filterMap Visit.built? = word.filterMap Visit.built? := by
  simp [wholeWord, Production.builds]

mutual

/-- **The exits of an expression build its nodes,** each of them once and in order. -/
theorem Expr.filterMap_built_word (e : Expr) :
    e.word.filterMap Visit.built? = e.nodes.flatMap Expr.builtBy := by
  cases e with
  | literal value => rfl
  | «variable» name => rfl
  | foreign description => rfl
  | grouping inner => simp [word, nodes, builtBy, Production.builds, inner.filterMap_built_word]
  | assign name value => simp [word, nodes, builtBy, Production.builds, value.filterMap_built_word]
  | unary operator right =>
    simp [word, nodes, builtBy, Production.builds, right.filterMap_built_word]
  | binary left operator right | logical left operator right =>
    simp [word, nodes, builtBy, Production.builds, left.filterMap_built_word,
      right.filterMap_built_word]
  | call callee paren arguments =>
    simp [word, nodes, builtBy, Production.builds, callee.filterMap_built_word,
      Expr.filterMap_built_words arguments]

theorem Expr.filterMap_built_words (es : List Expr) :
    (Expr.words es).filterMap Visit.built? = (Expr.allNodes es).flatMap Expr.builtBy := by
  cases es with
  | nil => rfl
  | cons e es => simp [words, allNodes, e.filterMap_built_word, Expr.filterMap_built_words es]

end

theorem Expr.filterMap_built_optionWord (e : Option Expr) :
    (Expr.optionWord e).filterMap Visit.built? = (Expr.optionNodes e).flatMap Expr.builtBy := by
  cases e with
  | none => rfl
  | some e => simp [optionWord, optionNodes, e.filterMap_built_word]

mutual

/-- **The exits of a statement build the expressions in it.** -/
theorem Stmt.filterMap_built_word (s : Stmt) :
    s.word.filterMap Visit.built? = s.nodes.flatMap Expr.builtBy := by
  -- the word of a statement is that of its parts between the marks of its production
  cases s with
  | foreign description => rfl
  | expression value | print value =>
    simp [word, nodes, Production.builds, value.filterMap_built_word]
  | «variable» name initial const =>
    simp [word, nodes, Production.builds, Expr.filterMap_built_optionWord]
  | block body | function name parameters body =>
    simp [word, nodes, Production.builds, Stmt.filterMap_built_words body]
  | conditional condition yes no =>
    have hcondition := condition.filterMap_built_word
    have hyes := yes.filterMap_built_word
    cases no with
    | none => simp [word, nodes, Production.builds, hcondition, hyes]
    | some no => simp [word, nodes, Production.builds, hcondition, hyes, no.filterMap_built_word]
  | whileLoop condition body =>
    simp [word, nodes, Production.builds, condition.filterMap_built_word, body.filterMap_built_word]
  | forLoop start condition update body =>
    have hclause := Expr.filterMap_built_optionWord
    have hbody := body.filterMap_built_word
    cases start with
    | none => simp [word, nodes, Production.builds, hclause, hbody]
    | some start =>
      simp [word, nodes, Production.builds, hclause, hbody, start.filterMap_built_word]
  | returning keyword value =>
    simp [word, nodes, Production.builds, Expr.filterMap_built_optionWord]

theorem Stmt.filterMap_built_words (ss : List Stmt) :
    (Stmt.words ss).filterMap Visit.built? = (Stmt.allNodes ss).flatMap Expr.builtBy := by
  cases ss with
  | nil => rfl
  | cons s ss => simp [words, allNodes, s.filterMap_built_word, Stmt.filterMap_built_words ss]

end

/-! ### Counting -/

theorem count_flatMap_builtBy (production : Production) (nodes : List Expr) :
    (nodes.flatMap Expr.builtBy).count production = nodes.countP (production ∈ ·.builtBy) := by
  induction nodes with
  | nil => rfl
  | cons e nodes ih =>
    -- no production is named twice for one node
    have hnodup : e.builtBy.Nodup := by cases e <;> simp [Expr.builtBy]
    rw [List.flatMap_cons, List.count_append, hnodup.count, ih, List.countP_cons, Nat.add_comm]
    simp only [decide_eq_true_eq]

/-- **There is one pair of brackets for each node,** in a word whose exits build these nodes. -/
theorem count_of_filterMap_built {word : List Visit} {nodes : List Expr} (hword : Balanced word)
    (hbuilt : word.filterMap Visit.built? = nodes.flatMap Expr.builtBy) {production : Production}
    (hbuilds : production.builds = true) :
    word.count (.entering production) = nodes.countP (production ∈ ·.builtBy) ∧
      word.count (.exiting production) = nodes.countP (production ∈ ·.builtBy) := by
  have hexit : ∀ visit : Visit, visit = .exiting production ↔ visit.built? = some production := by
    intro visit
    cases visit with
    | entering entered => simp [Visit.built?]
    | exiting exited =>
      rw [Visit.exiting.injEq, Visit.built?, Option.ite_none_right_eq_some, Option.some_inj]
      exact ⟨fun heq => ⟨heq ▸ hbuilds, heq⟩, And.right⟩
  have hexits : word.count (.exiting production) = nodes.countP (production ∈ ·.builtBy) := by
    rw [← count_flatMap_builtBy, ← hbuilt, List.count_filterMap]
    exact List.countP_congr fun visit _ => by simp only [beq_iff_eq, hexit]
  exact ⟨(count_entering production hword).trans hexits, hexits⟩

end Lox
