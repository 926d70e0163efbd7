import Lox.Grammar.Cursor
import Lox.Tree.Description
import Lox.Value

/-!
# Events

What a run reports about itself when it is traced.

* `Event` — the events;
* `Event.message` — the line that reports an event.
-/

namespace Lox

/-- **Events.** Both passes over a source report their result, every recorded production reports its
visit, and the run reports declarations, calls, and in the end its failure. With a failure a log may
show the stack of its own host as well, which lines of the host were in progress. That is left out
here: it tells nothing of the session. -/
inductive Event
  | tokens (tokens : List Token)
  | visit (visit : Visit)
  | statements (program : List Stmt)
  | interpreting (count : Nat)
  | declared (name : String) (value : Value)
  | called (callee : Value) (arguments : List Value)
  | compileError
  | runtimeError

/-- The line that reports a visit. -/
def Visit.message : Visit → String
  | entering production => "entering " ++ production.name
  | exiting production => "exiting " ++ production.name

/-- **The line that reports an event.** That of a failure only names its kind, and nothing is said of
the lines of a stack that may come behind it. -/
def Event.message : Event → String
  | tokens ts => "TOKENS: " ++ Text.bracketed (ts.map Token.describe)
  | visit v => v.message
  | statements program => "STATEMENTS: " ++ Text.bracketed (Stmt.describeList program)
  | interpreting count => "interpreting " ++ toString count ++ " statements"
  | declared name value => "declare " ++ name ++ " = " ++ value.describe
  | called callee arguments =>
    "call " ++ callee.describe ++ " with " ++ Text.bracketed (arguments.map Value.describe)
  | compileError => "compile error"
  | runtimeError => "runtime error"

end Lox
