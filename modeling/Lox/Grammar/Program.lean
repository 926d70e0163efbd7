import Lox.Grammar.Production
import Lox.Token.Scan

/-!
# Programs

From a source text to the statements of a program.

* `Reading.ofTokens` — the statements of some tokens, with the record of visits, or the first error;
* `parse` — the statements alone.
-/

namespace Lox

/-- **Compile errors.** Either of the two passes over a source can fail. -/
inductive CompileError
  | scan (error : ScanError)
  | syntactic (error : SyntaxError)

/-- The text of a compile error. -/
def CompileError.message : CompileError → String
  | scan error => error.message
  | syntactic error => error.message

/-- **The outcome of reading tokens.** The visits are in order, up to the error if there is one. -/
structure Reading where
  visits : List Visit
  statements : Except SyntaxError (List Stmt)

/-- Reads all declarations of a list of tokens. -/
def Reading.ofTokens (room : Nat) (tokens : Array Token) : Reading :=
  match Parse.program (Descent.inRoom room) (Cursor.start tokens) with
  | .ok statements c => ⟨c.visits.reverse, .ok statements⟩
  | .error e c => ⟨c.visits.reverse, .error e⟩

/-- **Parsing.** The statements of a source text, in the given room. -/
def parse (room : Nat) (source : String) : Except CompileError (List Stmt) :=
  match tokenize source with
  | .error e => .error (.scan e)
  | .ok tokens =>
    match (Reading.ofTokens room tokens).statements with
    | .error e => .error (.syntactic e)
    | .ok statements => .ok statements

end Lox
