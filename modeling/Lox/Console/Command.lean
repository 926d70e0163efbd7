import Lox.Console.Options
import Lox.Console.Prompt

/-!
# The command

The command runs a source file, or opens a prompt without one. Its exit code tells what became of
the file.

* `normalPath` — how a path is written in messages;
* `runSource` — the run of a file with these bytes;
* `Command.run` — the whole command, over a given set of files and a given input.
-/

namespace Lox.Console

/-! ### Paths -/

/-- Splits a path at its slashes. `part` is what has been read of the current part, the latest
character first. -/
def partsFrom (part : List Char) : List Char → List (List Char)
  | [] => [part.reverse]
  | c :: rest => if c = '/' then part.reverse :: partsFrom [] rest else partsFrom (c :: part) rest

/-- The slashes that a path begins with: two stand for themselves, more are as good as one. -/
def rootOf (path : List Char) : List Char :=
  match path.takeWhile (· == '/') with
  | [] => []
  | ['/', '/'] => ['/', '/']
  | _ => ['/']

/-- **The normal form of a path,** without empty parts and parts that name the place itself. -/
def normalPath (path : String) : String :=
  let chars := path.toList
  let parts := (partsFrom [] chars).filter fun part => !part.isEmpty && part != ['.']
  let text := String.ofList (rootOf chars ++ ['/'].intercalate parts)
  if text.isEmpty then "." else text

/-! ### Source files -/

/-- Every end of line becomes a newline: a carriage return, alone or before a newline. `done` is
what has been read, the latest character first. -/
def unifyNewlines (done : List Char) : List Char → List Char
  | [] => done.reverse
  | '\r' :: '\n' :: rest => unifyNewlines ('\n' :: done) rest
  | '\r' :: rest => unifyNewlines ('\n' :: done) rest
  | c :: rest => unifyNewlines (c :: done) rest

/-- **The text of a source file,** if its bytes are valid UTF-8. A byte order mark is kept. -/
def sourceText? (bytes : ByteArray) : Option String :=
  (String.fromUTF8? bytes).map fun text => String.ofList (unifyNewlines [] text.toList)

/-- The exit code of a run. -/
def exitCode : Status → Nat
  | .ok => 0
  | .compileError => 65
  | .runtimeError => 70
  | .crashed => 1

/-- The exit code when there is no source file. -/
def exitNoInput : Nat := 66

/-- The exit code when the command line is not understood. -/
def exitMisuse : Nat := 2

/-- **How a command ends.** -/
inductive Ending
  | exit (code : Nat)
  | undecodable
  deriving DecidableEq, Repr

/-- **Runs a source file** with these bytes in a fresh session. -/
def runSource (host : Host) (bytes : ByteArray) : Ending × Transcript :=
  let (t, m) := (Transcript.mk "" "").collect (Session.new host)
  match sourceText? bytes with
  | none => (.undecodable, t)
  | some source =>
    let (status, t, _) := t.run host m source
    (.exit (exitCode status), t)

/-- The complaint about a path that names no file. -/
def missingFile (path : String) : String := "could not find src file: " ++ normalPath path ++ "\n"

/-- **The command.** `file` gives the bytes of the file with a normal path, and `input` is what can
be read from the standard input. -/
def Command.run (host : Host) (file : String → Option ByteArray) (input : String)
    (words : List String) : Ending × Transcript :=
  match Request.ofWords words with
  | .help => (.exit 0, ⟨helpText, ""⟩)
  | .misuse complaint => (.exit exitMisuse, ⟨"", misuseText complaint⟩)
  | .run verbose source =>
    let host := { host with tracing := verbose }
    match source with
    | none => (.exit 0, Prompt.dialogue host input)
    | some path =>
      match file (normalPath path) with
      | none => (.exit exitNoInput, ⟨"", missingFile path⟩)
      | some bytes => runSource host bytes

end Lox.Console
