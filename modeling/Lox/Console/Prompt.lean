import Lox.Interpreter
import Lox.Text.Blank

/-!
# The prompt

A dialogue with a session. Lines are gathered until a blank one, and run together then; whatever
becomes of them, the dialogue goes on.

* `Transcript` — what has been written to the two outputs;
* `Prompt.feed`, `Prompt.finish` — one more line, and the end of the input;
* `Prompt.dialogue` — a whole input.
-/

namespace Lox.Console

/-- **Transcripts** of the two outputs. -/
structure Transcript where
  output : String
  errors : String
  deriving DecidableEq, Repr, Inhabited

/-- Adds to the output. -/
def Transcript.say (t : Transcript) (text : String) : Transcript :=
  { t with output := t.output ++ text }

/-- Adds to the errors. -/
def Transcript.warn (t : Transcript) (text : String) : Transcript :=
  { t with errors := t.errors ++ text }

/-- The line that reports an event on the command line. -/
def eventLine (event : Event) : String := "DEBUG loxenv: " ++ event.message ++ "\n"

/-- **Moves what a session has written** into a transcript, and leaves the session without it. -/
def Transcript.collect (t : Transcript) (m : Session) : Transcript × Session :=
  let lines := String.join (m.rest.events.reverse.map eventLine)
  ((t.say m.rest.output).warn lines, { m with rest := { m.rest with output := "", events := [] } })

/-- Adds the complaint of a report. -/
def Transcript.report (t : Transcript) (r : Report) : Transcript :=
  match r.complaint with
  | none => t
  | some complaint => t.warn (complaint ++ "\n")

/-- **Runs a source text** and collects what it writes. -/
def Transcript.run (t : Transcript) (host : Host) (m : Session) (source : String) :
    Status × Transcript × Session :=
  let (report, m) := m.run host source
  let (t, m) := t.collect m
  (report.status, t.report report, m)

/-- **Prompts.** The pending lines are those since the last blank one, the latest first. -/
structure Prompt where
  session : Session
  pending : List String
  transcript : Transcript

namespace Prompt

/-- What a prompt opens with. -/
def banner : String := "The Lox Interpreter\n"

/-- A prompt over a fresh session. -/
def new (host : Host) : Prompt :=
  let (t, m) := (Transcript.mk banner "").collect (Session.new host)
  ⟨m, [], t⟩

/-- **Asks for a line.** The mark tells whether lines are pending. -/
def ask (p : Prompt) : Prompt :=
  { p with transcript := p.transcript.say (if p.pending.isEmpty then ">>>  " else "...  ") }

/-- **Runs the pending lines** together. -/
def submit (host : Host) (p : Prompt) : Prompt :=
  let (_, t, m) := p.transcript.run host p.session (String.join p.pending.reverse)
  ⟨m, [], t⟩

/-- Runs the pending lines, if there are any. -/
def flush (host : Host) (p : Prompt) : Prompt := if p.pending.isEmpty then p else p.submit host

/-- **Takes one line,** with its newline if it has one. -/
def feed (host : Host) (p : Prompt) (line : String) : Prompt :=
  if Text.isBlank line then p.flush host else { p with pending := line :: p.pending }

/-- **Takes the end of the input.** -/
def finish (host : Host) (p : Prompt) : Prompt :=
  let p := p.flush host
  { p with transcript := p.transcript.say "\n" }

end Prompt

/-- The lines of a text, each with its newline; only the last one may lack it. `line` is what has
been read of the current line, the latest character first. -/
def linesFrom (line : List Char) : List Char → List String
  | [] => if line.isEmpty then [] else [String.ofList line.reverse]
  | c :: rest =>
    if c = '\n' then String.ofList (c :: line).reverse :: linesFrom [] rest
    else linesFrom (c :: line) rest

/-- The lines of a text. -/
def lines (text : String) : List String := linesFrom [] text.toList

/-- **A whole dialogue.** Every line is asked for, and so is the end of the input. -/
def Prompt.dialogue (host : Host) (input : String) : Transcript :=
  let p := (lines input).foldl (fun p line => p.ask.feed host line) (Prompt.new host)
  (p.ask.finish host).transcript

end Lox.Console
