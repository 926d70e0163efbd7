import Lox.Console.Command

/-!
# The program

The command over the real files, the real input and the real clock of the machine it runs on.
Nothing is decided here.
-/

namespace Lox.Console

/-- Writes a transcript to the two outputs. -/
def Transcript.emit (t : Transcript) : IO Unit := do
  let output ← IO.getStdout
  let errors ← IO.getStderr
  output.putStr t.output
  output.flush
  errors.putStr t.errors
  errors.flush

/-- A host whose clock goes on from now, by a millisecond with every reading. -/
def currentHost (tracing : Bool) : IO Host := do
  let start ← IO.monoMsNow
  return { Host.standard with clock := fun n => Float.ofNat (start + n), tracing := tracing }

/-- The bytes of a regular file. -/
def readRegularFile (path : String) : IO (Option ByteArray) := do
  try
    let place := (← IO.currentDir) / path
    if (← place.metadata).type == .file then return some (← IO.FS.readBinFile place)
    return none
  catch _ => return none

/-- A dialogue, line by line, up to the end of the input. -/
partial def converse (tracing : Bool) (p : Prompt) : IO Unit := do
  let p := p.ask
  p.transcript.emit
  let p := { p with transcript := ⟨"", ""⟩ }
  let host ← currentHost tracing
  let line ← (← IO.getStdin).getLine
  if line.isEmpty then (p.finish host).transcript.emit
  else converse tracing (p.feed host line)

/-- The end of a command, with what it has written. -/
def conclude (ending : Ending × Transcript) : IO UInt32 := do
  ending.2.emit
  match ending.1 with
  | .exit code => return UInt32.ofNat code
  | .undecodable =>
    Transcript.emit ⟨"", "the source file is not valid UTF-8\n"⟩
    return 1

/-- Answers a request. -/
def answer : Request → IO UInt32
  | .help => conclude (.exit 0, ⟨helpText, ""⟩)
  | .misuse complaint => conclude (.exit exitMisuse, ⟨"", misuseText complaint⟩)
  | .run tracing none => do
    converse tracing (Prompt.new (← currentHost tracing))
    return 0
  | .run tracing (some path) => do
    match ← readRegularFile path with
    | none => conclude (.exit exitNoInput, ⟨"", missingFile path⟩)
    | some bytes => conclude (runSource (← currentHost tracing) bytes)

end Lox.Console

/-- Runs the command with the words of its command line. -/
def main (words : List String) : IO UInt32 :=
  Lox.Console.answer (Lox.Console.Request.ofWords words)
