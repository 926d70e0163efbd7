import Lox.Text.Decimal
import Lox.Text.Quoted

/-!
# Options of the command line

The command takes at most one argument, the source file, and two flags, each with a short and a long
spelling. Long spellings may be cut short, short ones may be run together, and `--` ends the flags.
No flag takes a value.

* `Word.read` — what a word of the command line is by itself;
* `Request.ofWords` — what all of them together ask for.
-/

namespace Lox.Console

/-- **Flags.** -/
inductive Flag
  | help | verbose
  deriving DecidableEq, Repr

namespace Flag

/-- The letter of the short spelling. -/
def letter : Flag → Char
  | help => 'h'
  | verbose => 'v'

/-- The long spelling. -/
def long : Flag → List Char
  | help => "--help".toList
  | verbose => "--verbose".toList

/-- Both spellings, in messages. -/
def label (f : Flag) : String := String.ofList ('-' :: f.letter :: '/' :: f.long)

/-- Both flags, in the order of the help text. -/
def all : List Flag := [help, verbose]

/-- The flag with this letter. -/
def ofLetter? (c : Char) : Option Flag := all.find? (·.letter == c)

end Flag

/-- **What is written behind a flag** in the same word: nothing, the letters of more flags, or a
value. -/
inductive Attached
  | nothing
  | letters (text : List Char)
  | value (text : List Char)

/-- **Words of a command line.** -/
inductive Word
  | argument (text : String)
  | separator
  | flag (flag : Flag) (attached : Attached)
  | unknown (text : String)

/-- Does a text begin with another? -/
def beginsWith (text front : List Char) : Bool := text.take front.length == front

/-- A negative number in the digits of any script, with an optional newline at the end. It is no
flag. -/
def isNegativeNumber (text : List Char) : Bool :=
  let text := if text.getLast? == some '\n' then text.dropLast else text
  match text with
  | '-' :: number =>
    match number.dropWhile Text.isDecimal with
    | [] => !number.isEmpty
    | '.' :: digits => !digits.isEmpty && digits.all Text.isDecimal
    | _ => false
  | _ => false

namespace Word

/-- A word with a dash in front that spells no flag. -/
def dashed (chars : List Char) : Word :=
  let text := String.ofList chars
  if isNegativeNumber chars || chars.contains ' ' then .argument text else .unknown text

/-- A word that begins with two dashes: a long spelling, perhaps cut short. A value stands behind
the sign `=`. -/
def readLong (chars : List Char) : Except String Word :=
  match Flag.all.filter (beginsWith ·.long (chars.takeWhile (· != '='))) with
  | [] => .ok (dashed chars)
  | [f] =>
    match chars.dropWhile (· != '=') with
    | [] => .ok (.flag f .nothing)
    | _ :: value => .ok (.flag f (.value value))
  | fs => .error ("ambiguous option: " ++ String.ofList chars ++ " could match " ++
      ", ".intercalate (fs.map fun f => String.ofList f.long))

/-- What is written behind the first letter of a word. The sign `=` in front of more letters is left
out; alone it gives the empty value. -/
def attachedLetters : List Char → Attached
  | [] => .nothing
  | ['='] => .value []
  | '=' :: letters => .letters letters
  | letters => .letters letters

/-- A word that begins with one dash: flags by their letters. -/
def readShort (chars : List Char) : Word :=
  match chars with
  | '-' :: c :: rest =>
    match Flag.ofLetter? c with
    | some f => .flag f (attachedLetters rest)
    | none => dashed chars
  | _ => dashed chars

/-- **Reads a word** in front of the separator. A lone dash is an argument. -/
def read (text : String) : Except String Word :=
  let chars := text.toList
  match chars with
  | '-' :: '-' :: _ => readLong chars
  | '-' :: _ :: _ => .ok (readShort chars)
  | _ => .ok (.argument text)

/-- **Reads a command line.** Behind the separator every word is an argument. -/
def readAll : List String → Except String (List Word)
  | [] => .ok []
  | text :: texts =>
    if text == "--" then .ok (.separator :: texts.map .argument)
    else
      match read text, readAll texts with
      | .error e, _ => .error e
      | .ok _, .error e => .error e
      | .ok word, .ok words => .ok (word :: words)

end Word

/-- **What a command line asks for.** -/
inductive Request
  | help
  | misuse (complaint : String)
  | run (verbose : Bool) (source : Option String)
  deriving DecidableEq, Repr

/-- The complaint about a value that a flag does not take. -/
def ignored (f : Flag) (value : List Char) : String :=
  "argument " ++ f.label ++ ": ignored explicit argument " ++ Text.quoted (String.ofList value)

/-- **Flags run together.** `letters` is what is written behind the flag `f`. The complaint about a
letter that is no flag names the flag in front of it. -/
def clustered (f : Flag) : (letters : List Char) → Except String (List Flag)
  | [] => .ok [f]
  | c :: rest =>
    match Flag.ofLetter? c with
    | none => .error (ignored f (c :: rest))
    | some g => (clustered g rest).map (f :: ·)

/-- The flags of one word. -/
def flagsOf (f : Flag) : Attached → Except String (List Flag)
  | .nothing => .ok [f]
  | .letters text => clustered f text
  | .value text => .error (ignored f text)

/-- **How far a command line is understood.** The place of the source file is `taken` when a file,
or the separator without a file, has been seen. -/
structure Progress where
  verbose : Bool
  taken : Bool
  source : Option String
  extras : List String

namespace Progress

/-- A word that has no place. -/
def extra (p : Progress) (text : String) : Progress := { p with extras := p.extras ++ [text] }

/-- Takes the place of the source file. -/
def take (p : Progress) (source : Option String) : Progress :=
  { p with taken := true, source := source }

/-- What is asked for when all words are read. -/
def request (p : Progress) : Request :=
  if p.extras.isEmpty then .run p.verbose p.source
  else .misuse ("unrecognized arguments: " ++ " ".intercalate p.extras)

/-- **Takes the words in order.** The separator goes with the source file, before or behind it;
where the place is taken already, it is one word too many. -/
def consume (p : Progress) : List Word → Request
  | [] => p.request
  | .unknown text :: words => (p.extra text).consume words
  | .flag f attached :: words =>
    match flagsOf f attached with
    | .error complaint => .misuse complaint
    | .ok flags =>
      if flags.contains .help then .help
      else Progress.consume { p with verbose := true } words
  | .separator :: words =>
    if p.taken then (p.extra "--").consume words
    else
      match words with
      | .argument text :: words => (p.take (some text)).consume words
      | words => (p.take none).consume words
  | .argument text :: words =>
    if p.taken then (p.extra text).consume words
    else
      match words with
      | .separator :: words => (p.take (some text)).consume words
      | words => (p.take (some text)).consume words

end Progress

/-- **What a command line asks for.** -/
def Request.ofWords (words : List String) : Request :=
  match Word.readAll words with
  | .error complaint => .misuse complaint
  | .ok words => Progress.consume ⟨false, false, none, []⟩ words

/-! ### Fixed texts -/

/-- The usage line. -/
def usage : String := "usage: loxenv [-h] [-v] [src]\n"

/-- The help text. -/
def helpText : String :=
  usage ++ "\nThe lox interpreter\n\npositional arguments:\n" ++
    "  src            the .lox file that contains lox code\n\noptions:\n" ++
    "  -h, --help     show this help message and exit\n" ++
    "  -v, --verbose  trace tokens, scopes and calls\n"

/-- The text about a command line that is not understood. -/
def misuseText (complaint : String) : String := usage ++ "loxenv: error: " ++ complaint ++ "\n"

end Lox.Console
