import Lox.Console.Command
import Lox.Proofs.Verdict.Closed

/-!
# Dialogues

What the prompt runs is settled by the lines of its input alone: every maximal block of lines that
are not blank, each of them once, and all of them in one session. Nothing that becomes of a block
changes this.

* `IsLines`, `IsBlocks` — the lines of a text, and their blocks;
* `Exchange`, `exchanges` — what the prompt does about each line, from the lines alone;
* `Exchange.carryOut` — what an exchange writes, and the session after it;
* `Prompt.carryOut_exchanges` — a prompt carries out the exchanges of its lines;
* `Prompt.Conversation`, `dialogue_blocks` — dialogues as a whole.
-/

namespace Lox.Console

open Text (isBlank)

/-! ### Lines -/

/-- **The lines of a text.** A newline ends a line and belongs to it, and no other character ends
one; what stands behind the last newline is a line too, unless nothing does. -/
inductive IsLines : String → List String → Prop
  | none : IsLines "" []
  | last {line : String} (hline : '\n' ∉ line.toList) (hne : line ≠ "") : IsLines line [line]
  | more {line rest : String} {lines : List String} (hline : '\n' ∉ line.toList)
    (hrest : IsLines rest lines) : IsLines (line ++ "\n" ++ rest) ((line ++ "\n") :: lines)

theorem isLines_linesFrom (rest : List Char) {line : List Char} (hline : '\n' ∉ line) :
    IsLines (String.ofList (line.reverse ++ rest)) (linesFrom line rest) := by
  induction rest generalizing line with
  | nil =>
    cases line with
    | nil => exact .none
    | cons c line =>
      rw [List.append_nil]
      exact .last (by simpa [and_comm] using hline) (by simp [← String.toList_inj])
  | cons c rest ih =>
    rw [linesFrom]
    -- a newline ends the line that is carried along, any other character is one more of it
    split
    case isTrue hc =>
      subst hc
      have hsplit : String.ofList (line.reverse ++ '\n' :: rest) =
          String.ofList line.reverse ++ "\n" ++ String.ofList rest := by
        simp [← String.toList_inj]
      have hend : String.ofList ('\n' :: line).reverse = String.ofList line.reverse ++ "\n" := by
        simp
      rw [hsplit, hend]
      exact .more (by simpa using hline) (ih (List.not_mem_nil))
    case isFalse hc =>
      have hmore : IsLines (String.ofList ((c :: line).reverse ++ rest))
          (linesFrom (c :: line) rest) := ih (by simp [hline, Ne.symm hc])
      rwa [List.reverse_cons, List.append_assoc] at hmore

theorem isLines_lines (text : String) : IsLines text (lines text) := by
  simpa [lines] using isLines_linesFrom text.toList List.not_mem_nil

/-! ### Blocks -/

/-- **The maximal blocks** of consecutive lines that are not blank. Behind each of them stands a
blank line or nothing. -/
inductive IsBlocks : List String → List (List String) → Prop
  | none : IsBlocks [] []
  | skip {line : String} {lines : List String} {blocks : List (List String)}
    (hline : isBlank line = true) (h : IsBlocks lines blocks) : IsBlocks (line :: lines) blocks
  | block {block lines : List String} {blocks : List (List String)} (hne : block ≠ [])
    (hblock : ∀ line ∈ block, isBlank line = false) (hlines : ∀ line ∈ lines.head?, isBlank line)
    (h : IsBlocks lines blocks) : IsBlocks (block ++ lines) (block :: blocks)

theorem isBlank_join (lines : List String) :
    isBlank (String.join lines) = lines.all isBlank := by
  simp only [isBlank, String.toList_join, List.all_flatMap]
  rfl

/-- No block is blank. -/
theorem IsBlocks.isBlank_join_eq_false {lines : List String} {blocks : List (List String)}
    (h : IsBlocks lines blocks) : ∀ block ∈ blocks, isBlank (String.join block) = false := by
  induction h with
  | none => exact nofun
  | skip _ _ ih => exact ih
  | block hne hblock _ _ ih =>
    refine List.forall_mem_cons.2 ⟨?_, ih⟩
    obtain ⟨line, hline⟩ := List.exists_mem_of_ne_nil _ hne
    rw [isBlank_join, List.all_eq_false]
    exact ⟨line, hline, by simp [hblock line hline]⟩

/-! ### Exchanges -/

/-- **Exchanges.** What the prompt does about a line, or about the end of the input: whether it
shows that lines are pending, and what it runs when it has read on. -/
structure Exchange where
  pending : Bool
  source : Option String

/-- The exchange in which pending lines are run, if there are any. -/
def Exchange.flushing (pending : List String) : Exchange :=
  ⟨!pending.isEmpty, if pending.isEmpty then none else some (String.join pending.reverse)⟩

/-- **The exchanges** about lines and the end of the input. `pending` holds the lines since the last
blank one, the latest first. -/
def exchanges (pending : List String) : List String → List Exchange
  | [] => [.flushing pending]
  | line :: rest =>
    if isBlank line then .flushing pending :: exchanges [] rest
    else ⟨!pending.isEmpty, none⟩ :: exchanges (line :: pending) rest

/-- **Lines are pending** exactly behind a line that is not blank. -/
theorem pending_exchanges (pending lines : List String) :
    (exchanges pending lines).map (·.pending) =
      (!pending.isEmpty) :: lines.map fun line => !isBlank line := by
  induction lines generalizing pending with
  | nil => rfl
  | cons line rest ih =>
    cases hline : isBlank line <;> simp [exchanges, Exchange.flushing, hline, ih]

/-- **Something is run** at a blank line and at the end, if lines are pending. -/
theorem isSome_source_exchanges (pending lines : List String) :
    (exchanges pending lines).map (·.source.isSome) =
      List.zipWith (· && ·) ((!pending.isEmpty) :: lines.map fun line => !isBlank line)
        (lines.map isBlank ++ [true]) := by
  induction lines generalizing pending with
  | nil => cases pending <;> rfl
  | cons line rest ih =>
    cases hline : isBlank line <;> cases pending <;> simp [exchanges, Exchange.flushing, hline, ih]

/-- A blank line or the end completes the block of the pending lines. -/
theorem IsBlocks.flush {pending lines : List String} {blocks : List (List String)}
    (hpending : ∀ line ∈ pending, isBlank line = false)
    (hlines : ∀ line ∈ lines.head?, isBlank line) (h : IsBlocks lines blocks) :
    ∃ blocks', IsBlocks (pending.reverse ++ lines) blocks' ∧
      blocks'.map String.join =
        (Exchange.flushing pending).source.toList ++ blocks.map String.join := by
  cases pending with
  | nil => exact ⟨blocks, h, rfl⟩
  | cons line pending =>
    refine ⟨_, .block (by simp) ?_ hlines h, rfl⟩
    exact fun line hline => hpending line (List.mem_reverse.1 hline)

/-- **What is run** are the blocks. -/
theorem exists_isBlocks_exchanges (pending lines : List String)
    (hpending : ∀ line ∈ pending, isBlank line = false) :
    ∃ blocks, IsBlocks (pending.reverse ++ lines) blocks ∧
      (exchanges pending lines).filterMap (·.source) = blocks.map String.join := by
  simp only [List.filterMap_eq_flatMap_toList]
  -- induction on the lines that are left, with the pending ones carried along
  induction lines generalizing pending with
  | nil =>
    obtain ⟨blocks, h, hsources⟩ := IsBlocks.none.flush hpending (by simp)
    exact ⟨blocks, h, by simp [exchanges, hsources]⟩
  | cons line rest ih =>
    cases hline : isBlank line with
    | true =>
      -- a blank line completes the block of the pending ones, if there are any
      obtain ⟨blocks, h, hsources⟩ := ih [] nofun
      obtain ⟨blocks', h', hsources'⟩ :=
        (IsBlocks.skip hline h).flush hpending (by simpa using hline)
      exact ⟨blocks', h', by simp [exchanges, hline, hsources, hsources']⟩
    | false =>
      -- any other line is one more pending one
      obtain ⟨blocks, h, hsources⟩ := ih _ (List.forall_mem_cons.2 ⟨hline, hpending⟩)
      rw [List.reverse_cons, List.append_assoc] at h
      exact ⟨blocks, h, by simp [exchanges, hline, hsources]⟩

/-! ### Carrying out -/

/-- What the prompt shows before it reads on. -/
def Exchange.mark (e : Exchange) : String := if e.pending then "...  " else ">>>  "

/-- **Carries out an exchange** in a session. A text that is run leaves the session in which the
next exchange takes place. -/
def Exchange.carryOut (host : Host) (e : Exchange) (before : Session × Transcript) :
    Session × Transcript :=
  let t := before.2.say e.mark
  match e.source with
  | none => (before.1, t)
  | some source =>
    let (_, t, m) := t.run host before.1 source
    (m, t)

variable {host : Host}

theorem Prompt.carryOut_flushing (p : Prompt) :
    (Exchange.flushing p.pending).carryOut host (p.session, p.transcript) =
      ((p.ask.flush host).session, (p.ask.flush host).transcript) := by
  obtain ⟨m, pending, t⟩ := p
  cases pending <;> rfl

theorem Prompt.pending_flush (p : Prompt) : (p.ask.flush host).pending = [] := by
  obtain ⟨m, pending, t⟩ := p
  cases pending <;> rfl

/-- **A prompt carries out the exchanges** of its lines. -/
theorem Prompt.carryOut_exchanges (p : Prompt) (lines : List String) :
    ((lines.foldl (fun p line => p.ask.feed host line) p).ask.finish host).transcript =
      ((exchanges p.pending lines).foldl (fun before e => e.carryOut host before)
        (p.session, p.transcript)).2.say "\n" := by
  induction lines generalizing p with
  | nil => rw [exchanges, List.foldl_cons, p.carryOut_flushing]; rfl
  | cons line rest ih =>
    rw [List.foldl_cons, ih, exchanges, Prompt.feed]
    split
    case isTrue => rw [List.foldl_cons, p.carryOut_flushing, p.pending_flush]
    case isFalse =>
      rw [List.foldl_cons]
      cases hpending : p.pending <;>
        simp only [Exchange.carryOut, Exchange.mark, Prompt.ask, hpending] <;> rfl

/-! ### Dialogues -/

/-- **Exchanges leave a session in order.** -/
theorem inOrder_carryOut {before : Session × Transcript} (h : before.1.InOrder host)
    (e : Exchange) : (e.carryOut host before).1.InOrder host := by
  cases hsource : e.source with
  | none => simpa only [Exchange.carryOut, hsource] using h
  | some source =>
    simp only [Exchange.carryOut, hsource]
    -- what is collected is taken from the session, but its scopes stay
    exact (h.run source).of_store_eq rfl

theorem inOrder_foldl_carryOut (exchanges : List Exchange) {start : Session × Transcript}
    (hstart : start.1.InOrder host) :
    (exchanges.foldl (fun before e => e.carryOut host before) start).1.InOrder host := by
  induction exchanges generalizing start with
  | nil => exact hstart
  | cons e rest ih => exact ih (inOrder_carryOut hstart e)

/-- **What has been said and run** after some exchanges, from the banner on. -/
def Prompt.after (host : Host) (exchanges : List Exchange) : Session × Transcript :=
  exchanges.foldl (fun before e => e.carryOut host before)
    ((Prompt.new host).session, (Prompt.new host).transcript)

theorem Prompt.inOrder_after (exchanges : List Exchange) :
    (Prompt.after host exchanges).1.InOrder host :=
  inOrder_foldl_carryOut exchanges ((Session.inOrder_new host).of_store_eq rfl)

/-- **Conversations.** What a dialogue on an input consists of. -/
structure Prompt.Conversation (host : Host) (input : String) (blocks : List (List String))
    (exchanges : List Exchange) : Prop where
  /-- The input is read line by line. -/
  isLines : IsLines input (lines input)
  isBlocks : IsBlocks (lines input) blocks
  /-- Every block is run once, in order, as one text. -/
  sources : exchanges.filterMap (·.source) = blocks.map String.join
  not_blank : ∀ e ∈ exchanges, ∀ source ∈ e.source, isBlank source = false
  /-- There is one exchange for each line and one for the end of the input. Lines are pending
  exactly behind a line that is not blank. -/
  pending : exchanges.map (·.pending) = false :: (lines input).map fun line => !isBlank line
  /-- Pending lines are run at a blank line and at the end. -/
  runs : exchanges.map (·.source.isSome) =
    List.zipWith (· && ·) (false :: (lines input).map fun line => !isBlank line)
      ((lines input).map isBlank ++ [true])
  /-- All of them are run in one session, each behind what the earlier ones have left. -/
  transcript : Prompt.dialogue host input = (Prompt.after host exchanges).2.say "\n"
  /-- No run that ends is a crash. -/
  status : ∀ before e behind source, exchanges = before ++ e :: behind → e.source = some source →
    ((Prompt.after host before).1.interpret host source).1 ≠ .interrupted .unfinished →
      ((Prompt.after host before).1.run host source).1.status ≠ .crashed

/-- **Dialogues run the blocks of their input.** Each maximal block of lines that are not blank is
run once, in order and in one session, and nothing else is; the prompt is shown once for each line
and once for the end of the input, and tells whether a block is pending. The exchanges depend on the
lines alone, so that no outcome changes what is run later, and the command exits as after a
success. -/
theorem dialogue_blocks (input : String) : ∃ blocks exchanges,
    (∀ host, Prompt.Conversation host input blocks exchanges) ∧
    ∀ host file words verbose, Request.ofWords words = .run verbose none →
      Command.run host file input words =
        (.exit 0, ((Prompt.after { host with tracing := verbose } exchanges).2.say "\n")) := by
  obtain ⟨blocks, hblocks, hsources⟩ : ∃ blocks, IsBlocks (lines input) blocks ∧
      (exchanges [] (lines input)).filterMap (·.source) = blocks.map String.join :=
    exists_isBlocks_exchanges [] (lines input) nofun
  have htranscript : ∀ host, Prompt.dialogue host input =
      (Prompt.after host (exchanges [] (lines input))).2.say "\n" :=
    fun host => (Prompt.new host).carryOut_exchanges (lines input)
  refine ⟨blocks, exchanges [] (lines input), fun host => ?_, ?_⟩
  · exact {
      isLines := isLines_lines input
      isBlocks := hblocks
      sources := hsources
      not_blank := by
        intro e he source hsource
        -- what is run is a block, and no block is blank
        have hmem : source ∈ blocks.map String.join :=
          hsources ▸ List.mem_filterMap.2 ⟨e, he, hsource⟩
        obtain ⟨block, hblock, rfl⟩ := List.mem_map.1 hmem
        exact hblocks.isBlank_join_eq_false block hblock
      pending := pending_exchanges [] (lines input)
      runs := isSome_source_exchanges [] (lines input)
      transcript := htranscript host
      status := fun before e behind source _ _ hends =>
        ((Prompt.inOrder_after before).closed_interpret source).status_ne_crashed hends }
  · intro host file words verbose hwords
    rw [Command.run, hwords, ← htranscript]

/-- A dialogue of two blocks, of which the first one fails and the second one has two lines. Nothing
ends the last line. -/
theorem dialogue_blocks_failing :
    let input := "print a;\n \t\nprint 1;\nprint 2;"
    Request.ofWords ["-v"] = .run true none ∧ ∃ blocks exchanges,
      Prompt.Conversation Host.standard input blocks exchanges ∧
      exchanges.map (·.pending) = [false, true, false, true, true] ∧
      exchanges.map (·.source.isSome) = [false, true, false, false, true] ∧
      Command.run Host.standard (fun _ => none) input ["-v"] =
        (.exit 0,
          ((Prompt.after { Host.standard with tracing := true } exchanges).2.say "\n")) := by
  intro input
  have hwords : Request.ofWords ["-v"] = .run true none := by decide +kernel
  obtain ⟨blocks, exchanges, hconversation, hcommand⟩ := dialogue_blocks input
  have h := hconversation Host.standard
  exact ⟨hwords, blocks, exchanges, h, h.pending.trans (by decide +kernel),
    h.runs.trans (by decide +kernel), hcommand Host.standard _ ["-v"] true hwords⟩

end Lox.Console
