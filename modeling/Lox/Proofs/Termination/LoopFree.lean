import Lox.Proofs.Grammar.Distribution
import Lox.Proofs.Heap.Histories
import Lox.Proofs.Observation
import Lox.Proofs.Termination.Evaluation

/-!
# Programs without loops end

Whatever a session without loops is given, every run in it comes to an end. However its functions call
themselves and each other, and wherever they are stored or passed, no more than a fixed number of
calls is in progress at once, and the bodies that are called come from the inputs of the session. So
the room that all runs need is known from the inputs alone.

* `Input.isLoopFree`, `Input.Within` — inputs without loops, and of limited size;
* `Session.ends_feed`, `Session.ends_feedAll` — the inputs of a session, one and all;
* `loop_free_ends` — the statement for whole sessions.
-/

namespace Lox

/-! ### Inputs -/

/-- **Inputs without loops:** a tree without loops, or a source text that is read as none with a
loop. -/
def Input.LoopFree : Input → Prop
  | .source text => ∀ room program, parse room text = .ok program →
      Stmt.areLoopFree program = true
  | .tree s => s.isLoopFree = true

/-- **Inputs of limited size,** in whatever room they are read. -/
def Input.Within (size : Nat) : Input → Prop
  | .source text => ∀ room program, parse room text = .ok program → sizeOf program ≤ size
  | .tree s => sizeOf s ≤ size

theorem Input.Within.mono {size size' : Nat} {input : Input} (h : input.Within size)
    (hsize : size ≤ size') : input.Within size' := by
  cases input with
  | source text => exact fun room program hparse => (h room program hparse).trans hsize
  | tree s => exact le_trans h hsize

/-- Every input has a size, since a text is read as one program at most. -/
theorem Input.exists_within (input : Input) : ∃ size, input.Within size := by
  cases input with
  | tree s => exact ⟨sizeOf s, le_rfl⟩
  | source text =>
    by_cases hread : ∃ room program, parse room text = .ok program
    · obtain ⟨room, program, hprogram⟩ := hread
      refine ⟨sizeOf program, fun room' program' hprogram' => ?_⟩
      rw [parse_unique hprogram hprogram']
    · exact ⟨0, fun room program hprogram => absurd ⟨room, program, hprogram⟩ hread⟩

/-- So do several inputs. -/
theorem Input.exists_all_within (inputs : List Input) :
    ∃ size, ∀ input ∈ inputs, input.Within size := by
  induction inputs with
  | nil => exact ⟨0, fun input hinput => nomatch hinput⟩
  | cons input inputs ih =>
    obtain ⟨size, hinput⟩ := input.exists_within
    obtain ⟨size', hinputs⟩ := ih
    refine ⟨max size size', List.forall_mem_cons.2 ⟨hinput.mono (le_max_left ..), ?_⟩⟩
    exact fun other hother => (hinputs other hother).mono (le_max_right ..)

/-! ### Sessions -/

/-- **A verdict on a run that ended.** -/
def Verdict.Ended (verdict : Verdict) : Prop :=
  verdict ≠ .interrupted .unfinished ∧ verdict.isExhausted = false

namespace Session

variable {size : Nat} {m : Session}

/-- **Sessions between two runs:** no call is in progress, and all closures are limited. -/
structure Resting (size : Nat) (m : Session) : Prop where
  limited : m.Limited size
  frames_eq : m.rest.frames = 0

theorem resting_new (host : Host) (size : Nat) : Resting size (Session.new host) := by
  obtain ⟨events, hnew⟩ := Session.exists_new_eq host
  rw [hnew]
  refine ⟨?_, rfl⟩
  have hbare : Session.bare.store.Keeps (Value.Limited size) :=
    fun c hc => by simp [Session.bare, Store.newNative, Store.newScope, Store.empty] at hc
  have hclock : (Value.native ⟨0, "clock", 0⟩).Limited size := trivial
  exact hbare.declare hclock ⟨0⟩ "clock" false

/-- Events are of no importance. -/
theorem Resting.events (hm : Resting size m) (events : List Event) :
    Resting size ⟨m.store, { m.rest with events := events }⟩ := ⟨hm.limited, hm.frames_eq⟩

/-- **A run that ends** gets such a verdict, and leaves the session at rest. -/
theorem Resting.conclude (hm : Resting size m) {act : Exec Unit}
    (h : Ends size 0 (fun _ => True) act) :
    (Session.conclude (act m)).1.Ended ∧ Resting size (Session.conclude (act m)).2 := by
  have hact := h m hm.limited hm.frames_eq
  cases hresult : act m with
  | ok _ m' =>
    rw [hresult] at hact
    exact ⟨⟨nofun, rfl⟩, hact.2.1, hact.2.2⟩
  | error e m' =>
    rw [hresult] at hact
    obtain ⟨he, hlimited, hframes⟩ := hact
    refine ⟨⟨?_, ?_⟩, hlimited, hframes⟩
    · rintro ⟨⟩
      exact he
    · cases e with
      | failed error => exact beq_eq_false_iff_ne.2 he
      | returning | misplaced | unfinished => rfl

variable {host : Host} (hroom : 4 * size + callRoom size 0 ≤ host.room)

include hroom

/-- **A program** of limited size. -/
theorem Resting.executeProgram (hm : Resting size m) {program : List Stmt}
    (hloops : Stmt.areLoopFree program = true) (hsize : sizeOf program ≤ size) :
    (executeProgram host m program).1.Ended ∧ Resting size (executeProgram host m program).2 := by
  refine hm.conclude (ends_executeAll fun s hs => ?_)
  have hless := List.sizeOf_lt_of_mem hs
  exact (ends_recurse host size host.room 0).execute s m.rest.globals (by decide)
    (Stmt.areLoopFree_iff.1 hloops s hs) (by omega) (by omega)

/-- **Whatever a session is given.** A text that is rejected is not run at all. -/
theorem Resting.feed (hm : Resting size m) {input : Input} (hloops : input.LoopFree)
    (hsize : input.Within size) :
    (feed host m input).1.Ended ∧ Resting size (feed host m input).2 := by
  cases input with
  | tree s =>
    have hs : sizeOf s ≤ size := hsize
    exact hm.conclude ((ends_recurse host size host.room 0).execute s m.rest.globals (by decide)
      hloops hs (by omega))
  | source text =>
    obtain ⟨events, ⟨e, -, hrun⟩ | ⟨program, hparse, hrun⟩⟩ := interpret_parse host m text
    · change (m.interpret host text).1.Ended ∧ Resting size (m.interpret host text).2
      rw [hrun]
      exact ⟨⟨nofun, rfl⟩, hm.events events⟩
    · change (m.interpret host text).1.Ended ∧ Resting size (m.interpret host text).2
      rw [hrun]
      exact (hm.events events).executeProgram hroom (hloops host.room program hparse)
        (hsize host.room program hparse)

/-- **Whole sessions.** -/
theorem resting_feedAll {inputs : List Input} (hloops : ∀ input ∈ inputs, input.LoopFree)
    (hsize : ∀ input ∈ inputs, input.Within size) :
    (∀ verdict ∈ (feedAll host inputs).1, verdict.Ended) ∧ Resting size (feedAll host inputs).2 := by
  induction inputs using List.reverseRecOn with
  | nil => exact ⟨fun verdict hverdict => (nomatch hverdict), resting_new host size⟩
  | append_singleton inputs input ih =>
    obtain ⟨hverdicts, hm⟩ := ih (fun other hother => hloops other (List.mem_append_left _ hother))
      fun other hother => hsize other (List.mem_append_left _ hother)
    have hall : feedAll host (inputs ++ [input]) = feedNext host (feedAll host inputs) input :=
      List.foldl_append
    obtain ⟨hended, hm'⟩ := hm.feed hroom (hloops input (List.mem_append_right _ List.mem_cons_self))
      (hsize input (List.mem_append_right _ List.mem_cons_self))
    rw [hall]
    refine ⟨fun verdict hverdict => ?_, hm'⟩
    obtain hverdict | hverdict := List.mem_append.1 hverdict
    · exact hverdicts verdict hverdict
    · exact List.mem_singleton.1 hverdict ▸ hended

end Session

/-- **Programs without loops always end.** If no input of a session has a loop, there is some room in
which every run of the session comes to a result or an error, in every host that has so much of it:
no loop is given up, however few passes the host grants, and nothing is cut short for want of room. -/
theorem loop_free_ends (inputs : List Input) (h : ∀ input ∈ inputs, input.LoopFree) :
    ∃ need, ∀ host : Host, need ≤ host.room →
      ∀ verdict ∈ (Session.feedAll host inputs).1,
        verdict ≠ .interrupted .unfinished ∧ verdict.isExhausted = false := by
  obtain ⟨size, hsize⟩ := Input.exists_all_within inputs
  exact ⟨4 * size + callRoom size 0, fun host hroom =>
    (Session.resting_feedAll hroom h hsize).1⟩

/-- A function that calls whatever it is given with itself, first with itself and then through a
variable that is assigned to later. -/
theorem loop_free_ends_self :
    let first : Input := .source "fun f(g) \x7b return g(g); \x7d f(f);"
    let second : Input := .source "var h; fun k() \x7b h(); \x7d h = k; k();"
    first.LoopFree ∧ second.LoopFree ∧
      ∃ need, ∀ host : Host, need ≤ host.room →
        ∀ verdict ∈ (Session.feedAll host [first, second]).1,
          verdict ≠ .interrupted .unfinished ∧ verdict.isExhausted = false := by
  intro first second
  -- a text that is read without loops in one room is so in every room
  have hloops : ∀ {text : String},
      (parse 100 text).toOption.map Stmt.areLoopFree = some true → (Input.source text).LoopFree := by
    intro text hread room program hprogram
    cases hparse : parse 100 text with
    | error e => rw [hparse] at hread; contradiction
    | ok program' =>
      rw [hparse] at hread
      rw [parse_unique hparse hprogram]
      exact Option.some.inj hread
  have hfirst : first.LoopFree := hloops (by decide +kernel)
  have hsecond : second.LoopFree := hloops (by decide +kernel)
  refine ⟨hfirst, hsecond, loop_free_ends [first, second] ?_⟩
  simp [hfirst, hsecond]

end Lox
