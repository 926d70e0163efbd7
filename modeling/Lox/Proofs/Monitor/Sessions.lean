import Lox.Proofs.Lexical.Place
import Lox.Proofs.Monitor.Watched

/-!
# Sessions that are watched

What a monitor sees of a whole session: between two inputs nothing is in progress, and whatever error
interrupts an input is explained by a node of that input or of an earlier one.

* `Input.Contains` — the nodes of an input;
* `Monitor.Premises.session` — every node comes from the input with its number;
* `Monitor.sound_feed`, `Monitor.sound_feedAll` — one input, and all of them.
-/

namespace Lox

/-! ### The nodes of an input -/

/-- **The nodes of an input** are those of its program. -/
def Input.Contains (host : Host) (input : Input) (node : Node) : Prop :=
  ∃ p, nodeAt [input.program host] p = some node

theorem Input.Contains.part {host : Host} {input : Input} {node part : Node}
    (h : input.Contains host node) {i : Nat} (hpart : node.part i = some part) :
    input.Contains host part := by
  obtain ⟨p, hp⟩ := h
  exact ⟨p.part i, (nodeAt_part_of hp i).trans hpart⟩

/-- The statements of the program are nodes. -/
theorem Input.contains_of_mem {host : Host} {input : Input} {s : Stmt}
    (h : s ∈ input.program host) : input.Contains host (.stmt s) := by
  obtain ⟨i, hi⟩ := List.mem_iff_getElem?.1 h
  exact ⟨⟨0, [i]⟩, congrArg (Option.map Node.stmt) hi⟩

namespace Monitor

/-- **The premises of a session.** Nothing is in progress before it, and every node is from the input
with its number. -/
def Premises.session (host : Host) (inputs : List Input) : Premises where
  base := 0
  fits chunk node := ∃ input, inputs[chunk]? = some input ∧ input.Contains host node
  inherited := by
    rintro chunk node i part ⟨input, hinput, hnode⟩ hpart
    exact ⟨input, hinput, hnode.part hpart⟩

variable {T : Premises} {m m' : Monitor}

/-- **What a verdict comes to.** -/
def Concludes (T : Premises) (m : Monitor) (verdict : Verdict) (m' : Monitor) : Prop :=
  Sound T m' ∧ Later m m' ∧ ∀ e, verdict = .interrupted e → Explained T m' e

theorem Runs.concludes {m₀ : Monitor} {act : Monitored Unit} (hlater : Later m₀ m)
    (h : Runs T m (fun _ _ => True) (fun _ => False) act) :
    Concludes T m₀ (Session.conclude (act m)).1 (Session.conclude (act m)).2 := by
  unfold Runs at h
  cases hact : act m with
  | ok _ m' =>
    rw [hact] at h
    exact ⟨h.1.toSound, hlater.trans h.2.1, fun e he => nomatch he⟩
  | error e m' =>
    rw [hact] at h
    obtain ⟨hm', hlater', he⟩ := h
    refine ⟨hm', hlater.trans hlater', fun e' he' => ?_⟩
    obtain rfl := Verdict.interrupted.inj he'
    obtain he | ⟨-, -, -, hfalse⟩ := he
    · exact he
    · exact hfalse.elim

/-- **A source text.** If it is rejected, nothing is begun. -/
theorem concludes_interpret (hm : Ready T m) (host : Host) {chunk : Nat} {source : String}
    (hsource : ∀ node, (Input.source source).Contains host node → T.fits chunk node) :
    Concludes T m (scribe.interpret host chunk m source).1
      (scribe.interpret host chunk m source).2 := by
  -- events are no steps
  obtain ⟨events, hread⟩ := m.plain.exists_read_eq host source
  obtain ⟨hm', hlater⟩ :=
    hm.of_store (s := ⟨m.store, { m.rest.console with events := events }⟩) rfl (.refl _) hm.vouched
  rw [Scribe.interpret, hread]
  cases hparse : parse host.room source with
  | error e => exact ⟨hm'.toSound, hlater, fun _ he => nomatch he⟩
  | ok program =>
    have hprogram : ∀ s ∈ program, T.fits chunk (.stmt s) := by
      intro s hs
      refine hsource _ (Input.contains_of_mem ?_)
      rw [Input.program, hparse]
      exact hs
    exact (runs_executeAll (watched_evaluator host host.room 0) hprogram hm').concludes hlater

/-- **Whatever a session is given.** -/
theorem sound_feed (hm : Sound T m) (host : Host) {chunk : Nat} {input : Input}
    (hinput : ∀ node, input.Contains host node → T.fits chunk node) :
    Concludes T m (scribe.feed host chunk m input).1 (scribe.feed host chunk m input).2 := by
  -- whoever was to blame for an earlier input is not to blame for this one
  have hready : Ready T (scribe.told .input m) := ⟨⟨hm.counted, hm.seen, hm.vouched⟩, rfl⟩
  have hconcludes : Concludes T (scribe.told .input m)
      (scribe.feed host chunk m input).1 (scribe.feed host chunk m input).2 := by
    cases input with
    | source text => exact concludes_interpret hready host hinput
    | tree s =>
      exact ((watched_evaluator host host.room 0).execute hready
        (hinput _ (Input.contains_of_mem List.mem_cons_self))).concludes (.refl _)
  obtain ⟨hm', hlater, hverdict⟩ := hconcludes
  exact ⟨hm', ⟨hlater.grown, hlater.birth_eq, hlater.active_eq⟩, hverdict⟩

/-- **Whole sessions.** Between two inputs nothing is in progress. -/
theorem sound_feedAll (host : Host) (hbase : T.base = 0) {inputs : List Input}
    (hinputs : ∀ chunk input, inputs[chunk]? = some input → ∀ node, input.Contains host node →
      T.fits chunk node) :
    Sound T (scribe.feedAll host inputs).2 ∧ (scribe.feedAll host inputs).2.notes.active = [] := by
  -- the last input is run in the session that all others have led to
  induction inputs using List.reverseRecOn with
  | nil =>
    obtain ⟨events, hrest⟩ := Session.exists_rest_new_eq host
    have hframes : (Session.new host).rest.frames = 0 := by rw [hrest]
    refine ⟨⟨⟨?_, ?_⟩, fun s hs => absurd hs List.not_mem_nil, fun c hc => ?_⟩, rfl⟩
    · rw [hbase]
      exact hframes
    · change (Session.new host).rest.frames ≤ maxFrames
      rw [hframes]
      exact Nat.zero_le maxFrames
    · -- the only value of a fresh session is its clock
      change c ∈ (Session.new host).store.cells at hc
      rw [Session.store_new_eq] at hc
      obtain rfl := Array.mem_singleton.1 hc
      trivial
  | append_singleton inputs input ih =>
    obtain ⟨hm, hactive⟩ := ih fun chunk other hother =>
      hinputs chunk other (List.getElem?_append_left (List.getElem?_eq_some_iff.1 hother).1 ▸ hother)
    have hlast : (inputs ++ [input])[inputs.length]? = some input := List.getElem?_concat_length
    obtain ⟨hm', hlater, -⟩ := sound_feed hm host (hinputs inputs.length input hlast)
    rw [Scribe.feedAll_concat]
    exact ⟨hm', hlater.active_eq.trans hactive⟩

/-- The premises of a session are those of all that comes before its end. -/
theorem sound_session (host : Host) (inputs more : List Input) :
    Sound (Premises.session host (inputs ++ more)) (scribe.feedAll host inputs).2 ∧
      (scribe.feedAll host inputs).2.notes.active = [] := by
  refine sound_feedAll host rfl fun chunk input hinput node hnode => ⟨input, ?_, hnode⟩
  rw [List.getElem?_append_left (List.getElem?_eq_some_iff.1 hinput).1, hinput]

end Monitor

end Lox
