import Lox.Proofs.Grammar.Tokens
import Lox.Proofs.Monitor.Sessions
import Lox.Proofs.Observation
import Lox.Proofs.Scribe.Erasure

/-!
# Lines of runtime errors

An error that comes out of a run has the line of the innermost node that failed, and keeps it on its
way through calls, blocks and loops, wherever these stand and whichever input the node is from. Where
the node was read from a source, this is one of the lines of that source.

* `Node.Blames.mem_marks` — the token that is to blame is one that the node keeps;
* `Monitor.Traced` — an error with the node that it was the first to leave;
* `innermost_line_kept` — statements in any scope, and whole sessions.
-/

namespace Lox

/-- **The token that is to blame** is one that the node keeps itself. -/
theorem Node.Blames.mem_marks {node : Node} {cause : Cause} {t : Token} (h : node.Blames cause t) :
    .token t ∈ node.marks := by
  cases h <;> simp [Node.marks, Expr.marks]

/-- **Lines of a source.** -/
theorem Input.Contains.line_le {host : Host} {text : String} {node : Node}
    (h : (Input.source text).Contains host node) {t : Token} (ht : .token t ∈ node.marks) :
    1 ≤ t.line ∧ t.line ≤ 1 + text.toList.count '\n' := by
  obtain ⟨p, hp⟩ := h
  rw [Input.program] at hp
  cases hparse : parse host.room text with
  | ok program =>
    rw [hparse] at hp
    exact line_le_of_nodeAt hparse hp ht
  | error e =>
    -- a text that is rejected has no nodes with tokens
    rw [hparse] at hp
    exact absurd (marks_subset_of_nodeAt hp ht) List.not_mem_nil

theorem Verdict.eq_of_error? {verdict : Verdict} {e : RuntimeError} (h : verdict.error? = some e) :
    verdict = .interrupted (.failed e) := by
  cases verdict with
  | ok => contradiction
  | rejected e' => contradiction
  | interrupted i =>
    cases i with
    | failed e' => exact congrArg (fun e => Verdict.interrupted (.failed e)) (Option.some.inj h)
    | returning v => contradiction
    | misplaced description => contradiction
    | unfinished => contradiction

namespace Monitor

/-- No node has been blamed yet. -/
def cleared (m : Monitor) : Monitor := scribe.told .input m

/-- **An error is traced to its node.** The node is the one that the error was the first to leave. It is
from the input with its number, and the error has the line of the token that is to blame, which lies
within the lines of that input if this is a source text. -/
def Traced (host : Host) (inputs : List Input) (m : Monitor) (e : RuntimeError) : Prop :=
  ∃ chunk node input t, m.notes.culprit = some (chunk, node) ∧ inputs[chunk]? = some input ∧
    input.Contains host node ∧ node.Blames e.cause t ∧ e.line = some t.line ∧
    ∀ text, input = .source text → 1 ≤ t.line ∧ t.line ≤ 1 + text.toList.count '\n'

theorem Explained.traced {host : Host} {inputs : List Input} {m : Monitor} {e : RuntimeError}
    (h : Explained (.session host inputs) m (.failed e)) (hroom : e.cause ≠ .roomExhausted) :
    Traced host inputs m e := by
  obtain ⟨chunk, node, hculprit, ⟨input, hinput, hnode⟩, haccounts⟩ := h
  obtain hexhausted | ⟨t, hblames, hline⟩ := haccounts
  · exact absurd hexhausted hroom
  · refine ⟨chunk, node, input, t, hculprit, hinput, hnode, hblames, hline, ?_⟩
    rintro text rfl
    exact hnode.line_le hblames.mem_marks

/-- The next input of a session, among the inputs up to it. -/
theorem fits_next (host : Host) (inputs : List Input) {input : Input} {node : Node}
    (h : input.Contains host node) :
    (Premises.session host (inputs ++ [input])).fits inputs.length node :=
  ⟨input, List.getElem?_concat_length, h⟩

end Monitor

/-- **Runtime errors have the line of the innermost node that failed.** In every session, whatever it
has been given and whatever has become of it:

* A statement that is run in any scope, and
* an input that is given to the session

are run as they are without a monitor; and every error that comes out, room left aside, is traced to
the node that it was the first to leave, whose token gave it its line. -/
theorem innermost_line_kept (host : Host) (inputs : List Input) :
    (∀ room s scope,
      let m := Monitor.cleared (Monitor.scribe.feedAll host inputs).2
      let result :=
        (Monitor.scribe.evaluator host room 0).execute inputs.length s scope m
      Outcome.project Machine.plain result =
        (recurse .full (Evaluator.step host) room 0).execute s scope (Session.feedAll host inputs).2 ∧
      ∀ e m', result = .error (.failed e) m' → e.cause ≠ .roomExhausted →
        Monitor.Traced host (inputs ++ [.tree s]) m' e) ∧
    ∀ input,
      let after := Monitor.scribe.feed host inputs.length (Monitor.scribe.feedAll host inputs).2 input
      Prod.map id Machine.plain after = (Session.feedAll host inputs).2.feed host input ∧
      ∀ e, after.1 = .interrupted (.failed e) → e.cause ≠ .roomExhausted →
        Monitor.Traced host (inputs ++ [input]) after.2 e := by
  have hplain : (Monitor.scribe.feedAll host inputs).2.plain = (Session.feedAll host inputs).2 :=
    congrArg Prod.snd (Monitor.scribe.feedAll_plain host inputs)
  refine ⟨?_, ?_⟩
  · intro room s scope m result
    obtain ⟨hm, -⟩ := Monitor.sound_session host inputs [.tree s]
    have hready : Monitor.Ready (.session host (inputs ++ [.tree s])) m :=
      ⟨⟨hm.counted, hm.seen, hm.vouched⟩, rfl⟩
    have hprojects := (Monitor.scribe.follows_evaluator host room 0).execute inputs.length s scope m
    rw [show Machine.plain m = _ from hplain] at hprojects
    refine ⟨hprojects, fun e m' hresult hroom => ?_⟩
    -- what the statement lets out has left a node
    have hruns : Monitor.Runs (.session host (inputs ++ [.tree s])) m (fun _ _ => True)
        (fun _ => False)
        ((Monitor.scribe.evaluator host room 0).execute inputs.length s scope) :=
      (Monitor.watched_evaluator host room 0).execute hready
        (Monitor.fits_next host inputs (Input.contains_of_mem List.mem_cons_self))
    change Outcome _ _ result at hruns
    rw [hresult] at hruns
    obtain ⟨-, -, hexplained | ⟨-, -, -, hfalse⟩⟩ := hruns
    · exact hexplained.traced hroom
    · exact hfalse.elim
  · intro input after
    obtain ⟨hm, -⟩ := Monitor.sound_session host inputs [input]
    have hfeed :=
      Monitor.scribe.feed_plain host inputs.length (Monitor.scribe.feedAll host inputs).2 input
    rw [hplain] at hfeed
    refine ⟨hfeed, fun e he hroom => ?_⟩
    have hinput : ∀ node, input.Contains host node →
        (Monitor.Premises.session host (inputs ++ [input])).fits inputs.length node :=
      fun node hnode => Monitor.fits_next host inputs hnode
    obtain ⟨-, -, hexplained⟩ := Monitor.sound_feed hm host hinput
    exact (hexplained _ he).traced hroom

/-- A variable that is missing in a function of an earlier input, on its second line. The call is on
the fourth line of a later input. -/
theorem innermost_line_kept_across_inputs :
    let host : Host := ⟨40, 40, fun _ => 0, false⟩
    let earlier : List Input := [.source "fun f() \x7b\n  return x;\n\x7d"]
    let after := Monitor.scribe.feed host earlier.length (Monitor.scribe.feedAll host earlier).2
      (.source "\n\n\nf();")
    after.1 = .interrupted (.failed ⟨.undefinedVariable "x", some 2⟩) ∧
    Monitor.Traced host (earlier ++ [.source "\n\n\nf();"]) after.2
      ⟨.undefinedVariable "x", some 2⟩ := by
  intro host earlier after
  have hfails : after.1.error? = some ⟨.undefinedVariable "x", some 2⟩ := by decide +kernel
  have hverdict := Verdict.eq_of_error? hfails
  exact ⟨hverdict, ((innermost_line_kept host earlier).2 _).2 _ hverdict nofun⟩

end Lox
