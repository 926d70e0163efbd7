import Lox.Proofs.Grammar.Concatenation
import Lox.Proofs.Monitor.Sessions
import Lox.Proofs.Relocation.Programs

/-!
# Which input a line is from

The tokens of an input are marked: they come to stand on odd lines, and all others on even ones. When
an error comes out of a run with marks, its line tells whether the node that failed is from this input.
The marks can be taken away again, and the tokens that had them moved farther on at the same time.

* `Relocation.mark`, `Relocation.unmark` — marks, and what becomes of them;
* `Premises.placed` — the nodes of every input are relocated in their own way;
* `Monitor.Sound.relocate` — the invariant of a relocated session;
* `Monitor.Explained.placed_line` — the line of an error is from the input of its culprit.
-/

namespace Lox

namespace Relocation

/-! ### Marks -/

/-- **Even or odd lines.** -/
def mark (parity : Int) : Relocation where
  move t := { t with line := 2 * t.line + parity }
  line l := 2 * l + parity
  kind_eq _ := rfl
  lexeme_eq _ := rfl
  value_eq _ := rfl
  line_eq _ := rfl

/-- The line without its mark, and farther on if it was odd. -/
def unmarkLine (line : Nat) (l : Int) : Int := if l % 2 = 1 then l / 2 + line else l / 2

/-- **No marks any more.** Tokens on odd lines are moved farther on. -/
def unmark (start line : Nat) : Relocation where
  move t := { t with
    start := if t.line % 2 = 1 then t.start + start else t.start
    line := unmarkLine line t.line }
  line := unmarkLine line
  kind_eq _ := rfl
  lexeme_eq _ := rfl
  value_eq _ := rfl
  line_eq _ := rfl

theorem unmarkLine_even (line : Nat) (l : Int) : unmarkLine line (2 * l + 0) = l := by
  unfold unmarkLine
  rw [if_neg (by omega)]
  omega

theorem unmarkLine_odd (line : Nat) (l : Int) : unmarkLine line (2 * l + 1) = l + line := by
  unfold unmarkLine
  rw [if_pos (by omega)]
  omega

/-- Tokens on even lines are back where they were. -/
theorem unmark_after_even (start line : Nat) : (unmark start line).after (mark 0) = stay := by
  refine Relocation.ext (funext fun t => ?_) (funext (unmarkLine_even line))
  have heven : ¬ (2 * t.line + 0) % 2 = 1 := by omega
  change { t with
    start := if (2 * t.line + 0) % 2 = 1 then t.start + start else t.start
    line := unmarkLine line (2 * t.line + 0) } = t
  rw [if_neg heven, unmarkLine_even]

/-- Those on odd lines are farther on. -/
theorem unmark_after_odd (start line : Nat) :
    (unmark start line).after (mark 1) = later start line := by
  refine Relocation.ext (funext fun t => ?_) (funext (unmarkLine_odd line))
  have hodd : (2 * t.line + 1) % 2 = 1 := by omega
  change { t with
    start := if (2 * t.line + 1) % 2 = 1 then t.start + start else t.start
    line := unmarkLine line (2 * t.line + 1) } = t.later start line
  rw [if_pos hodd, unmarkLine_odd]
  rfl

theorem later_zero : later 0 0 = stay := by
  refine Relocation.ext (funext fun t => ?_) (funext Int.add_zero)
  change { t with start := t.start + 0, line := t.line + 0 } = t
  rw [Int.add_zero, Int.add_zero]

end Relocation

/-! ### Blame -/

/-- A relocated node blames a token that has been moved. -/
theorem Node.Blames.exists_eq {f : Token → Token} {node : Node} {cause : Cause} {t : Token}
    (h : (node.relocate f).Blames cause t) : ∃ u, t = f u := by
  cases node with
  | program body => exact nomatch h
  | stmt s => exact nomatch h
  | expr e =>
    -- the other nodes do not fail by themselves
    cases e with
    | literal value | grouping inner | logical left operator right | foreign description =>
      exact nomatch h
    | «variable» name =>
      obtain _ | _ := h
      exact ⟨name, rfl⟩
    | assign name value => cases h <;> exact ⟨name, rfl⟩
    | unary operator right =>
      cases h
      exact ⟨operator, rfl⟩
    | binary left operator right =>
      cases h
      exact ⟨operator, rfl⟩
    | call callee paren arguments => cases h <;> exact ⟨paren, rfl⟩

namespace Monitor

/-- **Every input is relocated in its own way.** -/
def Premises.placed (base : Nat) (place : Nat → Relocation) : Premises where
  base := base
  fits chunk node := ∃ node₀ : Node, node = node₀.relocate (place chunk).move
  inherited := by
    rintro chunk _ i part ⟨node₀, rfl⟩ hpart
    rw [Node.part_relocate] at hpart
    obtain ⟨part₀, -, rfl⟩ := Option.map_eq_some_iff.1 hpart
    exact ⟨part₀, rfl⟩

variable {T T' : Premises} {m : Monitor} {base : Nat} {place : Nat → Relocation}

/-- **The line of an error** is from the input of its culprit. -/
theorem Explained.placed_line {e : RuntimeError}
    (h : Explained (.placed base place) m (.failed e)) (hroom : e.cause ≠ .roomExhausted) :
    ∃ chunk node l, m.notes.culprit = some (chunk, node) ∧ e.line = some ((place chunk).line l) := by
  obtain ⟨chunk, _, hculprit, ⟨node₀, rfl⟩, hexhausted | ⟨t, hblames, hline⟩⟩ := h
  · exact absurd hexhausted hroom
  · obtain ⟨u, rfl⟩ := hblames.exists_eq
    exact ⟨chunk, _, u.line, hculprit, by rw [hline, (place chunk).line_eq]⟩

theorem callsIn_relocate (r : Relocation) (active : List Activity) :
    callsIn (active.map r.activity) = callsIn active := by
  have hcall : Activity.isCall ∘ r.activity = Activity.isCall := by
    funext a
    cases a <;> rfl
  rw [callsIn, List.countP_map, hcall, callsIn]

theorem Counted.relocate {active : List Activity} {s : Session} (h : Counted T active s)
    (r : Relocation) (hbase : T'.base = T.base) :
    Counted T' (active.map r.activity) (r.session s) := by
  unfold Counted
  rw [hbase, callsIn_relocate]
  exact h

/-- **The invariant of a relocated session.** The bodies of its functions are relocated like all else
from before. -/
theorem Sound.relocate (hm : Sound T m) (r : Relocation) (hbase : T'.base = T.base)
    (hfits : ∀ chunk s, T.fits chunk (.stmt s) → T'.fits chunk (.stmt (s.relocate r.move)))
    (hnot : ¬ ∀ chunk node, T.fits chunk node) : Sound T' (r.monitor m) where
  counted := hm.counted.relocate r hbase
  seen s hs := by
    obtain ⟨s₀, hs₀, rfl⟩ := List.mem_map.1 hs
    exact (hm.seen s₀ hs₀).relocate r hbase
  vouched c hc := by
    obtain ⟨c₀, hc₀, rfl⟩ := Array.mem_map.1 hc
    have hvouched := hm.vouched c₀ hc₀
    change Vouched T' (r.monitor m) (c₀.value.relocate r.move)
    cases hvalue : c₀.value with
    | literal l => trivial
    | native f => trivial
    | closure f =>
      rw [hvalue] at hvouched
      -- a body that is vouched for is relocated as a whole
      obtain hall | ⟨hidentity, hbody⟩ := hvouched
      · exact absurd hall hnot
      · refine .inr ⟨hidentity, fun s hs => ?_⟩
        change s ∈ Stmt.relocateAll r.move f.body at hs
        rw [Stmt.relocateAll_eq_map] at hs
        obtain ⟨s₀, hs₀, rfl⟩ := List.mem_map.1 hs
        exact hfits _ s₀ (hbody s₀ hs₀)

end Monitor

end Lox
