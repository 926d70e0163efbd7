/-!
# Bounded repetition and bounded recursion

Programs may loop and recurse without end, and a host has only so much room for either. Both are
bounded here by a number, so that every definition built on them is total.

* `iterate` — repeats a step that says whether it is done, at most a given number of times;
* `recurse` — ties the knot of a process that calls itself, where every call has a cost and the
  costs of the calls in progress may not exceed the room;
* `recurse_induction` — what holds of the exhausted process, and is kept by one step, holds of all;
* `recurse_induction₂`, `recurse_induction_le` — the same for what relates two processes, with equal
  room or with more for the second.
-/

namespace Lox

universe u v

/-- **The outcome of one pass of a repetition.** -/
inductive Turn (β γ : Type)
  | again (next : β)
  | done (result : γ)

/-- **Bounded repetition.** Runs `step` from `b` on until it is done. After `passes` passes it gives
up with the error `unfinished`; the effects of all passes are kept. -/
@[specialize] def iterate {ε σ β γ : Type} (unfinished : ε) (step : β → EStateM ε σ (Turn β γ)) :
    Nat → β → EStateM ε σ γ
  | 0, _, s => .error unfinished s
  | passes + 1, b, s =>
    match step b s with
    | .ok (.again b) s => iterate unfinished step passes b s
    | .ok (.done c) s => .ok c s
    | .error e s => .error e s

/-- **Bounded recursion.** `recurse full step room cost` is a process with `room - cost` units of
room. Without room it is `full`. Otherwise it is one `step`, which is given the process at every
greater cost; a call always costs at least one unit. -/
def recurse {α : Type u} (full : α) (step : (Nat → α) → α) : Nat → Nat → α
  | 0, _ => full
  | room + 1, 0 => step fun cost => recurse full step room (cost - 1)
  | room + 1, cost + 1 => recurse full step room cost

/-- The cost is what is missing from the room. -/
theorem recurse_eq_sub {α : Type u} (full : α) (step : (Nat → α) → α) (room cost : Nat) :
    recurse full step room cost = recurse full step (room - cost) 0 := by
  induction room generalizing cost with
  | zero => simp [recurse]
  | succ room ih =>
    cases cost with
    | zero => rfl
    | succ cost => rw [recurse, ih, Nat.add_sub_add_right]

/-- **Induction over bounded recursion.** -/
theorem recurse_induction {α : Type u} {full : α} {step : (Nat → α) → α} {P : α → Prop}
    (base : P full) (next : ∀ inner : Nat → α, (∀ cost, P (inner cost)) → P (step inner))
    (room cost : Nat) : P (recurse full step room cost) := by
  induction room generalizing cost with
  | zero => simpa [recurse] using base
  | succ room ih =>
    cases cost with
    | zero => exact next _ fun cost => ih (cost - 1)
    | succ cost => exact ih cost

/-- **Induction over two bounded recursions** at the same cost, in rooms of the same size. -/
theorem recurse_induction₂ {α : Type u} {β : Type v} {full : α} {full' : β} {step : (Nat → α) → α}
    {step' : (Nat → β) → β} {R : α → β → Prop} (base : R full full')
    (next : ∀ (inner : Nat → α) (inner' : Nat → β),
      (∀ cost, R (inner cost) (inner' cost)) → R (step inner) (step' inner'))
    (room cost : Nat) : R (recurse full step room cost) (recurse full' step' room cost) := by
  induction room generalizing cost with
  | zero => simpa [recurse] using base
  | succ room ih =>
    cases cost with
    | zero => exact next _ _ fun cost => ih (cost - 1)
    | succ cost => exact ih cost

/-- **Induction over two bounded recursions** of which the second has as much room or more. The first
one is exhausted earlier, and what is to be shown must hold of it then, whatever the second does. -/
theorem recurse_induction_le {α : Type u} {β : Type v} {full : α} {full' : β}
    {step : (Nat → α) → α} {step' : (Nat → β) → β} {R : α → β → Prop} (base : ∀ b, R full b)
    (next : ∀ (inner : Nat → α) (inner' : Nat → β),
      (∀ cost, R (inner cost) (inner' cost)) → R (step inner) (step' inner'))
    {room room' : Nat} (hroom : room ≤ room') (cost : Nat) :
    R (recurse full step room cost) (recurse full' step' room' cost) := by
  induction room generalizing room' cost with
  | zero =>
    rw [recurse]
    exact base _
  | succ room ih =>
    obtain ⟨more, rfl⟩ : ∃ more, room' = more + 1 := ⟨room' - 1, by omega⟩
    have hmore : room ≤ more := Nat.le_of_succ_le_succ hroom
    cases cost with
    | zero => exact next _ _ fun cost => ih hmore (cost - 1)
    | succ cost => exact ih hmore cost

end Lox
