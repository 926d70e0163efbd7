import Lox.Proofs.Heap.Histories

/-!
# The integrity of the heap

In a session that is given source texts and trees, in any order and with any outcomes, the store is
intact after every single operation: chains of scopes end at the one global scope, functions capture
scopes that exist, and no cell is shared by two bindings.

* `Terms.session` — the terms of a whole session;
* `heap_integrity` — every moment of it.
-/

namespace Lox

/-- **The terms of a whole session:** all trees fit, and names may be declared everywhere. -/
def Terms.session (host : Host) : Terms where
  base := (Session.new host).store
  globals := (Session.new host).rest.globals
  fits _ := True
  opens _ := True
  inherited _ _ _ _ _ := trivial
  integral := Session.integral_new host _

theorem Journal.sound_session (host : Host) (inputs : List Input) :
    Sound (Terms.session host) (scribe.feedAll host inputs).2 ∧
      ∀ e, .interrupted e ∈ (scribe.feedAll host inputs).1 →
        e.InOrder (fun _ => True) (scribe.feedAll host inputs).2.store := by
  refine sound_feedAll host rfl rfl (fun _ => trivial) fun input _ => ?_
  cases input with
  | source text => exact fun _ _ _ _ => trivial
  | tree s => trivial

/-- The sessions that can be reached have integrity. -/
theorem Session.integral_feedAll (host : Host) (inputs : List Input) :
    (feedAll host inputs).2.store.Integral (fun _ => True) (feedAll host inputs).2.rest.globals := by
  obtain ⟨hm, -⟩ := Journal.sound_session host inputs
  rw [← Journal.scribe.feedAll_plain]
  have hintegral := hm.integral
  rw [← hm.globals_eq] at hintegral
  exact hintegral

/-- **The integrity of the heap.** A journal of a session has no effect on it: the verdicts on its
inputs, source texts or trees, and the session after them are the same; and replaying the operations
of the journal on a fresh store gives the store of the session. At every moment, that is behind any
number of operations and however the inputs before had ended, the store is intact; and what is done
next concerns scopes that exist, and values whose functions capture such scopes. So do values that a
return has carried out of an input. -/
theorem heap_integrity (host : Host) (inputs : List Input) :
    let (verdicts, m) := Journal.scribe.feedAll host inputs
    let globals := (Session.new host).rest.globals
    (verdicts, m.plain) = Session.feedAll host inputs ∧
    m.plain.rest.globals = globals ∧
    m.store = (Session.new host).store.replay m.operations ∧
    (∀ before after, m.operations = before ++ after →
      let s := (Session.new host).store.replay before
      s.Intact globals ∧ ∀ op ∈ after.head?, op.Lawful (fun _ => True) s) ∧
    ∀ f, .interrupted (.returning (.closure f)) ∈ verdicts →
      f.scope.index < m.store.scopes.size := by
  obtain ⟨hm, hverdicts⟩ := Journal.sound_session host inputs
  refine ⟨Journal.scribe.feedAll_plain host inputs, hm.globals_eq, hm.store_eq, ?_, ?_⟩
  · intro before after hops
    change (Journal.scribe.feedAll host inputs).2.operations = before ++ after at hops
    have hlawful := hm.lawful
    rw [hops] at hlawful
    have hbefore : ((Session.new host).store.replay before).Integral (fun _ => True)
        (Session.new host).rest.globals :=
      (Session.integral_new host _).replay hlawful.of_append
    refine ⟨hbefore.intact, fun op hop => ?_⟩
    -- what is done next is lawful in the store that is there by then
    obtain ⟨rest, rfl⟩ := List.head?_eq_some_iff.1 hop
    exact hlawful before op rest rfl
  · exact fun f hf => (hverdicts _ hf).1

/-- A tree that lets a function out, which an earlier one has made. -/
theorem heap_integrity_returned :
    let f : Token := ⟨.identifier, "f", none, 4, 1⟩
    let keyword : Token := ⟨.returnWord, "return", none, 0, 2⟩
    let inputs : List Input :=
      [.tree (.function f [] []), .tree (.returning keyword (some (.variable f)))]
    let (verdicts, m) := Journal.scribe.feedAll Host.standard inputs
    ∃ made, .interrupted (.returning (.closure made)) ∈ verdicts ∧
      made.scope.index < m.store.scopes.size := by
  intro f keyword inputs
  obtain ⟨-, -, -, -, hreturned⟩ := heap_integrity Host.standard inputs
  let made : Closure := ⟨1, "f", [], [], ⟨0⟩⟩
  have hverdict : Verdict.interrupted (.returning (.closure made)) ∈
      (Journal.scribe.feedAll Host.standard inputs).1 := List.mem_cons_of_mem _ List.mem_cons_self
  exact ⟨made, hverdict, hreturned made hverdict⟩

end Lox
