import Lox.Grammar.Cursor

/-!
# Words of visits

Entries and exits as brackets. Each exit has to name the latest entry that has none yet; what is
left at the end of a word are the entries without an exit.

* `unmatched` — the entries of a word without an exit, the latest first, if its exits are in order;
* `Balanced` — words in which every entry has its exit;
* `Production.around` — a word in a pair of brackets;
* `Balanced.unmatched_append`, `unmatched_entering` — balanced words do not matter, and brackets
  nest;
* `balanced_completed` — the exits that are missing complete a word;
* `count_entering` — entries and exits of the same production.
-/

namespace Lox

/-- **A visit** when these productions have been entered and not been left, the latest first. -/
def Visit.follow (pending : List Production) (visit : Visit) : Option (List Production) :=
  match visit, pending with
  | entering production, pending => some (production :: pending)
  | exiting _, [] => none
  | exiting production, latest :: pending => if production = latest then some pending else none

/-- **The entries without an exit,** the latest first. There is no answer if an exit does not name
the latest one. -/
def unmatched (word : List Visit) : Option (List Production) := word.foldlM Visit.follow []

/-- **Balanced words.** -/
def Balanced (word : List Visit) : Prop := unmatched word = some []

instance (word : List Visit) : Decidable (Balanced word) := inferInstanceAs (Decidable (_ = _))

/-- **A word in a pair of brackets.** -/
def Production.around (production : Production) (word : List Visit) : List Visit :=
  .entering production :: (word ++ [.exiting production])

variable {word word' : List Visit} {pending left : List Production}

/-- An entry is added, and an exit takes away the latest entry, which it names. -/
theorem Visit.of_follow_eq_some {visit : Visit} (h : visit.follow pending = some left) :
    (∃ production, visit = .entering production ∧ left = production :: pending) ∨
      ∃ production, visit = .exiting production ∧ pending = production :: left := by
  cases visit with
  | entering production => exact .inl ⟨production, rfl, (Option.some.inj h).symm⟩
  | exiting production =>
    cases pending with
    | nil => contradiction
    | cons latest pending =>
      obtain ⟨rfl, hleft⟩ := Option.ite_none_right_eq_some.1 h
      exact .inr ⟨production, rfl, congrArg _ (Option.some.inj hleft)⟩

theorem Visit.follow_exiting (production : Production) (pending : List Production) :
    (Visit.exiting production).follow (production :: pending) = some pending := if_pos rfl

/-- Entries that came before a word stay where they are. -/
theorem foldlM_follow_append (outer : List Production)
    (h : word.foldlM Visit.follow pending = some left) :
    word.foldlM Visit.follow (pending ++ outer) = some (left ++ outer) := by
  induction word generalizing pending with
  | nil =>
    obtain rfl := Option.some.inj h
    rfl
  | cons visit word ih =>
    rw [List.foldlM_cons] at h ⊢
    obtain ⟨next, hvisit, hword⟩ := Option.bind_eq_some_iff.1 h
    refine Option.bind_eq_some_iff.2 ⟨next ++ outer, ?_, ih hword⟩
    obtain ⟨production, rfl, rfl⟩ | ⟨production, rfl, rfl⟩ := Visit.of_follow_eq_some hvisit
    · rfl
    · exact Visit.follow_exiting production (next ++ outer)

/-- **A balanced word does not matter** in front of another one. -/
theorem Balanced.unmatched_append (h : Balanced word) (word' : List Visit) :
    unmatched (word ++ word') = unmatched word' := by
  rw [unmatched, List.foldlM_append, show word.foldlM Visit.follow [] = some [] from h]
  rfl

theorem balanced_nil : Balanced [] := rfl

theorem Balanced.append (h : Balanced word) (h' : Balanced word') : Balanced (word ++ word') :=
  (h.unmatched_append word').trans h'

/-- **An entry in front of a word** is the outermost one without an exit. -/
theorem unmatched_entering (production : Production) (h : unmatched word = some pending) :
    unmatched (.entering production :: word) = some (pending ++ [production]) :=
  foldlM_follow_append [production] h

/-- **The missing exits** complete a word. -/
theorem balanced_completed (h : unmatched word = some pending) :
    Balanced (word ++ pending.map .exiting) := by
  have hexits : ∀ pending : List Production,
      (pending.map Visit.exiting).foldlM Visit.follow pending = some [] := by
    intro pending
    induction pending with
    | nil => rfl
    | cons latest pending ih =>
      rw [List.map_cons, List.foldlM_cons, Visit.follow_exiting]
      exact ih
  have hword : word.foldlM Visit.follow [] = some pending := h
  rw [Balanced, unmatched, List.foldlM_append, hword]
  exact hexits pending

/-- **Brackets around a balanced word.** -/
theorem Balanced.around (h : Balanced word) (production : Production) :
    Balanced (production.around word) :=
  balanced_completed (unmatched_entering production h)

theorem count_foldlM_follow (production : Production)
    (h : word.foldlM Visit.follow pending = some left) :
    word.count (.entering production) + pending.count production =
      word.count (.exiting production) + left.count production := by
  induction word generalizing pending with
  | nil =>
    obtain rfl := Option.some.inj h
    simp
  | cons visit word ih =>
    rw [List.foldlM_cons] at h
    obtain ⟨next, hvisit, hword⟩ := Option.bind_eq_some_iff.1 h
    have hcount := ih hword
    obtain ⟨visited, rfl, rfl⟩ | ⟨visited, rfl, rfl⟩ := Visit.of_follow_eq_some hvisit
    all_goals
      simp only [List.count_cons, beq_iff_eq, Visit.entering.injEq, Visit.exiting.injEq,
        reduceCtorEq, if_false] at hcount ⊢
      omega

/-- **Every production is left as often as it is entered,** apart from the entries without an
exit. -/
theorem count_entering (production : Production) (h : unmatched word = some left) :
    word.count (.entering production) =
      word.count (.exiting production) + left.count production :=
  count_foldlM_follow production h

end Lox
