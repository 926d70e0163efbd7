import Lox.Proofs.Scribe
import Lox.Proofs.Store.Operation

/-!
# Journals

A journal is kept by a scribe who writes down every operation on the store of a session, in the order
in which they are performed: scopes that are opened for blocks, for the passes of a loop and for calls,
names that are declared, functions that are made, and every assignment, with the scope in which it is
evaluated.

* `Journal`, `Journaled` — sessions and runs with a journal;
* `Journal.scribe` — what is written down;
* `Journal.told_opened` — a scope that has just been opened.
-/

namespace Lox

/-- **Journaled sessions.** The first operation comes first. -/
abbrev Journal := Annotated (List Store.Operation)

/-- **Runs with a journal.** -/
abbrev Journaled := Annotating (List Store.Operation)

/-- The operations so far. -/
def Machine.operations (m : Journal) : List Store.Operation := m.rest.notes

namespace Journal

/-- **The scribe of a journal.** It does not care about places. An assignment that fails is no
operation, as nobody tells of it. -/
def scribe : Scribe (List Store.Operation) Unit where
  part _ _ := ()
  next _ := ()
  root _ _ := ()
  birthplace _ _ := ()
  note
    | .opened _ scope items, m, operations =>
      match m.store.parent? scope with
      | some parent => operations ++ [.opened parent items]
      | none => operations
    | .made _ f, _, operations => operations ++ [.closed f.scope f.body]
    | .declared scope name value const, _, operations =>
      operations ++ [.declared scope name value const]
    | .assigned scope name value, _, operations => operations ++ [.assigned scope name value]
    | _, _, operations => operations
  start := []

/-- Evaluators with a journal. -/
abbrev Evaluator := PlacedEvaluator (AnnotatedConsole (List Store.Operation)) Unit

/-- **A scope that has just been opened** is written down with its parent. -/
theorem told_opened (s : Store) (parent : ScopeId) (items items' : List (String × Value × Bool))
    (c : Console) (operations : List Store.Operation) :
    scribe.told (.opened () ⟨s.scopes.size⟩ items') ⟨s.openScope parent items, ⟨c, operations⟩⟩ =
      ⟨s.openScope parent items, ⟨c, operations ++ [.opened parent items']⟩⟩ := by
  have hparent : (s.openScope parent items).parent? ⟨s.scopes.size⟩ = some parent := by
    rw [Store.openScope, Store.parent?_declareAll, Store.parent?_newScope, if_pos rfl]
  change (⟨_, ⟨c, match (s.openScope parent items).parent? ⟨s.scopes.size⟩ with
    | some parent => operations ++ [.opened parent items']
    | none => operations⟩⟩ : Journal) = _
  rw [hparent]
  rfl

end Journal

end Lox
