import Lox.Proofs.Lexical.Survey
import Lox.Proofs.Store.Operation

/-!
# Scopes that mirror places

A scope mirrors a place when its chain has one scope for each construct around the place, in the same
order, and the global scope behind them. The invariant of a surveyed session looks at the whole
store: a function value is `Vouched` for when its scope mirrors the place where the function was
declared, so that its body can be entered from any call.

* `Surveyor.Mirrors` — the chain of a scope mirrors the nesting of a place;
* `Surveyor.At` — a node may be run in a scope, `Surveyor.At.part` and `Surveyor.At.inside` its parts;
* `Surveyor.Sound` — the invariant;
* `Surveyor.Later` — later moments, at which all of this still stands;
* `Surveyor.sound_opened` — a scope that is made for a construct.
-/

namespace Lox

namespace Surveyor

/-! ### What is said about scopes, values and nodes -/

/-- **The chain of a scope mirrors the nesting of a place.** Its scopes were made for the constructs
around the place, in the same order, and the global scope is its end. -/
structure Mirrors (m : Surveyor) (scope : ScopeId) (p : Place) : Prop where
  /-- The scope exists. -/
  lt : scope.index < m.store.scopes.size
  /-- One scope for each construct, and one for none. -/
  origins : (m.store.chain scope).map m.survey.origin =
    (enclosing m.survey.programs p).map some ++ [none]
  /-- The last scope is the global one. -/
  last : (m.store.chain scope).getLast? = some m.rest.console.globals

/-- **The node at a place may be run in a scope.** -/
structure At (m : Surveyor) (p : Place) (node : Node) (scope : ScopeId) : Prop where
  /-- The place leads to the node. -/
  node_eq : nodeAt m.survey.programs p = some node
  /-- The scope mirrors the place. -/
  mirrors : Mirrors m scope p

/-- **Values that are vouched for.** The scope of a function mirrors the place of the statement that
declared it. -/
def Vouched (m : Surveyor) : Value → Prop
  | .closure f => f.identity < m.store.functions ∧
      ∃ name parameters, At m (m.survey.birthplace f.identity)
        (.stmt (.function name parameters f.body)) f.scope
  | _ => True

/-- A value on its way out is vouched for. -/
def VouchedInterrupt (m : Surveyor) : Interrupt → Prop
  | .returning value => Vouched m value
  | _ => True

/-- **A sighting in order.** The node stood at its place, and the chain of its scope at that moment
mirrored the nesting of the place. -/
structure Attested (m : Surveyor) (v : Sighting) : Prop where
  /-- The place leads to the node. -/
  node_eq : nodeAt m.survey.programs v.place = some v.node
  /-- One scope for each construct, and one for none. -/
  origins : (v.session.store.chain v.scope).map m.survey.origin =
    (enclosing m.survey.programs v.place).map some ++ [none]
  /-- The last scope is the global one. -/
  last : (v.session.store.chain v.scope).getLast? = some v.session.rest.globals
  /-- The scope existed. -/
  lt : v.scope.index < v.session.store.scopes.size
  /-- Parents were older. -/
  ordered : v.session.store.Ordered
  /-- No scope has been given up since. -/
  le : v.session.store.scopes.size ≤ m.store.scopes.size
  /-- There is only one global scope. -/
  globals_eq : v.session.rest.globals = m.rest.console.globals

/-- **The invariant** of a surveyed session. -/
structure Sound (m : Surveyor) : Prop where
  /-- Parents are older than their children. -/
  ordered : m.store.Ordered
  /-- The global scope exists. -/
  globals_lt : m.rest.console.globals.index < m.store.scopes.size
  /-- It has no parent. -/
  globals_parent : m.store.parent? m.rest.console.globals = none
  /-- It was made for no construct. -/
  globals_origin : m.survey.origin m.rest.console.globals = none
  /-- All values in cells are vouched for. -/
  values : m.store.Keeps (Vouched m)
  /-- All sightings are in order. -/
  sightings : ∀ v ∈ m.survey.sightings, Attested m v

/-! ### Later sessions -/

/-- **A later moment** of a session. What was said about old scopes and old functions stands. -/
structure Later (m m' : Surveyor) : Prop where
  /-- The store has grown. -/
  grown : m.store.Grown m'.store
  /-- The programs are the same. -/
  programs_eq : m'.survey.programs = m.survey.programs
  /-- The global scope is the same. -/
  globals_eq : m'.rest.console.globals = m.rest.console.globals
  /-- Old scopes keep their origin. -/
  origin_eq : ∀ scope : ScopeId, scope.index < m.store.scopes.size →
    m'.survey.origin scope = m.survey.origin scope
  /-- Old functions keep their birthplace. -/
  birthplace_eq : ∀ identity, identity < m.store.functions →
    m'.survey.birthplace identity = m.survey.birthplace identity

variable {m m' m'' : Surveyor}

theorem Later.refl (m : Surveyor) : Later m m :=
  ⟨.refl _, rfl, rfl, fun _ _ => rfl, fun _ _ => rfl⟩

theorem Later.trans (h : Later m m') (h' : Later m' m'') : Later m m'' where
  grown := h.grown.trans h'.grown
  programs_eq := h'.programs_eq.trans h.programs_eq
  globals_eq := h'.globals_eq.trans h.globals_eq
  origin_eq scope hscope := by
    rw [h'.origin_eq scope (lt_of_lt_of_le hscope h.grown.scopes_le), h.origin_eq scope hscope]
  birthplace_eq identity hidentity := by
    rw [h'.birthplace_eq identity (lt_of_lt_of_le hidentity h.grown.functions_le),
      h.birthplace_eq identity hidentity]

instance : Trans Later Later Later := ⟨.trans⟩

section Persistence

variable (h : Later m m') (hm : m.store.Ordered) (hm' : m'.store.Ordered)

include h hm

/-- Old chains keep their origins. -/
theorem Later.map_origin {scope : ScopeId} (hscope : scope.index < m.store.scopes.size) :
    (m.store.chain scope).map m'.survey.origin = (m.store.chain scope).map m.survey.origin := by
  refine List.map_congr_left fun other hother => h.origin_eq other ?_
  have := hm.index_le_of_mem_chain hother
  omega

include hm'

theorem Mirrors.later {scope : ScopeId} {p : Place} (hp : Mirrors m scope p) :
    Mirrors m' scope p where
  lt := lt_of_lt_of_le hp.lt h.grown.scopes_le
  origins := by
    rw [h.grown.chain_eq hm hm' hp.lt, h.map_origin hm hp.lt, h.programs_eq, hp.origins]
  last := by rw [h.grown.chain_eq hm hm' hp.lt, h.globals_eq, hp.last]

theorem At.later {p : Place} {node : Node} {scope : ScopeId} (hp : At m p node scope) :
    At m' p node scope where
  node_eq := by rw [h.programs_eq, hp.node_eq]
  mirrors := hp.mirrors.later h hm hm'

theorem Vouched.later {v : Value} (hv : Vouched m v) : Vouched m' v := by
  cases v with
  | closure f =>
    obtain ⟨hidentity, name, parameters, hat⟩ := hv
    refine ⟨lt_of_lt_of_le hidentity h.grown.functions_le, name, parameters, ?_⟩
    rw [h.birthplace_eq _ hidentity]
    exact hat.later h hm hm'
  | literal value => trivial
  | native f => trivial

end Persistence

theorem Attested.later {v : Sighting} (hv : Attested m v) (h : Later m m') : Attested m' v where
  node_eq := by rw [h.programs_eq, hv.node_eq]
  origins := by
    rw [h.programs_eq, ← hv.origins]
    refine List.map_congr_left fun other hother => h.origin_eq other ?_
    -- the scopes on the chain existed when the node was sighted, so that their origins stand
    have := hv.ordered.index_le_of_mem_chain hother
    have := hv.lt
    have := hv.le
    omega
  last := hv.last
  lt := hv.lt
  ordered := hv.ordered
  le := le_trans hv.le h.grown.scopes_le
  globals_eq := by rw [hv.globals_eq, h.globals_eq]

/-- **The invariant at a later moment** needs to be shown of the store alone. -/
theorem Sound.later (hm : Sound m) (h : Later m m') (hordered : m'.store.Ordered)
    (hvalues : m'.store.Keeps (Vouched m'))
    (hsightings : m'.survey.sightings = m.survey.sightings) : Sound m' where
  ordered := hordered
  globals_lt := by
    rw [h.globals_eq]
    exact lt_of_lt_of_le hm.globals_lt h.grown.scopes_le
  globals_parent := by
    rw [h.globals_eq, h.grown.parent_eq _ hm.globals_lt, hm.globals_parent]
  globals_origin := by rw [h.globals_eq, h.origin_eq _ hm.globals_lt, hm.globals_origin]
  values := hvalues
  sightings v hv := (hm.sightings v (hsightings ▸ hv)).later h

/-! ### Going down to a part -/

/-- The part of a node that opens no scope is run in the same scope. -/
theorem At.part {p : Place} {node child : Node} {scope : ScopeId} {i : Nat}
    (h : At m p node scope) (hopens : node.opensScope = false) (hchild : node.part i = some child) :
    At m (p.part i) child scope where
  node_eq := (nodeAt_part_of h.node_eq i).trans hchild
  mirrors := ⟨h.mirrors.lt,
    by rw [enclosing_part_of_not_opensScope h.node_eq hopens, h.mirrors.origins], h.mirrors.last⟩

/-- The part of a node that opens a scope is run in a new one that was made for the node. -/
theorem At.inside {p : Place} {node child : Node} {scope inner : ScopeId} {i : Nat}
    (h : At m p node scope) (hopens : node.opensScope = true) (hchild : node.part i = some child)
    (hlt : inner.index < m.store.scopes.size)
    (hchain : m.store.chain inner = inner :: m.store.chain scope)
    (horigin : m.survey.origin inner = some p) : At m (p.part i) child inner where
  node_eq := (nodeAt_part_of h.node_eq i).trans hchild
  mirrors := by
    refine ⟨hlt, ?_, ?_⟩
    · rw [hchain, List.map_cons, h.mirrors.origins, horigin,
        enclosing_part_of_opensScope h.node_eq hopens, List.map_cons, List.cons_append]
    · rw [hchain, List.getLast?_cons, h.mirrors.last, Option.getD_some]

/-- **The parts of a node may be run in a scope.** -/
def Inside (m : Surveyor) (p : Place) (node : Node) (scope : ScopeId) : Prop :=
  ∀ i child, node.part i = some child → At m (p.part i) child scope

theorem At.parts {p : Place} {node : Node} {scope : ScopeId} (h : At m p node scope)
    (hopens : node.opensScope = false) : Inside m p node scope :=
  fun _ _ hchild => h.part hopens hchild

theorem Inside.later {p : Place} {node : Node} {scope : ScopeId} (hp : Inside m p node scope)
    (h : Later m m') (hm : m.store.Ordered) (hm' : m'.store.Ordered) : Inside m' p node scope :=
  fun i child hchild => (hp i child hchild).later h hm hm'

/-! ### Scopes that are made for a construct -/

/-- **A scope made for a construct.** It is behind all others and below `scope`, declares some names,
and the scribe is told of it. -/
def opened (m : Surveyor) (scope : ScopeId) (p : Place) (items : List (String × Value × Bool)) :
    Surveyor :=
  scribe.told (.opened p ⟨m.store.scopes.size⟩ items) ⟨m.store.openScope scope items, m.rest⟩

/-- **A scope that is made for a construct keeps the invariant,** and the parts of the construct may
be run in it. -/
theorem sound_opened (hm : Sound m) {p : Place} {node : Node} {scope : ScopeId}
    (hat : At m p node scope) (hopens : node.opensScope = true)
    {items : List (String × Value × Bool)} (hitems : ∀ item ∈ items, Vouched m item.2.1) :
    Sound (opened m scope p items) ∧ Later m (opened m scope p items) ∧
      Inside (opened m scope p items) p node ⟨m.store.scopes.size⟩ := by
  have hlt := hat.mirrors.lt
  -- the new scope and what is declared in it disturb nothing that was there
  have hgrown : m.store.Grown (opened m scope p items).store :=
    (Store.grown_newScope m.store (some scope)).trans (Store.grown_declareAll _ _ items)
  have hordered : (opened m scope p items).store.Ordered :=
    (hm.ordered.newScope hlt).declareAll _ items
  have hlater : Later m (opened m scope p items) :=
    ⟨hgrown, rfl, rfl, fun other hother => Function.update_of_ne
      (fun h => absurd (congrArg ScopeId.index h) (Nat.ne_of_lt hother)) _ _, fun _ _ => rfl⟩
  have hvalues : (opened m scope p items).store.Keeps (Vouched m) :=
    Store.Keeps.declareAll (s := (m.store.newScope (some scope)).2) hm.values hitems _
  refine ⟨hm.later hlater hordered
    (hvalues.mono fun v hv => hv.later hlater hm.ordered hordered) rfl, hlater, ?_⟩
  intro i child hchild
  -- a part stands inside the construct, and the chain of the new scope begins with that scope
  refine (hat.later hlater hm.ordered hordered).inside hopens hchild ?_ ?_ ?_
  · change m.store.scopes.size < ((m.store.newScope (some scope)).2.declareAll _ items).scopes.size
    simp
  · -- declarations move nothing, so that the chain is that of the new scope
    rw [hgrown.chain_eq hm.ordered hordered hlt, ← hm.ordered.chain_newScope hlt]
    exact Store.chain_congr (fun t => Store.parent?_declareAll _ _ t items) _
  · exact Function.update_self _ _ _

end Surveyor

end Lox
