import Lox.Proofs.Loop.Replaced

/-!
# The simulation

Evaluators of one host with different room cannot be told apart on a program and its desugared form
unless one of them runs out of room, which it does not if it has more than twice the room of the
other. The induction is on the room on the left, and the replaced loop is the one form in which the
two sides take different steps.

* `Side.Roomy` — enough room on the other side;
* `Alike.executeStep` — one step of either evaluator;
* `alike_within` — the simulation.
-/

namespace Lox

/-- **Enough room.** The side that may not run out of it has more than twice the room of the other
one, if this has any. -/
def Side.Roomy (side : Side) (room room' : Nat) : Prop :=
  match side with
  | left => room = 0 ∨ 2 * room + 8 ≤ room'
  | right => room' = 0 ∨ 2 * room' + 8 ≤ room
  | either => True

/-- Steps of similar size leave enough room. -/
theorem Side.Roomy.sub {side : Side} {room room' a b : Nat} (h : side.Roomy room room')
    (hab : a ≤ 2 * b) (hba : b ≤ 2 * a) : side.Roomy (room - a) (room' - b) := by
  cases side with
  | left =>
    change room - a = 0 ∨ 2 * (room - a) + 8 ≤ room' - b
    obtain h | h : room = 0 ∨ 2 * room + 8 ≤ room' := h <;> omega
  | right =>
    change room' - b = 0 ∨ 2 * (room' - b) + 8 ≤ room - a
    obtain h | h : room' = 0 ∨ 2 * room' + 8 ≤ room := h <;> omega
  | either => trivial

/-- A side without room is one that may run out of it. -/
theorem Side.Roomy.eq_zero {side : Side} {room room' : Nat} (h : side.Roomy room room')
    (hzero : ¬(0 < room ∧ 0 < room')) :
    room = 0 ∧ side ≠ .right ∨ room' = 0 ∧ side ≠ .left := by
  cases side with
  | left =>
    obtain h | h : room = 0 ∨ 2 * room + 8 ≤ room' := h
    · exact .inl ⟨h, nofun⟩
    · exact .inl ⟨by omega, nofun⟩
  | right =>
    obtain h | h : room' = 0 ∨ 2 * room' + 8 ≤ room := h
    · exact .inr ⟨h, nofun⟩
    · exact .inr ⟨by omega, nofun⟩
  | either =>
    obtain hroom | hroom : room = 0 ∨ room' = 0 := by omega
    · exact .inl ⟨hroom, nofun⟩
    · exact .inr ⟨hroom, nofun⟩

/-- The parts of a block that replaces a loop. -/
theorem Side.Roomy.inBlock {side : Side} {room room' less : Nat} (h : side.Roomy room room')
    (hpos : 0 < room) (hpos' : 0 < room') (hless : room' - 6 ≤ less) (hle : less ≤ room' - 2) :
    side.Roomy (room - 4) less := by
  cases side with
  | left =>
    change room - 4 = 0 ∨ 2 * (room - 4) + 8 ≤ less
    obtain h | h : room = 0 ∨ 2 * room + 8 ≤ room' := h <;> omega
  | right =>
    change less = 0 ∨ 2 * less + 8 ≤ room - 4
    obtain h | h : room' = 0 ∨ 2 * room' + 8 ≤ room := h <;> omega
  | either => trivial

/-- Other statements than declarations may be executed anywhere. -/
theorem Pairing.Admits.of_plain {p : Pairing} {inner inside : Bool} {s s' : ScopeId} {st : Stmt}
    (hnormal : st.Normal inside) (hclosed : inner = true → st.declaresFunction = false)
    (hplain : st.isDeclaration = false) : p.Admits inner s s' st where
  normal := ⟨inside, hnormal⟩
  closed := hclosed
  twins hdecl := absurd hdecl (by rw [hplain]; nofun)

namespace Alike

variable {side : Side} {p : Pairing} {inner inside : Bool} {s s' : ScopeId} {host : Host}

/-! ### The same step on both sides -/

section Same

variable {d d' : Nat → Evaluator}

/-- Blocks. -/
theorem block (hd : ∀ cost, Alike side (d cost) (d' cost)) (hp : p.Valid)
    (hs : p.Aligned inner s s') {body body' : List Stmt} (hbody : Desugars body body')
    (hnormal : Stmt.AllNormal inside body)
    (hclosed : inner = true → Stmt.anyDeclaresFunction body = false) :
    Agree side p (fun _ _ _ => True) (Lox.executeStep host d (.block body) s p.left)
      (Lox.executeStep host d' (.block body') s' p.right) := by
  refine Agree.bind (Agree.newScope hp hs) ?_
  rintro q t t' _ hq ⟨hrole, ht⟩
  exact (hd 2).executeAll hq ht hrole hbody hnormal hclosed

/-- While loops. -/
theorem whileLoop (hd : ∀ cost, Alike side (d cost) (d' cost)) (hp : p.Valid)
    (hs : p.Aligned inner s s') (condition : Expr) {body body' : Stmt}
    (hbody : body.Desugared body') (hadmits : ∀ q : Pairing, q.Admits inner s s' body) :
    Agree side p (fun _ _ _ => True)
      (Lox.executeStep host d (.whileLoop condition body) s p.left)
      (Lox.executeStep host d' (.whileLoop condition body') s' p.right) := by
  refine Agree.iterate (fun q _ _ => q.Aligned inner s s') ?_ host.passes p () () (.refl p) hp hs
  intro q _ _ hpq hq ht
  refine Agree.rebase hpq (Agree.bind ((hd 1).evaluate condition hq ht) ?_)
  intro r v v' hqr hr hv
  rw [hv.resembles.isTruthy_eq]
  split
  · refine Agree.bind ((hd 1).execute hr (ht.mono hq hqr.outer) hbody (hadmits r)) ?_
    intro u _ _ hru hu _
    exact Agree.pure hu (.again ((ht.mono hq hqr.outer).mono hr hru.outer))
  · exact Agree.pure hr (.done trivial)

/-- Conditionals, whose second branch may be absent. -/
theorem conditional (hd : ∀ cost, Alike side (d cost) (d' cost)) (hp : p.Valid)
    (hs : p.Aligned inner s s') (condition : Expr) {yes yes' : Stmt} {no no' : Option Stmt}
    (hyes : yes.Desugared yes') (hadmits : ∀ q : Pairing, q.Admits inner s s' yes)
    (hno : ∀ q, p.Extends true q → q.Valid → Agree side q (fun _ _ _ => True)
      ((match no with | none => pure () | some no => (d 1).execute no s : Exec Unit) q.left)
      ((match no' with | none => pure () | some no => (d' 1).execute no s' : Exec Unit) q.right)) :
    Agree side p (fun _ _ _ => True)
      (Lox.executeStep host d (.conditional condition yes no) s p.left)
      (Lox.executeStep host d' (.conditional condition yes' no') s' p.right) := by
  refine Agree.bind ((hd 1).evaluate condition hp hs) ?_
  intro q v v' hpq hq hv
  rw [hv.resembles.isTruthy_eq]
  split
  · exact (hd 1).execute hq (hs.mono hp hpq.outer) hyes (hadmits q)
  · exact hno q hpq hq

/-- Function declarations, which stand outside of loops without copies. -/
theorem function (hp : p.Valid) (hrole : p.leftRole s = some (.twin false s')) (name : Token)
    (parameters : List Token) {body body' : List Stmt} (hbody : Desugars body body')
    (hnormal : Stmt.AllNormal true body) :
    Agree side p (fun _ _ _ => True)
      (Lox.executeStep host d (.function name parameters body) s p.left)
      (Lox.executeStep host d' (.function name parameters body') s' p.right) := by
  refine Agree.bind (Agree.newClosure hp hrole _ _ hbody hnormal) ?_
  intro q f f' hpq hq hf
  exact Agree.declare hq (hpq.leftRole hrole (.inl rfl)) host _ (.closure hf) false

end Same

/-! ### Either step -/

variable {room room' : Nat}

/-- **The for loop and the block that replaces it.** -/
theorem asWhile (hroomy : side.Roomy room room') (hpos : 0 < room) (hpos' : 0 < room')
    (h : ∀ a b, a < room → side.Roomy a b → Alike side (.within host a) (.within host b))
    (hp : p.Valid) (hs : p.Aligned inner s s') {start : Option Stmt} {condition update : Option Expr}
    {body body' : Stmt} (hunseen : Stmt.CopiesUnseen start body) (hbody : body.Desugared body')
    (hnormal : (Stmt.forLoop start condition update body).Normal inside)
    (hclosed : inner = true → (Stmt.forLoop start condition update body).declaresFunction = false) :
    Agree side p (fun _ _ _ => True)
      (Lox.executeStep host (fun cost => .within host (room - max 1 cost))
        (.forLoop start condition update body) s p.left)
      (Lox.executeStep host (fun cost => .within host (room' - max 1 cost))
        (.asWhile start condition update body') s' p.right) := by
  obtain ⟨hstart, -, -, hbodyNormal, hplain⟩ := Stmt.normal_forLoop.1 hnormal
  have hbodyClosed : inner = true → body.declaresFunction = false := fun hinner =>
    Stmt.body_declaresFunction (hclosed hinner)
  -- the parts of the block are nested more deeply than the clauses of the loop
  have hparts : ∀ less, room' - 2 - 4 ≤ less → less ≤ room' - 2 →
      Alike side (.within host (room - 4)) (.within host less) :=
    fun less hless hle => h _ _ (by omega) (hroomy.inBlock hpos hpos' (by omega) hle)
  -- a side that may not run out of room has enough for the additional nesting
  have hleast : side = .left → 4 ≤ room' - 2 := by
    rintro rfl
    obtain hroom | hroom : room = 0 ∨ 2 * room + 8 ≤ room' := hroomy <;> omega
  cases start with
  | none =>
    refine replacedShared hleast hparts hp hs ?_ hbody (.of_plain hbodyNormal hbodyClosed hplain)
    intro st hst
    contradiction
  | some st =>
    obtain ⟨hbegins, hst⟩ := hstart st rfl
    cases st with
    | expression value =>
      refine replacedShared hleast hparts hp hs ?_ hbody
        (.of_plain hbodyNormal hbodyClosed hplain)
      rintro _ ⟨⟩
      exact ⟨rfl, .of_plain hst (fun _ => rfl) rfl⟩
    | «variable» name initial const =>
      -- the declaration is one step further down on either side
      have hpositive : side = .right → 0 < room - 4 := by
        rintro rfl
        obtain hroom | hroom : room' = 0 ∨ 2 * room' + 8 ≤ room := hroomy <;> omega
      have hinitial : Alike side (.within host (room - 4 - 1)) (.within host (room' - 2 - 1)) := by
        rw [Nat.sub_sub, Nat.sub_sub]
        exact h _ _ (by omega) (hroomy.sub (by decide) (by decide))
      have hunseenBody : body.declaresFunction = false := hunseen _ rfl rfl
      exact replacedCopying rfl hpositive hinitial hleast hparts hp hs hbody
        (.of_plain hbodyNormal (fun _ => hunseenBody) hplain)
    | _ => exact absurd hbegins Bool.false_ne_true

/-- **One step of either evaluator.** -/
theorem executeStep (hroomy : side.Roomy room room') (hpos : 0 < room) (hpos' : 0 < room')
    (h : ∀ a b, a < room → side.Roomy a b → Alike side (.within host a) (.within host b))
    (hp : p.Valid) (hs : p.Aligned inner s s') {st st' : Stmt} (hst : st.Desugared st')
    (hadmits : p.Admits inner s s' st) :
    Agree side p (fun _ _ _ => True)
      (Lox.executeStep host (fun cost => .within host (room - max 1 cost)) st s p.left)
      (Lox.executeStep host (fun cost => .within host (room' - max 1 cost)) st' s' p.right) := by
  -- the parts are alike in any smaller room
  have hd : ∀ cost, Alike side (.within host (room - max 1 cost))
      (.within host (room' - max 1 cost)) := fun cost =>
    h _ _ (by omega) (hroomy.sub (by omega) (by omega))
  obtain ⟨⟨inside, hnormal⟩, hclosed, htwins⟩ := hadmits
  -- the two statements have the same form, but for a loop that has been replaced
  cases hst with
  | expression value =>
    refine Agree.bind ((hd 1).evaluate value hp hs) ?_
    intro q _ _ _ hq _
    exact Agree.pure hq trivial
  | print value =>
    refine Agree.bind ((hd 1).evaluate value hp hs) ?_
    intro q v v' _ hq hv
    rw [hv.resembles.display_eq]
    exact Agree.print hq _
  | «variable» name initial const =>
    refine Agree.bind ((hd 1).evaluateOption initial hp hs) ?_
    intro q v v' hpq hq hv
    exact Agree.declare hq (hpq.leftRole (htwins rfl) (.inl rfl)) host name.lexeme hv const
  | returning keyword value =>
    refine Agree.bind ((hd 1).evaluateOption value hp hs) ?_
    intro q v v' _ hq hv
    exact Agree.throw hq (.returning hv)
  | foreign description => exact Agree.throw hp (.misplaced _)
  | block hbody => exact block hd hp hs hbody hnormal hclosed
  | conditional condition hyes =>
    obtain ⟨-, hyesNormal, hplain⟩ := hnormal
    refine conditional hd hp hs condition hyes (fun _ => .of_plain hyesNormal hclosed hplain) ?_
    intro q _ hq
    exact Agree.pure hq trivial
  | alternative condition hyes hno =>
    obtain ⟨-, hyesNormal, hplain, -, hnoNormal, hplain'⟩ := hnormal
    -- no closure is made in either branch of a loop without copies
    have hboth : inner = true → _ ∧ _ := fun hinner =>
      Bool.or_eq_false_iff.1 (hclosed hinner)
    refine conditional hd hp hs condition hyes
      (fun _ => .of_plain hyesNormal (fun hinner => (hboth hinner).1) hplain) ?_
    intro q hpq hq
    exact (hd 1).execute hq (hs.mono hp hpq.outer) hno
      (.of_plain hnoNormal (fun hinner => (hboth hinner).2) hplain')
  | whileLoop condition hbody =>
    obtain ⟨-, hbodyNormal, hplain⟩ := hnormal
    exact whileLoop hd hp hs condition hbody fun _ => .of_plain hbodyNormal hclosed hplain
  | forLoop start condition update hbody =>
    exact forLoop (hd 4) hp hs hbody hnormal hclosed
  | function name parameters hbody =>
    -- no function is declared inside a loop without copies
    cases inner with
    | true => exact absurd (hclosed rfl) nofun
    | false => exact function hp (htwins rfl) name parameters hbody hnormal.2.2.2
  | asWhile start condition update hunseen hbody =>
    exact asWhile hroomy hpos hpos' h hp hs hunseen hbody hnormal hclosed

end Alike

/-- **The simulation.** -/
theorem alike_within {side : Side} (host : Host) (room room' : Nat)
    (hroomy : side.Roomy room room') :
    Alike side (.within host room) (.within host room') := by
  -- a unit of room on one side stands for several on the other, so that the other is arbitrary
  induction room using Nat.strongRecOn generalizing room' with
  | ind room ih =>
    by_cases hzero : 0 < room ∧ 0 < room'
    · obtain ⟨hpos, hpos'⟩ := hzero
      have hd : ∀ cost, Alike side (.within host (room - max 1 cost))
          (.within host (room' - max 1 cost)) := fun cost =>
        ih _ (by omega) _ (hroomy.sub (by omega) (by omega))
      rw [Evaluator.within_of_pos host hpos, Evaluator.within_of_pos host hpos']
      constructor
      case evaluate => exact fun e hp hs => Alike.evaluateStep hd hp hs e
      case execute =>
        exact fun hp hs hst hadmits => Alike.executeStep hroomy hpos hpos'
          (fun a b hlt hab => ih a hlt b hab) hp hs hst hadmits
    · -- a side without any room is one that may run out of it
      obtain ⟨rfl, hside⟩ | ⟨rfl, hside⟩ := hroomy.eq_zero hzero
      · exact ⟨fun e _ _ => .inl (Side.excuses_left hside (Evaluator.exhausted_evaluate host e _ _)),
          fun _ _ _ _ => .inl (Side.excuses_left hside (Evaluator.exhausted_execute host _ _ _))⟩
      · exact ⟨fun e _ _ => .inl (Side.excuses_right hside (Evaluator.exhausted_evaluate host e _ _)),
          fun _ _ _ _ => .inl (Side.excuses_right hside (Evaluator.exhausted_execute host _ _ _))⟩

end Lox
