import Lox.Proofs.Grammar.Soundness
import Lox.Proofs.Grammar.Completeness.Statement
import Lox.Proofs.Grammar.Transfer
import Lox.Proofs.Token.Concatenation

/-!
# Programs one after the other

Two sources that are joined by a newline are read as the statements of both, in the same room. The
declarations of the first are read up to where it ends: its last statement does not take an `else`
that comes next, since no source begins with one. Then the declarations of the second are read, which
stand in a later place.

* `Window.iterate_programTurn` — the declarations of a window, on the window and alone;
* `Window.ofList`, `Window.iterate_ofList` — a source among the tokens of others;
* `parse_append` — the statements of two sources joined by a newline.
-/

namespace Lox

/-- **Tokens in a later place.** -/
def Relocation.later (start line : Nat) : Relocation where
  move := Token.later start line
  line := (· + line)
  kind_eq _ := rfl
  lexeme_eq _ := rfl
  value_eq _ := rfl
  line_eq _ := rfl

/-! ### The loop over declarations -/

/-- **A turn of the loop over declarations.** -/
def Parse.programTurn (d : Descent) (program : List Stmt) : Parse (Turn (List Stmt) (List Stmt)) := do
  if ← accept .eof then return .done program.reverse
  return .again ((← (d 0).declaration) :: program)

theorem Parse.program_start (d : Descent) (tokens : Array Token) :
    Parse.program d (Cursor.start tokens) =
      iterate .outOfRange (Parse.programTurn d) tokens.size [] (Cursor.start tokens) := rfl

variable {d : Descent} {c : Cursor} {t : Token}

/-- At the end the loop is done. -/
theorem programTurn_of_eof (ht : c.tokens[c.index]? = some t) (hkind : t.kind = .eof)
    (program : List Stmt) : Parse.programTurn d program c =
      .ok (.done program.reverse) { c with index := c.index + 1 } := by
  have hcheck : Parse.check .eof c = .ok true c := by
    rw [Window.check_of_getElem? ht, hkind]
    rfl
  have haccept : Parse.accept .eof c = .ok true { c with index := c.index + 1 } := by
    rw [Parse.accept, Window.bind_of_ok hcheck]
    rfl
  rw [Parse.programTurn, Window.bind_of_ok haccept]
  rfl

/-- In front of the end it reads a declaration. -/
theorem programTurn_of_ne (ht : c.tokens[c.index]? = some t) (hkind : t.kind ≠ .eof)
    (program : List Stmt) : Parse.programTurn d program c =
      ((d 0).declaration >>= fun st => pure (.again (st :: program))) c := by
  have hcheck : Parse.check .eof c = .ok false c := by
    rw [Window.check_of_getElem? ht]
    exact congrArg (fun b => EStateM.Result.ok b c) (beq_eq_false_iff_ne.2 hkind)
  have haccept : Parse.accept .eof c = .ok false c := by
    rw [Parse.accept, Window.bind_of_ok hcheck]
    rfl
  rw [Parse.programTurn, Window.bind_of_ok haccept]
  rfl

/-- Behind the end it fails. -/
theorem programTurn_of_none (ht : c.tokens[c.index]? = none) (program : List Stmt)
    (turn : Turn (List Stmt) (List Stmt)) (c₁ : Cursor) :
    Parse.programTurn d program c ≠ .ok turn c₁ := by
  intro h
  obtain ⟨b, c₂, haccept, -⟩ := Window.bind_eq_ok h
  obtain ⟨b', c₃, hcheck, -⟩ := Window.bind_eq_ok haccept
  obtain ⟨rfl, t, hsome, -⟩ := Window.check_eq_ok hcheck
  rw [ht] at hsome
  contradiction

namespace Window

variable {r : Relocation} {w : Window r}

/-- **The declarations of a window.** Whatever the loop reads of the tokens alone up to their end, it
reads of the whole before it comes to the end of the window. -/
theorem iterate_programTurn (hd : d.Transfers w) (n : Nat) : ∀ program c result c₁,
    iterate .outOfRange (Parse.programTurn d) n program c = .ok result c₁ → c.tokens = w.part →
    ∃ added, result = program.reverse ++ added ∧ c.index + added.length ≤ w.length ∧
      ∀ c' program', w.Beside c c' → ∃ c₁', c₁'.tokens = w.whole ∧
        c₁'.index = w.shift + w.length ∧ c₁'.functionDepth = c'.functionDepth ∧ ∀ n',
          iterate .outOfRange (Parse.programTurn d) (added.length + n') program' c' =
            iterate .outOfRange (Parse.programTurn d) n'
              ((Stmt.relocateAll r.move added).reverse ++ program') c₁' := by
  -- on the whole the turns are counted by the declarations, since it goes on behind them
  induction n with
  | zero => exact fun program c result c₁ h => by contradiction
  | succ n ih =>
    intro program c result c₁ h htokens
    obtain hlt | hend | hgt := Nat.lt_trichotomy c.index w.length
    · -- a declaration, and then the others
      obtain ⟨t, ht, hkind, ht'⟩ := w.inner c.index hlt
      rw [← htokens] at ht
      rw [iterate, programTurn_of_ne ht hkind] at h
      cases hfirst : (d 0).declaration c with
      | error e c₂ =>
        rw [bind_of_error hfirst] at h
        contradiction
      | ok st c₂ =>
        rw [bind_of_ok hfirst] at h
        obtain ⟨honward, hsame⟩ := (hd 0).declaration c st c₂ hfirst
        obtain ⟨added, hresult, hlength, hrest⟩ :=
          ih (st :: program) c₂ result c₁ h (honward.tokens_eq.trans htokens)
        have hindex := honward.index_le
        refine ⟨st :: added, ?_, ?_, fun c' program' hbeside => ?_⟩
        · rw [hresult, List.reverse_cons, List.append_assoc, List.singleton_append]
        · rw [List.length_cons]
          omega
        · obtain ⟨c₂', hfirst', hbeside₂⟩ := hsame c' hbeside (by omega)
          obtain ⟨c₁', htokens', hindex', hdepth', hiterate⟩ :=
            hrest c₂' (st.relocate r.move :: program') hbeside₂
          have hdepth : c₂'.functionDepth = c'.functionDepth := by
            rw [hbeside₂.depth_eq, honward.depth_eq, hbeside.depth_eq]
          refine ⟨c₁', htokens', hindex', hdepth'.trans hdepth, fun n' => ?_⟩
          have hnext' : c'.tokens[c'.index]? = some (r.move t) := by
            rw [hbeside.whole_eq, hbeside.index_eq, ht']
          have hkind' : (r.move t).kind ≠ .eof := by rwa [r.kind_eq]
          rw [List.length_cons, Nat.add_right_comm, iterate, programTurn_of_ne hnext' hkind',
            bind_of_ok hfirst']
          refine (hiterate n').trans ?_
          rw [Stmt.relocateAll, List.reverse_cons, List.append_assoc, List.singleton_append]
    · -- the end
      obtain ⟨t, -, ht, hkind, -⟩ := w.ending
      rw [← htokens, ← hend] at ht
      rw [iterate, programTurn_of_eof ht hkind] at h
      obtain ⟨rfl, -⟩ := EStateM.Result.ok.inj h
      refine ⟨[], (List.append_nil _).symm, hend.le, fun c' program' hbeside => ?_⟩
      refine ⟨c', hbeside.whole_eq, ?_, rfl, fun n' => ?_⟩
      · rw [hbeside.index_eq, hend]
      · rw [List.length_nil, Nat.zero_add]
        rfl
    · -- behind the end the loop fails
      have hnone : c.tokens[c.index]? = none := by
        rw [htokens, Array.getElem?_eq_none_iff, w.size_eq]
        exact hgt
      rw [iterate] at h
      cases hturn : Parse.programTurn d program c with
      | error e c₂ => rw [hturn] at h; contradiction
      | ok turn c₂ => exact absurd hturn (programTurn_of_none hnone program turn c₂)

/-- **The program of a window** in the middle of a loop over declarations. -/
theorem iterate_program (hd : d.Transfers w) {program : List Stmt} {c₁ : Cursor}
    (h : Parse.program d (Cursor.start w.part) = .ok program c₁) :
    program.length ≤ w.length ∧ ∀ c' before, w.Beside (Cursor.start w.part) c' →
      ∃ c₁', c₁'.tokens = w.whole ∧ c₁'.index = w.shift + w.length ∧ c₁'.functionDepth = 0 ∧ ∀ n',
        iterate .outOfRange (Parse.programTurn d) (program.length + n') before c' =
          iterate .outOfRange (Parse.programTurn d) n'
            ((Stmt.relocateAll r.move program).reverse ++ before) c₁' := by
  rw [Parse.program_start] at h
  obtain ⟨added, hadded, hlength, hsame⟩ :=
    iterate_programTurn hd _ [] (Cursor.start w.part) program c₁ h rfl
  rw [List.reverse_nil, List.nil_append] at hadded
  subst hadded
  change 0 + program.length ≤ w.length at hlength
  refine ⟨by omega, fun c' before hbeside => ?_⟩
  obtain ⟨c₁', htokens, hindex, hdepth, hiterate⟩ := hsame c' before hbeside
  exact ⟨c₁', htokens, hindex, hdepth.trans hbeside.depth_eq, hiterate⟩

/-- **The tokens of a source among others.** Its end is left out there. -/
def ofList (r : Relocation) (before body behind : List Token) (eof next : Token)
    (hbody : ∀ t ∈ body, t.kind ≠ .eof) (heof : eof.kind = .eof) (hnext : next.kind ≠ .elseWord) :
    Window r where
  part := (body ++ [eof]).toArray
  whole := (before ++ (body.map r.move ++ next :: behind)).toArray
  length := body.length
  shift := before.length
  size_eq := by rw [List.size_toArray, List.length_append, List.length_singleton]
  inner i hi := by
    refine ⟨body[i], ?_, hbody _ (List.getElem_mem hi), ?_⟩
    · rw [List.getElem?_toArray, List.getElem?_append_left hi, List.getElem?_eq_getElem hi]
    · have hmap : i < (body.map r.move).length := by rwa [List.length_map]
      rw [List.getElem?_toArray, List.getElem?_append_right (Nat.le_add_right ..),
        Nat.add_sub_cancel_left, List.getElem?_append_left hmap, List.getElem?_map,
        List.getElem?_eq_getElem hi]
      rfl
  ending := by
    refine ⟨eof, next, ?_, heof, ?_, hnext⟩
    · rw [List.getElem?_toArray, List.getElem?_concat_length]
    · have hmap : (body.map r.move).length = body.length := List.length_map _
      rw [List.getElem?_toArray, List.getElem?_append_right (Nat.le_add_right ..),
        Nat.add_sub_cancel_left, ← hmap, List.getElem?_append_right (Nat.le_refl _), Nat.sub_self]
      rfl

/-- **A source among others** is read where it stands. -/
theorem iterate_ofList {room : Nat} {before body behind whole : List Token} {eof next : Token}
    {program : List Stmt} {c₁ : Cursor} (hbody : ∀ t ∈ body, t.kind ≠ .eof) (heof : eof.kind = .eof)
    (hnext : next.kind ≠ .elseWord) (hwhole : whole = before ++ (body.map r.move ++ next :: behind))
    (h : Parse.program (Descent.inRoom room) (Cursor.start (body ++ [eof]).toArray) =
      .ok program c₁) :
    program.length ≤ body.length ∧ ∀ c' found, c'.tokens = whole.toArray →
      c'.index = before.length → c'.functionDepth = 0 →
      ∃ c₁', c₁'.tokens = whole.toArray ∧ c₁'.index = before.length + body.length ∧
        c₁'.functionDepth = 0 ∧ ∀ n',
          iterate .outOfRange (Parse.programTurn (Descent.inRoom room)) (program.length + n') found
              c' =
            iterate .outOfRange (Parse.programTurn (Descent.inRoom room)) n'
              ((Stmt.relocateAll r.move program).reverse ++ found) c₁' := by
  subst hwhole
  let w := ofList r before body behind eof next hbody heof hnext
  obtain ⟨hlength, hsame⟩ := w.iterate_program (productions_transfer w room) h
  exact ⟨hlength, fun c' found htokens hindex hdepth =>
    hsame c' found ⟨rfl, htokens, hindex.trans (Nat.add_zero _).symm, hdepth⟩⟩

end Window

/-! ### Sources -/

/-- What a parse that succeeds has done. -/
theorem parse_eq_ok_iff {room : Nat} {source : String} {program : List Stmt} :
    parse room source = .ok program ↔ ∃ tokens c, tokenize source = .ok tokens ∧
      Parse.program (Descent.inRoom room) (Cursor.start tokens) = .ok program c := by
  unfold parse
  cases tokenize source with
  | error e => simp
  | ok tokens =>
    simp only [Reading.ofTokens]
    cases hread : Parse.program (Descent.inRoom room) (Cursor.start tokens) with
    | error e c => simp [hread]
    | ok found c => simp [hread]

/-- A parse that is known to succeed has a program. -/
theorem exists_program {room : Nat} {source : String}
    (h : (parse room source).toOption.isSome = true) : ∃ program, parse room source = .ok program := by
  cases hparse : parse room source with
  | ok program => exact ⟨program, rfl⟩
  | error e =>
    rw [hparse] at h
    contradiction

/-- **The first token of a source** that can be parsed is no `else`. -/
theorem head_ne_else {room : Nat} {source : String} {program : List Stmt} {tokens : Array Token}
    (h : parse room source = .ok program) (htokens : tokenize source = .ok tokens) {t : Token}
    (ht : tokens[0]? = some t) : t.kind ≠ .elseWord := by
  obtain ⟨tokens', s₁, eof, htokens', hpassed, heof, hkind, hnormal⟩ := passed_parse h
  obtain rfl : tokens' = tokens := Except.ok.inj (htokens'.symm.trans htokens)
  cases program with
  | nil =>
    -- an empty program begins with its end
    rw [hpassed.eq_of_nil] at heof
    obtain rfl : eof = t := Option.some.inj (heof.symm.trans ht)
    rw [hkind]
    decide
  | cons st program =>
    obtain ⟨s₂, hst, -⟩ := Passed.split hpassed
    obtain ⟨u, hu, -, hne⟩ := Stmt.first_of_normal hnormal.1 hst
    obtain rfl : u = t := Option.some.inj (hu.symm.trans ht)
    exact hne .elseWord rfl st.opening_ne.1

/-- **The tokens of two sources,** the end of the first left out, are read as the statements of
both. -/
theorem program_append {room : Nat} {r : Relocation} {bodyA bodyB : List Token} {eofA eofB : Token}
    {first second : List Stmt} {cA cB : Cursor} (hbodyA : ∀ t ∈ bodyA, t.kind ≠ .eof)
    (heofA : eofA.kind = .eof) (hbodyB : ∀ t ∈ bodyB, t.kind ≠ .eof) (heofB : eofB.kind = .eof)
    (hhead : ∀ t, (bodyB ++ [eofB]).head? = some t → t.kind ≠ .elseWord)
    (hA : Parse.program (Descent.inRoom room) (Cursor.start (bodyA ++ [eofA]).toArray) = .ok first cA)
    (hB : Parse.program (Descent.inRoom room) (Cursor.start (bodyB ++ [eofB]).toArray) =
      .ok second cB) :
    ∃ c, Parse.program (Descent.inRoom room)
        (Cursor.start (bodyA ++ (bodyB ++ [eofB]).map r.move).toArray) =
      .ok (first ++ Stmt.relocateAll r.move second) c := by
  -- something comes behind the first source, if only the end of the second
  obtain ⟨next, behind, hnext⟩ : ∃ next behind, bodyB ++ [eofB] = next :: behind :=
    List.exists_cons_of_ne_nil (List.append_ne_nil_of_right_ne_nil _ (List.cons_ne_nil _ _))
  have hnextKind : (r.move next).kind ≠ .elseWord := by
    rw [r.kind_eq]
    exact hhead next (by rw [hnext, List.head?_cons])
  have heofKind : (r.move eofB).kind ≠ .elseWord := by
    rw [r.kind_eq, heofB]
    decide
  -- both sources are windows of the whole: the first as it is, the second moved
  let whole := bodyA ++ (bodyB ++ [eofB]).map r.move
  have hwhole₁ :
      whole = [] ++ (bodyA.map Relocation.stay.move ++ r.move next :: behind.map r.move) := by
    rw [← List.map_cons, ← hnext, List.nil_append]
    exact congrArg (· ++ _) (List.map_id bodyA).symm
  have hwhole₂ : whole = bodyA ++ (bodyB.map r.move ++ r.move eofB :: []) :=
    congrArg (bodyA ++ ·) List.map_append
  -- each is read in its window as it is read alone
  obtain ⟨hlength₁, hfirst⟩ := Window.iterate_ofList hbodyA heofA hnextKind hwhole₁ hA
  obtain ⟨hlength₂, hsecond⟩ := Window.iterate_ofList hbodyB heofB heofKind hwhole₂ hB
  obtain ⟨c₁, htokens₁, hindex₁, hdepth₁, hiterate₁⟩ :=
    hfirst (Cursor.start whole.toArray) [] rfl rfl rfl
  obtain ⟨c₂, htokens₂, hindex₂, -, hiterate₂⟩ :=
    hsecond c₁ _ htokens₁ (hindex₁.trans (Nat.zero_add _)) hdepth₁
  -- what is left of the turns is enough for the end
  have hsize : whole.toArray.size = bodyA.length + (bodyB.length + 1) := by
    rw [List.size_toArray, List.length_append, List.length_map, List.length_append,
      List.length_singleton]
  obtain ⟨n, hn⟩ : ∃ n, whole.toArray.size = first.length + (second.length + (n + 1)) :=
    ⟨whole.toArray.size - first.length - second.length - 1, by omega⟩
  -- behind both stands the end of the second source
  have hend : c₂.tokens[c₂.index]? = some (r.move eofB) := by
    have hmap : (bodyB.map r.move).length = bodyB.length := List.length_map _
    rw [htokens₂, hindex₂, hwhole₂, List.getElem?_toArray,
      List.getElem?_append_right (Nat.le_add_right ..), Nat.add_sub_cancel_left, ← hmap,
      List.getElem?_concat_length]
  have hkind : (r.move eofB).kind = .eof := by rw [r.kind_eq, heofB]
  have hresult : ((Stmt.relocateAll r.move second).reverse ++
      ((Stmt.relocateAll id first).reverse ++ [])).reverse =
        first ++ Stmt.relocateAll r.move second := by
    rw [List.append_nil, List.reverse_append, List.reverse_reverse, List.reverse_reverse,
      Stmt.relocateAll_id]
  refine ⟨{ c₂ with index := c₂.index + 1 }, ?_⟩
  rw [Parse.program_start, hn, hiterate₁]
  refine (hiterate₂ (n + 1)).trans ?_
  rw [iterate, programTurn_of_eof hend hkind, ← hresult]
  rfl

/-- **Two sources joined by a newline** are read as the statements of both, in the same room. -/
theorem parse_append {room : Nat} {a b : String} {first second : List Stmt}
    (ha : parse room a = .ok first) (hb : parse room b = .ok second) :
    parse room (a ++ "\n" ++ b) = .ok (first ++
      Stmt.relocateAll (Token.later (a.length + 1) (1 + a.toList.count '\n')) second) := by
  obtain ⟨ta, ca, hta, hreadA⟩ := parse_eq_ok_iff.1 ha
  obtain ⟨tb, cb, htb, hreadB⟩ := parse_eq_ok_iff.1 hb
  obtain ⟨bodyA, eofA, hlistA, heofA, hbodyA⟩ := tokenize_shape hta
  obtain ⟨bodyB, eofB, hlistB, heofB, hbodyB⟩ := tokenize_shape htb
  let r := Relocation.later (a.length + 1) (1 + a.toList.count '\n')
  -- the end of the first source is left out where the second one begins
  have hpop : ta.pop = bodyA.toArray := by
    rw [← Array.toList_inj, Array.toList_pop, hlistA, List.dropLast_concat]
  have htokens : ta.pop ++ tb.map r.move = (bodyA ++ (bodyB ++ [eofB]).map r.move).toArray := by
    rw [hpop, ← hlistB, ← Array.toList_inj, Array.toList_append, Array.toList_map]
  obtain rfl : ta = (bodyA ++ [eofA]).toArray := by rw [← hlistA]
  obtain rfl : tb = (bodyB ++ [eofB]).toArray := by rw [← hlistB]
  -- a conditional at the end of the first source would take an `else`, but no program begins with one
  have hhead : ∀ t, (bodyB ++ [eofB]).head? = some t → t.kind ≠ .elseWord := by
    intro t ht
    refine head_ne_else hb htb ?_
    rw [List.getElem?_toArray, ← List.head?_eq_getElem?, ht]
  obtain ⟨c, hread⟩ := program_append (r := r) (fun t ht => (hbodyA t ht).1) heofA
    (fun t ht => (hbodyB t ht).1) heofB hhead hreadA hreadB
  exact parse_eq_ok_iff.2 ⟨_, c, (tokenize_append hta htb).trans (congrArg Except.ok htokens), hread⟩

end Lox
