import Lox.Proofs.Inputs
import Mathlib.Data.List.Forall2

/-!
# What can be observed

What somebody sees who runs programs one after the other in a session: what was printed, how each
run ended, and what the global names stand for. The place of a variable in the store is not seen, nor
is the body of a function.

* `Session.history` — the runs of several programs;
* `Value.Resembles` — values that look the same, `Value.Resembles.applyBinary_eq` what operators make
  of them;
* `SameObservation` — runs that look the same;
* `Verdict.isExhausted` — runs that were cut short.
-/

namespace Lox

/-! ### What runs look like -/

/-- **Values that look the same.** -/
inductive Value.Resembles : Value → Value → Prop
  | literal (l : Literal) : Resembles (.literal l) (.literal l)
  | native (f : Native) : Resembles (.native f) (.native f)
  | closure {f f' : Closure} (hidentity : f'.identity = f.identity) (hname : f'.name = f.name)
    (hparameters : f'.parameters = f.parameters) : Resembles (.closure f) (.closure f')

namespace Value.Resembles

variable {v v' w w' : Value}

theorem isTruthy_eq (h : v.Resembles v') : v'.isTruthy = v.isTruthy := by
  cases h <;> rfl

/-- Values that look the same are printed in the same way. -/
theorem display_eq (h : v.Resembles v') : v'.display = v.display := by
  cases h with
  | literal l => rfl
  | native f => rfl
  | closure hidentity hname hparameters => rw [Value.display, Value.display, hname]

theorem equals_eq (hv : v.Resembles v') (hw : w.Resembles w') : v'.equals w' = v.equals w := by
  cases hv with
  | literal l => cases hw <;> rfl
  | native f => cases hw <;> rfl
  | closure hf _ _ =>
    cases hw with
    | literal l => rfl
    | native g => rfl
    | closure hg _ _ => rw [Value.equals, Value.equals, hf, hg]

/-- **No operator tells them apart.** -/
theorem applyUnary_eq (h : v.Resembles v') (kind : TokenKind) :
    applyUnary kind v' = applyUnary kind v := by
  cases h with
  | literal l => rfl
  | native f => rfl
  | closure _ _ _ => cases kind <;> rfl

theorem applyBinary_eq (hv : v.Resembles v') (hw : w.Resembles w') (kind : TokenKind) :
    applyBinary kind v' w' = applyBinary kind v w := by
  have hequals := hv.equals_eq hw
  unfold applyBinary
  rw [hequals]
  -- all other operators are for literals, which are the same on both sides
  cases hv with
  | native f => cases hw <;> rfl
  | closure _ _ _ => cases hw <;> rfl
  | literal l =>
    cases hw with
    | literal l' => rfl
    | native g => rfl
    | closure _ _ _ => cases l <;> rfl

end Value.Resembles

/-- The error with which a run failed. -/
def Verdict.error? : Verdict → Option RuntimeError
  | interrupted (.failed e) => some e
  | _ => none

/-- Was the run cut short for want of room? -/
def Verdict.isExhausted (verdict : Verdict) : Bool :=
  verdict.error?.any fun e => e.cause == .roomExhausted

namespace Session

/-- The global names with what they stand for. -/
def globalContents (m : Session) : List (String × Value × Bool) :=
  m.store.contents m.rest.globals

/-- **The runs of several programs,** one after the other, whatever becomes of each. -/
def history (host : Host) (m : Session) : List (List Stmt) → List (Verdict × Session)
  | [] => []
  | program :: programs =>
    m.executeProgram host program :: (m.executeProgram host program).2.history host programs

end Session

/-- **Runs that look the same:** the report with its message and line, the error, all that was printed
so far, and the globals in their order with their values. -/
structure SameObservation (run run' : Verdict × Session) : Prop where
  report_eq : run'.1.report = run.1.report
  error_eq : run'.1.error? = run.1.error?
  output_eq : run'.2.rest.output = run.2.rest.output
  globals : List.Forall₂ (fun x y => y.1 = x.1 ∧ x.2.1.Resembles y.2.1 ∧ y.2.2 = x.2.2)
    run.2.globalContents run'.2.globalContents

end Lox
