import Mathlib.Logic.Relation
import MipsEmulator.Frame

/-!
# Runs

A run is a sequence of calls of `mips_step` that return. The loop of a hint write runs on
fuel in the model, so a step of a run is a step that returns under some fuel: a call whose
loop never ends is no step.

* `Reachable env e e'`: a run from `e` ends in `e'`.
* `Reachable.invariant`: a property that every returning step keeps holds of every state a
  run reaches.
* Register 0 is never written, so it stays 0 along every run that starts with it 0.
-/

namespace MipsEmulator

/-- `mips_step` takes `e` to `e'` without aborting. -/
def Step (env : Env) (e e' : InstrumentedState) : Prop := ∃ fuel, mipsStep env fuel e = .ok e'

/-- `e'` is reached from `e` by a run of steps that return. -/
def Reachable (env : Env) : InstrumentedState → InstrumentedState → Prop :=
  Relation.ReflTransGen (Step env)

variable {env : Env} {e e' : InstrumentedState}

/-- A property that every returning step keeps holds along every run. -/
theorem Reachable.invariant {P : InstrumentedState → Prop}
    (hstep : ∀ {fuel a b}, mipsStep env fuel a = .ok b → P a → P b)
    (hr : Reachable env e e') (h : P e) :
  P e'
  := by
  induction hr with
  | refl => exact h
  | tail _ hs ih =>
    obtain ⟨fuel, hs⟩ := hs
    exact hstep hs ih

/-! ### Register 0 -/

/-- No returning step changes register 0, whatever the instruction and its register fields;
so a run from a state with register 0 at 0 keeps it at 0. -/
theorem registers_zero_invariant :
  (∀ env fuel (e e' : InstrumentedState), mipsStep env fuel e = .ok e' →
    e'.state.registers 0 = e.state.registers 0) ∧
  (∀ env (e e' : InstrumentedState), e.state.registers 0 = 0 → Reachable env e e' →
    e'.state.registers 0 = 0)
  := ⟨fun _ _ _ _ => mipsStep_reg_zero,
    fun _ _ _ h0 hr => hr.invariant (fun hs h => (mipsStep_reg_zero hs).trans h) h0⟩

end MipsEmulator
