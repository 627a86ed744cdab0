import Mathlib
import MipsEmulator.State

/-!
# Boolean gadgets of the circuits

The value functions of the boolean gadgets in `circuit_gadgets/util.rs`, over any field `F`:
`and::value` folds the product of its inputs from `F::ONE`, `not::value` is `1 - b`,
`or::value` is `not` of the `and` of the negated inputs, `select::value` is
`s * t + (1 - s) * f`, and `select::value_word` picks one of two `[u8; 32]` words by testing
`selector == F::ONE`. On inputs that are `0` or `1` they compute the boolean operations their
names promise: `and` is `1` exactly when every input is `1`, `or` exactly when some input is
`1`, and both selects choose the first value exactly when the selector is `1`.
-/

namespace MipsEmulator

variable {F : Type} [Field F]

/-- `and::value`: the product of the inputs, folded from `F::ONE`. -/
def andValue (inputs : List F) : F := inputs.foldl (fun acc input => acc * input) 1

/-- `not::value`. -/
def notValue (b : F) : F := 1 - b

/-- `or::value`: the `not` of the `and` of the negated inputs. -/
def orValue (inputs : List F) : F := notValue (andValue (inputs.map notValue))

/-- `select::value`. -/
def selectValue (selector whenTrue whenFalse : F) : F :=
  selector * whenTrue + (1 - selector) * whenFalse

/-- `select::value_word`, on the `[u8; 32]` words the project models as `Key`. -/
def selectValueWord [DecidableEq F] (selector : F) (whenTrue whenFalse : Key) : Key :=
  if selector = 1 then whenTrue else whenFalse

/-- A field element that is a bit. -/
def IsBool (x : F) : Prop := x = 0 ∨ x = 1

/-! ### Bits -/

theorem andValue_eq_prod (inputs : List F) : andValue inputs = inputs.prod :=
  List.prod_eq_foldl.symm

theorem IsBool.notValue {x : F} (h : IsBool x) : IsBool (notValue x) := by
  rcases h with rfl | rfl
  · exact .inr (sub_zero 1)
  · exact .inl (sub_self 1)

theorem notValue_eq_one_iff {x : F} (h : IsBool x) : notValue x = 1 ↔ x = 0 := by
  rcases h with rfl | rfl <;> simp [notValue]

/-- On bits, `and::value` is a bit, and it is `1` exactly when every input is `1`. -/
theorem andValue_bool {inputs : List F} (h : ∀ x ∈ inputs, IsBool x) :
  IsBool (andValue inputs) ∧ (andValue inputs = 1 ↔ ∀ x ∈ inputs, x = 1)
  := by
  rw [andValue_eq_prod]
  induction inputs with
  | nil => exact ⟨.inr rfl, by simp⟩
  | cons x xs ih =>
    obtain ⟨hb, hxs⟩ := ih fun y hy => h y (List.mem_cons_of_mem x hy)
    rcases h x (List.mem_cons_self x xs) with rfl | rfl
    · exact ⟨.inl (by simp), by simp⟩
    · simpa using ⟨hb, hxs⟩

/-- On bits, `or::value` is a bit, and it is `1` exactly when some input is `1`. -/
theorem orValue_bool {inputs : List F} (h : ∀ x ∈ inputs, IsBool x) :
  IsBool (orValue inputs) ∧ (orValue inputs = 1 ↔ ∃ x ∈ inputs, x = 1)
  := by
  have hn : ∀ y ∈ inputs.map notValue, IsBool y := by
    simp only [List.mem_map]
    rintro _ ⟨x, hx, rfl⟩
    exact (h x hx).notValue
  obtain ⟨hb, hall⟩ := andValue_bool hn
  refine ⟨hb.notValue, ?_⟩
  rw [orValue, notValue_eq_one_iff hb]
  constructor
  · intro h0
    by_contra hno
    push_neg at hno
    refine zero_ne_one (h0.symm.trans (hall.mpr ?_))
    simp only [List.mem_map]
    rintro _ ⟨x, hx, rfl⟩
    rcases h x hx with rfl | h1
    · exact sub_zero 1
    · exact absurd h1 (hno x hx)
  · rintro ⟨x, hx, rfl⟩
    rcases hb with h0 | h1
    · exact h0
    · exact absurd (hall.mp h1 _ (List.mem_map_of_mem notValue hx)) (by simp [notValue])

/-- The boolean gadgets compute on bits what their names promise: `and::value` of a list of
bits is `1` when every bit is `1` and `0` otherwise, `or::value` is `1` when some bit is `1`
and `0` otherwise, and `select::value` and `select::value_word` both take their first argument
for the selector `1` and their second for the selector `0`. -/
theorem boolean_gadgets_on_bits :
  (∀ (F : Type) [Field F] (xs : List F), (∀ x ∈ xs, IsBool x) →
    ((∀ x ∈ xs, x = 1) → andValue xs = 1) ∧ (¬(∀ x ∈ xs, x = 1) → andValue xs = 0)) ∧
  (∀ (F : Type) [Field F] (xs : List F), (∀ x ∈ xs, IsBool x) →
    ((∃ x ∈ xs, x = 1) → orValue xs = 1) ∧ (¬(∃ x ∈ xs, x = 1) → orValue xs = 0)) ∧
  (∀ (F : Type) [Field F] [DecidableEq F] (t f : F) (tw fw : Key),
    selectValue (1 : F) t f = t ∧ selectValueWord (1 : F) tw fw = tw ∧
    selectValue (0 : F) t f = f ∧ selectValueWord (0 : F) tw fw = fw)
  := by
  refine ⟨fun F _ xs h => ?_, fun F _ xs h => ?_, fun F _ _ t f tw fw => ?_⟩
  · obtain ⟨hb, hall⟩ := andValue_bool h
    exact ⟨hall.mpr, fun hn => hb.resolve_right (mt hall.mp hn)⟩
  · obtain ⟨hb, hex⟩ := orValue_bool h
    exact ⟨hex.mpr, fun hn => hb.resolve_right (mt hex.mp hn)⟩
  · simp [selectValue, selectValueWord]

end MipsEmulator
