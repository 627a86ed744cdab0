import MipsEmulator.Spec

/-!
# The hi/lo unit

`handle_hilo` against the MIPS32 hi/lo instructions. `mipsHiLo` gives the `hi` and `lo` that
MIPS32 assigns: the halves of the 64-bit product of the sign-extended (`mult`) or
zero-extended (`multu`) operands, the quotient truncated toward zero in `lo` and the
remainder with the sign of the dividend in `hi` (`div`, wrapping for `i32::MIN / -1`), and
the unsigned quotient and remainder (`divu`).

`hiloUnit` agrees with it except in two places. `mult` casts its `u32` operands with
`rs as i64`, which zero-extends, so it multiplies as `multu` does. And `div` computes
`(rs as i32) % (rt as i32)`, which Rust checks for overflow in every build, so
`i32::MIN / -1` aborts instead of wrapping.
-/

namespace MipsEmulator

/-- The upper and lower halves of a 64-bit product. -/
def halves (p : BitVec 64) : BitVec 32 × BitVec 32 := ((p >>> 32).setWidth 32, p.setWidth 32)

/-- `hi` and `lo` after the hi/lo instruction with funct code `fn` in MIPS32. -/
def mipsHiLo (fn rs rt hi lo : BitVec 32) : BitVec 32 × BitVec 32 :=
  if fn = 0x11 then (rs, lo) -- mthi
  else if fn = 0x13 then (hi, rs) -- mtlo
  else if fn = 0x18 then halves (rs.signExtend 64 * rt.signExtend 64) -- mult
  else if fn = 0x19 then halves (rs.setWidth 64 * rt.setWidth 64) -- multu
  else if fn = 0x1a then -- div
    (BitVec.ofInt 32 (rs.toInt.tmod rt.toInt), BitVec.ofInt 32 (rs.toInt.tdiv rt.toInt))
  else if fn = 0x1b then (rs % rt, rs / rt) -- divu
  else (hi, lo) -- mfhi, mflo

variable {e e' : InstrumentedState}

/-- `handle_hilo` moves the delay slot into `pc`, and `mfhi`/`mflo` copy `hi`/`lo` into a
`store_reg` other than 0. -/
theorem handleHilo_pc_store {fn rs rt r : BitVec 32} (h : handleHilo e fn rs rt r = .ok e') :
  e'.state.pc = e.state.nextPc ∧ e'.state.nextPc = e.state.nextPc + 4 ∧
    (r ≠ 0 → (fn = 0x10 → e'.state.registers (regIndex r) = e.state.hi) ∧
      (fn = 0x12 → e'.state.registers (regIndex r) = e.state.lo))
  := by
  obtain ⟨v, hi, lo, hu, rfl⟩ := handleHilo_eq_ok h
  refine ⟨rfl, rfl, fun hr => ⟨?_, ?_⟩⟩ <;> rintro rfl <;> cases hu <;>
    simp only [State.advancePc, if_pos hr, writeReg, Function.update_same]

/-- `handle_hilo` against MIPS32: every hi/lo instruction other than `mult` sets `hi` and `lo`
as MIPS32 does (for `div` and `divu` on a divisor other than 0, and for `div` except
`i32::MIN / -1`), with `mfhi` and `mflo` passing on `hi` and `lo` for the store; `mult` sets
them as `multu` does; `div` aborts on `i32::MIN / -1`; and every returning call moves on to
the delay slot, with `mfhi`/`mflo` writing `hi`/`lo` into a `store_reg` other than 0. -/
theorem hiloUnit_against_mips (fn rs rt hi lo : BitVec 32) :
  ((fn = 0x10 ∨ fn = 0x11 ∨ fn = 0x12 ∨ fn = 0x13 ∨ fn = 0x19 ∨ fn = 0x1a ∨ fn = 0x1b) →
    ((fn = 0x1a ∨ fn = 0x1b) → rt ≠ 0) → ¬(fn = 0x1a ∧ rs = 0x80000000 ∧ rt = 0xffffffff) →
    ∃ v, hiloUnit fn rs rt hi lo = .ok (v, mipsHiLo fn rs rt hi lo) ∧
      (fn = 0x10 → v = hi) ∧ (fn = 0x12 → v = lo)) ∧
  hiloUnit 0x18 rs rt hi lo = .ok (0, mipsHiLo 0x19 rs rt hi lo) ∧
  hiloUnit 0x1a 0x80000000 0xffffffff hi lo = .error .remainderOverflow ∧
  (∀ (e e' : InstrumentedState) (r : BitVec 32), handleHilo e fn rs rt r = .ok e' →
    e'.state.pc = e.state.nextPc ∧ e'.state.nextPc = e.state.nextPc + 4 ∧
      (r ≠ 0 → (fn = 0x10 → e'.state.registers (regIndex r) = e.state.hi) ∧
        (fn = 0x12 → e'.state.registers (regIndex r) = e.state.lo)))
  := by
  refine ⟨fun hfn hrt hov => ?_, by simp [hiloUnit, mipsHiLo, halves], by simp [hiloUnit],
    fun _ _ _ => handleHilo_pc_store⟩
  have hne : ∀ {a b : BitVec 32} {P : Prop}, a ≠ b → a = b → P := fun h h' => absurd h' h
  rcases hfn with rfl | rfl | rfl | rfl | rfl | rfl | rfl
  · exact ⟨hi, by simp [hiloUnit, mipsHiLo], fun _ => rfl, hne (by decide)⟩
  · exact ⟨0, by simp [hiloUnit, mipsHiLo], hne (by decide), hne (by decide)⟩
  · exact ⟨lo, by simp [hiloUnit, mipsHiLo], hne (by decide), fun _ => rfl⟩
  · exact ⟨0, by simp [hiloUnit, mipsHiLo], hne (by decide), hne (by decide)⟩
  · exact ⟨0, by simp [hiloUnit, mipsHiLo, halves], hne (by decide), hne (by decide)⟩
  · have hrt := hrt (.inl rfl)
    exact ⟨0, by simp_all [hiloUnit, mipsHiLo], hne (by decide), hne (by decide)⟩
  · have hrt := hrt (.inr rfl)
    exact ⟨0, by simpa [hiloUnit, mipsHiLo] using hrt, hne (by decide), hne (by decide)⟩

/-- `mult $1, $2` with both registers `-1`: MIPS32 gives `hi = 0`, `lo = 1`, but `handle_hilo`
multiplies the zero-extended operands and sets `hi = 0xfffffffe`. -/
theorem hiloUnit_mult_minus_one :
  hiloUnit 0x18 0xffffffff 0xffffffff 0 0 = .ok (0, 0xfffffffe, 1) ∧
    mipsHiLo 0x18 0xffffffff 0xffffffff 0 0 = (0, 1)
  := ⟨(hiloUnit_against_mips 0x18 0xffffffff 0xffffffff 0 0).2.1.trans rfl, by decide⟩

end MipsEmulator
