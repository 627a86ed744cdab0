import MipsEmulator.MemoryProof

/-!
# Overflow of the effective address

The model computes the `u32` arithmetic of `state.rs` as a release build does, wrapping modulo
`2^32`. A debug build checks every `+`, `-` and `*` and every shift amount and panics where
the true result leaves `u32`. The two builds agree on a step only where no operation
overflows, and the effective address of a load or store at a negative offset always does:
`sign_extension` turns the offset into a word near `2^32`, and `rs +=` adds it to the base.
-/

namespace MipsEmulator

variable {env : Env} {fuel : Nat} {e : InstrumentedState}

/-- The base register `R[rs]` of a load or store, which `mips_step` reads into `rs`. -/
def State.base (s : State) : BitVec 32 := s.registers (regIndex ((s.insn >>> 21) &&& 0x1f))

/-- A negative 16-bit offset, sign-extended: `2^32 - 2^16` plus its bits. -/
theorem toNat_signExtension_neg {x : BitVec 32} (h1 : 0x8000 ≤ x.toNat) (h2 : x.toNat < 0x10000) :
  (signExtension x 16).toNat = x.toNat + 0xffff0000
  := by
  have hmsb : (x.setWidth 16).msb = true := by
    simp [BitVec.msb_eq_decide]
    omega
  rw [signExtension_eq_signExtend (by decide) (by decide) (by simpa using h2)]
  rw [show (16 : BitVec 32).toNat = 16 from rfl, BitVec.signExtend_eq_not_setWidth_not_of_msb_true hmsb]
  simp [BitVec.toNat_not, BitVec.toNat_setWidth]
  omega

/-- A load at a negative offset `imm16` from a base of at least `2^16 - imm16`, that is at an
address that is not negative, overflows `u32` in `rs += sign_extension(insn & 0xffff, 16)`: the
sum of the operands is at least `2^32`, so a debug build aborts there. A release build wraps the
sum to `base - (2^16 - imm16)`, the address the offset names, and the step returns. -/
theorem mipsStep_offset_overflow (hx : e.state.exited = false) (hl : IsLoad e.state)
    (hacc : e.memProofEnabled = true → e.lastMemAccess = memAddr e.state)
    (hneg : 0x8000 ≤ (e.state.insn &&& 0xffff).toNat)
    (hbase : 0x10000 - (e.state.insn &&& 0xffff).toNat ≤ e.state.base.toNat) :
  2 ^ 32 ≤ e.state.base.toNat + (signExtension (e.state.insn &&& 0xffff) 16).toNat ∧
    (e.state.base + signExtension (e.state.insn &&& 0xffff) 16).toNat =
      e.state.base.toNat - (0x10000 - (e.state.insn &&& 0xffff).toNat) ∧
    ∃ e', mipsStep env fuel e = .ok e'
  := by
  have himm : (e.state.insn &&& 0xffff).toNat < 0x10000 := by
    rw [BitVec.toNat_and]; exact Nat.lt_of_le_of_lt Nat.and_le_right (by decide)
  have hs := toNat_signExtension_neg hneg himm
  have hb := e.state.base.isLt
  obtain ⟨e', h, -⟩ := @mipsStep_load_ok env fuel e hx hl hacc
  refine ⟨by omega, ?_, e', h⟩
  rw [BitVec.toNat_add, hs]
  omega

/-- `lw $3, -4($29)` with `$29 = 0x1000`: the operands of the address sum add up past `2^32`,
and the wrapped address `0xffc` is the one the step reads. -/
theorem mipsStep_lw_negative_offset :
  2 ^ 32 ≤ 0x1000 + (signExtension 0xfffc 16).toNat ∧
    ∃ e', mipsStep Env.small 0
      (.load [0x8fa3fffc] (fun r => if r = 29 then 0x1000 else 0) 0 0xffc) = .ok e'
  := by
  have := @mipsStep_offset_overflow Env.small 0
    (.load [0x8fa3fffc] (fun r => if r = 29 then 0x1000 else 0) 0 0xffc) rfl (by decide)
    (fun _ => by decide) (by decide) (by decide)
  exact ⟨this.1, this.2.2⟩

end MipsEmulator
