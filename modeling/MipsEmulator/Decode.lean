import MipsEmulator.Run

/-!
# Operand decode and branches

Two paths of `mips_step` whose decode differs from MIPS32.

* For opcodes 0 and 0x1c the operand `rt` is read as `registers[rt as usize]` while the local
  `rt` is still 0, so every R-type and SPECIAL2 instruction that reaches `execute` computes
  with register 0 where MIPS32 reads the register the `rt` field names.
* `handle_branch` rejects every instruction word other than 0 and 1, and no branch word is
  one of them, so every branch aborts.
-/

namespace MipsEmulator

variable {env : Env} {fuel : Nat} {e : InstrumentedState}

/-! ### The R-type operand -/

/-- Without a store address and off `sc`, the writeback is `handle_rd` alone. -/
theorem writeBack_alu {opcode val : BitVec 32} {ops : Operands} (hsc : opcode ≠ 0x38)
    (hs : ops.storeAddr = 0xffffffff) :
  writeBack env e opcode val ops = handleRd e ops.rdReg val true
  := by
  unfold writeBack
  rw [if_neg (fun h => hsc h.1)]
  simp only [hs, ne_eq, not_true_eq_false, if_false]
  rfl

/-- A step on an R-type word whose funct code is not handled early, or on a SPECIAL2 word,
writes back to `rd` what `execute` computes from `rs` and register 0: the operand `rt` is
register 0 whatever the `rt` field of the word. -/
theorem mipsStep_rtype (hx : e.state.exited = false)
    (hop : e.state.insn >>> 26 = 0 ∧ (e.state.insn &&& 0x3f < 8 ∨ 0x1c ≤ e.state.insn &&& 0x3f) ∨
      e.state.insn >>> 26 = 0x1c) :
  mipsStep env fuel e =
    execute e.state.insn (e.state.registers (regIndex ((e.state.insn >>> 21) &&& 0x1f)))
      (e.state.registers 0) 0 >>= fun v => handleRd e.tick ((e.state.insn >>> 11) &&& 0x1f) v true
  := by
  have hr : e.state.insn >>> 26 = 0 ∨ e.state.insn >>> 26 = 0x1c := by tauto
  have hd : decodeOperands e.state.registers e.state.insn =
      { rs := e.state.registers (regIndex ((e.state.insn >>> 21) &&& 0x1f))
        rt := e.state.registers 0
        rtReg := (e.state.insn >>> 16) &&& 0x1f
        rdReg := (e.state.insn >>> 11) &&& 0x1f } := by
    simp only [decodeOperands, if_pos hr]
    rfl
  have hns :
      ¬(e.state.insn >>> 26 = 0 ∧ 8 ≤ e.state.insn &&& 0x3f ∧ e.state.insn &&& 0x3f < 0x1c) := by
    rintro ⟨h0, h8, h1c⟩
    rcases hop with ⟨-, h | h⟩ | h
    · exact absurd h8 (by bv_omega)
    · exact absurd h1c (by bv_omega)
    · rw [h] at h0
      exact absurd h0 (by decide)
  unfold mipsStep
  simp only [hx, Bool.false_eq_true, if_false, InstrumentedState.tick_state_insn,
    InstrumentedState.tick_state_registers, hd, hns]
  rcases hr with h | h <;> simp only [h] <;> rw [memoryFetch_of_lt (by decide)] <;>
    simp [writeBack_alu]

/-- `addu $3, $0, $2` with `$2 = 5` writes 0 to `$3`, where `execute` on the MIPS32 operands
`rs = 0`, `rt = 5` gives 5. -/
theorem mipsStep_addu_reads_register_zero :
  (mipsStep Env.small 0 (.load [0x00021821] (fun i => if i = 2 then 5 else 0) 0 0)).map
      (fun e => e.state.registers 3) = .ok 0 ∧
    execute 0x00021821 0 5 0 = .ok 5
  := by
  refine ⟨?_, rfl⟩
  rw [mipsStep_rtype]
  · rfl
  · rfl
  · exact .inl ⟨rfl, .inr (by decide)⟩

/-! ### Branches -/

/-- Every branch word (`beq`, `bne`, `blez`, `bgtz` and the REGIMM branches) aborts in
`handle_branch`, which accepts only the words 0 and 1. -/
theorem mipsStep_branch (hx : e.state.exited = false)
    (hb : (4 : BitVec 32) ≤ e.state.insn >>> 26 ∧ e.state.insn >>> 26 < 8 ∨ e.state.insn >>> 26 = 1) :
  mipsStep env fuel e = .error (.invalidBranchInsn e.state.insn)
  := by
  have hj : ¬(e.state.insn >>> 26 = 2 ∨ e.state.insn >>> 26 = 3) := by
    rintro (h | h) <;> rw [h] at hb <;> revert hb <;> decide
  have hi : e.state.insn ≠ 0 ∧ e.state.insn ≠ 1 := by
    constructor <;> intro h <;> rw [h] at hb <;> revert hb <;> decide
  unfold mipsStep
  simp only [hx, Bool.false_eq_true, if_false, InstrumentedState.tick_state_insn,
    InstrumentedState.tick_state_registers]
  rw [if_neg hj, if_pos hb, handleBranch, if_pos hi]

/-- `beq $0, $0, 1` aborts. -/
theorem mipsStep_beq_aborts :
  mipsStep Env.small 0 (.load [0x10000001] (fun _ => 0) 0 0) = .error (.invalidBranchInsn 0x10000001)
  := mipsStep_branch rfl (.inl ⟨by decide, by decide⟩)

end MipsEmulator
