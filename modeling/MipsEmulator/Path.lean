import MipsEmulator.Step

/-!
# Where a step returns

`StepPath env fuel e e'` lists the ways `mips_step` can return `e'` from `e`: on an exited
machine; through `handle_jump` for `j`/`jal`; through an early return for a SPECIAL funct
code; or through the memory fetch, `execute` and the writeback. No branch returns:
`handle_branch` rejects every instruction word other than 0 and 1, and no branch word is
one of them. `mipsStep_path` is the one lemma that unfolds `mipsStep`; the later modules
argue by cases on `StepPath`.
-/

namespace MipsEmulator

variable {env : Env} {fuel : Nat} {e e' : InstrumentedState}

/-- The ways `mipsStep env fuel e` returns `e'`. -/
inductive StepPath (env : Env) (fuel : Nat) (e : InstrumentedState) : InstrumentedState → Prop
  /-- An exited machine is left as it is. -/
  | exited : e.state.exited = true → StepPath env fuel e e
  /-- `j` and `jal`. -/
  | jump : e.state.exited = false → (e.state.insn >>> 26 = 2 ∨ e.state.insn >>> 26 = 3) →
      StepPath env fuel e (handleJump e.tick (if e.state.insn >>> 26 = 3 then 31 else 0)
        (signExtension (e.state.insn &&& 0x03ffffff) 26 <<< 2))
  /-- An early return of a SPECIAL funct code from 8 to 0x1b. -/
  | special {e' : InstrumentedState} : e.state.exited = false → e.state.insn >>> 26 = 0 →
      8 ≤ e.state.insn &&& 0x3f → e.state.insn &&& 0x3f < 0x1c →
      dispatchSpecial env fuel e.tick (e.state.insn &&& 0x3f)
        (decodeOperands e.state.registers e.state.insn) = some (.ok e') →
      StepPath env fuel e e'
  /-- The memory fetch, `execute` and the writeback. -/
  | writeBack {e₂ e' : InstrumentedState} {ops : Operands} {val : BitVec 32} :
      e.state.exited = false →
      ¬(e.state.insn >>> 26 = 2 ∨ e.state.insn >>> 26 = 3) →
      ¬((4 : BitVec 32) ≤ e.state.insn >>> 26 ∧ e.state.insn >>> 26 < 8 ∨ e.state.insn >>> 26 = 1) →
      (e.state.insn >>> 26 = 0 → 8 ≤ e.state.insn &&& 0x3f → e.state.insn &&& 0x3f < 0x1c →
        dispatchSpecial env fuel e.tick (e.state.insn &&& 0x3f)
          (decodeOperands e.state.registers e.state.insn) = none) →
      memoryFetch env e.tick (e.state.insn >>> 26) e.state.insn
        (decodeOperands e.state.registers e.state.insn) = .ok (e₂, ops) →
      execute e.state.insn ops.rs ops.rt ops.mem = .ok val →
      writeBack env e₂ (e.state.insn >>> 26) val ops = .ok e' →
      StepPath env fuel e e'

theorem handleBranch_insn {opcode insn rtReg rs : BitVec 32}
    (h : handleBranch e opcode insn rtReg rs = .ok e') :
  insn = 0 ∨ insn = 1
  := by
  unfold handleBranch at h
  split at h
  · cases h
  · rename_i hi
    by_contra hc
    exact hi (by simpa only [not_or] using hc)

/-- A word that `handle_branch` accepts has opcode 0, so it is not a branch word. -/
theorem handleBranch_ne_ok {insn rtReg rs : BitVec 32}
    (hb : (4 : BitVec 32) ≤ insn >>> 26 ∧ insn >>> 26 < 8 ∨ insn >>> 26 = 1) :
  handleBranch e (insn >>> 26) insn rtReg rs ≠ .ok e'
  := by
  intro h
  rcases handleBranch_insn h with rfl | rfl <;> revert hb <;> decide

theorem memoryFetch_of_lt {opcode insn : BitVec 32} {ops : Operands} (h : opcode < 0x20) :
  memoryFetch env e opcode insn ops = .ok (e, ops)
  := by
  unfold memoryFetch
  rw [if_neg (BitVec.not_le.mpr h)]
  rfl

theorem mipsStep_path (h : mipsStep env fuel e = .ok e') :
  StepPath env fuel e e'
  := by
  unfold mipsStep at h
  split at h
  · cases h
    exact .exited ‹_›
  · rename_i hx
    simp only [Bool.not_eq_true] at hx
    simp only [InstrumentedState.tick_state_insn, InstrumentedState.tick_state_registers] at h
    split at h
    · cases h
      exact .jump hx ‹_›
    · split at h
      · exact absurd h (handleBranch_ne_ok ‹_›)
      · rw [bind_eq_ok] at h
        obtain ⟨⟨e₂, ops⟩, hf, h⟩ := h
        rw [bind_eq_ok] at h
        obtain ⟨val, hv, h⟩ := h
        split at h
        · rename_i r hr
          split at hr
          · obtain ⟨h0, h8, h1c⟩ := ‹_ ∧ _ ∧ _›
            rw [h0, memoryFetch_of_lt (by decide)] at hf
            cases hf
            subst h
            exact .special hx h0 h8 h1c hr
          · cases hr
        · rename_i hr
          refine .writeBack hx ‹_› ‹_› ?_ hf hv h
          intro h0 h8 h1c
          rw [if_pos ⟨h0, h8, h1c⟩] at hr
          rw [h0, memoryFetch_of_lt (by decide)] at hf
          cases hf
          exact hr

/-! ### Early returns -/

/-- `execute` passes `rs` through for the SPECIAL funct codes from 8 to 0x1b. -/
theorem execute_special {insn rs rt mem : BitVec 32} (h0 : insn >>> 26 = 0)
    (h8 : 8 ≤ insn &&& 0x3f) (h1c : insn &&& 0x3f < 0x1c) :
  execute insn rs rt mem = .ok rs
  := by
  have h20 : insn &&& 0x3f < 0x20 := by bv_omega
  simp only [BitVec.ofNat_eq_ofNat] at h8 h20
  simp [execute, h0, executeSpecial, h8, h20, orInvalidInstruction]

/-- A step on a SPECIAL funct code from 8 to 0x1b is the handler `dispatchSpecial` picks. -/
theorem mipsStep_special {r : Except Fault InstrumentedState}
    (hx : e.state.exited = false) (h0 : e.state.insn >>> 26 = 0)
    (h8 : 8 ≤ e.state.insn &&& 0x3f) (h1c : e.state.insn &&& 0x3f < 0x1c)
    (hd : dispatchSpecial env fuel e.tick (e.state.insn &&& 0x3f)
      (decodeOperands e.state.registers e.state.insn) = some r) :
  mipsStep env fuel e = r
  := by
  simp only [mipsStep, hx, h0, Bool.false_eq_true, if_false, InstrumentedState.tick_state_insn,
    InstrumentedState.tick_state_registers]
  rw [memoryFetch_of_lt (by decide)]
  simp only [BitVec.ofNat_eq_ofNat] at h8 h1c hd
  simp [execute_special h0 h8 h1c, h8, h1c, hd]

/-- A step on `syscall` is `handle_syscall` after the step counter. -/
theorem mipsStep_syscall (hx : e.state.exited = false) (h0 : e.state.insn >>> 26 = 0)
    (hc : e.state.insn &&& 0x3f = 0xc) :
  mipsStep env fuel e = handleSyscall env fuel e.tick
  := mipsStep_special hx h0 (by rw [hc]; decide) (by rw [hc]; decide) (by rw [hc]; rfl)

end MipsEmulator
