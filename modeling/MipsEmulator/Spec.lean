import MipsEmulator.Path

/-!
# Specifications of the handlers

One lemma for each function a step calls, saying what it returns when it returns: which
fields of the engine it sets and to what. The frame and invariant results of the later
modules are read off these lemmas and never unfold the handlers again. Among them,
`preimageWrite_ne_ok`: no preimage-key write returns.
-/

namespace MipsEmulator

variable {env : Env} {fuel : Nat} {e e' : InstrumentedState}

/-! ### Register fields -/


theorem toNat_and_1f_lt (x : BitVec 32) : (x &&& 0x1f).toNat < 32 := by
  rw [BitVec.toNat_and]
  exact Nat.lt_of_le_of_lt Nat.and_le_right (by decide)

theorem writeReg_apply_zero {regs : Registers} {r v : BitVec 32} (hr : r.toNat < 32) (h0 : r ≠ 0) :
  writeReg regs r v 0 = regs 0 := by
  rw [writeReg, Function.update_noteq]
  rwa [Ne, eq_comm, regIndex_eq_zero_iff hr]

theorem trackMemoryAccess_eq_ok {a : BitVec 32} :
  trackMemoryAccess env e a = .ok e' ↔
    (e.memProofEnabled = true → e.lastMemAccess = a) ∧
    e' = { e with lastMemAccess := a, memProof := env.merkleProof e.state.memory a } := by
  unfold trackMemoryAccess
  split <;> rename_i h
  · simp only [reduceCtorEq, false_iff, not_and]
    intro h'; exact absurd (h' h.1) h.2
  · simp only [Except.ok.injEq]
    simp only [not_and, not_not] at h
    exact ⟨fun h' => ⟨h, h'.symm⟩, fun h' => h'.2.symm⟩

theorem handleRd_eq_ok {r v : BitVec 32} {c : Bool} :
  handleRd e r v c = .ok e' ↔ r.toNat < 32 ∧
    e' = { e with state := State.advancePc { e.state with
      registers := if r ≠ 0 ∧ c = true then writeReg e.state.registers r v
        else e.state.registers } } := by
  unfold handleRd
  have hle : (32 : BitVec 32) ≤ r ↔ 32 ≤ r.toNat := BitVec.le_def
  split <;> rename_i h <;> rw [hle] at h
  · simp only [reduceCtorEq, false_iff, not_and]
    omega
  · simp only [Except.ok.injEq]
    exact ⟨fun h' => ⟨by omega, h'.symm⟩, fun h' => h'.2.symm⟩

theorem handleRd_reg_zero {r v : BitVec 32} {c : Bool} (h : handleRd e r v c = .ok e') :
    e'.state.registers 0 = e.state.registers 0 := by
  obtain ⟨hr, rfl⟩ := handleRd_eq_ok.mp h
  dsimp only [State.advancePc]
  split
  · rename_i hc
    exact writeReg_apply_zero hr hc.1
  · rfl

theorem memoryFetch_spec {opcode insn : BitVec 32} {ops ops₂ : Operands} {e₂ : InstrumentedState}
    (h : memoryFetch env e opcode insn ops = .ok (e₂, ops₂)) :
  e₂.state = e.state ∧ ops₂.rtReg = ops.rtReg ∧ ops₂.rt = ops.rt ∧
    (ops₂.rdReg = ops.rdReg ∨ ops₂.rdReg = 0) ∧
    (ops₂.storeAddr = ops.storeAddr ∨
      0x28 ≤ opcode ∧ opcode ≠ 0x30 ∧
      ops₂.storeAddr = (ops.rs + signExtension (insn &&& 0xffff) 16) &&& 0xfffffffc ∧
      e₂.lastMemAccess = ops₂.storeAddr) := by
  unfold memoryFetch at h
  split at h
  · obtain ⟨e₃, ht, h⟩ := bind_eq_ok.mp h
    obtain ⟨-, rfl⟩ := trackMemoryAccess_eq_ok.mp ht
    split at h <;> cases h
    · rename_i hst
      exact ⟨rfl, rfl, rfl, .inr rfl, .inr ⟨hst.1, hst.2, rfl, rfl⟩⟩
    · exact ⟨rfl, rfl, rfl, .inl rfl, .inl rfl⟩
  · cases h
    exact ⟨rfl, rfl, rfl, .inl rfl, .inl rfl⟩

theorem storeWord_eq_ok {a v : BitVec 32} :
  storeWord env e a v = .ok e' ↔
    (e.memProofEnabled = true → e.lastMemAccess = a) ∧
    e' = { e with
      state := { e.state with memory := setMemory e.state.memory a v }
      lastMemAccess := a, memProof := env.merkleProof e.state.memory a } := by
  rw [storeWord, bind_eq_ok]
  constructor
  · rintro ⟨e₃, ht, h⟩
    cases h
    obtain ⟨hl, rfl⟩ := trackMemoryAccess_eq_ok.mp ht
    exact ⟨hl, rfl⟩
  · rintro ⟨hl, rfl⟩
    exact ⟨_, trackMemoryAccess_eq_ok.mpr ⟨hl, rfl⟩, rfl⟩

theorem writeBack_spec {opcode val : BitVec 32} {ops : Operands}
    (h : writeBack env e opcode val ops = .ok e') (hrt : ops.rtReg.toNat < 32) :
  e'.state.registers 0 = e.state.registers 0 ∧
  e'.state = State.advancePc { e.state with
    registers := e'.state.registers
    memory := if ops.storeAddr ≠ 0xffffffff then setMemory e.state.memory ops.storeAddr val
      else e.state.memory } ∧
  (ops.storeAddr ≠ 0xffffffff → e'.lastMemAccess = ops.storeAddr) := by
  unfold writeBack at h
  obtain ⟨e₃, hs, h⟩ := bind_eq_ok.mp h
  have h0 := handleRd_reg_zero h
  obtain ⟨-, rfl⟩ := handleRd_eq_ok.mp h
  obtain ⟨R, hR, hR0⟩ : ∃ R, (if opcode = 0x38 ∧ ops.rtReg ≠ 0 then
      { e with state := { e.state with registers := writeReg e.state.registers ops.rtReg 1 } }
      else e) = { e with state := { e.state with registers := R } } ∧
      R 0 = e.state.registers 0 := by
    split
    · exact ⟨_, rfl, writeReg_apply_zero hrt ‹_ ∧ _›.2⟩
    · exact ⟨_, rfl, rfl⟩
  rw [hR] at hs
  by_cases hst : ops.storeAddr ≠ 0xffffffff
  · rw [if_pos hst] at hs
    obtain ⟨-, rfl⟩ := storeWord_eq_ok.mp hs
    exact ⟨h0.trans hR0, by rw [if_pos hst]; rfl, fun _ => rfl⟩
  · rw [if_neg hst] at hs
    cases hs
    exact ⟨h0.trans hR0, by rw [if_neg hst]; rfl, (absurd · hst)⟩

theorem handleJump_reg_zero {l d : BitVec 32} (hl : l.toNat < 32) :
  (handleJump e l d).state.registers 0 = e.state.registers 0 := by
  simp only [handleJump]
  split
  · exact writeReg_apply_zero hl ‹_›
  · rfl

theorem hiloUnit_hiLo {fn rs rt hi lo v hi' lo' : BitVec 32}
    (h : hiloUnit fn rs rt hi lo = .ok (v, hi', lo')) (hc : hi' ≠ hi ∨ lo' ≠ lo) :
  fn = 0x11 ∨ fn = 0x13 ∨ fn = 0x18 ∨ fn = 0x19 ∨ fn = 0x1a ∨ fn = 0x1b := by
  by_contra hn
  simp only [not_or] at hn
  obtain ⟨h11, h13, h18, h19, h1a, h1b⟩ := hn
  simp only [hiloUnit, h11, h13, h18, h19, h1a, h1b, or_self, if_false] at h
  repeat' split at h
  all_goals cases h <;> simp at hc

theorem handleHilo_eq_ok {fn rs rt r : BitVec 32} (h : handleHilo e fn rs rt r = .ok e') :
  ∃ v hi lo, hiloUnit fn rs rt e.state.hi e.state.lo = .ok (v, hi, lo) ∧
    e' = { e with
      state := State.advancePc { e.state with
        hi := hi
        lo := lo
        registers := if r ≠ 0 then writeReg e.state.registers r v else e.state.registers } } := by
  obtain ⟨⟨v, hi, lo⟩, hu, h⟩ := bind_eq_ok.mp h
  cases h
  exact ⟨v, hi, lo, hu, rfl⟩

/-- The fields of the operand fetch that do not depend on the opcode's class. -/
theorem decodeOperands_fields (regs : Registers) (insn : BitVec 32) :
  (decodeOperands regs insn).rs = regs (regIndex ((insn >>> 21) &&& 0x1f)) ∧
    (decodeOperands regs insn).storeAddr = 0xffffffff ∧
    (decodeOperands regs insn).rtReg = (insn >>> 16) &&& 0x1f ∧
    ((decodeOperands regs insn).rdReg = (insn >>> 11) &&& 0x1f ∨
      (decodeOperands regs insn).rdReg = (insn >>> 16) &&& 0x1f)
  := by
  unfold decodeOperands
  dsimp only
  split_ifs
  · exact ⟨rfl, rfl, rfl, .inl rfl⟩
  all_goals exact ⟨rfl, rfl, rfl, .inr rfl⟩

theorem decodeOperands_rtReg_lt (regs : Registers) (insn : BitVec 32) :
  (decodeOperands regs insn).rtReg.toNat < 32
  := by
  rw [(decodeOperands_fields regs insn).2.2.1]
  exact toNat_and_1f_lt _

theorem decodeOperands_rdReg_lt (regs : Registers) (insn : BitVec 32) :
  (decodeOperands regs insn).rdReg.toNat < 32
  := by
  rcases (decodeOperands_fields regs insn).2.2.2 with h | h <;> rw [h] <;> exact toNat_and_1f_lt _

@[simp]
theorem decodeOperands_storeAddr (regs : Registers) (insn : BitVec 32) :
  (decodeOperands regs insn).storeAddr = 0xffffffff
  := (decodeOperands_fields regs insn).2.1

@[simp]
theorem decodeOperands_rs (regs : Registers) (insn : BitVec 32) :
  (decodeOperands regs insn).rs = regs (regIndex ((insn >>> 21) &&& 0x1f))
  := (decodeOperands_fields regs insn).1

/-- `execute` returns for an opcode from 0x28 on only at the stores, `ll` and `sc`. -/
theorem execute_store_opcode {insn rs rt mem v : BitVec 32} (hop : (0x28 : BitVec 32) ≤ insn >>> 26)
    (h : execute insn rs rt mem = .ok v) :
  insn >>> 26 = 0x28 ∨ insn >>> 26 = 0x29 ∨ insn >>> 26 = 0x2a ∨ insn >>> 26 = 0x2b ∨
    insn >>> 26 = 0x2e ∨ insn >>> 26 = 0x30 ∨ insn >>> 26 = 0x38
  := by
  have h1 : ¬ insn >>> 26 < 0x20 := by bv_omega
  have h2 : ¬ insn >>> 26 < 0x28 := by bv_omega
  by_contra hn
  simp only [not_or] at hn
  obtain ⟨h28, h29, h2a, h2b, h2e, h30, h38⟩ := hn
  simp only [execute, h1, h2, if_false, executeStore, h28, h29, h2a, h2b, h2e, h30, h38,
    orInvalidInstruction, reduceCtorEq] at h

/-! ### Syscalls -/


@[simp]
theorem refillPreimage_state (k : Key) : (refillPreimage env e k).state = e.state := by
  unfold refillPreimage; split <;> rfl

@[simp]
theorem refillPreimage_lastMemAccess (k : Key) :
    (refillPreimage env e k).lastMemAccess = e.lastMemAccess := by
  unfold refillPreimage; split <;> rfl

theorem readPreimage_state {k : Key} {o : BitVec 32} {d : List (BitVec 8)} {n : BitVec 32}
    {e₂ : InstrumentedState} (h : readPreimage env e k o = .ok (e₂, d, n)) :
  e₂.state = e.state ∧ e₂.lastMemAccess = e.lastMemAccess := by
  unfold readPreimage at h
  dsimp only at h
  split at h
  · cases h
  · obtain ⟨-, -, h⟩ := bind_eq_ok.mp h
    cases h
    simp

theorem preimageRead_spec {a1 a2 v0 v1 : BitVec 32} {e₂ : InstrumentedState}
    (h : preimageRead env e a1 a2 = .ok (e₂, v0, v1)) :
  (∃ w, e₂.state = { e.state with
      memory := setMemory e.state.memory (a1 &&& 0xfffffffc) w
      preimageOffset := e.state.preimageOffset + v0 }) ∧
    e₂.lastMemAccess = a1 &&& 0xfffffffc := by
  unfold preimageRead at h
  obtain ⟨e₃, ht, h⟩ := bind_eq_ok.mp h
  obtain ⟨-, rfl⟩ := trackMemoryAccess_eq_ok.mp ht
  obtain ⟨⟨e₄, d, n⟩, hr, h⟩ := bind_eq_ok.mp h
  obtain ⟨hs, hl⟩ := readPreimage_state hr
  obtain ⟨-, -, h⟩ := bind_eq_ok.mp h
  cases h
  simp only at hs hl
  exact ⟨⟨_, by rw [hs]⟩, hl⟩

theorem hintWrite_state {a1 a2 v0 v1 : BitVec 32} {e₂ : InstrumentedState}
    (h : hintWrite fuel e a1 a2 = .ok (e₂, v0, v1)) :
  ∃ lh, e₂.state = { e.state with lastHint := lh } := by
  obtain ⟨⟨lh, hs⟩, -, h⟩ := bind_eq_ok.mp h
  cases h
  exact ⟨lh, rfl⟩

/-- Every preimage-key write aborts: the first slice copy needs `a2 = 0`, and the second
copies four bytes into the last `a2` bytes of the key. -/
theorem preimageWrite_ne_ok {a1 a2 : BitVec 32} {r : InstrumentedState × BitVec 32 × BitVec 32} :
  preimageWrite env e a1 a2 ≠ .ok r := by
  intro h
  obtain ⟨e₃, -, h⟩ := bind_eq_ok.mp h
  obtain ⟨-, -, h⟩ := bind_eq_ok.mp h
  obtain ⟨_, h2, _⟩ := bind_eq_ok.mp h
  have hk := e₃.state.preimageKey.length_bytes
  simp only [copyFromSlice, List.length_drop, hk, length_toBeBytes] at h2
  split at h2
  · omega
  · cases h2

theorem sysRead_state {a0 a1 a2 v0 v1 : BitVec 32} {e₂ : InstrumentedState}
    (h : sysRead env e a0 a1 a2 = .ok (e₂, v0, v1)) :
  e₂.state = e.state ∨ a0 = fdPreimageRead ∧ preimageRead env e a1 a2 = .ok (e₂, v0, v1) := by
  unfold sysRead at h
  by_cases h5 : a0 = fdPreimageRead
  · rw [if_neg (by rw [h5]; decide), if_pos h5] at h
    exact .inr ⟨h5, h⟩
  rw [if_neg h5] at h
  split_ifs at h <;> (cases h; exact .inl rfl)

theorem sysWrite_state {a0 a1 a2 v0 v1 : BitVec 32} {e₂ : InstrumentedState}
    (h : sysWrite env fuel e a0 a1 a2 = .ok (e₂, v0, v1)) :
  e₂.state = e.state ∨ a0 = fdHintWrite ∧ hintWrite fuel e a1 a2 = .ok (e₂, v0, v1) := by
  unfold sysWrite at h
  by_cases h4 : a0 = fdHintWrite
  · rw [if_neg (by rw [h4]; decide), if_neg (by rw [h4]; decide), if_pos h4] at h
    exact .inr ⟨h4, h⟩
  rw [if_neg h4] at h
  split_ifs at h <;> first | exact absurd h preimageWrite_ne_ok | (cases h; exact .inl rfl)

theorem syscallResult_spec {num a0 a1 a2 v0 v1 : BitVec 32} {e₂ : InstrumentedState}
    (h : syscallResult env fuel e num a0 a1 a2 = .ok (e₂, v0, v1)) :
  e₂.state = e.state ∨
  num = 4090 ∧ e₂.state = { e.state with heap := (mmap env e.state.heap a0 a1).2 } ∧
    v0 = (mmap env e.state.heap a0 a1).1 ∨
  num = 4003 ∧ a0 = fdPreimageRead ∧ preimageRead env e a1 a2 = .ok (e₂, v0, v1) ∨
  num = 4004 ∧ a0 = fdHintWrite ∧ hintWrite fuel e a1 a2 = .ok (e₂, v0, v1) := by
  unfold syscallResult at h
  by_cases h90 : num = 4090
  · rw [if_pos h90] at h
    cases h
    exact .inr (.inl ⟨h90, rfl, rfl⟩)
  rw [if_neg h90] at h
  by_cases h03 : num = 4003
  · rw [if_neg (by rw [h03]; decide), if_neg (by rw [h03]; decide), if_pos h03] at h
    rcases sysRead_state h with h' | ⟨ha, h'⟩
    · exact .inl h'
    · exact .inr (.inr (.inl ⟨h03, ha, h'⟩))
  by_cases h04 : num = 4004
  · rw [if_neg (by rw [h04]; decide), if_neg (by rw [h04]; decide), if_neg h03, if_pos h04] at h
    rcases sysWrite_state h with h' | ⟨ha, h'⟩
    · exact .inl h'
    · exact .inr (.inr (.inr ⟨h04, ha, h'⟩))
  rw [if_neg h03, if_neg h04] at h
  split_ifs at h <;> (cases h; exact .inl rfl)

/-- A syscall arm changes at most the memory, the preimage offset, the heap and the hint
buffer of the machine state. -/
theorem syscallResult_state {num a0 a1 a2 v0 v1 : BitVec 32} {e₂ : InstrumentedState}
    (h : syscallResult env fuel e num a0 a1 a2 = .ok (e₂, v0, v1)) :
  ∃ M O Hp L, e₂.state =
    { e.state with memory := M, preimageOffset := O, heap := Hp, lastHint := L }
  := by
  rcases syscallResult_spec h with hs | ⟨-, hs, -⟩ | ⟨-, -, hpr⟩ | ⟨-, -, hw⟩
  · exact ⟨_, _, _, _, hs⟩
  · exact ⟨_, _, _, _, hs⟩
  · obtain ⟨⟨w, hs⟩, -⟩ := preimageRead_spec hpr
    exact ⟨_, _, _, _, hs⟩
  · obtain ⟨lh, hs⟩ := hintWrite_state hw
    exact ⟨_, _, _, _, hs⟩

theorem handleSyscall_cases (h : handleSyscall env fuel e = .ok e') :
  e.state.registers 2 = 4246 ∧
    e' = { e with
      state := { e.state with exited := true, exitCode := (e.state.registers 4).setWidth 8 } } ∨
  e.state.registers 2 ≠ 4246 ∧ ∃ e₂ v0 v1,
    syscallResult env fuel e (e.state.registers 2) (e.state.registers 4) (e.state.registers 5)
      (e.state.registers 6) = .ok (e₂, v0, v1) ∧
    e' = { e₂ with
      state := State.advancePc { e₂.state with
        registers := writeReg (writeReg e₂.state.registers 2 v0) 7 v1 } }
  := by
  unfold handleSyscall at h
  dsimp only at h
  split at h
  · cases h
    exact .inl ⟨‹_›, rfl⟩
  · obtain ⟨⟨e₂, v0, v1⟩, hs, h⟩ := bind_eq_ok.mp h
    cases h
    exact .inr ⟨‹_›, e₂, v0, v1, hs, rfl⟩

theorem mmap_of_ne {heap a0 a1 : BitVec 32} (h : a0 ≠ 0) :
  mmap env heap a0 a1 = (a0, heap)
  := if_neg h

theorem mmap_zero (heap a1 : BitVec 32) :
  mmap env heap 0 a1 = (heap, heap + mmapSize env a1)
  := rfl

/-- The early returns of `dispatchSpecial`, each with its handler. -/
theorem dispatchSpecial_some {fn : BitVec 32} {ops : Operands} {r : Except Fault InstrumentedState}
    (h : dispatchSpecial env fuel e fn ops = some r) :
  (fn = 8 ∨ fn = 9) ∧ r = .ok (handleJump e (if fn = 9 then ops.rdReg else 0) ops.rs) ∨
  (fn = 0xa ∨ fn = 0xb) ∧ (∃ c, r = handleRd e ops.rdReg ops.rs c) ∨
  fn = 0xc ∧ r = handleSyscall env fuel e ∨
  0x10 ≤ fn ∧ r = handleHilo e fn ops.rs ops.rt ops.rdReg
  := by
  unfold dispatchSpecial at h
  by_cases h89 : fn = 8 ∨ fn = 9
  · rw [if_pos h89] at h
    exact .inl ⟨h89, (Option.some.inj h).symm⟩
  rw [if_neg h89] at h
  by_cases ha : fn = 0xa
  · rw [if_pos ha] at h
    exact .inr (.inl ⟨.inl ha, _, (Option.some.inj h).symm⟩)
  rw [if_neg ha] at h
  by_cases hb : fn = 0xb
  · rw [if_pos hb] at h
    exact .inr (.inl ⟨.inr hb, _, (Option.some.inj h).symm⟩)
  rw [if_neg hb] at h
  by_cases hc : fn = 0xc
  · rw [if_pos hc] at h
    exact .inr (.inr (.inl ⟨hc, (Option.some.inj h).symm⟩))
  rw [if_neg hc] at h
  by_cases hh : 0x10 ≤ fn ∧ fn < 0x1c
  · rw [if_pos hh] at h
    exact .inr (.inr (.inr ⟨hh.1, (Option.some.inj h).symm⟩))
  · rw [if_neg hh] at h
    cases h

theorem dispatchSpecial_cases {fn : BitVec 32} {ops : Operands}
    (h : dispatchSpecial env fuel e fn ops = some (.ok e')) :
  (fn = 8 ∨ fn = 9) ∧ e' = handleJump e (if fn = 9 then ops.rdReg else 0) ops.rs ∨
  (fn = 0xa ∨ fn = 0xb) ∧ (∃ c, handleRd e ops.rdReg ops.rs c = .ok e') ∨
  fn = 0xc ∧ handleSyscall env fuel e = .ok e' ∨
  0x10 ≤ fn ∧ handleHilo e fn ops.rs ops.rt ops.rdReg = .ok e'
  := by
  rcases dispatchSpecial_some h with ⟨h89, hr⟩ | ⟨hab, c, hr⟩ | ⟨hc, hr⟩ | ⟨h10, hr⟩
  · exact .inl ⟨h89, Except.ok.inj hr⟩
  · exact .inr (.inl ⟨hab, c, hr.symm⟩)
  · exact .inr (.inr (.inl ⟨hc, hr.symm⟩))
  · exact .inr (.inr (.inr ⟨h10, hr.symm⟩))

end MipsEmulator
