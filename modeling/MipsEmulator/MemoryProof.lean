import MipsEmulator.Decode

/-!
# Memory proofs across steps

With memory proofs on, `track_memory_access` aborts on an address other than
`last_mem_access`, and nothing resets `last_mem_access` when a step begins. So the address a
step tracks must be the one the step before it tracked.

* A load tracks the word it reads and aborts exactly when proofs are on and that word is not
  `last_mem_access`; otherwise it returns with `last_mem_access` at the word.
* After a load from one word, a load from any other word aborts.
* Two engines with the same machine state that differ only in `last_mem_access` can step
  differently: one returns and the other aborts.
-/

namespace MipsEmulator

variable {env : Env} {fuel : Nat} {e : InstrumentedState}

/-! ### Loads -/

/-- `lb`, `lh`, `lwl`, `lw`, `lbu`, `lhu` or `lwr`. -/
def IsLoad (s : State) : Prop := (0x20 : BitVec 32) ≤ s.insn >>> 26 ∧ s.insn >>> 26 < 0x27

instance (s : State) : Decidable (IsLoad s) := inferInstanceAs (Decidable (_ ∧ _))

/-- `execute` on a load is the value `executeLoad` gives. -/
theorem execute_load {insn rs rt mem : BitVec 32} (h20 : (0x20 : BitVec 32) ≤ insn >>> 26)
    (h27 : insn >>> 26 < 0x27) :
  execute insn rs rt mem = .ok ((executeLoad (insn >>> 26) rs rt mem).getD 0)
  := by
  have hlt : ¬ insn >>> 26 < 0x20 := by bv_omega
  have h28 : insn >>> 26 < 0x28 := by bv_omega
  have : insn >>> 26 = 0x20 ∨ insn >>> 26 = 0x21 ∨ insn >>> 26 = 0x22 ∨ insn >>> 26 = 0x23 ∨
      insn >>> 26 = 0x24 ∨ insn >>> 26 = 0x25 ∨ insn >>> 26 = 0x26 := by bv_omega
  unfold execute
  simp only [if_neg hlt, if_pos h28]
  rcases this with h | h | h | h | h | h | h <;> simp [h, executeLoad, orInvalidInstruction]

/-- The memory fetch of a load or store tracks the word it reads. -/
theorem memoryFetch_track {opcode insn : BitVec 32} {ops : Operands} {f : Fault}
    (h20 : (0x20 : BitVec 32) ≤ opcode)
    (h : trackMemoryAccess env e ((ops.rs + signExtension (insn &&& 0xffff) 16) &&& 0xfffffffc) =
      .error f) :
  memoryFetch env e opcode insn ops = .error f
  := by
  unfold memoryFetch
  rw [if_pos h20]
  simp only [bind, Except.bind]
  rw [h]

/-- A step on a load is the memory fetch, `execute` and the writeback. -/
theorem mipsStep_load_eq (hx : e.state.exited = false) (hl : IsLoad e.state) :
  mipsStep env fuel e =
    memoryFetch env e.tick (e.state.insn >>> 26) e.state.insn
        (decodeOperands e.state.registers e.state.insn) >>= fun r =>
      execute e.state.insn r.2.rs r.2.rt r.2.mem >>= fun v =>
        writeBack env r.1 (e.state.insn >>> 26) v r.2
  := by
  obtain ⟨h20, h27⟩ := hl
  have hj : ¬(e.state.insn >>> 26 = 2 ∨ e.state.insn >>> 26 = 3) := by
    rintro (h | h) <;> rw [h] at h20 <;> revert h20 <;> decide
  have hb : ¬((4 : BitVec 32) ≤ e.state.insn >>> 26 ∧ e.state.insn >>> 26 < 8 ∨
      e.state.insn >>> 26 = 1) := by
    bv_omega
  have hs :
      ¬(e.state.insn >>> 26 = 0 ∧ 8 ≤ e.state.insn &&& 0x3f ∧ e.state.insn &&& 0x3f < 0x1c) := by
    rintro ⟨h, -⟩; rw [h] at h20; revert h20; decide
  unfold mipsStep
  simp only [hx, Bool.false_eq_true, if_false, InstrumentedState.tick_state_insn,
    InstrumentedState.tick_state_registers]
  rw [if_neg hj, if_neg hb]
  simp only [hs, if_false]

theorem trackMemoryAccess_of_ne {a : BitVec 32} (hp : e.memProofEnabled = true)
    (hne : e.lastMemAccess ≠ a) :
  trackMemoryAccess env e a = .error (.unexpectedMemoryAccess a e.lastMemAccess)
  := by
  rw [trackMemoryAccess, if_pos ⟨hp, hne⟩]

/-- With proofs on, a load from a word other than `last_mem_access` aborts. -/
theorem mipsStep_load_aborts (hx : e.state.exited = false) (hl : IsLoad e.state)
    (hp : e.memProofEnabled = true) (hne : e.lastMemAccess ≠ memAddr e.state) :
  mipsStep env fuel e = .error (.unexpectedMemoryAccess (memAddr e.state) e.lastMemAccess)
  := by
  rw [mipsStep_load_eq hx hl, memoryFetch_track hl.1]
  · rfl
  · rw [decodeOperands_rs]
    exact trackMemoryAccess_of_ne hp hne

/-- A load whose word passes the tracking returns, with `last_mem_access` at that word. -/
theorem mipsStep_load_ok (hx : e.state.exited = false) (hl : IsLoad e.state)
    (hacc : e.memProofEnabled = true → e.lastMemAccess = memAddr e.state) :
  ∃ e', mipsStep env fuel e = .ok e' ∧ e'.lastMemAccess = memAddr e.state ∧
    e'.memProofEnabled = e.memProofEnabled
  := by
  have hst : ¬((0x28 : BitVec 32) ≤ e.state.insn >>> 26 ∧ e.state.insn >>> 26 ≠ 0x30) := by
    have := hl.2
    bv_omega
  rw [mipsStep_load_eq hx hl]
  unfold memoryFetch
  have ht : trackMemoryAccess env e.tick (memAddr e.state) = .ok { e.tick with
      lastMemAccess := memAddr e.state
      memProof := env.merkleProof e.state.memory (memAddr e.state) } :=
    trackMemoryAccess_eq_ok.mpr ⟨hacc, rfl⟩
  rw [if_pos hl.1]
  simp only [decodeOperands_rs]
  rw [show (e.state.registers (regIndex ((e.state.insn >>> 21) &&& 0x1f)) +
      signExtension (e.state.insn &&& 0xffff) 16) &&& 0xfffffffc = memAddr e.state from rfl, ht]
  simp only [ok_bind, if_neg hst, pure_eq_ok, execute_load hl.1 hl.2]
  rw [writeBack_alu (by have := hl.2; bv_omega) (by exact decodeOperands_storeAddr _ _)]
  exact ⟨_, handleRd_eq_ok.mpr ⟨decodeOperands_rdReg_lt _ _, rfl⟩, rfl, rfl⟩

/-! ### Runs with proofs on -/

/-- After a step that loads from one word, a load from any other word aborts: the step left
that word in `last_mem_access`. -/
theorem mipsStep_load_after_load {e₁ : InstrumentedState} {fuel₁ : Nat}
    (h : mipsStep env fuel e = .ok e₁) (hx : e.state.exited = false) (hl : IsLoad e.state)
    (hp : e.memProofEnabled = true) (hx₁ : e₁.state.exited = false) (hl₁ : IsLoad e₁.state)
    (hne : memAddr e₁.state ≠ memAddr e.state) :
  mipsStep env fuel₁ e₁ = .error (.unexpectedMemoryAccess (memAddr e₁.state) (memAddr e.state))
  := by
  have hacc : e.memProofEnabled = true → e.lastMemAccess = memAddr e.state := fun _ => by
    by_contra hne'
    rw [mipsStep_load_aborts hx hl hp hne'] at h
    cases h
  obtain ⟨e', h', hlast, hp'⟩ := @mipsStep_load_ok env fuel e hx hl hacc
  rw [h] at h'
  cases h'
  rw [← hlast]
  exact mipsStep_load_aborts hx₁ hl₁ (hp' ▸ hp) (hlast ▸ hne.symm)

/-- `lw $3, 0x2000($0)` then `lw $4, 0x3000($0)`: the first load returns and the second
aborts. -/
theorem mipsStep_two_loads_abort :
  ∃ e₁, mipsStep Env.small 0 (.load [0x8c032000, 0x8c043000] (fun _ => 0) 0 0x2000) = .ok e₁ ∧
    mipsStep Env.small 0 e₁ = .error (.unexpectedMemoryAccess 0x3000 0x2000)
  := ⟨_, rfl, @mipsStep_load_after_load _ 0 (.load [0x8c032000, 0x8c043000] (fun _ => 0) 0 0x2000)
    _ _ rfl rfl (by decide) rfl rfl (by decide) (by decide)⟩

/-- Of two engines with one machine state and memory proofs on, one whose `last_mem_access`
is the word a load reads steps and one whose `last_mem_access` is another word aborts. -/
theorem mipsStep_load_replay {e₁ e₂ : InstrumentedState} (hs : e₁.state = e₂.state)
    (hx : e₁.state.exited = false) (hl : IsLoad e₁.state) (hp : e₁.memProofEnabled = true)
    (hp₂ : e₂.memProofEnabled = e₁.memProofEnabled) (h₁ : e₁.lastMemAccess = memAddr e₁.state)
    (h₂ : e₂.lastMemAccess ≠ memAddr e₁.state) :
  (∃ e', mipsStep env fuel e₁ = .ok e') ∧
    mipsStep env fuel e₂ = .error (.unexpectedMemoryAccess (memAddr e₁.state) e₂.lastMemAccess)
  := by
  obtain ⟨e', h, -⟩ := @mipsStep_load_ok env fuel e₁ hx hl fun _ => h₁
  rw [hs] at hx hl h₂ ⊢
  exact ⟨⟨e', h⟩, mipsStep_load_aborts hx hl (hp₂ ▸ hp) h₂⟩

/-- `lw $3, 0x2000($0)` from one machine state returns with `last_mem_access = 0x2000` and
aborts with `last_mem_access = 0x3000`. -/
theorem mipsStep_lw_replay_differs :
  (∃ e', mipsStep Env.small 0 (.load [0x8c032000] (fun _ => 0) 0 0x2000) = .ok e') ∧
    mipsStep Env.small 0 (.load [0x8c032000] (fun _ => 0) 0 0x3000) =
      .error (.unexpectedMemoryAccess 0x2000 0x3000)
  := mipsStep_load_replay rfl rfl (by decide) rfl rfl rfl (by decide)

end MipsEmulator
