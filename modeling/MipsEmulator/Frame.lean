import MipsEmulator.Spec

/-!
# The frame of a step

Which fields of the machine state a step may change, and on which instructions.
`StepFrame e e'` collects these conditions: memory changes only at the word the step
tracked, and only for a store or a preimage read; the preimage key and offset, the heap,
the hint buffer, `hi`/`lo` and the exit fields only for the instructions that own them; and
a syscall that fails with EBADF changes only its two result registers, the program counters
and the step counter. `read` and `write` fail with EBADF exactly on the descriptors they do
not serve.
-/

namespace MipsEmulator

variable {env : Env} {fuel : Nat} {e e' : InstrumentedState}

/-! ### Instruction classes -/

/-- The instruction at `pc` is `syscall`, and `v0` holds `num`. -/
def IsSyscall (s : State) (num : BitVec 32) : Prop :=
  s.insn >>> 26 = 0 ∧ s.insn &&& 0x3f = 0xc ∧ s.registers 2 = num

/-- `read(FD_PREIMAGE_READ, a1, a2)`. -/
def IsPreimageRead (s : State) : Prop := IsSyscall s 4003 ∧ s.registers 4 = fdPreimageRead

/-- `write(FD_PREIMAGE_WRITE, a1, a2)`. -/
def IsPreimageWrite (s : State) : Prop := IsSyscall s 4004 ∧ s.registers 4 = fdPreimageWrite

/-- `write(FD_HINT_WRITE, a1, a2)`. -/
def IsHintWrite (s : State) : Prop := IsSyscall s 4004 ∧ s.registers 4 = fdHintWrite

/-- `mmap(0, a1)`, an allocation from the heap. -/
def IsHeapMmap (s : State) : Prop := IsSyscall s 4090 ∧ s.registers 4 = 0

/-- `exit_group(a0)`. -/
def IsExitGroup (s : State) : Prop := IsSyscall s 4246

/-- The calls that fail with EBADF: `read` and `write` on a descriptor they do not serve, and
`fcntl` with a command other than `F_GETFL` or on an unknown descriptor. -/
def EbadfCall (num a0 a1 : BitVec 32) : Prop :=
  num = 4003 ∧ a0 ≠ fdStdin ∧ a0 ≠ fdPreimageRead ∧ a0 ≠ fdHintRead ∨
  num = 4004 ∧ a0 ≠ fdStdout ∧ a0 ≠ fdStderr ∧ a0 ≠ fdHintWrite ∧ a0 ≠ fdPreimageWrite ∨
  num = 4055 ∧ (a1 ≠ 3 ∨ 6 < a0)

/-- The instruction at `pc` is a syscall that fails with EBADF. -/
def IsEbadfCall (s : State) : Prop :=
  s.insn >>> 26 = 0 ∧ s.insn &&& 0x3f = 0xc ∧
    EbadfCall (s.registers 2) (s.registers 4) (s.registers 5)

/-- `sb`, `sh`, `swl`, `sw`, `swr` or `sc`. -/
def IsStore (s : State) : Prop :=
  s.insn >>> 26 = 0x28 ∨ s.insn >>> 26 = 0x29 ∨ s.insn >>> 26 = 0x2a ∨ s.insn >>> 26 = 0x2b ∨
    s.insn >>> 26 = 0x2e ∨ s.insn >>> 26 = 0x38

/-- `mthi`, `mtlo`, `mult`, `multu`, `div` or `divu`. -/
def WritesHiLo (s : State) : Prop :=
  s.insn >>> 26 = 0 ∧
    (s.insn &&& 0x3f = 0x11 ∨ s.insn &&& 0x3f = 0x13 ∨ s.insn &&& 0x3f = 0x18 ∨
      s.insn &&& 0x3f = 0x19 ∨ s.insn &&& 0x3f = 0x1a ∨ s.insn &&& 0x3f = 0x1b)

/-- The word a load or store accesses: `(rs + sext(imm16)) & !3`. -/
def memAddr (s : State) : BitVec 32 :=
  (s.registers (regIndex ((s.insn >>> 21) &&& 0x1f)) + signExtension (s.insn &&& 0xffff) 16)
    &&& 0xfffffffc

/-- The state after a syscall that fails with EBADF. -/
def ebadfResult (e : InstrumentedState) : InstrumentedState :=
  { e with
    state := { e.state with
      registers := writeReg (writeReg e.state.registers 2 0xffffffff) 7 mipsEbadf
      pc := e.state.nextPc
      nextPc := e.state.nextPc + 4
      step := e.state.step + 1 } }

/-- What a step from `e` to `e'` may change. -/
structure StepFrame (e e' : InstrumentedState) : Prop where
  memory : ∀ a, e'.state.memory a ≠ e.state.memory a →
    a = e'.lastMemAccess ∧
      (IsStore e.state ∧ a = memAddr e.state ∨
        IsPreimageRead e.state ∧ a = e.state.registers 5 &&& 0xfffffffc)
  preimageKey : e'.state.preimageKey ≠ e.state.preimageKey → IsPreimageWrite e.state
  preimageOffset : e'.state.preimageOffset ≠ e.state.preimageOffset →
    IsPreimageWrite e.state ∨ IsPreimageRead e.state
  heap : e'.state.heap ≠ e.state.heap → IsHeapMmap e.state
  lastHint : e'.state.lastHint ≠ e.state.lastHint → IsHintWrite e.state
  hiLo : e'.state.hi ≠ e.state.hi ∨ e'.state.lo ≠ e.state.lo → WritesHiLo e.state
  exit : e'.state.exited ≠ e.state.exited ∨ e'.state.exitCode ≠ e.state.exitCode →
    IsExitGroup e.state
  ebadf : IsEbadfCall e.state → e' = ebadfResult e

/-- `read` on a descriptor it does not serve fails with EBADF and changes nothing. -/
theorem sysRead_unserved {fd a1 a2 : BitVec 32} (h0 : fd ≠ fdStdin) (h5 : fd ≠ fdPreimageRead)
    (h3 : fd ≠ fdHintRead) :
  sysRead env e fd a1 a2 = .ok (e, 0xffffffff, mipsEbadf)
  := by
  rw [sysRead, if_neg h0, if_neg h5, if_neg h3]

/-- `write` on a descriptor it does not serve fails with EBADF and changes nothing. -/
theorem sysWrite_unserved {fd a1 a2 : BitVec 32} (h1 : fd ≠ fdStdout) (h2 : fd ≠ fdStderr)
    (h4 : fd ≠ fdHintWrite) (h6 : fd ≠ fdPreimageWrite) :
  sysWrite env fuel e fd a1 a2 = .ok (e, 0xffffffff, mipsEbadf)
  := by
  rw [sysWrite, if_neg h1, if_neg h2, if_neg h4, if_neg h6]

theorem fcntl_ebadf {a0 a1 : BitVec 32} (h : a1 ≠ 3 ∨ 6 < a0) :
  fcntl a0 a1 = (0xffffffff, mipsEbadf)
  := by
  rw [fcntl]
  rcases h with h | h
  · rw [if_neg h]
  · have hr : ¬(a0 = fdStdin ∨ a0 = fdPreimageRead ∨ a0 = fdHintRead) := by
      rintro (rfl | rfl | rfl) <;> exact absurd h (by decide)
    have hw : ¬(a0 = fdStdout ∨ a0 = fdStderr ∨ a0 = fdPreimageWrite ∨ a0 = fdHintWrite) := by
      rintro (rfl | rfl | rfl | rfl) <;> exact absurd h (by decide)
    rw [if_neg hr, if_neg hw]
    split_ifs <;> rfl

theorem syscallResult_ebadf {num a0 a1 a2 : BitVec 32} (h : EbadfCall num a0 a1) :
  syscallResult env fuel e num a0 a1 a2 = .ok (e, 0xffffffff, mipsEbadf)
  := by
  rcases h with ⟨rfl, h0, h5, h3⟩ | ⟨rfl, h1, h2, h4, h6⟩ | ⟨rfl, h⟩
  · exact sysRead_unserved h0 h5 h3
  · exact sysWrite_unserved h1 h2 h4 h6
  · simp [syscallResult, fcntl_ebadf h]

/-! ### File descriptors

`read` and `write` each list the descriptors they serve, and fail with EBADF on every other
descriptor. -/

theorem preimageRead_v1 {a1 a2 v0 v1 : BitVec 32} {e₂ : InstrumentedState}
    (h : preimageRead env e a1 a2 = .ok (e₂, v0, v1)) :
  v1 = 0
  := by
  obtain ⟨_, -, h⟩ := bind_eq_ok.mp h
  obtain ⟨_, -, h⟩ := bind_eq_ok.mp h
  obtain ⟨_, -, h⟩ := bind_eq_ok.mp h
  cases h
  rfl

theorem hintWrite_v1 {a1 a2 v0 v1 : BitVec 32} {e₂ : InstrumentedState}
    (h : hintWrite fuel e a1 a2 = .ok (e₂, v0, v1)) :
  v1 = 0
  := by
  obtain ⟨_, -, h⟩ := bind_eq_ok.mp h
  cases h
  rfl

/-- `read` fails with EBADF exactly on the descriptors it does not serve. -/
theorem sysRead_ebadf_iff (fd a1 a2 : BitVec 32) :
  (∃ e₂ v0, sysRead env e fd a1 a2 = .ok (e₂, v0, mipsEbadf)) ↔
    ¬(fd = fdStdin ∨ fd = fdPreimageRead ∨ fd = fdHintRead)
  := by
  constructor
  · rintro ⟨e₂, v0, h⟩ (rfl | rfl | rfl)
    · simp [sysRead] at h
    · simp only [sysRead, if_neg (by decide : fdPreimageRead ≠ fdStdin), if_true] at h
      exact absurd (preimageRead_v1 h) (by decide)
    · simp [sysRead] at h
  · intro h
    simp only [not_or] at h
    exact ⟨e, _, sysRead_unserved h.1 h.2.1 h.2.2⟩

/-- `write` fails with EBADF exactly on the descriptors it does not serve. -/
theorem sysWrite_ebadf_iff (fd a1 a2 : BitVec 32) :
  (∃ e₂ v0, sysWrite env fuel e fd a1 a2 = .ok (e₂, v0, mipsEbadf)) ↔
    ¬(fd = fdStdout ∨ fd = fdStderr ∨ fd = fdPreimageWrite ∨ fd = fdHintWrite)
  := by
  constructor
  · rintro ⟨e₂, v0, h⟩ (rfl | rfl | rfl | rfl)
    · simp [sysWrite] at h
    · simp [sysWrite] at h
    · simp only [sysWrite, if_neg (by decide : fdPreimageWrite ≠ fdStdout),
        if_neg (by decide : fdPreimageWrite ≠ fdStderr),
        if_neg (by decide : fdPreimageWrite ≠ fdHintWrite), if_true] at h
      exact preimageWrite_ne_ok h
    · simp only [sysWrite, if_neg (by decide : fdHintWrite ≠ fdStdout),
        if_neg (by decide : fdHintWrite ≠ fdStderr), if_true] at h
      exact absurd (hintWrite_v1 h) (by decide)
  · intro h
    simp only [not_or] at h
    exact ⟨e, _, sysWrite_unserved h.1 h.2.1 h.2.2.2 h.2.2.1⟩

/-! ### The frame of each path -/

/-- A step that changes the machine state only in the registers, the program counters and
the step counter, and in `hi` and `lo` for the instructions that write them, is within the
frame. -/
theorem StepFrame.of_state {R : Registers} {P N H L : BitVec 32} {S : BitVec 64}
    (hs : e'.state =
      { e.state with registers := R, pc := P, nextPc := N, step := S, hi := H, lo := L })
    (hhl : H ≠ e.state.hi ∨ L ≠ e.state.lo → WritesHiLo e.state)
    (hebadf : IsEbadfCall e.state → e' = ebadfResult e) :
  StepFrame e e'
  := ⟨fun a h => absurd (congrFun (congrArg State.memory hs) a) h,
    (absurd (congrArg State.preimageKey hs) ·), (absurd (congrArg State.preimageOffset hs) ·),
    (absurd (congrArg State.heap hs) ·), (absurd (congrArg State.lastHint hs) ·),
    fun h => hhl (by rwa [hs] at h),
    fun h => h.elim (absurd (congrArg State.exited hs) ·) (absurd (congrArg State.exitCode hs) ·), hebadf⟩

theorem stepFrame_handleJump {l d : BitVec 32} (hne : ¬IsEbadfCall e.state) :
  StepFrame e (handleJump e.tick l d)
  := StepFrame.of_state rfl (fun h => by simp [InstrumentedState.tick] at h) (absurd · hne)

theorem stepFrame_handleRd {r v : BitVec 32} {c : Bool} (hne : ¬IsEbadfCall e.state)
    (h : handleRd e.tick r v c = .ok e') :
  StepFrame e e'
  := by
  obtain ⟨-, rfl⟩ := handleRd_eq_ok.mp h
  exact StepFrame.of_state rfl (fun h => by simp [InstrumentedState.tick] at h) (absurd · hne)

theorem stepFrame_handleHilo {fn rs rt r : BitVec 32} (hop : e.state.insn >>> 26 = 0)
    (hfn : e.state.insn &&& 0x3f = fn) (hne : ¬IsEbadfCall e.state)
    (h : handleHilo e.tick fn rs rt r = .ok e') :
  StepFrame e e'
  := by
  obtain ⟨v, hi, lo, hu, rfl⟩ := handleHilo_eq_ok h
  exact StepFrame.of_state rfl (fun hc => ⟨hop, hfn ▸ hiloUnit_hiLo hu hc⟩) (absurd · hne)

/-- The frame of a syscall arm that returns `e₂`, from the memory, preimage offset, heap and
hint buffer the arm leaves. -/
theorem StepFrame.of_syscall {e₂ : InstrumentedState} {v0 v1 O Hp : BitVec 32} {M : Memory}
    {L : List (BitVec 8)}
    (he : e' = { e₂ with state := State.advancePc { e₂.state with
      registers := writeReg (writeReg e₂.state.registers 2 v0) 7 v1 } })
    (hs : e₂.state =
      { e.tick.state with memory := M, preimageOffset := O, heap := Hp, lastHint := L })
    (hmem : ∀ a, M a ≠ e.state.memory a →
      a = e₂.lastMemAccess ∧ IsPreimageRead e.state ∧ a = e.state.registers 5 &&& 0xfffffffc)
    (hoff : O ≠ e.state.preimageOffset → IsPreimageRead e.state)
    (hheap : Hp ≠ e.state.heap → IsHeapMmap e.state)
    (hhint : L ≠ e.state.lastHint → IsHintWrite e.state)
    (hebadf : IsEbadfCall e.state → e' = ebadfResult e) :
  StepFrame e e'
  := by
  subst he
  constructor
  · intro a h
    obtain ⟨h1, h2, h3⟩ := hmem a (by rwa [hs] at h)
    exact ⟨h1, .inr ⟨h2, h3⟩⟩
  · intro h
    rw [hs] at h
    exact absurd rfl h
  · exact fun h => .inr (hoff (by rwa [hs] at h))
  · exact fun h => hheap (by rwa [hs] at h)
  · exact fun h => hhint (by rwa [hs] at h)
  · rintro (h | h) <;> rw [hs] at h <;> exact absurd rfl h
  · rintro (h | h) <;> rw [hs] at h <;> exact absurd rfl h
  · exact hebadf

theorem stepFrame_syscall (hop : e.state.insn >>> 26 = 0) (hfn : e.state.insn &&& 0x3f = 0xc)
    (h : handleSyscall env fuel e.tick = .ok e') :
  StepFrame e e'
  := by
  have hsys : ∀ {num}, e.state.registers 2 = num → IsSyscall e.state num := fun h => ⟨hop, hfn, h⟩
  rcases handleSyscall_cases h with ⟨h2, rfl⟩ | ⟨h2, e₂, v0, v1, hr, he⟩
  · have hne : ¬IsEbadfCall e.state := by
      rintro ⟨-, -, (⟨hb, -⟩ | ⟨hb, -⟩ | ⟨hb, -⟩)⟩ <;> exact absurd (hb.symm.trans h2) (by decide)
    exact ⟨fun _ h => absurd rfl h, (absurd rfl ·), (absurd rfl ·), (absurd rfl ·), (absurd rfl ·),
      fun h => h.elim (absurd rfl) (absurd rfl), fun _ => hsys h2, (absurd · hne)⟩
  simp only [InstrumentedState.tick_state_registers] at hr h2
  have hebadf : IsEbadfCall e.state → e' = ebadfResult e := fun hb => by
    rw [syscallResult_ebadf hb.2.2] at hr
    cases hr
    rw [he]
    rfl
  rcases syscallResult_spec hr with hs | ⟨hnum, hs, -⟩ | ⟨hnum, ha, hpr⟩ | ⟨hnum, ha, hw⟩
  · exact StepFrame.of_syscall he hs (fun _ h => absurd rfl h) (absurd rfl ·)
      (absurd rfl ·) (absurd rfl ·) hebadf
  · refine StepFrame.of_syscall he hs (fun _ h => absurd rfl h) (absurd rfl ·)
      (fun hh => ⟨hsys hnum, ?_⟩) (absurd rfl ·) hebadf
    by_contra h4
    rw [mmap_of_ne h4] at hh
    exact hh rfl
  · obtain ⟨⟨w, hs⟩, hl⟩ := preimageRead_spec hpr
    refine StepFrame.of_syscall he hs (fun a hm => ?_) (fun _ => ⟨hsys hnum, ha⟩)
      (absurd rfl ·) (absurd rfl ·) hebadf
    have haddr : a = e.state.registers 5 &&& 0xfffffffc := by
      by_contra hne
      exact hm (Function.update_noteq hne _ _)
    exact ⟨by rw [haddr, ← hl], ⟨hsys hnum, ha⟩, haddr⟩
  · obtain ⟨lh, hs⟩ := hintWrite_state hw
    exact StepFrame.of_syscall he hs (fun _ h => absurd rfl h) (absurd rfl ·)
      (absurd rfl ·) (fun _ => ⟨hsys hnum, ha⟩) hebadf

theorem stepFrame_writeBack {e₂ : InstrumentedState} {ops : Operands} {val : BitVec 32}
    (hf : memoryFetch env e.tick (e.state.insn >>> 26) e.state.insn
      (decodeOperands e.state.registers e.state.insn) = .ok (e₂, ops))
    (hv : execute e.state.insn ops.rs ops.rt ops.mem = .ok val)
    (hw : writeBack env e₂ (e.state.insn >>> 26) val ops = .ok e')
    (hne : ¬IsEbadfCall e.state) :
  StepFrame e e'
  := by
  obtain ⟨hs₂, hrt, -, -, hsa⟩ := memoryFetch_spec hf
  obtain ⟨-, hs, hl⟩ := writeBack_spec hw (hrt ▸ decodeOperands_rtReg_lt _ _)
  rw [hs₂] at hs
  refine ⟨fun a hm => ?_, (absurd (congrArg State.preimageKey hs) ·),
    (absurd (congrArg State.preimageOffset hs) ·), (absurd (congrArg State.heap hs) ·),
    (absurd (congrArg State.lastHint hs) ·),
    fun h => h.elim (absurd (congrArg State.hi hs) ·) (absurd (congrArg State.lo hs) ·),
    fun h => h.elim (absurd (congrArg State.exited hs) ·) (absurd (congrArg State.exitCode hs) ·),
    (absurd · hne)⟩
  have hsa' : ops.storeAddr ≠ 0xffffffff := by
    intro hc
    rw [hs] at hm
    simp [State.advancePc, hc, InstrumentedState.tick] at hm
  have ha : a = ops.storeAddr := by
    by_contra hne'
    rw [hs] at hm
    simp only [State.advancePc, if_pos hsa'] at hm
    exact hm (Function.update_noteq hne' _ _)
  rcases hsa with hsa | ⟨h28, h30, hsa, -⟩
  · exact absurd (hsa.trans (decodeOperands_storeAddr _ _)) hsa'
  refine ⟨ha.trans (hl hsa').symm, .inl ⟨?_, by rw [ha, hsa, decodeOperands_rs]; rfl⟩⟩
  rcases execute_store_opcode h28 hv with h | h | h | h | h | h | h
  exacts [.inl h, .inr (.inl h), .inr (.inr (.inl h)), .inr (.inr (.inr (.inl h))),
    .inr (.inr (.inr (.inr (.inl h)))), absurd h h30, .inr (.inr (.inr (.inr (.inr h))))]

/-- The frame of each path of `mips_step`. -/
theorem stepFrame_of_mipsStep (h : mipsStep env fuel e = .ok e') (hx : e.state.exited = false) :
  StepFrame e e'
  := by
  cases mipsStep_path h with
  | exited h' => simp [hx] at h'
  | jump _ hj =>
    exact stepFrame_handleJump fun hb => by
      rcases hj with hj | hj <;> rw [hb.1] at hj <;> exact absurd hj (by decide)
  | special _ hop _ _ hd =>
    rcases dispatchSpecial_cases hd with ⟨h89, rfl⟩ | ⟨hab, c, hrd⟩ | ⟨hc, hsc⟩ | ⟨h10, hhl⟩
    · exact stepFrame_handleJump fun hb => by
        rcases h89 with h | h <;> rw [hb.2.1] at h <;> exact absurd h (by decide)
    · exact stepFrame_handleRd (fun hb => by
        rcases hab with h | h <;> rw [hb.2.1] at h <;> exact absurd h (by decide)) hrd
    · exact stepFrame_syscall hop hc hsc
    · exact stepFrame_handleHilo hop rfl (fun hb => by
        rw [hb.2.1] at h10; exact absurd h10 (by decide)) hhl
  | writeBack _ _ _ hd hf hv hw =>
    exact stepFrame_writeBack hf hv hw fun hb => by
      have h' := hd hb.1 (by rw [hb.2.1]; decide) (by rw [hb.2.1]; decide)
      rw [hb.2.1] at h'
      simp [dispatchSpecial] at h'

/-- The frame of `mips_step`: a step that returns from a running machine changes memory only
at the word it passed to `track_memory_access`, and only for a store or a preimage read;
it changes the preimage key only for a preimage-key write, the preimage offset only for a
preimage read or write, the heap only for a heap `mmap`, the hint buffer only for a hint
write, `hi` and `lo` only for the instructions that write them, and the exit fields only
for `exit_group`; a syscall that fails with EBADF changes nothing but registers 2 and 7,
`pc`, `next_pc` and `step`. -/
theorem mipsStep_frame (h : mipsStep env fuel e = .ok e') (hx : e.state.exited = false) :
  StepFrame e e'
  := stepFrame_of_mipsStep h hx

/-- `sw $2, 0x2000($0)` with `$2 = 5` writes the word it tracked and stays in the frame. -/
theorem mipsStep_frame_sw :
  ∃ e', mipsStep Env.small 0 (.load [0xac022000] (fun i => if i = 2 then 5 else 0) 0 0x2000) = .ok e' ∧
    e'.state.memory 0x2000 = 5 ∧
    StepFrame (.load [0xac022000] (fun i => if i = 2 then 5 else 0) 0 0x2000) e'
  := ⟨_, rfl, rfl, @mipsStep_frame _ 0 _ _ rfl rfl⟩

/-! ### Register 0 -/

theorem syscallResult_registers {num a0 a1 a2 v0 v1 : BitVec 32} {e₂ : InstrumentedState}
    (h : syscallResult env fuel e num a0 a1 a2 = .ok (e₂, v0, v1)) :
  e₂.state.registers = e.state.registers
  := by
  obtain ⟨M, O, Hp, L, hs⟩ := syscallResult_state h
  rw [hs]

theorem handleSyscall_reg_zero (h : handleSyscall env fuel e = .ok e') :
  e'.state.registers 0 = e.state.registers 0
  := by
  rcases handleSyscall_cases h with ⟨-, rfl⟩ | ⟨-, e₂, v0, v1, hr, rfl⟩
  · rfl
  · simp only [State.advancePc]
    rw [writeReg_apply_zero (by decide) (by decide), writeReg_apply_zero (by decide) (by decide),
      syscallResult_registers hr]

/-- No step writes register 0: `handle_rd`, `handle_hilo` and the jump link skip register 0,
`sc` writes only a nonzero `rt_reg`, and a syscall writes registers 2 and 7. -/
theorem mipsStep_reg_zero (h : mipsStep env fuel e = .ok e') :
  e'.state.registers 0 = e.state.registers 0
  := by
  have hrd := decodeOperands_rdReg_lt e.state.registers e.state.insn
  cases mipsStep_path h with
  | exited => rfl
  | jump => exact handleJump_reg_zero (by split <;> decide)
  | special _ _ _ _ hd =>
    rcases dispatchSpecial_cases hd with ⟨-, rfl⟩ | ⟨-, c, hrd'⟩ | ⟨-, hsc⟩ | ⟨-, hhl⟩
    · exact handleJump_reg_zero (by split; exact hrd; decide)
    · exact (handleRd_reg_zero hrd').trans rfl
    · exact (handleSyscall_reg_zero hsc).trans rfl
    · obtain ⟨v, hi, lo, -, rfl⟩ := handleHilo_eq_ok hhl
      dsimp only [State.advancePc]
      split
      · exact writeReg_apply_zero hrd ‹_›
      · rfl
  | writeBack _ _ _ _ hf _ hw =>
    obtain ⟨hs₂, hrt, -⟩ := memoryFetch_spec hf
    rw [(writeBack_spec hw (hrt ▸ decodeOperands_rtReg_lt _ _)).1, hs₂]
    rfl

end MipsEmulator
