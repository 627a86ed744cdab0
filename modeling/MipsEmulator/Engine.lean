import MipsEmulator.Control

/-!
# The engine around the machine state

What a step does to the fields of `InstrumentedState` outside `state`.

* `write` streams bytes from memory to three channels: the writers of `FD_STDOUT` and
  `FD_STDERR`, and `FD_HINT_WRITE`, whose bytes are buffered in `last_hint` and cut into hints
  for the oracle, each a record behind its length in four big-endian bytes. The three are
  append-only logs: a step appends to each exactly the bytes a `write` to it sends, so no byte
  is lost, duplicated or rewritten, and along a run each log only grows.
* `track_memory_access` accepts, with memory proofs on, only the address it already tracks, so
  with proofs on a run never moves the tracked word and changes memory at that one word only.

`EngineFrame e e' out err hint` collects what a step may change there; `mipsStep_engineFrame`
gives it for every returning step.
-/

namespace MipsEmulator

instance (s : State) (num : BitVec 32) : Decidable (IsSyscall s num) :=
  inferInstanceAs (Decidable (_ ∧ _ ∧ _))

/-- The bytes that the step at `s` sends to the descriptor `fd`: the `a2` bytes at `a1` when a
running machine executes `write(fd, a1, a2)`, and none otherwise. -/
def written (s : State) (fd : BitVec 32) : List (BitVec 8) :=
  if s.exited = false ∧ IsSyscall s 4004 ∧ s.registers 4 = fd then
    readMemoryRange s.memory (s.registers 5) (s.registers 6)
  else []

/-- Hints as records of the hint channel: each behind its length in four big-endian bytes. -/
def hintRecords (hints : List (List (BitVec 8))) : List (BitVec 8) :=
  (hints.map fun h => toBeBytes 4 h.length ++ h).flatten

/-- Every byte written to `FD_HINT_WRITE`: the records of the hints passed to the oracle, then
the bytes of `last_hint` not yet cut into a hint. -/
def hintStream (e : InstrumentedState) : List (BitVec 8) :=
  hintRecords e.oracleHints ++ e.state.lastHint

/-- What a step may change in the engine around the machine state: it appends `out`, `err` and
`hint` to stdout, stderr and the hint stream, keeps the memory-proof flag, and with memory
proofs on keeps the tracked word. -/
structure EngineFrame (e e' : InstrumentedState) (out err hint : List (BitVec 8)) : Prop where
  stdout : e'.stdoutWriter = e.stdoutWriter ++ out
  stderr : e'.stderrWriter = e.stderrWriter ++ err
  hint : hintStream e' = hintStream e ++ hint
  memProofEnabled : e'.memProofEnabled = e.memProofEnabled
  lastMemAccess : e.memProofEnabled = true → e'.lastMemAccess = e.lastMemAccess

/-- The fields that only `write` changes: the writers, the hints and the hint buffer; and the
memory-proof flag, which nothing changes. -/
def InstrumentedState.io (e : InstrumentedState) :
    List (BitVec 8) × List (BitVec 8) × List (List (BitVec 8)) × List (BitVec 8) × Bool :=
  (e.stdoutWriter, e.stderrWriter, e.oracleHints, e.state.lastHint, e.memProofEnabled)

/-- `e'` has the logs and the memory-proof flag of `e`, and with memory proofs on it tracks the
word `e` tracks. -/
structure Quiet (e e' : InstrumentedState) : Prop where
  io : e'.io = e.io
  lastMemAccess : e.memProofEnabled = true → e'.lastMemAccess = e.lastMemAccess

variable {env : Env} {fuel : Nat} {e e' e₂ e₃ : InstrumentedState}

/-! ### The hint records -/

/-- Four big-endian bytes read as a word and written back are the same bytes. -/
theorem toBeBytes_fromBeBytes {b : List (BitVec 8)} (hb : b.length = 4) :
  toBeBytes 4 (fromBeBytes b).toNat = b
  := by
  match b, hb with
  | [x0, x1, x2, x3], _ =>
    have := x0.isLt; have := x1.isLt; have := x2.isLt; have := x3.isLt
    rw [toBeBytes_four]
    simp only [fromBeBytes, List.foldl, BitVec.toNat_ofNat, List.cons.injEq, and_true]
    rw [Nat.mod_eq_of_lt (by omega)]
    refine ⟨?_, ?_, ?_, ?_⟩ <;> apply BitVec.eq_of_toNat_eq <;> simp only [BitVec.toNat_ofNat] <;>
      omega

@[simp]
theorem hintRecords_append_singleton (hints : List (List (BitVec 8))) (h : List (BitVec 8)) :
  hintRecords (hints ++ [h]) = hintRecords hints ++ (toBeBytes 4 h.length ++ h)
  := by
  simp [hintRecords]

/-- The hint loop cuts records off the front of the buffer: the records and the buffered bytes
together are the same stream before and after. -/
theorem hintLoop_stream {buf buf' : List (BitVec 8)} {hints hints' : List (List (BitVec 8))}
    (h : hintLoop fuel buf hints = .ok (buf', hints')) :
  hintRecords hints' ++ buf' = hintRecords hints ++ buf
  := by
  induction fuel generalizing buf hints with
  | zero =>
    unfold hintLoop at h
    split at h
    · cases h
    · cases h; rfl
  | succ n ih =>
    rw [hintLoop] at h
    split at h
    · rename_i hlen
      dsimp only at h
      split at h
      · split at h
        · cases h
        · rename_i hlt
          have hL : (fromBeBytes (buf.take 4)).toNat ≤ (buf.drop 4).length := by
            simp only [List.length_drop]; omega
          rw [ih h, hintRecords_append_singleton, List.append_assoc, List.length_take,
            min_eq_left hL, List.append_assoc, ← List.drop_drop, List.take_append_drop,
            toBeBytes_fromBeBytes (by simp only [List.length_take]; omega), List.take_append_drop]
      · exact ih h
    · cases h; rfl

/-! ### Handlers that leave the logs alone -/

theorem tick_quiet : Quiet e e.tick := ⟨rfl, fun _ => rfl⟩

/-- A new machine state with the hint buffer of the old one leaves the logs alone. -/
theorem quiet_setState {s : State} (hs : s.lastHint = e.state.lastHint) :
  Quiet e { e with state := s }
  := ⟨by rw [InstrumentedState.io, InstrumentedState.io, hs], fun _ => rfl⟩

theorem handleJump_quiet (l d : BitVec 32) : Quiet e (handleJump e l d) := quiet_setState rfl

theorem Quiet.memProofEnabled (h : Quiet e e') : e'.memProofEnabled = e.memProofEnabled :=
  congrArg (fun x => x.2.2.2.2) h.io

theorem Quiet.trans (h₁ : Quiet e e₂) (h₂ : Quiet e₂ e₃) : Quiet e e₃ :=
  ⟨h₂.io.trans h₁.io, fun hp =>
    (h₂.lastMemAccess (h₁.memProofEnabled.trans hp)).trans (h₁.lastMemAccess hp)⟩

theorem Quiet.engineFrame (h : Quiet e e') : EngineFrame e e' [] [] [] := by
  have hio := h.io
  simp only [InstrumentedState.io, Prod.mk.injEq] at hio
  exact ⟨by simp [hio.1], by simp [hio.2.1], by simp [hintStream, hio.2.2.1, hio.2.2.2.1],
    hio.2.2.2.2, h.lastMemAccess⟩

theorem trackMemoryAccess_quiet {a : BitVec 32} (h : trackMemoryAccess env e a = .ok e') :
  Quiet e e'
  := by
  obtain ⟨hl, rfl⟩ := trackMemoryAccess_eq_ok.mp h
  exact ⟨rfl, fun hp => (hl hp).symm⟩

theorem readPreimage_quiet {k : Key} {o : BitVec 32} {d : List (BitVec 8)} {n : BitVec 32}
    (h : readPreimage env e k o = .ok (e₂, d, n)) :
  Quiet e e₂
  := by
  unfold readPreimage at h
  dsimp only at h
  split at h
  · cases h
  · obtain ⟨-, -, h⟩ := bind_eq_ok.mp h
    cases h
    unfold refillPreimage
    split <;> exact ⟨rfl, fun _ => rfl⟩

theorem preimageRead_quiet {a1 a2 v0 v1 : BitVec 32}
    (h : preimageRead env e a1 a2 = .ok (e₂, v0, v1)) :
  Quiet e e₂
  := by
  obtain ⟨e₃, ht, h⟩ := bind_eq_ok.mp h
  obtain ⟨⟨e₄, d, n⟩, hr, h⟩ := bind_eq_ok.mp h
  obtain ⟨-, -, h⟩ := bind_eq_ok.mp h
  cases h
  exact (trackMemoryAccess_quiet ht).trans ((readPreimage_quiet hr).trans ⟨rfl, fun _ => rfl⟩)

/-- The calls other than `write` leave the logs alone. -/
theorem syscallResult_quiet {num a0 a1 a2 v0 v1 : BitVec 32} (hne : num ≠ 4004)
    (h : syscallResult env fuel e num a0 a1 a2 = .ok (e₂, v0, v1)) :
  Quiet e e₂
  := by
  unfold syscallResult at h
  by_cases h90 : num = 4090
  · rw [if_pos h90] at h
    cases h
    exact quiet_setState rfl
  rw [if_neg h90] at h
  by_cases h03 : num = 4003
  · rw [if_neg (by rw [h03]; decide), if_neg (by rw [h03]; decide), if_pos h03, sysRead] at h
    by_cases hp : a0 = fdPreimageRead
    · rw [if_neg (by rw [hp]; decide), if_pos hp] at h
      exact preimageRead_quiet h
    rw [if_neg hp] at h
    split_ifs at h <;> cases h <;> exact ⟨rfl, fun _ => rfl⟩
  rw [if_neg h03, if_neg hne] at h
  split_ifs at h <;> cases h <;> exact ⟨rfl, fun _ => rfl⟩

theorem memoryFetch_quiet {opcode insn : BitVec 32} {ops ops₂ : Operands}
    (h : memoryFetch env e opcode insn ops = .ok (e₂, ops₂)) :
  Quiet e e₂
  := by
  unfold memoryFetch at h
  split at h
  · obtain ⟨e₃, ht, h⟩ := bind_eq_ok.mp h
    split at h <;> cases h <;> exact trackMemoryAccess_quiet ht
  · cases h; exact ⟨rfl, fun _ => rfl⟩

theorem writeBack_quiet {opcode val : BitVec 32} {ops : Operands}
    (h : writeBack env e opcode val ops = .ok e') :
  Quiet e e'
  := by
  unfold writeBack at h
  obtain ⟨e₃, hs, h⟩ := bind_eq_ok.mp h
  obtain ⟨-, rfl⟩ := handleRd_eq_ok.mp h
  have hsc : Quiet e (if opcode = 0x38 ∧ ops.rtReg ≠ 0 then
      { e with state := { e.state with registers := writeReg e.state.registers ops.rtReg 1 } }
      else e) := by
    split <;> exact ⟨rfl, fun _ => rfl⟩
  refine Quiet.trans (?_ : Quiet e e₃) ⟨rfl, fun _ => rfl⟩
  split at hs
  · obtain ⟨hl, rfl⟩ := storeWord_eq_ok.mp hs
    exact hsc.trans ⟨rfl, fun hp => (hl hp).symm⟩
  · cases hs; exact hsc

/-! ### Writes -/

/-- A hint write appends the bytes it reads to the hint stream. -/
theorem hintWrite_engineFrame {a1 a2 v0 v1 : BitVec 32}
    (h : hintWrite fuel e a1 a2 = .ok (e₂, v0, v1)) :
  EngineFrame e e₂ [] [] (readMemoryRange e.state.memory a1 a2)
  := by
  obtain ⟨⟨lh, hs⟩, hl, h⟩ := bind_eq_ok.mp h
  cases h
  refine ⟨by simp, by simp, ?_, rfl, fun _ => rfl⟩
  simp only [hintStream]
  rw [hintLoop_stream hl, List.append_assoc]

/-- `write` appends the bytes it reads to the log of its descriptor. -/
theorem sysWrite_engineFrame {a0 a1 a2 v0 v1 : BitVec 32}
    (h : sysWrite env fuel e a0 a1 a2 = .ok (e₂, v0, v1)) :
  EngineFrame e e₂ (if a0 = fdStdout then readMemoryRange e.state.memory a1 a2 else [])
    (if a0 = fdStderr then readMemoryRange e.state.memory a1 a2 else [])
    (if a0 = fdHintWrite then readMemoryRange e.state.memory a1 a2 else [])
  := by
  unfold sysWrite at h
  by_cases h1 : a0 = fdStdout
  · subst h1
    cases h
    exact ⟨by simp, by simp, by simp [hintStream], rfl, fun _ => rfl⟩
  rw [if_neg h1] at h
  by_cases h2 : a0 = fdStderr
  · subst h2
    cases h
    exact ⟨by simp, by simp, by simp [hintStream], rfl, fun _ => rfl⟩
  rw [if_neg h2] at h
  by_cases h4 : a0 = fdHintWrite
  · subst h4
    simpa using hintWrite_engineFrame h
  rw [if_neg h4] at h
  simp only [h1, h2, h4, if_false]
  split at h
  · exact absurd h preimageWrite_ne_ok
  · cases h; exact Quiet.engineFrame ⟨rfl, fun _ => rfl⟩

/-! ### Steps -/

theorem written_eq_nil {s : State} (h : ¬(s.exited = false ∧ IsSyscall s 4004)) (fd : BitVec 32) :
  written s fd = []
  := if_neg fun h' => h ⟨h'.1, h'.2.1⟩

/-- A step that is not a write leaves the logs alone. -/
theorem EngineFrame.of_quiet (h : Quiet e e')
    (hw : ¬(e.state.exited = false ∧ IsSyscall e.state 4004)) :
  EngineFrame e e' (written e.state fdStdout) (written e.state fdStderr)
    (written e.state fdHintWrite)
  := by
  simpa only [written_eq_nil hw] using h.engineFrame

/-- The engine frame of each path of `mips_step`: a returning step appends to each log the bytes
it writes to that descriptor, keeps the memory-proof flag, and with memory proofs on keeps the
tracked word. -/
theorem mipsStep_engineFrame (h : mipsStep env fuel e = .ok e') :
  EngineFrame e e' (written e.state fdStdout) (written e.state fdStderr)
    (written e.state fdHintWrite)
  := by
  cases mipsStep_path h with
  | exited hx => exact EngineFrame.of_quiet ⟨rfl, fun _ => rfl⟩ (by simp [hx])
  | jump _ hj =>
    refine EngineFrame.of_quiet (tick_quiet.trans (handleJump_quiet _ _)) fun ⟨_, hs⟩ => ?_
    rcases hj with hj | hj <;> rw [hs.1] at hj <;> exact absurd hj (by decide)
  | special hx hop _ _ hd =>
    rcases dispatchSpecial_cases hd with ⟨h89, rfl⟩ | ⟨hab, c, hrd⟩ | ⟨hc, hsc⟩ | ⟨h10, hhl⟩
    · refine EngineFrame.of_quiet (tick_quiet.trans (handleJump_quiet _ _)) fun ⟨_, hs⟩ => ?_
      rcases h89 with h | h <;> rw [hs.2.1] at h <;> exact absurd h (by decide)
    · obtain ⟨-, rfl⟩ := handleRd_eq_ok.mp hrd
      refine EngineFrame.of_quiet (tick_quiet.trans (quiet_setState rfl)) fun ⟨_, hs⟩ => ?_
      rcases hab with h | h <;> rw [hs.2.1] at h <;> exact absurd h (by decide)
    · rcases handleSyscall_cases hsc with ⟨h46, rfl⟩ | ⟨h46, e₂, v0, v1, hr, rfl⟩
      · exact EngineFrame.of_quiet (tick_quiet.trans (quiet_setState rfl)) fun ⟨_, hs⟩ =>
          absurd (hs.2.2.symm.trans h46) (by decide)
      by_cases hw : e.state.registers 2 = 4004
      · rw [InstrumentedState.tick_state_registers, hw] at hr
        have ha := sysWrite_engineFrame (show sysWrite env fuel e.tick _ _ _ = _ from hr)
        have hsys : e.state.exited = false ∧ IsSyscall e.state 4004 := ⟨hx, hop, hc, hw⟩
        simp only [written, hsys, true_and]
        exact ⟨ha.stdout, ha.stderr, ha.hint, ha.memProofEnabled, ha.lastMemAccess⟩
      · exact EngineFrame.of_quiet ((tick_quiet.trans (syscallResult_quiet hw hr)).trans
          (quiet_setState rfl)) fun ⟨_, hs⟩ => hw hs.2.2
    · obtain ⟨v, hi, lo, -, rfl⟩ := handleHilo_eq_ok hhl
      refine EngineFrame.of_quiet (tick_quiet.trans (quiet_setState rfl)) fun ⟨_, hs⟩ => ?_
      rw [hs.2.1] at h10
      exact absurd h10 (by decide)
  | writeBack _ _ _ hd hf _ hw =>
    refine EngineFrame.of_quiet
      ((tick_quiet.trans (memoryFetch_quiet hf)).trans (writeBack_quiet hw)) fun ⟨_, hs⟩ => ?_
    have h' := hd hs.1 (by rw [hs.2.1]; decide) (by rw [hs.2.1]; decide)
    rw [hs.2.1] at h'
    simp [dispatchSpecial] at h'

/-! ### Output channels -/

/-- Along a run, each log only grows. -/
theorem Reachable.logs_grow (hr : Reachable env e e') :
  e.stdoutWriter <+: e'.stdoutWriter ∧ e.stderrWriter <+: e'.stderrWriter ∧
    hintStream e <+: hintStream e'
  := by
  induction hr with
  | refl => exact ⟨List.prefix_refl _, List.prefix_refl _, List.prefix_refl _⟩
  | tail _ hs ih =>
    obtain ⟨fuel, hs⟩ := hs
    have ha := mipsStep_engineFrame hs
    rw [ha.stdout, ha.stderr, ha.hint]
    exact ⟨ih.1.trans (List.prefix_append _ _), ih.2.1.trans (List.prefix_append _ _),
      ih.2.2.trans (List.prefix_append _ _)⟩

/-- The output channels are append-only logs: a returning step appends to stdout, to stderr
and to the hint stream exactly the bytes a `write` to each sends, and nothing otherwise; the
hint loop only cuts the stream into records. So along a run each of the three only grows. -/
theorem output_channels_append_only :
  (∀ env fuel (e e' : InstrumentedState), mipsStep env fuel e = .ok e' →
    e'.stdoutWriter = e.stdoutWriter ++ written e.state fdStdout ∧
    e'.stderrWriter = e.stderrWriter ++ written e.state fdStderr ∧
    hintStream e' = hintStream e ++ written e.state fdHintWrite) ∧
  (∀ env (e e' : InstrumentedState), Reachable env e e' →
    e.stdoutWriter <+: e'.stdoutWriter ∧ e.stderrWriter <+: e'.stderrWriter ∧
      hintStream e <+: hintStream e')
  := ⟨fun _ _ _ _ h => ⟨(mipsStep_engineFrame h).stdout, (mipsStep_engineFrame h).stderr,
    (mipsStep_engineFrame h).hint⟩, fun _ _ _ => Reachable.logs_grow⟩

/-! ### Memory proofs along a run -/

/-- With memory proofs on, a run keeps them on, keeps the tracked word, and changes memory at
that word only. -/
theorem Reachable.tracked_word (hr : Reachable env e e') (hp : e.memProofEnabled = true) :
  e'.memProofEnabled = true ∧ e'.lastMemAccess = e.lastMemAccess ∧
    ∀ a, e'.state.memory a ≠ e.state.memory a → a = e.lastMemAccess
  := by
  induction hr with
  | refl => exact ⟨hp, rfl, fun _ h => absurd rfl h⟩
  | @tail b c _ hs ih =>
    obtain ⟨hpb, hlb, hmb⟩ := ih
    obtain ⟨fuel, hs⟩ := hs
    have hf := mipsStep_engineFrame hs
    have hlc : c.lastMemAccess = e.lastMemAccess := (hf.lastMemAccess hpb).trans hlb
    refine ⟨hf.memProofEnabled.trans hpb, hlc, fun a ha => ?_⟩
    by_cases hab : b.state.memory a = e.state.memory a
    · cases hx : b.state.exited
      · rw [← hab] at ha
        exact ((stepFrame_of_mipsStep hs hx).memory a ha).1.trans hlc
      · rw [mipsStep_of_exited hx] at hs
        cases hs
        exact absurd hab ha
    · exact hmb a hab

/-- With memory proofs on, `track_memory_access` accepts only the address it already tracks:
no returning step moves the tracked word, and along a run memory changes at that one word
only. -/
theorem memProof_pins_one_word :
  (∀ env fuel (e e' : InstrumentedState), mipsStep env fuel e = .ok e' →
    e.memProofEnabled = true → e'.memProofEnabled = true ∧ e'.lastMemAccess = e.lastMemAccess) ∧
  (∀ env (e e' : InstrumentedState), Reachable env e e' → e.memProofEnabled = true →
    e'.lastMemAccess = e.lastMemAccess ∧
      ∀ a, e'.state.memory a ≠ e.state.memory a → a = e.lastMemAccess)
  := ⟨fun _ _ _ _ h hp => ⟨(mipsStep_engineFrame h).memProofEnabled.trans hp,
      (mipsStep_engineFrame h).lastMemAccess hp⟩,
    fun _ _ _ hr hp => (hr.tracked_word hp).2⟩

end MipsEmulator
