import MipsEmulator.Run

/-!
# Control flow of a step

How a step that returns moves the counters of a running machine.

* `step` goes up by one.
* `exit_group` leaves `pc` and `next_pc` where they were.
* Every other instruction moves `pc` to the old `next_pc`, the delay slot.
* `next_pc` becomes the jump target for `j`/`jal` and `jr`/`jalr`, and the word after the
  delay slot for every other instruction.

So the delay slot of a jump runs on the step after it and the target on the step after that.
An exited machine is a fixed point of the step, so exit is final along every run.
-/

namespace MipsEmulator

variable {env : Env} {fuel : Nat} {e e' : InstrumentedState}

/-- `j`, `jal`, `jr` or `jalr`. -/
def IsJump (s : State) : Prop :=
  s.insn >>> 26 = 2 ∨ s.insn >>> 26 = 3 ∨
    s.insn >>> 26 = 0 ∧ (s.insn &&& 0x3f = 8 ∨ s.insn &&& 0x3f = 9)

/-- What a step from a running machine `e` to `e'` does to the counters. -/
structure PcStep (e e' : InstrumentedState) : Prop where
  step : e'.state.step = e.state.step + 1
  exit : IsExitGroup e.state → e'.state.pc = e.state.pc ∧ e'.state.nextPc = e.state.nextPc
  pc : ¬IsExitGroup e.state → e'.state.pc = e.state.nextPc
  jumpImm : e.state.insn >>> 26 = 2 ∨ e.state.insn >>> 26 = 3 →
    e'.state.nextPc = signExtension (e.state.insn &&& 0x03ffffff) 26 <<< 2
  jumpReg : e.state.insn >>> 26 = 0 → (e.state.insn &&& 0x3f = 8 ∨ e.state.insn &&& 0x3f = 9) →
    e'.state.nextPc = e.state.registers (regIndex ((e.state.insn >>> 21) &&& 0x1f))
  seq : ¬IsExitGroup e.state → ¬IsJump e.state → e'.state.nextPc = e.state.nextPc + 4

/-! ### The counters on each path -/

/-- A step whose machine state is `State.advancePc` of the ticked state, on an instruction
that is neither a jump nor `exit_group`. -/
theorem PcStep.of_advancePc {s : State}
    (hs : e'.state = State.advancePc s) (hn : s.nextPc = e.state.nextPc)
    (hst : s.step = e.state.step + 1) (hj : ¬IsJump e.state) (hne : ¬IsExitGroup e.state) :
  PcStep e e'
  := by
  have hj2 : ¬(e.state.insn >>> 26 = 2 ∨ e.state.insn >>> 26 = 3) := fun h => hj (by
    rcases h with h | h
    exacts [.inl h, .inr (.inl h)])
  refine ⟨?_, (absurd · hne), ?_, (absurd · hj2), fun h0 h89 => absurd (.inr (.inr ⟨h0, h89⟩)) hj,
    ?_⟩ <;> simp only [hs, State.advancePc, hn, hst, implies_true]

theorem PcStep.of_handleJump {l d : BitVec 32} (hne : ¬IsExitGroup e.state)
    (himm : e.state.insn >>> 26 = 2 ∨ e.state.insn >>> 26 = 3 →
      d = signExtension (e.state.insn &&& 0x03ffffff) 26 <<< 2)
    (hreg : e.state.insn >>> 26 = 0 → (e.state.insn &&& 0x3f = 8 ∨ e.state.insn &&& 0x3f = 9) →
      d = e.state.registers (regIndex ((e.state.insn >>> 21) &&& 0x1f)))
    (hj : IsJump e.state) :
  PcStep e (handleJump e.tick l d)
  := ⟨rfl, (absurd · hne), fun _ => rfl, himm, hreg, fun _ h => absurd hj h⟩

/-- `exit_group` from a running machine. -/
theorem PcStep.of_exit (hsys : IsExitGroup e.state) :
  PcStep e { e.tick with state := { e.tick.state with
    exited := true, exitCode := (e.tick.state.registers 4).setWidth 8 } }
  := by
  have ⟨h0, hc, _⟩ := hsys
  refine ⟨rfl, fun _ => ⟨rfl, rfl⟩, (absurd hsys ·), fun h => ?_, fun _ h => ?_,
    fun h => absurd hsys h⟩
  · rcases h with h | h <;> rw [h0] at h <;> exact absurd h (by decide)
  · rcases h with h | h <;> rw [hc] at h <;> exact absurd h (by decide)

/-- A SPECIAL funct code other than 8 and 9 is no jump. -/
theorem not_isJump_of_fn {s : State} (hop : s.insn >>> 26 = 0) (h8 : s.insn &&& 0x3f ≠ 8)
    (h9 : s.insn &&& 0x3f ≠ 9) :
  ¬IsJump s
  := by
  rintro (h | h | ⟨-, h | h⟩)
  · rw [hop] at h
    exact absurd h (by decide)
  · rw [hop] at h
    exact absurd h (by decide)
  · exact h8 h
  · exact h9 h

/-! ### Every step -/

theorem mipsStep_pcStep (h : mipsStep env fuel e = .ok e') (hx : e.state.exited = false) :
  PcStep e e'
  := by
  cases mipsStep_path h with
  | exited h' => simp [hx] at h'
  | jump _ hj =>
    have h0 : e.state.insn >>> 26 ≠ 0 := by rcases hj with h | h <;> rw [h] <;> decide
    refine PcStep.of_handleJump (fun hc => h0 hc.1) (fun _ => rfl) (fun h => absurd h h0) ?_
    rcases hj with h | h
    exacts [.inl h, .inr (.inl h)]
  | special _ hop h8 h1c hd =>
    rcases dispatchSpecial_cases hd with ⟨h89, rfl⟩ | ⟨hab, c, hrd⟩ | ⟨hc, hsc⟩ | ⟨h10, hhl⟩
    · refine PcStep.of_handleJump (fun hc => ?_) (fun h => ?_) (fun _ _ => decodeOperands_rs _ _)
        (.inr (.inr ⟨hop, h89⟩))
      · rcases h89 with h | h <;> rw [hc.2.1] at h <;> exact absurd h (by decide)
      · rcases h with h | h <;> rw [hop] at h <;> exact absurd h (by decide)
    · have hfn : ∀ k : BitVec 32, (k = 0xa ∨ k = 0xb) → k ≠ 8 ∧ k ≠ 9 ∧ k ≠ 0xc := by
        rintro k (rfl | rfl) <;> decide
      obtain ⟨h8, h9, hc⟩ := hfn _ hab
      obtain ⟨-, rfl⟩ := handleRd_eq_ok.mp hrd
      exact PcStep.of_advancePc rfl rfl rfl (not_isJump_of_fn hop h8 h9) (fun he => hc he.2.1)
    · rcases handleSyscall_cases hsc with ⟨h2, rfl⟩ | ⟨h2, e₂, v0, v1, hr, rfl⟩
      · exact PcStep.of_exit ⟨hop, hc, h2⟩
      · obtain ⟨M, O, Hp, L, hs⟩ := syscallResult_state hr
        exact PcStep.of_advancePc rfl (by rw [hs]; rfl) (by rw [hs]; rfl)
          (not_isJump_of_fn hop (by rw [hc]; decide) (by rw [hc]; decide)) (fun he => h2 he.2.2)
    · have hfn : ∀ k : BitVec 32, (0x10 : BitVec 32) ≤ k → k ≠ 8 ∧ k ≠ 9 ∧ k ≠ 0xc := by
        intro k hk
        refine ⟨?_, ?_, ?_⟩ <;> rintro rfl <;> exact absurd hk (by decide)
      obtain ⟨h8, h9, hc⟩ := hfn _ h10
      obtain ⟨v, hi, lo, -, rfl⟩ := handleHilo_eq_ok hhl
      exact PcStep.of_advancePc rfl rfl rfl (not_isJump_of_fn hop h8 h9) (fun he => hc he.2.1)
  | writeBack _ hj _ hd hf _ hw =>
    obtain ⟨hs₂, hrt, -⟩ := memoryFetch_spec hf
    obtain ⟨-, hs, -⟩ := writeBack_spec hw (hrt ▸ decodeOperands_rtReg_lt _ _)
    have hsp : ¬(e.state.insn >>> 26 = 0 ∧ (e.state.insn &&& 0x3f = 8 ∨
        e.state.insn &&& 0x3f = 9 ∨ e.state.insn &&& 0x3f = 0xc)) := by
      rintro ⟨h0, hfn⟩
      have h' := hd h0 (by rcases hfn with h | h | h <;> rw [h] <;> decide)
        (by rcases hfn with h | h | h <;> rw [h] <;> decide)
      rcases hfn with h | h | h <;> rw [h] at h' <;> simp [dispatchSpecial] at h'
    refine PcStep.of_advancePc hs (by rw [hs₂]; rfl) (by rw [hs₂]; rfl) ?_
      (fun he => hsp ⟨he.1, .inr (.inr he.2.1)⟩)
    rintro (h | h | ⟨h0, h89⟩)
    · exact hj (.inl h)
    · exact hj (.inr h)
    · exact hsp ⟨h0, h89.elim .inl (.inr ∘ .inl)⟩

/-! ### Runs -/

/-- The address a jump continues at after its delay slot: the target `sext(w[25:0]) << 2` of
`j`/`jal`, or the register `rs` of `jr`/`jalr`. -/
def jumpTarget (s : State) : BitVec 32 :=
  if s.insn >>> 26 = 2 ∨ s.insn >>> 26 = 3 then signExtension (s.insn &&& 0x03ffffff) 26 <<< 2
  else s.registers (regIndex ((s.insn >>> 21) &&& 0x1f))

theorem PcStep.nextPc_of_isJump (h : PcStep e e') (hj : IsJump e.state) :
  e'.state.nextPc = jumpTarget e.state
  := by
  unfold jumpTarget
  rcases hj with h23 | h23 | ⟨h0, h89⟩
  · rw [if_pos (.inl h23)]
    exact h.jumpImm (.inl h23)
  · rw [if_pos (.inr h23)]
    exact h.jumpImm (.inr h23)
  · rw [if_neg (by rw [h0]; decide)]
    exact h.jumpReg h0 h89

theorem mipsStep_of_exited (hx : e.state.exited = true) :
  mipsStep env fuel e = .ok e
  := by
  rw [mipsStep, if_pos hx]

/-- A run from an exited machine stays where it is. -/
theorem Reachable.eq_of_exited (hx : e.state.exited = true) (hr : Reachable env e e') :
  e' = e
  := by
  induction hr with
  | refl => rfl
  | tail _ hs ih =>
    subst ih
    obtain ⟨fuel, hs⟩ := hs
    rw [mipsStep_of_exited hx] at hs
    exact (Except.ok.inj hs).symm

/-- A jump is no `exit_group`. -/
theorem IsJump.not_exitGroup {s : State} (hj : IsJump s) :
  ¬IsExitGroup s
  := by
  rintro ⟨h0, hc, -⟩
  rcases hj with h | h | ⟨-, h | h⟩
  all_goals first
    | (rw [h0] at h; exact absurd h (by decide))
    | (rw [hc] at h; exact absurd h (by decide))

/-- The delay slot of a jump runs on the next step and the jump target on the step after. -/
theorem mipsStep_delaySlot {fuel' : Nat} {e₁ e₂ : InstrumentedState}
    (h₁ : mipsStep env fuel e = .ok e₁) (hx : e.state.exited = false) (hj : IsJump e.state)
    (h₂ : mipsStep env fuel' e₁ = .ok e₂) (hx₁ : e₁.state.exited = false)
    (hne : ¬IsExitGroup e₁.state) :
  e₁.state.pc = e.state.nextPc ∧ e₂.state.pc = jumpTarget e.state
  := by
  have hp₁ := mipsStep_pcStep h₁ hx
  exact ⟨hp₁.pc hj.not_exitGroup,
    ((mipsStep_pcStep h₂ hx₁).pc hne).trans (hp₁.nextPc_of_isJump hj)⟩

/-- Every returning step of a running machine moves the counters as `PcStep` says. Over two
steps, the delay slot of a jump runs right after it and the jump target right after the delay
slot, unless the delay slot is `exit_group`. An exited machine stays as it is along every
run. -/
theorem mipsStep_control :
  (∀ env fuel (e e' : InstrumentedState), mipsStep env fuel e = .ok e' →
    e.state.exited = false → PcStep e e') ∧
  (∀ env fuel fuel' (e e₁ e₂ : InstrumentedState),
    mipsStep env fuel e = .ok e₁ → e.state.exited = false → IsJump e.state →
    mipsStep env fuel' e₁ = .ok e₂ → e₁.state.exited = false → ¬IsExitGroup e₁.state →
    e₁.state.pc = e.state.nextPc ∧ e₂.state.pc = jumpTarget e.state) ∧
  (∀ env (e e' : InstrumentedState), e.state.exited = true → Reachable env e e' → e' = e)
  := ⟨fun _ _ _ _ => mipsStep_pcStep, fun _ _ _ _ _ _ => mipsStep_delaySlot,
    fun _ _ _ => Reachable.eq_of_exited⟩

end MipsEmulator
