import MipsEmulator.Spec

/-!
# Unreachable panics

`handle_rd` panics with "invalid register" on a register index from 32 on, and
`handle_branch` with "invalid branch opcode" on an opcode that is no branch. Every caller
passes `handle_rd` a five-bit register field or 0, and only the branch opcodes reach
`handle_branch`, so neither panic is reachable: whatever the state, a step that aborts aborts
with another fault.

* `Raises P x`: every fault that `x` raises satisfies `P`.
* `Expected f`: `f` is neither of the two panics.
* `mipsStep_unreachable_panics`: no step raises either.
-/

namespace MipsEmulator

/-- Every fault that `x` raises satisfies `P`. -/
def Raises {α : Type} (P : Fault → Prop) (x : Except Fault α) : Prop :=
  ∀ f, x = .error f → P f

/-- A fault other than the "invalid register" panic of `handle_rd` and the "invalid branch
opcode" panic of `handle_branch`. -/
def Expected : Fault → Prop
  | .invalidRegister => False
  | .invalidBranchOpcode _ => False
  | _ => True

variable {env : Env} {fuel : Nat} {e : InstrumentedState}

/-! ### Faults of a computation -/

section Raises

variable {α β : Type} {P : Fault → Prop}

theorem Raises.ok (a : α) : Raises P (.ok a) := fun _ h => by cases h

theorem Raises.error {f : Fault} (hf : P f) : Raises P (.error f : Except Fault α) :=
  fun _ h => by cases h; exact hf

theorem Raises.bind {x : Except Fault α} {g : α → Except Fault β} (hx : Raises P x)
    (hg : ∀ a, x = .ok a → Raises P (g a)) :
  Raises P (x >>= g)
  := by
  cases x with
  | error f =>
    intro f' h
    cases h
    exact hx f rfl
  | ok a => exact hg a rfl

end Raises

/-! ### The handlers -/

theorem copyFromSlice_raises {γ : Type} (dst src : List γ) :
  Raises Expected (copyFromSlice dst src)
  := iteInduction (fun _ => .ok _) fun _ => .error trivial

theorem trackMemoryAccess_raises (a : BitVec 32) :
  Raises Expected (trackMemoryAccess env e a)
  := iteInduction (fun _ => .error trivial) fun _ => .ok _

theorem readPreimage_raises (k : Key) (o : BitVec 32) :
  Raises Expected (readPreimage env e k o)
  := by
  unfold readPreimage
  exact iteInduction (fun _ => .error trivial) fun _ =>
    (copyFromSlice_raises _ _).bind fun _ _ => .ok _

theorem hintLoop_raises (buf : List (BitVec 8)) (hints : List (List (BitVec 8))) :
  Raises Expected (hintLoop fuel buf hints)
  := by
  induction fuel generalizing buf hints with
  | zero =>
    unfold hintLoop
    exact iteInduction (fun _ => .error trivial) fun _ => .ok _
  | succ n ih =>
    rw [hintLoop]
    exact iteInduction (fun _ => iteInduction (fun _ => iteInduction (fun _ => .error trivial)
      fun _ => ih _ _) fun _ => ih _ _) fun _ => .ok _

theorem syscallResult_raises (num a0 a1 a2 : BitVec 32) :
  Raises Expected (syscallResult env fuel e num a0 a1 a2)
  := by
  have hpr : Raises Expected (preimageRead env e a1 a2) := by
    refine (trackMemoryAccess_raises _).bind fun _ _ => (readPreimage_raises _ _).bind ?_
    rintro ⟨_, _, _⟩ -
    exact (copyFromSlice_raises _ _).bind fun _ _ => .ok _
  have hpw : Raises Expected (preimageWrite env e a1 a2) :=
    (trackMemoryAccess_raises _).bind fun _ _ => (copyFromSlice_raises _ _).bind fun _ _ =>
      (copyFromSlice_raises _ _).bind fun _ _ => .ok _
  have hr : Raises Expected (sysRead env e a0 a1 a2) :=
    iteInduction (fun _ => .ok _) fun _ => iteInduction (fun _ => hpr) fun _ =>
      iteInduction (fun _ => .ok _) fun _ => .ok _
  have hw : Raises Expected (sysWrite env fuel e a0 a1 a2) :=
    iteInduction (fun _ => .ok _) fun _ => iteInduction (fun _ => .ok _) fun _ =>
      iteInduction (fun _ => (hintLoop_raises _ _).bind fun _ _ => .ok _) fun _ =>
        iteInduction (fun _ => hpw) fun _ => .ok _
  exact iteInduction (fun _ => .ok _) fun _ => iteInduction (fun _ => .ok _) fun _ =>
    iteInduction (fun _ => .ok _) fun _ => iteInduction (fun _ => hr) fun _ =>
      iteInduction (fun _ => hw) fun _ => iteInduction (fun _ => .ok _) fun _ => .ok _

theorem handleSyscall_raises :
  Raises Expected (handleSyscall env fuel e)
  := iteInduction (fun _ => .ok _) fun _ => (syscallResult_raises _ _ _ _).bind fun _ _ => .ok _

theorem handleRd_raises {r : BitVec 32} (hr : r.toNat < 32) (v : BitVec 32) (c : Bool) :
  Raises Expected (handleRd e r v c)
  := iteInduction (fun h => absurd (BitVec.le_def.mp h) (by simpa using hr)) fun _ => .ok _

theorem handleHilo_raises (fn rs rt r : BitVec 32) :
  Raises Expected (handleHilo e fn rs rt r)
  := by
  refine Raises.bind ?_ fun _ _ => .ok _
  unfold hiloUnit
  repeat' first
    | exact .ok _
    | exact .error trivial
    | refine iteInduction (fun _ => ?_) fun _ => ?_

/-- Every branch opcode has a branch decision. -/
theorem shouldBranch_isSome {opcode : BitVec 32}
    (hop : (4 ≤ opcode ∧ opcode < 8) ∨ opcode = 1) (regs : Registers) (insn rtReg rs : BitVec 32) :
  (shouldBranch regs opcode insn rtReg rs).isSome
  := by
  have h : opcode = 4 ∨ opcode = 5 ∨ opcode = 6 ∨ opcode = 7 ∨ opcode = 1 := by
    rcases hop with h | h <;> bv_omega
  unfold shouldBranch
  rcases h with rfl | rfl | rfl | rfl | rfl <;> simp
  split <;> rfl

theorem handleBranch_raises {opcode : BitVec 32} (hop : (4 ≤ opcode ∧ opcode < 8) ∨ opcode = 1)
    (insn rtReg rs : BitVec 32) :
  Raises Expected (handleBranch e opcode insn rtReg rs)
  := by
  unfold handleBranch
  refine iteInduction (fun _ => .error trivial) fun _ => ?_
  have hs := shouldBranch_isSome hop e.state.registers insn rtReg rs
  cases h : shouldBranch e.state.registers opcode insn rtReg rs with
  | none => rw [h] at hs; cases hs
  | some _ => exact .ok _

/-! ### The stages of a step -/

theorem execute_raises (insn rs rt mem : BitVec 32) :
  Raises Expected (execute insn rs rt mem)
  := by
  have ho : ∀ op o, Raises Expected (orInvalidInstruction op o) := by
    rintro _ (_ | _)
    exacts [.error trivial, .ok _]
  exact iteInduction (fun _ => ho _ _) fun _ => iteInduction (fun _ => ho _ _) fun _ => ho _ _

theorem memoryFetch_raises (opcode insn : BitVec 32) (ops : Operands) :
  Raises Expected (memoryFetch env e opcode insn ops)
  := iteInduction (fun _ => (trackMemoryAccess_raises _).bind fun _ _ =>
      iteInduction (fun _ => .ok _) fun _ => .ok _) fun _ => .ok _

theorem writeBack_raises {ops : Operands} (hrd : ops.rdReg.toNat < 32) (opcode val : BitVec 32) :
  Raises Expected (writeBack env e opcode val ops)
  := (iteInduction (fun _ => (trackMemoryAccess_raises _).bind fun _ _ => .ok _) fun _ => .ok _).bind
      fun _ _ => handleRd_raises hrd _ _

theorem dispatchSpecial_raises {ops : Operands} (hrd : ops.rdReg.toNat < 32) (fn : BitVec 32)
    {r : Except Fault InstrumentedState} (h : dispatchSpecial env fuel e fn ops = some r) :
  Raises Expected r
  := by
  rcases dispatchSpecial_some h with ⟨-, rfl⟩ | ⟨-, _, rfl⟩ | ⟨-, rfl⟩ | ⟨-, rfl⟩
  exacts [.ok _, handleRd_raises hrd _ _, handleSyscall_raises, handleHilo_raises _ _ _ _]

/-! ### Steps -/

/-- No step raises the "invalid register" panic of `handle_rd` or the "invalid branch opcode"
panic of `handle_branch`: `handle_rd` is only ever passed a five-bit register field or 0, and
`handle_branch` only the branch opcodes, each of which has a branch decision. -/
theorem mipsStep_unreachable_panics (env : Env) (fuel : Nat) (e : InstrumentedState) :
  mipsStep env fuel e ≠ .error .invalidRegister ∧
    ∀ op, mipsStep env fuel e ≠ .error (.invalidBranchOpcode op)
  := by
  have h : Raises Expected (mipsStep env fuel e) := by
    unfold mipsStep
    refine iteInduction (fun _ => .ok _) fun _ => iteInduction (fun _ => .ok _) fun _ => ?_
    refine iteInduction (fun hb => handleBranch_raises hb _ _ _) fun _ => ?_
    refine (memoryFetch_raises _ _ _).bind ?_
    rintro ⟨a, ops⟩ hf
    have hrd : ops.rdReg.toNat < 32 := by
      rcases (memoryFetch_spec hf).2.2.2.1 with h | h <;> rw [h]
      exacts [decodeOperands_rdReg_lt _ _, by decide]
    refine (execute_raises _ _ _ _).bind fun _ _ => ?_
    dsimp only
    split
    · rename_i hs
      split_ifs at hs
      exact dispatchSpecial_raises hrd _ hs
    · exact writeBack_raises hrd _ _
  exact ⟨fun he => h _ he, fun _ he => h _ he⟩

end MipsEmulator
