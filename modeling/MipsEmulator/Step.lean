import MipsEmulator.Syscall

/-!
# The step

`mips_step` fetches the word at `pc` and, unless it is `j`/`jal` or a branch, decodes its
operands, fetches the memory word of a load or store, computes `execute`, and then either
returns through the handler of a SPECIAL funct code (jumps through registers, conditional
moves, syscalls, the hi/lo unit) or writes the value back to memory and to `rd_reg`. The
stages are `decodeOperands`, `memoryFetch`, `dispatchSpecial` and `writeBack`.
-/

namespace MipsEmulator

/-- The locals of `mips_step` that the stages after the operand fetch read. -/
structure Operands where
  rs : BitVec 32
  rt : BitVec 32
  rtReg : BitVec 32
  rdReg : BitVec 32
  mem : BitVec 32 := 0
  storeAddr : BitVec 32 := 0xffffffff

/-- The operand fetch of `mips_step`. For opcodes 0 and 0x1c it reads
`registers[rt as usize]`, the register that the value of the local `rt` names, and `rt` is
still 0 there. -/
def decodeOperands (regs : Registers) (insn : BitVec 32) : Operands :=
  let opcode := insn >>> 26
  let rt : BitVec 32 := 0
  let rtReg := (insn >>> 16) &&& 0x1f
  let rs := regs (regIndex ((insn >>> 21) &&& 0x1f))
  if opcode = 0 ∨ opcode = 0x1c then
    { rs, rt := regs (regIndex rt), rtReg, rdReg := (insn >>> 11) &&& 0x1f }
  else if opcode < 0x20 then
    if opcode = 0xc ∨ opcode = 0xd ∨ opcode = 0xe then
      { rs, rt := insn &&& 0xffff, rtReg, rdReg := rtReg }
    else { rs, rt := signExtension (insn &&& 0xffff) 16, rtReg, rdReg := rtReg }
  else if 0x28 ≤ opcode ∨ opcode = 0x22 ∨ opcode = 0x26 then
    { rs, rt := regs (regIndex rtReg), rtReg, rdReg := rtReg }
  else { rs, rt, rtReg, rdReg := rtReg }

/-- The memory fetch of `mips_step`, for opcodes from 0x20 on: `rs` becomes the address
`rs + sext(imm16)`, the aligned word there is tracked and read into `mem`, and a store
keeps the word as `store_addr` and writes back to register 0. -/
def memoryFetch (env : Env) (e : InstrumentedState) (opcode insn : BitVec 32) (ops : Operands) :
    Except Fault (InstrumentedState × Operands) :=
  if 0x20 ≤ opcode then do
    let rs := ops.rs + signExtension (insn &&& 0xffff) 16
    let addr := rs &&& 0xfffffffc
    let e ← trackMemoryAccess env e addr
    let mem := getMemory e.state.memory addr
    if 0x28 ≤ opcode ∧ opcode ≠ 0x30 then pure (e, { ops with rs, mem, storeAddr := addr, rdReg := 0 })
    else pure (e, { ops with rs, mem })
  else pure (e, ops)

/-- The early returns of `mips_step` for the SPECIAL funct codes 8 to 0x1b: `jr`/`jalr`,
`movz`/`movn`, `syscall` and the hi/lo unit; `none` for the codes that fall through. -/
def dispatchSpecial (env : Env) (fuel : Nat) (e : InstrumentedState) (fn : BitVec 32)
    (ops : Operands) : Option (Except Fault InstrumentedState) :=
  if fn = 8 ∨ fn = 9 then some (.ok (handleJump e (if fn = 9 then ops.rdReg else 0) ops.rs))
  else if fn = 0xa then some (handleRd e ops.rdReg ops.rs (ops.rt = 0))
  else if fn = 0xb then some (handleRd e ops.rdReg ops.rs (ops.rt ≠ 0))
  else if fn = 0xc then some (handleSyscall env fuel e)
  else if 0x10 ≤ fn ∧ fn < 0x1c then some (handleHilo e fn ops.rs ops.rt ops.rdReg)
  else none

/-- The store of `mips_step`: `track_memory_access(store_addr)`, then `val` is written at
`store_addr`. -/
def storeWord (env : Env) (e : InstrumentedState) (storeAddr val : BitVec 32) :
    Except Fault InstrumentedState :=
  trackMemoryAccess env e storeAddr >>= fun e =>
    .ok { e with state := { e.state with memory := setMemory e.state.memory storeAddr val } }

/-- The end of `mips_step`: `sc` writes 1 to `rt_reg`, a store writes `val` to the word it
fetched, and `handle_rd` writes `val` back to `rd_reg`. -/
def writeBack (env : Env) (e : InstrumentedState) (opcode val : BitVec 32) (ops : Operands) :
    Except Fault InstrumentedState :=
  let e :=
    if opcode = 0x38 ∧ ops.rtReg ≠ 0 then
      { e with state := { e.state with registers := writeReg e.state.registers ops.rtReg 1 } }
    else e
  let stored := if ops.storeAddr ≠ 0xffffffff then storeWord env e ops.storeAddr val else .ok e
  stored >>= fun e => handleRd e ops.rdReg val true

/-- The instruction word at `pc`. -/
def State.insn (s : State) : BitVec 32 := getMemory s.memory s.pc

/-- The engine after `self.state.step += 1`. -/
def InstrumentedState.tick (e : InstrumentedState) : InstrumentedState :=
  { e with state := { e.state with step := e.state.step + 1 } }

@[simp]
theorem InstrumentedState.tick_state_insn (e : InstrumentedState) :
  e.tick.state.insn = e.state.insn
  := rfl

@[simp]
theorem InstrumentedState.tick_state_registers (e : InstrumentedState) :
  e.tick.state.registers = e.state.registers
  := rfl

/-- `mips_step()`, with `fuel` passes for the loop of a hint write. -/
def mipsStep (env : Env) (fuel : Nat) (e : InstrumentedState) : Except Fault InstrumentedState :=
  if e.state.exited then .ok e
  else
    let e := e.tick
    let insn := e.state.insn
    let opcode := insn >>> 26
    if opcode = 2 ∨ opcode = 3 then
      .ok (handleJump e (if opcode = 3 then 31 else 0) (signExtension (insn &&& 0x03ffffff) 26 <<< 2))
    else
      let ops := decodeOperands e.state.registers insn
      if (4 ≤ opcode ∧ opcode < 8) ∨ opcode = 1 then handleBranch e opcode insn ops.rtReg ops.rs
      else do
        let (e, ops) ← memoryFetch env e opcode insn ops
        let val ← execute insn ops.rs ops.rt ops.mem
        let fn := insn &&& 0x3f
        let special := if opcode = 0 ∧ 8 ≤ fn ∧ fn < 0x1c then dispatchSpecial env fuel e fn ops else none
        match special with
        | some r => r
        | none => writeBack env e opcode val ops

/-! ### A machine with one instruction -/

/-- An environment with 4 KiB pages, empty Merkle proofs and an oracle whose preimages are
all empty. -/
def Env.small : Env := ⟨12, by decide, fun _ _ => [], fun _ => []⟩

/-- A running engine with the words of `prog` from `pc = 0x1000` on and 0 everywhere else,
the register file `regs`, `next_pc = 0x1004`, the heap at `heap`, memory proofs on and the
last access at `last`. The preimage key is the zero key, and the cache holds its preimage
under `Env.small`. -/
def InstrumentedState.load (prog : List (BitVec 32)) (regs : Registers) (heap last : BitVec 32) :
    InstrumentedState where
  state :=
    { memory := fun a => if 0x1000 ≤ a then prog.getD ((a - 0x1000).toNat / 4) 0 else 0
      preimageKey := Key.zero
      preimageOffset := 0
      registers := regs
      pc := 0x1000
      nextPc := 0x1004
      hi := 0
      lo := 0
      heap := heap
      step := 0
      exited := false
      exitCode := 0
      lastHint := [] }
  stdoutWriter := []
  stderrWriter := []
  lastMemAccess := last
  memProofEnabled := true
  memProof := []
  oracleHints := []
  lastPreimage := lengthPrefixed []
  lastPreimageKey := Key.zero
  lastPreimageOffset := 0

end MipsEmulator
