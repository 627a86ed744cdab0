import MipsEmulator.Word

/-!
# The machine state

`State` is the machine state of `state.rs` and `InstrumentedState` the engine that owns it,
with the writers and the hint side of the preimage oracle as the logs of what they were
given. A step computes in `Except Fault`: every `panic!` of the source, every slice copy or
slice index that fails, every division that traps and the fuel of the hint loop running out
is a `Fault`. `Env` holds what a step reads from outside the engine: the page geometry of
`crate::page`, the Merkle proofs of `crate::memory` and the preimages of the oracle.
-/

namespace MipsEmulator

/-- Outcomes of a step compare by `decide`. -/
instance instDecidableEqExcept {ε α : Type} [DecidableEq ε] [DecidableEq α] :
    DecidableEq (Except ε α)
  | .ok a, .ok b => decidable_of_iff (a = b) (by simp)
  | .error a, .error b => decidable_of_iff (a = b) (by simp)
  | .ok _, .error _ => isFalse fun h => Except.noConfusion h
  | .error _, .ok _ => isFalse fun h => Except.noConfusion h

/-- A preimage key, `[u8; 32]`. -/
structure Key where
  bytes : List (BitVec 8)
  length_bytes : bytes.length = 32
deriving DecidableEq

/-- The key of 32 zero bytes. -/
def Key.zero : Key := ⟨List.replicate 32 0, rfl⟩

/-- The address space, `Memory` of `crate::memory`: the word stored at each address. -/
abbrev Memory := BitVec 32 → BitVec 32

/-- Modelled from the spec: `Memory::get_memory`, the 32-bit read of the word at `addr`. -/
def getMemory (m : Memory) (addr : BitVec 32) : BitVec 32 := m addr

/-- Modelled from the spec: `Memory::set_memory`, the 32-bit write of `v` at `addr`. -/
def setMemory (m : Memory) (addr v : BitVec 32) : Memory := Function.update m addr v

/-- Modelled from the spec: the byte at address `a`, lane `a & 3` of the word at `a & !3`,
lanes counted from the most significant byte. -/
def memoryByte (m : Memory) (a : BitVec 32) : BitVec 8 :=
  (toBeBytes 4 (m (a &&& 0xfffffffc)).toNat).getD (a &&& 3).toNat 0

/-- Modelled from the spec: the bytes the reader opened by `read_memory_range(addr, count)`
yields, `count` bytes from `addr` on. -/
def readMemoryRange (m : Memory) (addr count : BitVec 32) : List (BitVec 8) :=
  (List.range count.toNat).map fun i => memoryByte m (addr + BitVec.ofNat 32 i)

/-- The general purpose registers, `[u32; 32]`. -/
abbrev Registers := Fin 32 → BitVec 32

/-- The register `registers[r as usize]` names. The source indexes only with five-bit fields
and constants below 32, where the reduction modulo 32 changes nothing. -/
def regIndex (r : BitVec 32) : Fin 32 := ⟨r.toNat % 32, Nat.mod_lt _ (by decide)⟩

/-- `registers[r as usize] = v`. -/
def writeReg (regs : Registers) (r v : BitVec 32) : Registers := Function.update regs (regIndex r) v

theorem regIndex_val {r : BitVec 32} (h : r.toNat < 32) :
  (regIndex r).val = r.toNat
  := Nat.mod_eq_of_lt h

@[simp]
theorem regIndex_eq_zero_iff {r : BitVec 32} (h : r.toNat < 32) :
  regIndex r = 0 ↔ r = 0
  := by
  rw [Fin.ext_iff, regIndex_val h, BitVec.toNat_eq]
  rfl

/-- The state of the MIPS machine, `State`. -/
structure State where
  memory : Memory
  preimageKey : Key
  preimageOffset : BitVec 32
  registers : Registers
  pc : BitVec 32
  nextPc : BitVec 32
  hi : BitVec 32
  lo : BitVec 32
  heap : BitVec 32
  step : BitVec 64
  exited : Bool
  exitCode : BitVec 8
  lastHint : List (BitVec 8)

/-- The engine, `InstrumentedState`. The writers `stdout_writer` and `stderr_writer` are the
bytes written to them so far, and `oracleHints` the records passed to
`PreimageOracle::hint`, oldest first. -/
structure InstrumentedState where
  state : State
  stdoutWriter : List (BitVec 8)
  stderrWriter : List (BitVec 8)
  lastMemAccess : BitVec 32
  memProofEnabled : Bool
  memProof : List (BitVec 8)
  oracleHints : List (List (BitVec 8))
  lastPreimage : List (BitVec 8)
  lastPreimageKey : Key
  lastPreimageOffset : BitVec 32

/-- What a step reads from outside the engine. `crate::page` is not among the sources: its
`PAGE_SIZE` is taken as `2 ^ pageAddrSize` and `PAGE_ADDR_MASK` as `PAGE_SIZE - 1`, the page
geometry `mmap`'s rounding to the page size assumes. `merkleProof` is
`Memory::merkle_proof` and `getPreimage` is `PreimageOracle::get_preimage`. -/
structure Env where
  pageAddrSize : Nat
  pageAddrSize_lt : pageAddrSize < 32
  merkleProof : Memory → BitVec 32 → List (BitVec 8)
  getPreimage : Key → List (BitVec 8)

/-- `PAGE_SIZE as u32`. -/
def Env.pageSize (env : Env) : BitVec 32 := 1 <<< env.pageAddrSize

/-- `PAGE_ADDR_MASK as u32`. -/
def Env.pageAddrMask (env : Env) : BitVec 32 := env.pageSize - 1

/-- Why a step aborts. -/
inductive Fault where
  /-- `track_memory_access`: "unexpected different memory access at {addr}, already have
  access at {last} buffered". -/
  | unexpectedMemoryAccess (addr last : BitVec 32)
  /-- `handle_branch`: "invalid insn when process branch on req imm, insn: {insn}". -/
  | invalidBranchInsn (insn : BitVec 32)
  /-- `handle_branch`: "invalid branch opcode {opcode}". -/
  | invalidBranchOpcode (opcode : BitVec 32)
  /-- `handle_hilo`: "invalid fun when process hi lo, fun: {fn}". -/
  | invalidHiLoFun (fn : BitVec 32)
  /-- `handle_rd`: "invalid register". -/
  | invalidRegister
  /-- `execute`: "invalid instruction, opcode: {opcode}". -/
  | invalidInstruction (opcode : BitVec 32)
  /-- `copy_from_slice`: "source slice length ({src}) does not match destination slice
  length ({dst})". -/
  | sliceLengthMismatch (dst src : Nat)
  /-- A slice `v[start..]`: "range start index {start} out of range for slice of length
  {len}". -/
  | sliceIndexOutOfRange (start len : Nat)
  /-- A slice `v[start..stop]`: "range end index {stop} out of range for slice of length
  {len}". -/
  | sliceEndOutOfRange (stop len : Nat)
  /-- "attempt to calculate the remainder with a divisor of zero". -/
  | remainderByZero
  /-- "attempt to calculate the remainder with overflow", for `i32::MIN % -1`. -/
  | remainderOverflow
  /-- The hint loop did not end within the fuel it was given. -/
  | outOfFuel
deriving DecidableEq, Repr

/-- `dst.copy_from_slice(src)` succeeds exactly when the two slices have the same length. -/
def copyFromSlice {α : Type} (dst src : List α) : Except Fault Unit :=
  if dst.length = src.length then .ok () else .error (.sliceLengthMismatch dst.length src.length)

/-! ### Running `Except Fault` -/

section
variable {α β : Type}

@[simp]
theorem ok_bind (a : α) (f : α → Except Fault β) :
  (Except.ok a >>= f : Except Fault β) = f a
  := rfl

@[simp]
theorem error_bind (e : Fault) (f : α → Except Fault β) :
  (Except.error e >>= f : Except Fault β) = Except.error e
  := rfl

@[simp]
theorem pure_eq_ok (a : α) :
  (pure a : Except Fault α) = Except.ok a
  := rfl

@[simp]
theorem throw_eq_error (e : Fault) :
  (throw e : Except Fault α) = Except.error e
  := rfl

theorem bind_eq_ok {x : Except Fault α} {f : α → Except Fault β} {b : β} :
  (x >>= f) = .ok b ↔ ∃ a, x = .ok a ∧ f a = .ok b
  := by
  cases x <;> simp

end

end MipsEmulator
