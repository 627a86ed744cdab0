import MipsEmulator.Execute

/-!
# The handlers

The methods of `InstrumentedState` that a step calls: `track_memory_access`,
`read_preimage`, and the handlers of branches, jumps, the hi/lo unit and register writeback.
Each handler but `handle_branch`'s decode error ends by moving `pc` to `next_pc`.
-/

namespace MipsEmulator

/-- `pc = next_pc; next_pc = next_pc + 4`. -/
def State.advancePc (s : State) : State := { s with pc := s.nextPc, nextPc := s.nextPc + 4 }

/-- `track_memory_access(addr)`: with proofs enabled, any address other than the one last
tracked aborts; otherwise `addr` is remembered with its Merkle proof. -/
def trackMemoryAccess (env : Env) (e : InstrumentedState) (addr : BitVec 32) :
    Except Fault InstrumentedState :=
  if e.memProofEnabled ∧ e.lastMemAccess ≠ addr then
    .error (.unexpectedMemoryAccess addr e.lastMemAccess)
  else .ok { e with lastMemAccess := addr, memProof := env.merkleProof e.state.memory addr }

/-- The cached form of a preimage: its length as the big-endian bytes of a `usize` of a
64-bit host, then the preimage. -/
def lengthPrefixed (data : List (BitVec 8)) : List (BitVec 8) := toBeBytes 8 data.length ++ data

/-- The cache refill of `read_preimage`: a key other than the cached one fetches its
preimage from the oracle and caches it with its length prefix. -/
def refillPreimage (env : Env) (e : InstrumentedState) (key : Key) : InstrumentedState :=
  if key ≠ e.lastPreimageKey then
    { e with lastPreimageKey := key, lastPreimage := lengthPrefixed (env.getPreimage key) }
  else e

/-- `read_preimage(key, offset)`: the 32-byte buffer whose first `copy_size` bytes are the
cached preimage from `offset` on, and `copy_size`. The copy into `data[..copy_size]` fails
when more than 32 bytes remain. -/
def readPreimage (env : Env) (e : InstrumentedState) (key : Key) (offset : BitVec 32) :
    Except Fault (InstrumentedState × List (BitVec 8) × BitVec 32) :=
  let e := { refillPreimage env e key with lastPreimageOffset := offset }
  if e.lastPreimage.length < offset.toNat then
    .error (.sliceIndexOutOfRange offset.toNat e.lastPreimage.length)
  else
    let bytesToCopy := e.lastPreimage.drop offset.toNat
    let copySize := min bytesToCopy.length 32
    copyFromSlice ((List.replicate 32 (0 : BitVec 8)).take copySize) bytesToCopy >>= fun () =>
      .ok (e, bytesToCopy ++ List.replicate (32 - copySize) 0, BitVec.ofNat 32 copySize)

/-- The branch decision of `handle_branch`, `none` for an opcode that is not a branch. -/
def shouldBranch (regs : Registers) (opcode insn rtReg rs : BitVec 32) : Option Bool :=
  if opcode = 4 ∨ opcode = 5 then -- beq/bne
    let rt := regs (regIndex rtReg)
    some ((rs = rt ∧ opcode = 4) ∨ (rs ≠ rt ∧ opcode = 5))
  else if opcode = 6 then some (rs.toInt ≤ 0) -- blez
  else if opcode = 7 then some (rs.toInt > 0) -- bgtz
  else if opcode = 1 then -- regimm
    let rtv := (insn >>> 16) &&& 0x1f
    if rtv = 0 then some (rs.toInt < 0) -- bltz
    else some (rs.toInt ≥ 0) -- bgez
  else none

/-- `handle_branch(opcode, insn, rt_reg, rs)`: the delay slot at `next_pc` runs next, and
`next_pc` becomes the branch target or the word after the delay slot. -/
def handleBranch (e : InstrumentedState) (opcode insn rtReg rs : BitVec 32) :
    Except Fault InstrumentedState :=
  if insn ≠ 0 ∧ insn ≠ 1 then .error (.invalidBranchInsn insn)
  else match shouldBranch e.state.registers opcode insn rtReg rs with
    | none => .error (.invalidBranchOpcode opcode)
    | some taken =>
      let prevPc := e.state.pc
      let nextPc :=
        if taken then prevPc + 4 + signExtension (insn &&& 0xffff) 16 <<< 2
        else e.state.nextPc + 4
      .ok { e with state := { e.state with pc := e.state.nextPc, nextPc := nextPc } }

/-- `handle_jump(link_reg, dest)`: the delay slot runs next, then `dest`; a link register
other than 0 receives the address after the delay slot. -/
def handleJump (e : InstrumentedState) (linkReg dest : BitVec 32) : InstrumentedState :=
  let prevPc := e.state.pc
  let regs :=
    if linkReg ≠ 0 then writeReg e.state.registers linkReg (prevPc + 8) else e.state.registers
  { e with state := { e.state with pc := e.state.nextPc, nextPc := dest, registers := regs } }

/-- The `match fun` of `handle_hilo`: the value for `store_reg`, and the new `hi` and `lo`.
`rs as i64` zero-extends the `u32`, so `mult` multiplies as `multu` does. -/
def hiloUnit (fn rs rt hi lo : BitVec 32) : Except Fault (BitVec 32 × BitVec 32 × BitVec 32) :=
  if fn = 0x10 then .ok (hi, hi, lo) -- mfhi
  else if fn = 0x11 then .ok (0, rs, lo) -- mthi
  else if fn = 0x12 then .ok (lo, hi, lo) -- mflo
  else if fn = 0x13 then .ok (0, hi, rs) -- mtlo
  else if fn = 0x18 ∨ fn = 0x19 then -- mult, mulu
    let acc : BitVec 64 := rs.setWidth 64 * rt.setWidth 64
    .ok (0, (acc >>> 32).setWidth 32, acc.setWidth 32)
  else if fn = 0x1a then -- div
    if rt = 0 then .error .remainderByZero
    else if rs = 0x80000000 ∧ rt = 0xffffffff then .error .remainderOverflow
    else .ok (0, BitVec.ofInt 32 (rs.toInt.tmod rt.toInt), BitVec.ofInt 32 (rs.toInt.tdiv rt.toInt))
  else if fn = 0x1b then -- divu
    if rt = 0 then .error .remainderByZero else .ok (0, rs % rt, rs / rt)
  else .error (.invalidHiLoFun fn)

/-- `handle_hilo(fun, rs, rt, store_reg)`. -/
def handleHilo (e : InstrumentedState) (fn rs rt storeReg : BitVec 32) :
    Except Fault InstrumentedState := do
  let (val, hi, lo) ← hiloUnit fn rs rt e.state.hi e.state.lo
  let regs := if storeReg ≠ 0 then writeReg e.state.registers storeReg val else e.state.registers
  pure { e with state := State.advancePc { e.state with hi, lo, registers := regs } }

/-- `handle_rd(store_reg, val, conditional)`. -/
def handleRd (e : InstrumentedState) (storeReg val : BitVec 32) (conditional : Bool) :
    Except Fault InstrumentedState :=
  if 32 ≤ storeReg then .error .invalidRegister
  else
    let regs :=
      if storeReg ≠ 0 ∧ conditional then writeReg e.state.registers storeReg val
      else e.state.registers
    .ok { e with state := State.advancePc { e.state with registers := regs } }

end MipsEmulator
