import MipsEmulator.Handlers

/-!
# The syscall dispatcher

`handle_syscall` reads the call number from `v0` and its arguments from `a0` to `a2`, and
returns `v0` and the error code `v1` through registers 2 and 7 before moving on to
`next_pc`; `exit_group` alone halts instead. The `read` and `write` arms dispatch on the file
descriptor `a0`. The hint write runs a `while` loop whose body may leave its state as it
was, so `hintLoop` is given fuel, one unit a pass.
-/

namespace MipsEmulator

/-- `FD_STDIN`. -/
abbrev fdStdin : BitVec 32 := 0
/-- `FD_STDOUT`. -/
abbrev fdStdout : BitVec 32 := 1
/-- `FD_STDERR`. -/
abbrev fdStderr : BitVec 32 := 2
/-- `FD_HINT_READ`. -/
abbrev fdHintRead : BitVec 32 := 3
/-- `FD_HINT_WRITE`. -/
abbrev fdHintWrite : BitVec 32 := 4
/-- `FD_PREIMAGE_READ`. -/
abbrev fdPreimageRead : BitVec 32 := 5
/-- `FD_PREIMAGE_WRITE`. -/
abbrev fdPreimageWrite : BitVec 32 := 6
/-- `MIPS_EBADF`. -/
abbrev mipsEbadf : BitVec 32 := 9

/-- The size `mmap` maps for the request `a1`: a size that is not a multiple of the page
size is rounded up. -/
def mmapSize (env : Env) (a1 : BitVec 32) : BitVec 32 :=
  if a1 &&& env.pageAddrMask ≠ 0 then a1 + (env.pageSize - (a1 &&& env.pageAddrMask)) else a1

/-- The `mmap` arm: the returned address and the new heap. `a0 == 0` allocates from the heap,
any other `a0` is returned as it is. -/
def mmap (env : Env) (heap a0 a1 : BitVec 32) : BitVec 32 × BitVec 32 :=
  let size := mmapSize env a1
  if a0 = 0 then (heap, heap + size) else (a0, heap)

/-- The `fcntl` arm: `(v0, v1)` for the descriptor `a0` and the command `a1`. -/
def fcntl (a0 a1 : BitVec 32) : BitVec 32 × BitVec 32 :=
  if a1 = 3 then -- F_GETFL
    if a0 = fdStdin ∨ a0 = fdPreimageRead ∨ a0 = fdHintRead then (0, 0) -- O_RDONLY
    else if a0 = fdStdout ∨ a0 = fdStderr ∨ a0 = fdPreimageWrite ∨ a0 = fdHintWrite then
      (1, 0) -- O_WRONLY
    else (0xffffffff, mipsEbadf)
  else (0xffffffff, mipsEbadf)

/-- The `FD_PREIMAGE_READ` arm of `read`: up to `4 - (a1 & 3)` bytes of the preimage from
`preimage_offset` on are copied into the word at `a1 & !3` from lane `a1 & 3`. The copy
into `out_mem[alignment..]` fails unless it fills the word to its end. -/
def preimageRead (env : Env) (e : InstrumentedState) (a1 a2 : BitVec 32) :
    Except Fault (InstrumentedState × BitVec 32 × BitVec 32) := do
  let addr := a1 &&& 0xfffffffc
  let e ← trackMemoryAccess env e addr
  let mem := getMemory e.state.memory addr
  let (e, data, dataLen) ← readPreimage env e e.state.preimageKey e.state.preimageOffset
  let alignment := a1 &&& 3
  let space := 4 - alignment
  let dataLen := minU32 (minU32 dataLen space) a2
  let outMem := toBeBytes 4 mem.toNat
  copyFromSlice (outMem.drop alignment.toNat) (data.take dataLen.toNat)
  let outMem := outMem.take alignment.toNat ++ data.take dataLen.toNat
  pure ({ e with
    state := { e.state with
      memory := setMemory e.state.memory addr (fromBeBytes outMem)
      preimageOffset := e.state.preimageOffset + dataLen } }, dataLen, 0)

/-- The `read` syscall: `(engine, v0, v1)`. -/
def sysRead (env : Env) (e : InstrumentedState) (a0 a1 a2 : BitVec 32) :
    Except Fault (InstrumentedState × BitVec 32 × BitVec 32) :=
  if a0 = fdStdin then .ok (e, 0, 0)
  else if a0 = fdPreimageRead then preimageRead env e a1 a2
  else if a0 = fdHintRead then .ok (e, a2, 0)
  else .ok (e, 0xffffffff, mipsEbadf)

/-- The loop of the `FD_HINT_WRITE` arm, on `last_hint` and the hints passed to the oracle,
with `fuel` passes. While more than four bytes are buffered it reads the big-endian length
`hint_len` of the first record and, when `hint_len` is at least the number of bytes after the
length, takes the slice `last_hint[4..4 + hint_len]` as a hint and drops it with its length;
when `hint_len` is smaller the pass changes nothing. -/
def hintLoop (fuel : Nat) (lastHint : List (BitVec 8)) (hints : List (List (BitVec 8))) :
    Except Fault (List (BitVec 8) × List (List (BitVec 8))) :=
  if 4 < lastHint.length then
    match fuel with
    | 0 => .error .outOfFuel
    | fuel + 1 =>
      let hintLen := (fromBeBytes (lastHint.take 4)).toNat
      if (lastHint.drop 4).length ≤ hintLen then
        if lastHint.length < 4 + hintLen then
          .error (.sliceEndOutOfRange (4 + hintLen) lastHint.length)
        else
          hintLoop fuel (lastHint.drop (4 + hintLen)) (hints ++ [(lastHint.drop 4).take hintLen])
      else hintLoop fuel lastHint hints
  else .ok (lastHint, hints)

/-- The `FD_HINT_WRITE` arm of `write`: the `a2` bytes at `a1` are appended to `last_hint`
and the loop runs; `v0` is left at 0. -/
def hintWrite (fuel : Nat) (e : InstrumentedState) (a1 a2 : BitVec 32) :
    Except Fault (InstrumentedState × BitVec 32 × BitVec 32) := do
  let hintData := readMemoryRange e.state.memory a1 a2
  let (lastHint, hints) ← hintLoop fuel (e.state.lastHint ++ hintData) e.oracleHints
  pure ({ e with state := { e.state with lastHint }, oracleHints := hints }, 0, 0)

/-- `[u8; 32]` from the bytes the slice copies of `preimageWrite` leave in `key`. -/
def Key.ofList (b : List (BitVec 8)) : Key := ⟨(b ++ List.replicate 32 0).take 32, by simp⟩

/-- The `FD_PREIMAGE_WRITE` arm of `write`. `a2` is cut to `4 - (a1 & 3)`; the key is meant to
be shifted left by `a2` bytes with the word at `a1 & !3` appended. The copy of
`preimage_key[a2..]` into all of `key` fails unless `a2` is 0, and the copy of the word's
four bytes into `key[32 - a2..]` fails unless `a2` is 4. -/
def preimageWrite (env : Env) (e : InstrumentedState) (a1 a2 : BitVec 32) :
    Except Fault (InstrumentedState × BitVec 32 × BitVec 32) := do
  let addr := a1 &&& 0xfffffffc
  let e ← trackMemoryAccess env e addr
  let outMem := getMemory e.state.memory addr
  let alignment := a1 &&& 3
  let space := 4 - alignment
  let a2 := minU32 a2 space
  let key := e.state.preimageKey.bytes.drop a2.toNat
  copyFromSlice (List.replicate 32 (0 : BitVec 8)) key
  copyFromSlice (key.drop (32 - a2.toNat)) (toBeBytes 4 outMem.toNat)
  let key := Key.ofList (key.take (32 - a2.toNat) ++ toBeBytes 4 outMem.toNat)
  pure ({ e with state := { e.state with preimageKey := key, preimageOffset := 0 } }, a2, 0)

/-- The `write` syscall: `(engine, v0, v1)`. The bytes for a writer are streamed from memory
into the writer's log. -/
def sysWrite (env : Env) (fuel : Nat) (e : InstrumentedState) (a0 a1 a2 : BitVec 32) :
    Except Fault (InstrumentedState × BitVec 32 × BitVec 32) :=
  if a0 = fdStdout then
    .ok ({ e with stdoutWriter := e.stdoutWriter ++ readMemoryRange e.state.memory a1 a2 }, a2, 0)
  else if a0 = fdStderr then
    .ok ({ e with stderrWriter := e.stderrWriter ++ readMemoryRange e.state.memory a1 a2 }, a2, 0)
  else if a0 = fdHintWrite then hintWrite fuel e a1 a2
  else if a0 = fdPreimageWrite then preimageWrite env e a1 a2
  else .ok (e, 0xffffffff, mipsEbadf)

/-- The calls other than `exit_group`: `(engine, v0, v1)` for the call number. Unknown
numbers return `v0 = v1 = 0`. -/
def syscallResult (env : Env) (fuel : Nat) (e : InstrumentedState) (syscallNum a0 a1 a2 : BitVec 32) :
    Except Fault (InstrumentedState × BitVec 32 × BitVec 32) :=
  if syscallNum = 4090 then -- mmap
    let (v0, heap) := mmap env e.state.heap a0 a1
    .ok ({ e with state := { e.state with heap } }, v0, 0)
  else if syscallNum = 4045 then .ok (e, 0x40000000, 0) -- brk
  else if syscallNum = 4120 then .ok (e, 1, 0) -- clone
  else if syscallNum = 4003 then sysRead env e a0 a1 a2 -- read
  else if syscallNum = 4004 then sysWrite env fuel e a0 a1 a2 -- write
  else if syscallNum = 4055 then -- fcntl
    let (v0, v1) := fcntl a0 a1
    .ok (e, v0, v1)
  else .ok (e, 0, 0)

/-- `handle_syscall()`. -/
def handleSyscall (env : Env) (fuel : Nat) (e : InstrumentedState) : Except Fault InstrumentedState :=
  let syscallNum := e.state.registers 2
  let a0 := e.state.registers 4
  let a1 := e.state.registers 5
  let a2 := e.state.registers 6
  if syscallNum = 4246 then -- exit group
    .ok { e with state := { e.state with exited := true, exitCode := a0.setWidth 8 } }
  else do
    let (e, v0, v1) ← syscallResult env fuel e syscallNum a0 a1 a2
    pure { e with
      state := State.advancePc { e.state with
        registers := writeReg (writeReg e.state.registers 2 v0) 7 v1 } }

end MipsEmulator
