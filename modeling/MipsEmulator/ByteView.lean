import MipsEmulator.Lanes
import MipsEmulator.MemoryProof

/-!
# The byte view of memory

`memoryByte` reads memory a byte at a time, big-endian within each word, as the `write`
syscall reads what it copies out. Against it, `storedBytes` says which bytes a MIPS32 store
writes, each as a run of bytes from a base address (`runByte`), and `loadedWord` which word a
load assembles. The memory path of `mips_step` reads and writes whole words only, through the
shifts and masks of `execute`; `storeVia_bytes` and `loadVia_bytes` show that it writes and
reads exactly those bytes, and `mipsStep_byte_memory` carries this to every returning step on a
load or store.

Halfword and word accesses use the halfword or word the address falls in: the code has no
alignment check where MIPS32 raises an address error.
-/

namespace MipsEmulator

/-! ### Bytes of memory -/

/-- Byte `k` of the big-endian bytes of a word is its lane `k`. -/
theorem getD_toBeBytes_four (w : BitVec 32) {k : Nat} (hk : k < 4) :
  (toBeBytes 4 w.toNat).getD k 0 = byteAt w k
  := by
  rw [toBeBytes_four]
  rcases (by omega : k = 0 ∨ k = 1 ∨ k = 2 ∨ k = 3) with rfl | rfl | rfl | rfl <;>
    simp [byteAt, BitVec.extractLsb', Nat.shiftRight_eq_div_pow]

/-- Byte `a` of memory is lane `a & 3` of the word at `a & !3`. -/
theorem memoryByte_eq_byteAt (m : Memory) (a : BitVec 32) :
  memoryByte m a = byteAt (m (a &&& 0xfffffffc)) (a &&& 3).toNat
  := getD_toBeBytes_four _ (toNat_and_three_lt a)

/-- Writing the word `W` changes the bytes of `W` only. -/
theorem memoryByte_setMemory (m : Memory) (W w b : BitVec 32) :
  memoryByte (setMemory m W w) b =
    if b &&& 0xfffffffc = W then byteAt w (b &&& 3).toNat else memoryByte m b
  := by
  rw [memoryByte_eq_byteAt, memoryByte_eq_byteAt, setMemory, Function.update_apply]
  exact apply_ite (byteAt · (b &&& 3).toNat) _ _ _

theorem ofBytes_byteAt (w : BitVec 32) : ofBytes (byteAt w) = w :=
  (eq_ofBytes_iff.mpr fun _ _ => rfl).symm

theorem ofBytes_congr {f g : Nat → BitVec 8} (h : ∀ i < 4, f i = g i) : ofBytes f = ofBytes g := by
  rw [ofBytes, ofBytes, h 0 (by decide), h 1 (by decide), h 2 (by decide), h 3 (by decide)]

theorem toNat_sub_lt_iff_same_word {b c : BitVec 32} {n : Nat} (hn : (c &&& 3).toNat + n ≤ 4) :
  (b - c).toNat < n ↔ b &&& 0xfffffffc = c &&& 0xfffffffc ∧ (c &&& 3).toNat ≤ (b &&& 3).toNat ∧
    (b &&& 3).toNat < (c &&& 3).toNat + n
  := by
  have hb := b.isLt
  have hc := c.isLt
  rw [BitVec.toNat_eq, toNat_align, toNat_align, BitVec.toNat_sub] at *
  rw [toNat_and_three, toNat_and_three] at *
  generalize b.toNat = x at *
  generalize c.toNat = y at *
  omega

theorem toNat_sub_of_same_word {b c : BitVec 32} (hw : b &&& 0xfffffffc = c &&& 0xfffffffc)
    (hl : (c &&& 3).toNat ≤ (b &&& 3).toNat) :
  (b - c).toNat = (b &&& 3).toNat - (c &&& 3).toNat
  := by
  have hb := b.isLt
  have hc := c.isLt
  rw [BitVec.toNat_eq, toNat_align, toNat_align] at hw
  rw [toNat_and_three, toNat_and_three] at *
  rw [BitVec.toNat_sub]
  generalize b.toNat = x at *
  generalize c.toNat = y at *
  omega

/-- The run of `n` bytes from address `c`, with byte `f i` at `c + i`: the byte it puts at `b`,
if any. -/
def runByte (c : BitVec 32) (n : Nat) (f : Nat → BitVec 8) (b : BitVec 32) : Option (BitVec 8) :=
  if (b - c).toNat < n then some (f (b - c).toNat) else none

/-- A run that stays in the word of `c`, by lanes. -/
theorem runByte_eq_lanes {c : BitVec 32} {n : Nat} (hn : (c &&& 3).toNat + n ≤ 4)
    (f : Nat → BitVec 8) (b : BitVec 32) :
  runByte c n f b =
    if b &&& 0xfffffffc = c &&& 0xfffffffc ∧ (c &&& 3).toNat ≤ (b &&& 3).toNat ∧
      (b &&& 3).toNat < (c &&& 3).toNat + n
    then some (f ((b &&& 3).toNat - (c &&& 3).toNat)) else none
  := by
  rw [runByte]
  by_cases h : (b - c).toNat < n
  · have h' := (toNat_sub_lt_iff_same_word hn).mp h
    rw [if_pos h, if_pos h', toNat_sub_of_same_word h'.1 h'.2.1]
  · rw [if_neg h, if_neg (mt (toNat_sub_lt_iff_same_word hn).mpr h)]

/-- Writing back the word `W` of `c` with the lanes of a run of `n` bytes from `c` replaced, and
the other lanes kept, puts that run into the byte view and leaves every other byte. -/
theorem memoryByte_setMemory_run {mem : Memory} {c W : BitVec 32} {n : Nat} {f F : Nat → BitVec 8}
    (hW : c &&& 0xfffffffc = W) (hn : (c &&& 3).toNat + n ≤ 4)
    (hF : ∀ j < 4, F j = if (c &&& 3).toNat ≤ j ∧ j < (c &&& 3).toNat + n
      then f (j - (c &&& 3).toNat) else byteAt (mem W) j)
    (b : BitVec 32) :
  memoryByte (setMemory mem W (ofBytes F)) b = (runByte c n f b).getD (memoryByte mem b)
  := by
  subst hW
  rw [memoryByte_setMemory, runByte_eq_lanes hn]
  by_cases hw : b &&& 0xfffffffc = c &&& 0xfffffffc
  · have hj := toNat_and_three_lt b
    rw [if_pos hw, byteAt_ofBytes _ hj, hF _ hj, memoryByte_eq_byteAt, hw]
    simp only [true_and]
    split <;> rfl
  · rw [if_neg hw, if_neg (fun h => hw h.1)]
    rfl

/-- The halfword address `a & !1` lies in the word of `a`, at lane `a & 2`. -/
theorem half_lanes (a : BitVec 32) :
  (a &&& 0xfffffffe) &&& 0xfffffffc = a &&& 0xfffffffc ∧
    ((a &&& 0xfffffffe) &&& 3).toNat = (a &&& 2).toNat
  := by
  rw [BitVec.and_assoc, BitVec.and_assoc]
  exact ⟨rfl, rfl⟩

/-- The word address `a & !3` lies in the word of `a`, at lane 0. -/
theorem word_lanes (a : BitVec 32) :
  (a &&& 0xfffffffc) &&& 0xfffffffc = a &&& 0xfffffffc ∧ ((a &&& 0xfffffffc) &&& 3).toNat = 0
  := by
  rw [BitVec.and_assoc, BitVec.and_assoc]
  exact ⟨rfl, by simp⟩

/-- `c + i` for a lane `i` past `c` in the same word. -/
theorem add_lanes {c : BitVec 32} {i : Nat} (hi : (c &&& 3).toNat + i < 4) :
  (c + BitVec.ofNat 32 i) &&& 0xfffffffc = c &&& 0xfffffffc ∧
    ((c + BitVec.ofNat 32 i) &&& 3).toNat = (c &&& 3).toNat + i
  := by
  have hs : (c + BitVec.ofNat 32 i - c).toNat = i := by
    rw [BitVec.add_comm, BitVec.add_sub_cancel, BitVec.toNat_ofNat]
    omega
  obtain ⟨hw, hl, -⟩ := (@toNat_sub_lt_iff_same_word (c + BitVec.ofNat 32 i) c (i + 1) (by omega)).mp (by omega)
  refine ⟨hw, ?_⟩
  have := toNat_sub_of_same_word hw hl
  omega

/-- The byte `i` lanes past `c` in its word. -/
theorem memoryByte_add (mem : Memory) {c : BitVec 32} {i : Nat} (hi : (c &&& 3).toNat + i < 4) :
  memoryByte mem (c + BitVec.ofNat 32 i) = byteAt (mem (c &&& 0xfffffffc)) ((c &&& 3).toNat + i)
  := by
  rw [memoryByte_eq_byteAt, (add_lanes hi).1, (add_lanes hi).2]

/-! ### Stores and loads -/

/-- The bytes a MIPS32 store writes, big-endian, as a byte-addressed memory sees them, for the
store with opcode `op` at address `a` of the register value `v`: `sb` the low byte of `v` at `a`;
`sh` the low halfword at the halfword `a` falls in, and `sw` and `sc` the whole of `v` at the word
`a` falls in; `swl` the bytes of `v` from the most significant one on, from `a` to the end of its
word; `swr` the bytes up to the least significant one, from the start of the word to `a`. -/
def storedBytes (op a v : BitVec 32) : BitVec 32 → Option (BitVec 8) :=
  if op = 0x28 then runByte a 1 fun _ => byteAt v 3
  else if op = 0x29 then runByte (a &&& 0xfffffffe) 2 fun i => byteAt v (2 + i)
  else if op = 0x2a then runByte a (4 - (a &&& 3).toNat) fun i => byteAt v i
  else if op = 0x2b ∨ op = 0x38 then runByte (a &&& 0xfffffffc) 4 fun i => byteAt v i
  else if op = 0x2e then
    runByte (a &&& 0xfffffffc) ((a &&& 3).toNat + 1) fun i => byteAt v (i + (3 - (a &&& 3).toNat))
  else fun _ => none

/-- The stores write through the word path of `mips_step` exactly the bytes `storedBytes`
names, and leave every other byte. -/
theorem storeVia_bytes {s : BitVec 32} (hs : s >>> 26 = 0x28 ∨ s >>> 26 = 0x29 ∨
    s >>> 26 = 0x2a ∨ s >>> 26 = 0x2b ∨ s >>> 26 = 0x2e ∨ s >>> 26 = 0x38) (mem : Memory)
    (a v : BitVec 32) :
  ∃ m', storeVia s mem a v = .ok m' ∧
    ∀ b, memoryByte m' b = (storedBytes (s >>> 26) a v b).getD (memoryByte mem b)
  := by
  have hk := toNat_and_three_lt a
  have hh : (a &&& 2).toNat ≤ 2 := by rw [BitVec.toNat_and]; exact Nat.and_le_right
  obtain ⟨hw1, hl1⟩ := half_lanes a
  obtain ⟨hw3, hl3⟩ := word_lanes a
  -- `sw` and `sc` both write the register whole
  have hword (h : s >>> 26 = 0x2b ∨ s >>> 26 = 0x38) :
      execute s a v (getMemory mem (a &&& 0xfffffffc)) = .ok (ofBytes (byteAt v)) := by
    rw [ofBytes_byteAt, execute_memory (by rcases h with h | h <;> rw [h] <;> decide)]
    rcases h with h | h <;> rw [h] <;> rfl
  rcases hs with h | h | h | h | h | h <;>
    simp only [storedBytes, h, BitVec.reduceEq, reduceIte, false_or, or_false, or_true, if_true]
  · refine ⟨_, storeVia_eq (execute_sb h _ _ _),
      memoryByte_setMemory_run rfl (by omega) fun j _ => ?_⟩
    split_ifs <;> first | with_reducible rfl | omega
  · refine ⟨_, storeVia_eq (execute_sh h _ _ _),
      memoryByte_setMemory_run hw1 (by omega) fun j _ => ?_⟩
    rw [hl1]
    split_ifs <;> first | with_reducible rfl | omega | (congr 1; omega)
  · refine ⟨_, storeVia_eq (execute_swl h _ _ _),
      memoryByte_setMemory_run rfl (by omega) fun j _ => ?_⟩
    split_ifs <;> first | with_reducible rfl | omega
  · refine ⟨_, storeVia_eq (hword (.inl h)), memoryByte_setMemory_run hw3 (by omega) fun j _ => ?_⟩
    rw [hl3, if_pos (by omega), Nat.sub_zero]
  · refine ⟨_, storeVia_eq (execute_swr h _ _ _),
      memoryByte_setMemory_run hw3 (by omega) fun j _ => ?_⟩
    simp only [hl3, getMemory, Nat.sub_zero]
    split_ifs <;> first | with_reducible rfl | omega
  · refine ⟨_, storeVia_eq (hword (.inr h)), memoryByte_setMemory_run hw3 (by omega) fun j _ => ?_⟩
    rw [hl3, if_pos (by omega), Nat.sub_zero]

/-- The word a MIPS32 load with opcode `op` at address `a` returns from the byte view `byte` of
memory, big-endian, with `r` the register it merges into: `lb`/`lbu` the byte at `a`, sign- or
zero-extended; `lh`/`lhu` the halfword `a` falls in; `lw` and `ll` the word `a` falls in; `lwl`
the bytes from `a` to the end of its word into the top of `r`, and `lwr` those from the start of
the word to `a` into the bottom of `r`. -/
def loadedWord (op a r : BitVec 32) (byte : BitVec 32 → BitVec 8) : Option (BitVec 32) :=
  if op = 0x20 then some ((byte a).signExtend 32)
  else if op = 0x21 then
    some ((byte (a &&& 0xfffffffe) ++ byte ((a &&& 0xfffffffe) + 1)).signExtend 32)
  else if op = 0x22 then some (ofBytes fun i =>
    if i < 4 - (a &&& 3).toNat then byte (a + BitVec.ofNat 32 i) else byteAt r i)
  else if op = 0x23 ∨ op = 0x30 then
    some (ofBytes fun i => byte ((a &&& 0xfffffffc) + BitVec.ofNat 32 i))
  else if op = 0x24 then some ((byte a).setWidth 32)
  else if op = 0x25 then
    some ((byte (a &&& 0xfffffffe) ++ byte ((a &&& 0xfffffffe) + 1)).setWidth 32)
  else if op = 0x26 then some (ofBytes fun i =>
    if 3 - (a &&& 3).toNat ≤ i then
      byte ((a &&& 0xfffffffc) + BitVec.ofNat 32 (i - (3 - (a &&& 3).toNat)))
    else byteAt r i)
  else none

/-- The two bytes of the halfword `a` falls in. -/
theorem memoryByte_half (mem : Memory) (a : BitVec 32) :
  memoryByte mem (a &&& 0xfffffffe) = byteAt (mem (a &&& 0xfffffffc)) (a &&& 2).toNat ∧
    memoryByte mem ((a &&& 0xfffffffe) + 1) =
      byteAt (mem (a &&& 0xfffffffc)) ((a &&& 2).toNat + 1)
  := by
  obtain ⟨hw, hl⟩ := half_lanes a
  have hh : (a &&& 2).toNat ≤ 2 := by rw [BitVec.toNat_and]; exact Nat.and_le_right
  refine ⟨by rw [memoryByte_eq_byteAt, hw, hl], ?_⟩
  have := @memoryByte_add mem (a &&& 0xfffffffe) 1 (by omega)
  rwa [hw, hl] at this

/-- The loads read through the word path of `mips_step` the word `loadedWord` assembles from
the byte view. -/
theorem loadVia_bytes {l : BitVec 32} (hl : l >>> 26 = 0x20 ∨ l >>> 26 = 0x21 ∨
    l >>> 26 = 0x22 ∨ l >>> 26 = 0x23 ∨ l >>> 26 = 0x24 ∨ l >>> 26 = 0x25 ∨ l >>> 26 = 0x26 ∨
    l >>> 26 = 0x30) (mem : Memory) (a r : BitVec 32) :
  ∃ w, loadedWord (l >>> 26) a r (memoryByte mem) = some w ∧ loadVia l mem a r = .ok w
  := by
  have hk := toNat_and_three_lt a
  obtain ⟨hw3, hl3⟩ := word_lanes a
  obtain ⟨hb0, hb1⟩ := memoryByte_half mem a
  have hword : (ofBytes fun i => memoryByte mem ((a &&& 0xfffffffc) + BitVec.ofNat 32 i)) =
      mem (a &&& 0xfffffffc) := by
    rw [← ofBytes_byteAt (mem _)]
    refine ofBytes_congr fun i hi => ?_
    rw [memoryByte_add mem (by omega), hw3, hl3, Nat.zero_add]
  obtain ⟨hlb, hlbu, hlh, hlhu, hlw⟩ := execute_loads l a r (getMemory mem (a &&& 0xfffffffc))
  rcases hl with h | h | h | h | h | h | h | h <;>
    simp only [loadedWord, h, BitVec.reduceEq, reduceIte, false_or, or_false, or_true, if_true]
  · exact ⟨_, by rw [memoryByte_eq_byteAt]; rfl, hlb h⟩
  · exact ⟨_, by rw [hb0, hb1]; rfl, hlh h⟩
  · refine ⟨_, congrArg some (ofBytes_congr fun i hi => ?_), execute_lwl h _ _ _⟩
    split_ifs
    · rw [memoryByte_add mem (by omega), Nat.add_comm]
      rfl
    · rfl
  · exact ⟨_, by rw [hword]; rfl, hlw h⟩
  · exact ⟨_, by rw [memoryByte_eq_byteAt]; rfl, hlbu h⟩
  · exact ⟨_, by rw [hb0, hb1]; rfl, hlhu h⟩
  · refine ⟨_, congrArg some (ofBytes_congr fun i hi => ?_), execute_lwr h _ _ _⟩
    split_ifs
    · rw [memoryByte_add mem (by omega), hw3, hl3, Nat.zero_add]
      rfl
    · rfl
  · refine ⟨_, by rw [hword], ?_⟩
    rw [loadVia, execute_memory (by rw [h]; decide), h]
    rfl

/-! ### Steps -/

variable {env : Env} {fuel : Nat} {e e' : InstrumentedState}

/-- The effective address `R[rs] + sext(imm16)` of a load or store; `memAddr` is its word. -/
def State.effAddr (s : State) : BitVec 32 :=
  s.registers (regIndex ((s.insn >>> 21) &&& 0x1f)) + signExtension (s.insn &&& 0xffff) 16

/-- The value of register `rt` of the instruction word. -/
def State.rtValue (s : State) : BitVec 32 := s.registers (regIndex ((s.insn >>> 16) &&& 0x1f))

/-- A word address is never the `0xffffffff` that marks "no store". -/
theorem align_ne_allOnes (x : BitVec 32) : x &&& 0xfffffffc ≠ 0xffffffff := by
  intro h
  have := congrArg BitVec.toNat h
  rw [toNat_align, show (0xffffffff : BitVec 32).toNat = 0xffffffff from rfl] at this
  omega

/-- The operands of a load or store: `rd_reg` is `rt_reg`, and the stores, `lwl` and `lwr` read
register `rt`. -/
theorem decodeOperands_memory (regs : Registers) {insn : BitVec 32}
    (h20 : (0x20 : BitVec 32) ≤ insn >>> 26) :
  (decodeOperands regs insn).rdReg = (insn >>> 16) &&& 0x1f ∧
    ((0x28 : BitVec 32) ≤ insn >>> 26 ∨ insn >>> 26 = 0x22 ∨ insn >>> 26 = 0x26 →
      (decodeOperands regs insn).rt = regs (regIndex ((insn >>> 16) &&& 0x1f)))
  := by
  have h0 : ¬(insn >>> 26 = 0 ∨ insn >>> 26 = 0x1c) := by
    rintro (h | h) <;> rw [h] at h20 <;> exact absurd h20 (by decide)
  have hlt : ¬insn >>> 26 < 0x20 := by bv_omega
  unfold decodeOperands
  simp only [if_neg h0, if_neg hlt]
  split
  · exact ⟨rfl, fun _ => rfl⟩
  · exact ⟨rfl, fun h => absurd h ‹_›⟩

/-- The memory fetch of a load or store puts the effective address in `rs` and the word it falls
in in `mem`; a store also makes that word `store_addr` and clears `rd_reg`, a load keeps both. -/
theorem memoryFetch_ops {opcode insn : BitVec 32} {ops ops₂ : Operands} {e₂ : InstrumentedState}
    (h20 : (0x20 : BitVec 32) ≤ opcode) (h : memoryFetch env e opcode insn ops = .ok (e₂, ops₂)) :
  e₂.state = e.state ∧ ops₂.rs = ops.rs + signExtension (insn &&& 0xffff) 16 ∧ ops₂.rt = ops.rt ∧
    ops₂.mem = e.state.memory (ops₂.rs &&& 0xfffffffc) ∧
    (0x28 ≤ opcode ∧ opcode ≠ 0x30 → ops₂.storeAddr = ops₂.rs &&& 0xfffffffc) ∧
    (¬(0x28 ≤ opcode ∧ opcode ≠ 0x30) → ops₂.storeAddr = ops.storeAddr ∧ ops₂.rdReg = ops.rdReg)
  := by
  unfold memoryFetch at h
  rw [if_pos h20] at h
  obtain ⟨e₃, ht, h⟩ := bind_eq_ok.mp h
  obtain ⟨-, rfl⟩ := trackMemoryAccess_eq_ok.mp ht
  split at h <;> cases h
  · exact ⟨rfl, rfl, rfl, rfl, fun _ => rfl, fun h' => absurd ‹_› h'⟩
  · exact ⟨rfl, rfl, rfl, rfl, fun h' => absurd h' ‹_›, fun _ => ⟨rfl, rfl⟩⟩

/-- A returning step on an opcode from 0x20 on runs the memory fetch, `execute` and the
writeback. -/
theorem mipsStep_memory_path (h : mipsStep env fuel e = .ok e') (hx : e.state.exited = false)
    (h20 : (0x20 : BitVec 32) ≤ e.state.insn >>> 26) :
  ∃ e₂ ops val, memoryFetch env e.tick (e.state.insn >>> 26) e.state.insn
      (decodeOperands e.state.registers e.state.insn) = .ok (e₂, ops) ∧
    execute e.state.insn ops.rs ops.rt ops.mem = .ok val ∧
    writeBack env e₂ (e.state.insn >>> 26) val ops = .ok e'
  := by
  rcases mipsStep_path h with h' | ⟨-, hj⟩ | ⟨-, hop, -⟩ | ⟨-, -, -, -, hf, hexec, hw⟩
  · rw [hx] at h'
    cases h'
  · rcases hj with hj | hj <;> rw [hj] at h20 <;> exact absurd h20 (by decide)
  · rw [hop] at h20
    exact absurd h20 (by decide)
  · exact ⟨_, _, _, hf, hexec, hw⟩

/-- A returning step on a store writes back the word the memory path of `storeVia` gives for its
effective address and register `rt`. -/
theorem mipsStep_storeVia (h : mipsStep env fuel e = .ok e') (hx : e.state.exited = false)
    (hs : IsStore e.state) :
  storeVia e.state.insn e.state.memory e.state.effAddr e.state.rtValue = .ok e'.state.memory
  := by
  have hst : (0x28 : BitVec 32) ≤ e.state.insn >>> 26 ∧ e.state.insn >>> 26 ≠ 0x30 := by
    rcases hs with h | h | h | h | h | h <;> rw [h] <;> decide
  have h20 : (0x20 : BitVec 32) ≤ e.state.insn >>> 26 := by bv_omega
  obtain ⟨e₂, ops, val, hf, hexec, hw⟩ := mipsStep_memory_path h hx h20
  obtain ⟨hs₂, hrs, hrt, hmem, hsa, -⟩ := memoryFetch_ops h20 hf
  have hsa := hsa hst
  obtain ⟨-, he', -⟩ := writeBack_spec hw ((memoryFetch_spec hf).2.1 ▸ decodeOperands_rtReg_lt _ _)
  have hA : ops.rs = e.state.effAddr := by rw [hrs, decodeOperands_rs]; rfl
  have hR : ops.rt = e.state.rtValue := hrt.trans ((decodeOperands_memory _ h20).2 (.inl hst.1))
  have hm : e'.state.memory = setMemory e.state.memory (e.state.effAddr &&& 0xfffffffc) val := by
    rw [congrArg State.memory he', if_pos (hsa ▸ align_ne_allOnes _), hsa, hA, hs₂]
    rfl
  rw [hm, storeVia_eq]
  rw [hmem, hA, hR] at hexec
  exact hexec

/-- A returning step on a load or `ll` writes to register `rt`, when it is not register 0, the
word the memory path of `loadVia` gives for its effective address and its `rt` operand. -/
theorem mipsStep_loadVia (h : mipsStep env fuel e = .ok e') (hx : e.state.exited = false)
    (hl : IsLoad e.state ∨ e.state.insn >>> 26 = 0x30) (hr : (e.state.insn >>> 16) &&& 0x1f ≠ 0) :
  loadVia e.state.insn e.state.memory e.state.effAddr
      (decodeOperands e.state.registers e.state.insn).rt =
    .ok (e'.state.registers (regIndex ((e.state.insn >>> 16) &&& 0x1f)))
  := by
  have h20 : (0x20 : BitVec 32) ≤ e.state.insn >>> 26 := by
    rcases hl with ⟨h, -⟩ | h
    · exact h
    · rw [h]; decide
  have hns : ¬((0x28 : BitVec 32) ≤ e.state.insn >>> 26 ∧ e.state.insn >>> 26 ≠ 0x30) := by
    rcases hl with ⟨-, h⟩ | h
    · rintro ⟨h', -⟩
      bv_omega
    · exact fun h' => h'.2 h
  obtain ⟨e₂, ops, val, hf, hexec, hw⟩ := mipsStep_memory_path h hx h20
  obtain ⟨-, hrs, hrt, hmem, -, hsa⟩ := memoryFetch_ops h20 hf
  obtain ⟨hsa, hrd⟩ := hsa hns
  have hsc : e.state.insn >>> 26 ≠ 0x38 := fun h' => hns ⟨by rw [h']; decide, by rw [h']; decide⟩
  rw [writeBack_alu hsc (hsa.trans (decodeOperands_storeAddr _ _))] at hw
  obtain ⟨-, rfl⟩ := handleRd_eq_ok.mp hw
  rw [hrd, (decodeOperands_memory _ h20).1] at *
  simp only [State.advancePc, ne_eq, hr, not_false_eq_true, and_self, ite_true, writeReg,
    Function.update_same]
  have hA : ops.rs = e.state.effAddr := by rw [hrs, decodeOperands_rs]; rfl
  rw [hmem, hA, hrt] at hexec
  exact hexec

/-- `loadedWord` reads the register it merges into only for `lwl` and `lwr`. -/
theorem loadedWord_reg {op : BitVec 32} (h22 : op ≠ 0x22) (h26 : op ≠ 0x26) (a r r' : BitVec 32)
    (byte : BitVec 32 → BitVec 8) :
  loadedWord op a r byte = loadedWord op a r' byte
  := by
  simp only [loadedWord, h22, h26, if_false]

/-- `mips_step` against byte-addressed big-endian memory: a returning step on a store changes
the byte view of memory at exactly the bytes `storedBytes` names for its opcode, its effective
address and register `rt`, and a returning step on a load or `ll` writes to `rt`, when it is not
register 0, the word `loadedWord` assembles from the byte view before the step. -/
theorem mipsStep_byte_memory (h : mipsStep env fuel e = .ok e') (hx : e.state.exited = false) :
  (IsStore e.state → ∀ b, memoryByte e'.state.memory b =
      (storedBytes (e.state.insn >>> 26) e.state.effAddr e.state.rtValue b).getD
        (memoryByte e.state.memory b)) ∧
  (IsLoad e.state ∨ e.state.insn >>> 26 = 0x30 → (e.state.insn >>> 16) &&& 0x1f ≠ 0 →
    loadedWord (e.state.insn >>> 26) e.state.effAddr e.state.rtValue (memoryByte e.state.memory) =
      some (e'.state.registers (regIndex ((e.state.insn >>> 16) &&& 0x1f))))
  := by
  refine ⟨fun hs => ?_, fun hl hr => ?_⟩
  · obtain ⟨m', hm', hb⟩ := storeVia_bytes hs e.state.memory e.state.effAddr e.state.rtValue
    rw [mipsStep_storeVia h hx hs] at hm'
    cases hm'
    exact hb
  · have hop : e.state.insn >>> 26 = 0x20 ∨ e.state.insn >>> 26 = 0x21 ∨
        e.state.insn >>> 26 = 0x22 ∨ e.state.insn >>> 26 = 0x23 ∨ e.state.insn >>> 26 = 0x24 ∨
        e.state.insn >>> 26 = 0x25 ∨ e.state.insn >>> 26 = 0x26 ∨ e.state.insn >>> 26 = 0x30 := by
      rcases hl with ⟨h1, h2⟩ | h
      · bv_omega
      · exact .inr (.inr (.inr (.inr (.inr (.inr (.inr h))))))
    obtain ⟨w, hw, hv⟩ := loadVia_bytes hop e.state.memory e.state.effAddr
      (decodeOperands e.state.registers e.state.insn).rt
    rw [mipsStep_loadVia h hx hl hr] at hv
    cases hv
    rw [← hw]
    by_cases hlr : e.state.insn >>> 26 = 0x22 ∨ e.state.insn >>> 26 = 0x26
    · rw [(decodeOperands_memory _ (by bv_omega)).2 (.inr hlr)]
      rfl
    · exact loadedWord_reg (fun h => hlr (.inl h)) (fun h => hlr (.inr h)) _ _ _ _

/-- `sb $2, 0x2001($0)` with `$2 = 0x11223344` writes its low byte `0x44` at `0x2001` and leaves
the byte at `0x2000`, in the same word, as it was. -/
theorem mipsStep_sb_one_byte :
  ∃ e', mipsStep Env.small 0
      (.load [0xa0022001] (fun r => if r = 2 then 0x11223344 else 0) 0 0x2000) = .ok e' ∧
    memoryByte e'.state.memory 0x2001 = 0x44 ∧ memoryByte e'.state.memory 0x2000 = 0
  := by
  have h := @mipsStep_byte_memory Env.small 0
    (.load [0xa0022001] (fun r => if r = 2 then 0x11223344 else 0) 0 0x2000) _ rfl rfl
  exact ⟨_, rfl, (h.1 (.inl (by decide)) 0x2001).trans (by decide),
    (h.1 (.inl (by decide)) 0x2000).trans (by decide)⟩

end MipsEmulator
