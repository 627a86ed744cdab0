import MipsEmulator.ByteView
import MipsEmulator.Preimage
import MipsEmulator.Replay
import MipsEmulator.Engine

/-!
# The preimage stream

A program reads the preimage of its key through `read(FD_PREIMAGE_READ, a1, a2)`, a word at a
time: each read copies bytes of the cached, length-prefixed preimage from `preimage_offset` on
into memory at `a1` and advances the offset by the number it copied. `preimageChunk` is what a
step hands the program this way, the `v0` bytes of memory at `a1` after the step, and
`ReadRun` a run with the bytes its reads handed over, in order.

`preimageRead_stream` says which bytes one read copies, against the byte view of memory, and
`mipsStep_preimageRead` what a step that reads does to the registers, the offset and memory;
`preimage_reads_in_order` puts the step together with the run: from a consistent cache the
reads hand the program the buffer from the first offset on, in order, with no byte skipped or
repeated.
-/

namespace MipsEmulator

variable {env : Env} {fuel : Nat} {e e' : InstrumentedState}

/-- The length-prefixed preimage of the key of `e`: the bytes the preimage reads of `e` copy
from. -/
def preimageBuffer (env : Env) (e : InstrumentedState) : List (BitVec 8) :=
  lengthPrefixed (env.getPreimage e.state.preimageKey)

/-- A word read from four big-endian bytes has them as its lanes. -/
theorem fromBeBytes_eq_ofBytes {l : List (BitVec 8)} (hl : l.length = 4) :
  fromBeBytes l = ofBytes fun j => l.getD j 0
  := eq_ofBytes_iff.mpr fun j hj => by rw [← getD_toBeBytes_four _ hj, toBeBytes_fromBeBytes hl]

/-! ### One read -/

/-- Writing back the word of `a` with its lanes from `a & 3` on replaced by the first bytes of
`rest`, as a preimage read does, puts those bytes at `a` and after it, to the end of the word,
and leaves every other byte. -/
theorem memoryByte_fill_word {mem : Memory} {a : BitVec 32} {rest : List (BitVec 8)}
    (hr : 4 - (a &&& 3).toNat ≤ rest.length) (b : BitVec 32) :
  memoryByte (setMemory mem (a &&& 0xfffffffc) (fromBeBytes
      ((toBeBytes 4 (getMemory mem (a &&& 0xfffffffc)).toNat).take (a &&& 3).toNat ++
        rest.take (4 - (a &&& 3).toNat)))) b =
    (runByte a (4 - (a &&& 3).toNat) (fun i => rest.getD i 0) b).getD (memoryByte mem b)
  := by
  have hal := toNat_and_3_le a
  generalize hk : (a &&& 3).toNat = k at *
  have hlen : ((toBeBytes 4 (getMemory mem (a &&& 0xfffffffc)).toNat).take k).length = k := by
    rw [List.length_take, length_toBeBytes]
    omega
  rw [fromBeBytes_eq_ofBytes (by rw [List.length_append, hlen, List.length_take]; omega)]
  refine memoryByte_setMemory_run rfl (by omega) (fun j hj => ?_) b
  rw [hk]
  split_ifs with hjk
  · rw [List.getD_append_right _ _ _ _ (by omega), hlen, List.getD_eq_getElem?_getD,
      List.getElem?_take, if_pos (by omega), ← List.getD_eq_getElem?_getD]
  · rw [List.getD_append _ _ _ _ (by omega), List.getD_eq_getElem?_getD, List.getElem?_take,
      if_pos (by omega), ← List.getD_eq_getElem?_getD, getD_toBeBytes_four _ hj]
    rfl

/-- A preimage read from a consistent cache that returns copies the `n = 4 - (a1 & 3)` bytes of
the buffer from `preimage_offset` on into memory from `a1` to the end of its word, leaves every
other byte, returns `n`, advances the offset by `n` and keeps the cache consistent. -/
theorem preimageRead_stream {a1 a2 v0 v1 : BitVec 32} {e₂ : InstrumentedState}
    (hc : CacheConsistent env e) (h : preimageRead env e a1 a2 = .ok (e₂, v0, v1)) :
  e.state.preimageOffset.toNat + (4 - (a1 &&& 3).toNat) ≤ (preimageBuffer env e).length ∧
    v0 = BitVec.ofNat 32 (4 - (a1 &&& 3).toNat) ∧ CacheConsistent env e₂ ∧
    e₂.state.preimageOffset = e.state.preimageOffset + v0 ∧
    ∀ b, memoryByte e₂.state.memory b =
      (runByte a1 (4 - (a1 &&& 3).toNat)
        (fun i => ((preimageBuffer env e).drop e.state.preimageOffset.toNat).getD i 0) b).getD
        (memoryByte e.state.memory b)
  := by
  have hal := toNat_and_3_le a1
  obtain ⟨hcnt, hend, h32⟩ := preimageRead_bounds hc h
  unfold preimageRead at h
  obtain ⟨e₃, ht, h⟩ := bind_eq_ok.mp h
  obtain ⟨-, rfl⟩ := trackMemoryAccess_eq_ok.mp ht
  obtain ⟨e₄, hr, hc₄, -, hs₄⟩ := (readPreimage_consistent (show CacheConsistent env { e with
      lastMemAccess := a1 &&& 0xfffffffc
      memProof := env.merkleProof e.state.memory (a1 &&& 0xfffffffc) } from hc) _ _).2.2
    ⟨by omega, h32⟩
  rw [hr] at h
  dsimp only [uncachedRead, ok_bind] at h
  obtain ⟨_, -, h⟩ := bind_eq_ok.mp h
  cases h
  have hs : e₄.state = e.state := hs₄
  rw [preimageBuffer] at *
  have hrest := List.length_drop e.state.preimageOffset.toNat
    (lengthPrefixed (env.getPreimage e.state.preimageKey))
  generalize (lengthPrefixed (env.getPreimage e.state.preimageKey)).drop
    e.state.preimageOffset.toNat = rest at *
  -- the count is cut to exactly the rest of the word
  have hn : (minU32 (minU32 (BitVec.ofNat 32 (min rest.length 32)) (4 - (a1 &&& 3))) a2).toNat =
      4 - (a1 &&& 3).toNat := by
    rw [toNat_minU32, toNat_minU32, BitVec.toNat_ofNat, toNat_four_sub_and_3,
      Nat.mod_eq_of_lt (by omega)]
    omega
  refine ⟨hend, BitVec.eq_of_toNat_eq (by rw [hn, BitVec.toNat_ofNat]; omega), hc₄,
    by simp only [hs], fun b => ?_⟩
  simp only [hs]
  rw [hn, List.take_append_of_le_length (by rw [List.length_take]; omega), List.take_take,
    Nat.min_eq_left (by omega)]
  exact memoryByte_fill_word (by omega) b

/-! ### Steps and runs -/

/-- A returning step keeps the preimage cache consistent. -/
theorem mipsStep_cacheConsistent (h : mipsStep env fuel e = .ok e')
    (hc : CacheConsistent env e) :
  CacheConsistent env e'
  := by
  have hb := @mipsStep_replica env fuel e e ⟨⟨⟨e.lastMemAccess, e.memProof, e.lastPreimage,
    e.lastPreimageKey, e.lastPreimageOffset⟩, rfl⟩, fun _ => rfl, hc, hc⟩
  rw [h] at hb
  obtain ⟨_, he, hr⟩ := hb.of_ok
  cases he
  exact hr.consistent₁

/-- The byte `i` bytes past the start of a run of more than `i` bytes. -/
theorem runByte_add {c : BitVec 32} {n i : Nat} (hi : i < n) (hn : n < 2 ^ 32)
    (f : Nat → BitVec 8) :
  runByte c n f (c + BitVec.ofNat 32 i) = some (f i)
  := by
  have hs : (c + BitVec.ofNat 32 i - c).toNat = i := by
    rw [BitVec.add_comm, BitVec.add_sub_cancel, BitVec.toNat_ofNat]
    omega
  rw [runByte, hs, if_pos hi]

/-- The first `n` elements of a list, one index at a time. -/
theorem map_range_getD {α : Type} {l : List α} {n : Nat} (d : α) (h : n ≤ l.length) :
  (List.range n).map (fun i => l.getD i d) = l.take n
  := by
  apply List.ext_getElem
  · rw [List.length_map, List.length_range, List.length_take, Nat.min_eq_left h]
  · intro i h1 _
    rw [List.length_map, List.length_range] at h1
    rw [List.getElem_map, List.getElem_range, List.getElem_take,
      List.getD_eq_getElem _ _ (by omega)]

instance (s : State) : Decidable (IsPreimageRead s) := inferInstanceAs (Decidable (_ ∧ _))

/-- The bytes the step from `e` to `e'` hands the program through `read(FD_PREIMAGE_READ, a1,
a2)`: the `v0` bytes of memory at `a1` after the step, for a preimage read of a running
machine, and none for any other step. -/
def preimageChunk (e e' : InstrumentedState) : List (BitVec 8) :=
  if e.state.exited = false ∧ IsPreimageRead e.state then
    readMemoryRange e'.state.memory (e.state.registers 5) (e'.state.registers 2)
  else []

/-- A returning syscall leaves `v0` in register 2 and `v1` in register 7. -/
theorem writeReg_v0_v1 (regs : Registers) (v0 v1 : BitVec 32) :
  writeReg (writeReg regs 2 v0) 7 v1 2 = v0 ∧ writeReg (writeReg regs 2 v0) 7 v1 7 = v1
  := by
  constructor
  · rw [writeReg, writeReg, Function.update_noteq (show (2 : Fin 32) ≠ regIndex 7 by decide)]
    exact Function.update_same (regIndex 2) v0 regs
  · rw [writeReg, show (7 : Fin 32) = regIndex 7 from rfl, Function.update_same]

/-- A returning preimage read of a running machine from a consistent cache copies the
`n = 4 - (a1 & 3)` bytes of the buffer from the offset on into memory from `a1` to the end of
its word, leaves every other byte, returns `n` in `v0` and `0` in `v1`, and advances the offset
by `n` within the buffer. -/
theorem mipsStep_preimageRead (h : mipsStep env fuel e = .ok e')
    (hx : e.state.exited = false) (hr : IsPreimageRead e.state) (hc : CacheConsistent env e) :
  e.state.preimageOffset.toNat + (4 - (e.state.registers 5 &&& 3).toNat) ≤
      (preimageBuffer env e).length ∧
    e'.state.registers 2 = BitVec.ofNat 32 (4 - (e.state.registers 5 &&& 3).toNat) ∧
    e'.state.registers 7 = 0 ∧
    e'.state.preimageOffset =
      e.state.preimageOffset + BitVec.ofNat 32 (4 - (e.state.registers 5 &&& 3).toNat) ∧
    ∀ b, memoryByte e'.state.memory b =
      (runByte (e.state.registers 5) (4 - (e.state.registers 5 &&& 3).toNat)
        (fun i => ((preimageBuffer env e).drop e.state.preimageOffset.toNat).getD i 0) b).getD
        (memoryByte e.state.memory b)
  := by
  obtain ⟨⟨h0, hc0, h2⟩, h4⟩ := hr
  rw [mipsStep_syscall hx h0 hc0] at h
  rcases handleSyscall_cases h with ⟨h2', -⟩ | ⟨-, e₂, v0, v1, hs, rfl⟩
  · rw [InstrumentedState.tick_state_registers, h2] at h2'
    exact absurd h2' (by decide)
  have hv := writeReg_v0_v1 e₂.state.registers v0 v1
  rw [InstrumentedState.tick_state_registers, h2, h4, syscallResult_preimageRead] at hs
  obtain rfl := preimageRead_v1 hs
  obtain ⟨hend, rfl, -, ho, hm⟩ :=
    preimageRead_stream (show CacheConsistent env e.tick from hc) hs
  exact ⟨hend, hv.1, hv.2, ho, hm⟩

/-- A returning preimage read of a running machine from a consistent cache hands the program
the `n = 4 - (a1 & 3)` bytes of the buffer from the offset on, and advances the offset by `n`
within the buffer. -/
theorem mipsStep_preimageRead_chunk (h : mipsStep env fuel e = .ok e')
    (hx : e.state.exited = false) (hr : IsPreimageRead e.state) (hc : CacheConsistent env e)
    (hb : (preimageBuffer env e).length < 2 ^ 32) :
  preimageChunk e e' = ((preimageBuffer env e).drop e.state.preimageOffset.toNat).take
      (4 - (e.state.registers 5 &&& 3).toNat) ∧
    e'.state.preimageOffset.toNat =
      e.state.preimageOffset.toNat + (4 - (e.state.registers 5 &&& 3).toNat) ∧
    e.state.preimageOffset.toNat + (4 - (e.state.registers 5 &&& 3).toNat) ≤
      (preimageBuffer env e).length
  := by
  obtain ⟨hend, h2, -, ho, hm⟩ := mipsStep_preimageRead h hx hr hc
  generalize hk : 4 - (e.state.registers 5 &&& 3).toNat = n at *
  refine ⟨?_, ?_, hend⟩
  · -- the `n` bytes at `a1` after the step are the buffer's
    rw [preimageChunk, if_pos ⟨hx, hr⟩, h2, ← map_range_getD 0 (by rw [List.length_drop]; omega),
      readMemoryRange, BitVec.toNat_ofNat, Nat.mod_eq_of_lt (by omega)]
    refine List.map_congr_left fun i hi => ?_
    rw [hm, runByte_add (List.mem_range.mp hi) (by omega)]
    rfl
  · rw [ho, BitVec.toNat_add, BitVec.toNat_ofNat]
    omega

/-- A step from a consistent cache hands the program the bytes of the preimage buffer from the
offset on, as many as the offset advances by, and keeps the cache consistent. -/
theorem mipsStep_preimageChunk (h : mipsStep env fuel e = .ok e') (hc : CacheConsistent env e)
    (hb : (preimageBuffer env e).length < 2 ^ 32) :
  CacheConsistent env e' ∧ preimageBuffer env e' = preimageBuffer env e ∧
    e'.state.preimageOffset.toNat = e.state.preimageOffset.toNat + (preimageChunk e e').length ∧
    preimageChunk e e' ++ (preimageBuffer env e).drop e'.state.preimageOffset.toNat =
      (preimageBuffer env e).drop e.state.preimageOffset.toNat
  := by
  have hbuf : preimageBuffer env e' = preimageBuffer env e := by
    rw [preimageBuffer, preimageBuffer, mipsStep_preimageKey h]
  refine ⟨mipsStep_cacheConsistent h hc, hbuf, ?_⟩
  cases hx : e.state.exited
  · by_cases hr : IsPreimageRead e.state
    · obtain ⟨hch, hoff, hend⟩ := mipsStep_preimageRead_chunk h hx hr hc hb
      rw [hch, hoff, List.length_take, List.length_drop, ← List.drop_drop, List.take_append_drop]
      exact ⟨by omega, rfl⟩
    · -- no other step that returns moves the offset
      have ho : e'.state.preimageOffset = e.state.preimageOffset := by
        by_contra hne
        rcases (stepFrame_of_mipsStep h hx).preimageOffset hne with hw | hr'
        · exact not_isPreimageWrite_of_mipsStep h hx hw
        · exact hr hr'
      simp [preimageChunk, hr, ho]
  · unfold mipsStep at h
    rw [if_pos hx] at h
    cases h
    simp [preimageChunk, hx]

/-- A run from `e` to `e'` whose preimage reads handed the program the bytes `l`, in order. -/
inductive ReadRun (env : Env) : InstrumentedState → InstrumentedState → List (BitVec 8) → Prop
  | refl (e : InstrumentedState) : ReadRun env e e []
  | tail {e e₁ e₂ : InstrumentedState} {l : List (BitVec 8)} :
      ReadRun env e e₁ l → Step env e₁ e₂ → ReadRun env e e₂ (l ++ preimageChunk e₁ e₂)

/-- Along a run from a consistent cache, the cache stays consistent and keeps the buffer of
the first state; the offset advances by exactly the number of bytes the reads handed the
program; and those bytes, followed by the buffer from the final offset on, are the buffer from
the first offset on. -/
theorem ReadRun.stream {l : List (BitVec 8)} (hr : ReadRun env e e' l)
    (hc : CacheConsistent env e) (hb : (preimageBuffer env e).length < 2 ^ 32) :
  CacheConsistent env e' ∧ preimageBuffer env e' = preimageBuffer env e ∧
    e'.state.preimageOffset.toNat = e.state.preimageOffset.toNat + l.length ∧
    l ++ (preimageBuffer env e).drop e'.state.preimageOffset.toNat =
      (preimageBuffer env e).drop e.state.preimageOffset.toNat
  := by
  induction hr with
  | refl => exact ⟨hc, rfl, rfl, rfl⟩
  | tail _ hs ih =>
    obtain ⟨hc₁, hbuf₁, ho₁, hl₁⟩ := ih
    obtain ⟨fuel, hs⟩ := hs
    obtain ⟨hc₂, hbuf₂, ho₂, hl₂⟩ := mipsStep_preimageChunk hs hc₁ (hbuf₁ ▸ hb)
    rw [hbuf₁] at hbuf₂ hl₂
    refine ⟨hc₂, hbuf₂, by rw [ho₂, ho₁, List.length_append, Nat.add_assoc], ?_⟩
    rw [List.append_assoc, hl₂, hl₁]

/-- The preimage reads of a run stream the length-prefixed preimage in order. One read from a
consistent cache copies the `n = 4 - (a1 & 3)` bytes of the buffer from the offset on into
memory from `a1` to the end of its word, leaves every other byte, returns `n` in `v0` and `0`
in `v1`, and advances the offset by `n` within the buffer. Along every run from a consistent
cache, the cache stays consistent and keeps the buffer of the first state; the offset
advances by exactly the number of bytes the reads handed the program; and those bytes,
followed by the buffer from the final offset on, are the buffer from the first offset on. No
byte is skipped, none is handed over twice, and the offset never passes the end of the
buffer. -/
theorem preimage_reads_in_order :
  (∀ env fuel (e e' : InstrumentedState), mipsStep env fuel e = .ok e' →
    e.state.exited = false → IsPreimageRead e.state → CacheConsistent env e →
    e.state.preimageOffset.toNat + (4 - (e.state.registers 5 &&& 3).toNat) ≤
        (preimageBuffer env e).length ∧
      e'.state.registers 2 = BitVec.ofNat 32 (4 - (e.state.registers 5 &&& 3).toNat) ∧
      e'.state.registers 7 = 0 ∧
      e'.state.preimageOffset =
        e.state.preimageOffset + BitVec.ofNat 32 (4 - (e.state.registers 5 &&& 3).toNat) ∧
      ∀ b, memoryByte e'.state.memory b =
        (runByte (e.state.registers 5) (4 - (e.state.registers 5 &&& 3).toNat)
          (fun i => ((preimageBuffer env e).drop e.state.preimageOffset.toNat).getD i 0) b).getD
          (memoryByte e.state.memory b)) ∧
  (∀ env (e e' : InstrumentedState) (l : List (BitVec 8)), ReadRun env e e' l →
    CacheConsistent env e → (preimageBuffer env e).length < 2 ^ 32 →
    CacheConsistent env e' ∧ preimageBuffer env e' = preimageBuffer env e ∧
      e'.state.preimageOffset.toNat = e.state.preimageOffset.toNat + l.length ∧
      l ++ (preimageBuffer env e).drop e'.state.preimageOffset.toNat =
        (preimageBuffer env e).drop e.state.preimageOffset.toNat)
  := ⟨fun _ _ _ _ h hx hr hc => mipsStep_preimageRead h hx hr hc,
    fun _ _ _ _ hr hc hb => hr.stream hc hb⟩

/-- On the empty preimage, one read of an aligned word at `0x2000` returns 4, hands the program
the first four bytes of the length prefix and moves the offset to 4. -/
theorem preimage_reads_first_word :
  ∃ e' l, ReadRun Env.small (.load [0xc] (fun i => if i = 2 then 4003 else if i = 4 then 5
      else if i = 5 then 0x2000 else if i = 6 then 4 else 0) 0 0x2000) e' l ∧
    CacheConsistent Env.small (.load [0xc] (fun i => if i = 2 then 4003 else if i = 4 then 5
      else if i = 5 then 0x2000 else if i = 6 then 4 else 0) 0 0x2000) ∧
    e'.state.registers 2 = 4 ∧ l = [0, 0, 0, 0] ∧ e'.state.preimageOffset.toNat = 4 ∧
    l ++ (preimageBuffer Env.small e').drop e'.state.preimageOffset.toNat =
      preimageBuffer Env.small e'
  := by
  have hs := preimage_reads_in_order.1 Env.small 0 (.load [0xc] (fun i => if i = 2 then 4003
      else if i = 4 then 5 else if i = 5 then 0x2000 else if i = 6 then 4 else 0) 0 0x2000) _
    rfl rfl ⟨⟨rfl, rfl, rfl⟩, rfl⟩ rfl
  have hr := ReadRun.tail (@ReadRun.refl Env.small (.load [0xc] (fun i => if i = 2 then 4003
      else if i = 4 then 5 else if i = 5 then 0x2000 else if i = 6 then 4 else 0) 0 0x2000))
    ⟨0, rfl⟩
  have h := preimage_reads_in_order.2 _ _ _ _ hr rfl (by decide)
  exact ⟨_, _, hr, rfl, hs.2.1.trans rfl, by decide, by decide, h.2.1 ▸ h.2.2.2⟩

end MipsEmulator
