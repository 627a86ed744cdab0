import MipsEmulator.Execute

/-!
# Byte lanes of loads and stores

The loads and stores of `execute` against the big-endian byte view of a word. `byteAt w i` is
byte `i` of `w`, byte 0 the most significant, and `ofBytes` builds a word from its bytes. With
`k = a & 3` the lane of the effective address `a`, each load returns the lanes of the memory
word it selects and each store replaces exactly the lanes it addresses: `lb`/`lbu` read byte
`k`, `lh`/`lhu` the halfword at `a & 2`, `lwl`/`lwr` the bytes from `k` on or up to `k`, and
`sb`, `sh`, `swl` and `swr` write the same lanes.

The two paths compute their lanes with different shifts and masks; the lemmas here take both
to bytes, where they agree. `storeVia` and `loadVia` follow the memory path of `mips_step`,
through the word at `a & !3`, and a load of the lanes a store wrote reads the stored bits back,
an `lwl`/`lwr` pair at `A` and `A + 3` reading the unaligned word an `swl`/`swr` pair wrote,
also when it spans two words.
-/

namespace MipsEmulator

/-! ### Bytes of a word -/

/-- Byte `i` of a word, most significant first: byte 0 holds bits 31 to 24, byte 3 bits 7
to 0. -/
def byteAt (w : BitVec 32) (i : Nat) : BitVec 8 := w.extractLsb' (8 * (3 - i)) 8

/-- The word whose bytes, most significant first, are `f 0` to `f 3`. -/
def ofBytes (f : Nat → BitVec 8) : BitVec 32 := f 0 ++ f 1 ++ f 2 ++ f 3

theorem getLsbD_byteAt (w : BitVec 32) (i j : Nat) :
  (byteAt w i).getLsbD j = (decide (j < 8) && w.getLsbD (8 * (3 - i) + j))
  := by
  simp [byteAt, BitVec.getLsbD_extractLsb']

/-- Words with the same four bytes are equal. -/
theorem eq_of_byteAt_eq {x y : BitVec 32} (h : ∀ i < 4, byteAt x i = byteAt y i) : x = y := by
  ext p
  have hp := p.isLt
  have := congrArg (BitVec.getLsbD · ((p : Nat) % 8)) (h (3 - (p : Nat) / 8) (by omega))
  simpa [getLsbD_byteAt, show (p : Nat) % 8 < 8 by omega,
    show 8 * (3 - (3 - (p : Nat) / 8)) + (p : Nat) % 8 = p by omega] using this

@[simp]
theorem byteAt_ofBytes (f : Nat → BitVec 8) {i : Nat} (hi : i < 4) : byteAt (ofBytes f) i = f i := by
  rcases (by omega : i = 0 ∨ i = 1 ∨ i = 2 ∨ i = 3) with rfl | rfl | rfl | rfl <;>
  · ext j
    have hj := j.isLt
    rw [getLsbD_byteAt, ofBytes, BitVec.getLsbD_append, BitVec.getLsbD_append, BitVec.getLsbD_append]
    simp (disch := omega) only [hj, decide_True, Bool.true_and, cond_eq_if, decide_eq_true_eq,
      Nat.reduceSub, Nat.reduceMul, Nat.reduceAdd, Nat.zero_add, if_pos, if_neg, ite_true,
      Nat.add_sub_cancel_left, Nat.sub_sub]

theorem eq_ofBytes_iff {w : BitVec 32} {f : Nat → BitVec 8} :
  w = ofBytes f ↔ ∀ i < 4, byteAt w i = f i
  := ⟨fun h _ hi => h ▸ byteAt_ofBytes f hi,
    fun h => eq_of_byteAt_eq fun i hi => (h i hi).trans (byteAt_ofBytes f hi).symm⟩

@[simp]
theorem byteAt_and (x y : BitVec 32) (i : Nat) : byteAt (x &&& y) i = byteAt x i &&& byteAt y i := by
  ext j; simp [getLsbD_byteAt]

@[simp]
theorem byteAt_or (x y : BitVec 32) (i : Nat) : byteAt (x ||| y) i = byteAt x i ||| byteAt y i := by
  ext j; simp [getLsbD_byteAt]

@[simp]
theorem byteAt_xor (x y : BitVec 32) (i : Nat) : byteAt (x ^^^ y) i = byteAt x i ^^^ byteAt y i := by
  ext j; simp [getLsbD_byteAt]

@[simp]
theorem byteAt_not (x : BitVec 32) (i : Nat) : byteAt (~~~x) i = ~~~byteAt x i := by
  ext j
  have hj := j.isLt
  simp [getLsbD_byteAt, hj, show 8 * (3 - i) + j < 32 by omega]

/-- A shift left by `s` bytes moves byte `i + s` to byte `i` and fills with zeros. -/
theorem byteAt_shiftLeft (x : BitVec 32) (s : Nat) {i : Nat} (hi : i < 4) :
  byteAt (x <<< (8 * s)) i = if i + s < 4 then byteAt x (i + s) else 0#8
  := by
  ext j
  have hj := j.isLt
  split
  · simp only [getLsbD_byteAt, hj, decide_True, BitVec.getLsbD_shiftLeft, Bool.true_and,
      show 8 * (3 - i) + j < 32 by omega, show ¬8 * (3 - i) + j < 8 * s by omega, decide_False,
      Bool.not_false, show 8 * (3 - i) + j - 8 * s = 8 * (3 - (i + s)) + j by omega]
  · simp only [getLsbD_byteAt, hj, decide_True, BitVec.getLsbD_shiftLeft, Bool.true_and,
      BitVec.getLsbD_zero, show 8 * (3 - i) + j < 8 * s by omega, Bool.not_true, Bool.false_and,
      Bool.and_false]

/-- A logical shift right by `s` bytes moves byte `i - s` to byte `i` and fills with zeros. -/
theorem byteAt_ushiftRight (x : BitVec 32) (s : Nat) {i : Nat} (hi : i < 4) :
  byteAt (x >>> (8 * s)) i = if s ≤ i then byteAt x (i - s) else 0#8
  := by
  ext j
  have hj := j.isLt
  split
  · simp only [getLsbD_byteAt, hj, decide_True, BitVec.getLsbD_ushiftRight, Bool.true_and,
      show 8 * s + (8 * (3 - i) + j) = 8 * (3 - (i - s)) + j by omega]
  · simp only [getLsbD_byteAt, hj, decide_True, BitVec.getLsbD_ushiftRight, Bool.true_and,
      BitVec.getLsbD_zero]
    exact BitVec.getLsbD_ge x _ (by omega)

theorem byteAt_allOnes (i : Nat) : byteAt 0xffffffff i = BitVec.allOnes 8 := by
  ext j
  have hj := j.isLt
  rw [getLsbD_byteAt, show (0xffffffff : BitVec 32) = BitVec.allOnes 32 from rfl,
    BitVec.getLsbD_allOnes, BitVec.getLsbD_allOnes]
  simp [hj, show 8 * (3 - i) + j < 32 by omega]

/-- The mask `0xff` covers byte 3. -/
theorem byteAt_ff (i : Nat) : byteAt 0xff i = if 3 ≤ i then BitVec.allOnes 8 else 0#8 := by
  ext j
  have hj := j.isLt
  rw [getLsbD_byteAt, show (0xff : BitVec 32) = (BitVec.allOnes 32) >>> 24 from rfl]
  split_ifs <;>
    simp only [BitVec.getLsbD_ushiftRight, BitVec.getLsbD_allOnes, BitVec.getLsbD_zero] <;>
    simp [hj] <;> omega

/-- The mask `0xffff` covers bytes 2 and 3. -/
theorem byteAt_ffff (i : Nat) : byteAt 0xffff i = if 2 ≤ i then BitVec.allOnes 8 else 0#8 := by
  ext j
  have hj := j.isLt
  rw [getLsbD_byteAt, show (0xffff : BitVec 32) = (BitVec.allOnes 32) >>> 16 from rfl]
  split_ifs <;>
    simp only [BitVec.getLsbD_ushiftRight, BitVec.getLsbD_allOnes, BitVec.getLsbD_zero] <;>
    simp [hj] <;> omega

/-- A zero-extended byte is byte 3. -/
theorem byteAt_setWidth (b : BitVec 8) (i : Nat) : byteAt (b.setWidth 32) i = if 3 ≤ i then b else 0#8 := by
  ext j
  have hj := j.isLt
  split_ifs with h
  · simp [getLsbD_byteAt, hj, Nat.sub_eq_zero_of_le h, show (j : Nat) < 32 by omega]
  · simp [getLsbD_byteAt, BitVec.getLsbD_ge b (8 * (3 - i) + j) (by omega)]

/-- `x &&& allOnes 8 = x` in the form `simp` leaves it, after it folds `allOnes 8`. -/
@[simp]
theorem and_255 (x : BitVec 8) : x &&& 255#8 = x := by
  rw [show (255#8) = BitVec.allOnes 8 from rfl, BitVec.and_allOnes]

/-- A zero-extended halfword is bytes 2 and 3. -/
theorem byteAt_setWidth_append (b0 b1 : BitVec 8) {i : Nat} (hi : i < 4) :
  byteAt ((b0 ++ b1).setWidth 32) i = if i = 2 then b0 else if i = 3 then b1 else 0#8
  := by
  ext j
  have hj := j.isLt
  rw [getLsbD_byteAt, BitVec.getLsbD_setWidth, BitVec.getLsbD_append]
  split_ifs with h2 h3
  · subst h2
    simp [show 8 + (j : Nat) < 32 by omega]
  · subst h3
    simp [show (j : Nat) < 32 by omega]
  · simp [BitVec.getLsbD_ge b0 (8 * (3 - i) + j - 8) (by omega),
      show ¬8 * (3 - i) + (j : Nat) < 8 by omega]

/-! ### Lanes of an address -/

theorem toNat_and_three (a : BitVec 32) : (a &&& 3).toNat = a.toNat % 4 := by
  rw [BitVec.toNat_and]
  exact Nat.and_pow_two_sub_one_eq_mod a.toNat 2

/-- The shift amounts `(a & 3) * 8` and `24 - (a & 3) * 8` of the byte lanes, as whole bytes. -/
theorem lane_amounts (a : BitVec 32) :
  ((a &&& 3) * 8).toNat % 32 = 8 * (a &&& 3).toNat ∧
    (24 - (a &&& 3) * 8).toNat % 32 = 8 * (3 - (a &&& 3).toNat)
  := by
  have := toNat_and_three a
  generalize a &&& 3 = t at *
  constructor <;> bv_omega

/-- The shift amount `16 - (a & 2) * 8` of the halfword lanes, as whole bytes. -/
theorem half_amount (a : BitVec 32) :
  (16 - (a &&& 2) * 8).toNat % 32 = 8 * (2 - (a &&& 2).toNat)
  := by
  have : (a &&& 2).toNat ≤ 2 := by rw [BitVec.toNat_and]; exact Nat.and_le_right
  generalize a &&& 2 = t at *
  bv_omega

/-- From opcode 0x20 on, `execute` runs the load arm below 0x28 and the store arm above. -/
theorem execute_memory {insn : BitVec 32} (h20 : (0x20 : BitVec 32) ≤ insn >>> 26)
    (rs rt mem : BitVec 32) :
  execute insn rs rt mem = orInvalidInstruction (insn >>> 26)
    (if insn >>> 26 < 0x28 then executeLoad (insn >>> 26) rs rt mem
      else executeStore (insn >>> 26) rs rt mem)
  := by
  have hlt : ¬insn >>> 26 < 0x20 := by bv_omega
  unfold execute
  simp only [if_neg hlt]
  split <;> rfl


theorem toNat_and_three_lt (a : BitVec 32) : (a &&& 3).toNat < 4 := by
  rw [toNat_and_three]
  omega

/-- `lwl` puts bytes `b_k` to `b_3` of the word into the top `4 - k` bytes and keeps the low
`k` bytes of the register, for the lane `k = a & 3`. -/
theorem execute_lwl {insn : BitVec 32} (hop : insn >>> 26 = 0x22) (a v m : BitVec 32) :
  execute insn a v m = .ok (ofBytes fun i =>
    if i < 4 - (a &&& 3).toNat then byteAt m (i + (a &&& 3).toNat) else byteAt v i)
  := by
  have hk := toNat_and_three_lt a
  rw [execute_memory (by rw [hop]; decide), hop]
  simp only [executeLoad, BitVec.reduceEq, BitVec.reduceLT, reduceIte, orInvalidInstruction,
    wrappingShl, (lane_amounts a).1]
  refine congrArg Except.ok (eq_ofBytes_iff.mpr fun i hi => ?_)
  simp only [byteAt_or, byteAt_and, byteAt_not, byteAt_shiftLeft _ _ hi, byteAt_allOnes]
  split_ifs <;> first | omega | simp

/-- `lwr` puts bytes `b_0` to `b_k` of the word into the low `k + 1` bytes and keeps the upper
`3 - k` bytes of the register. -/
theorem execute_lwr {insn : BitVec 32} (hop : insn >>> 26 = 0x26) (a v m : BitVec 32) :
  execute insn a v m = .ok (ofBytes fun i =>
    if 3 - (a &&& 3).toNat ≤ i then byteAt m (i - (3 - (a &&& 3).toNat)) else byteAt v i)
  := by
  have hk := toNat_and_three_lt a
  rw [execute_memory (by rw [hop]; decide), hop]
  simp only [executeLoad, BitVec.reduceEq, BitVec.reduceLT, reduceIte, orInvalidInstruction,
    wrappingShr, (lane_amounts a).2]
  refine congrArg Except.ok (eq_ofBytes_iff.mpr fun i hi => ?_)
  simp only [byteAt_or, byteAt_and, byteAt_not, byteAt_ushiftRight _ _ hi, byteAt_allOnes]
  split_ifs <;> first | omega | simp

/-- `sb` replaces byte `b_k` by the low byte of the register. -/
theorem execute_sb {insn : BitVec 32} (hop : insn >>> 26 = 0x28) (a v m : BitVec 32) :
  execute insn a v m = .ok (ofBytes fun i =>
    if i = (a &&& 3).toNat then byteAt v 3 else byteAt m i)
  := by
  have hk := toNat_and_three_lt a
  rw [execute_memory (by rw [hop]; decide), hop]
  simp only [executeStore, BitVec.reduceEq, BitVec.reduceLT, reduceIte, orInvalidInstruction,
    wrappingShl, (lane_amounts a).2]
  refine congrArg Except.ok (eq_ofBytes_iff.mpr fun i hi => ?_)
  simp only [byteAt_or, byteAt_and, byteAt_xor, byteAt_shiftLeft _ _ hi, byteAt_allOnes, byteAt_ff]
  generalize (a &&& 3).toNat = k at *
  split_ifs <;> first | omega | (simp; done) | (simp; congr 1; omega)

/-- `sh` replaces the halfword at `a & 2` by the low halfword of the register. -/
theorem execute_sh {insn : BitVec 32} (hop : insn >>> 26 = 0x29) (a v m : BitVec 32) :
  execute insn a v m = .ok (ofBytes fun i =>
    if i = (a &&& 2).toNat then byteAt v 2
    else if i = (a &&& 2).toNat + 1 then byteAt v 3 else byteAt m i)
  := by
  have hh : (a &&& 2).toNat ≤ 2 := by rw [BitVec.toNat_and]; exact Nat.and_le_right
  rw [execute_memory (by rw [hop]; decide), hop]
  simp only [executeStore, BitVec.reduceEq, BitVec.reduceLT, reduceIte, orInvalidInstruction,
    wrappingShl, half_amount]
  refine congrArg Except.ok (eq_ofBytes_iff.mpr fun i hi => ?_)
  simp only [byteAt_or, byteAt_and, byteAt_xor, byteAt_shiftLeft _ _ hi, byteAt_allOnes,
    byteAt_ffff]
  generalize (a &&& 2).toNat = h at *
  split_ifs <;> first | omega | (simp; done) | (simp; congr 1; omega)

/-- `swl` replaces bytes `b_k` to `b_3` by the top `4 - k` bytes of the register. -/
theorem execute_swl {insn : BitVec 32} (hop : insn >>> 26 = 0x2a) (a v m : BitVec 32) :
  execute insn a v m = .ok (ofBytes fun i =>
    if (a &&& 3).toNat ≤ i then byteAt v (i - (a &&& 3).toNat) else byteAt m i)
  := by
  have hk := toNat_and_three_lt a
  rw [execute_memory (by rw [hop]; decide), hop]
  simp only [executeStore, BitVec.reduceEq, BitVec.reduceLT, reduceIte, orInvalidInstruction,
    wrappingShr, (lane_amounts a).1]
  refine congrArg Except.ok (eq_ofBytes_iff.mpr fun i hi => ?_)
  simp only [byteAt_or, byteAt_and, byteAt_not, byteAt_ushiftRight _ _ hi, byteAt_allOnes]
  split_ifs <;> first | omega | simp

/-- `swr` replaces bytes `b_0` to `b_k` by the low `k + 1` bytes of the register. -/
theorem execute_swr {insn : BitVec 32} (hop : insn >>> 26 = 0x2e) (a v m : BitVec 32) :
  execute insn a v m = .ok (ofBytes fun i =>
    if i ≤ (a &&& 3).toNat then byteAt v (i + (3 - (a &&& 3).toNat)) else byteAt m i)
  := by
  have hk := toNat_and_three_lt a
  rw [execute_memory (by rw [hop]; decide), hop]
  simp only [executeStore, BitVec.reduceEq, BitVec.reduceLT, reduceIte, orInvalidInstruction,
    wrappingShl, (lane_amounts a).2]
  refine congrArg Except.ok (eq_ofBytes_iff.mpr fun i hi => ?_)
  simp only [byteAt_or, byteAt_and, byteAt_not, byteAt_shiftLeft _ _ hi, byteAt_allOnes]
  split_ifs <;> first | omega | simp


/-- The byte `lb` and `lbu` select is byte `b_k`, zero-extended. -/
theorem lane_byte (a m : BitVec 32) :
  wrappingShr m (24 - (a &&& 3) * 8) &&& 0xff = (byteAt m (a &&& 3).toNat).setWidth 32
  := by
  have hk := toNat_and_three_lt a
  rw [wrappingShr, (lane_amounts a).2]
  refine eq_of_byteAt_eq fun i hi => ?_
  simp only [byteAt_and, byteAt_ushiftRight _ _ hi, byteAt_ff, byteAt_setWidth]
  generalize (a &&& 3).toNat = k at *
  split_ifs <;> first | omega | (simp; done) | (simp; congr 1; omega)

/-- The halfword `lh` and `lhu` select is `b_h b_(h+1)` for `h = a & 2`, zero-extended. -/
theorem lane_half (a m : BitVec 32) :
  wrappingShr m (16 - (a &&& 2) * 8) &&& 0xffff =
    (byteAt m (a &&& 2).toNat ++ byteAt m ((a &&& 2).toNat + 1)).setWidth 32
  := by
  have hh : (a &&& 2).toNat ≤ 2 := by rw [BitVec.toNat_and]; exact Nat.and_le_right
  rw [wrappingShr, half_amount]
  refine eq_of_byteAt_eq fun i hi => ?_
  simp only [byteAt_and, byteAt_ushiftRight _ _ hi, byteAt_ffff, byteAt_setWidth_append _ _ hi]
  generalize (a &&& 2).toNat = h at *
  split_ifs <;> first | omega | (simp; done) | (simp; congr 1; omega)

/-- `sign_extension` of a zero-extended `n`-bit value by `n` is its sign extension. -/
theorem signExtension_setWidth {n : Nat} (b : BitVec n) {idx : BitVec 32} (hidx : idx.toNat = n)
    (h0 : 0 < n) (h32 : n < 32) :
  signExtension (b.setWidth 32) idx = b.signExtend 32
  := by
  have hb : (b.setWidth 32).toNat < 2 ^ idx.toNat := by
    rw [BitVec.toNat_setWidth, hidx]
    exact lt_of_le_of_lt (Nat.mod_le _ _) b.isLt
  rw [signExtension_eq_signExtend (by omega) (by omega) hb, hidx,
    BitVec.setWidth_setWidth_of_le _ (by omega), BitVec.setWidth_eq]

/-- `lb`, `lbu`, `lh`, `lhu` and `lw` read the byte, the halfword or the word the lanes
select. -/
theorem execute_loads (insn a v m : BitVec 32) :
  (insn >>> 26 = 0x20 → execute insn a v m = .ok ((byteAt m (a &&& 3).toNat).signExtend 32)) ∧
  (insn >>> 26 = 0x24 → execute insn a v m = .ok ((byteAt m (a &&& 3).toNat).setWidth 32)) ∧
  (insn >>> 26 = 0x21 → execute insn a v m =
    .ok ((byteAt m (a &&& 2).toNat ++ byteAt m ((a &&& 2).toNat + 1)).signExtend 32)) ∧
  (insn >>> 26 = 0x25 → execute insn a v m =
    .ok ((byteAt m (a &&& 2).toNat ++ byteAt m ((a &&& 2).toNat + 1)).setWidth 32)) ∧
  (insn >>> 26 = 0x23 → execute insn a v m = .ok m)
  := by
  refine ⟨fun hop => ?_, fun hop => ?_, fun hop => ?_, fun hop => ?_, fun hop => ?_⟩ <;>
  · rw [execute_memory (by rw [hop]; decide), hop]
    simp only [executeLoad, BitVec.reduceEq, BitVec.reduceLT, reduceIte, orInvalidInstruction,
      lane_byte, lane_half,
      signExtension_setWidth _ (show (8 : BitVec 32).toNat = 8 from rfl) (by decide) (by decide),
      signExtension_setWidth _ (show (16 : BitVec 32).toNat = 16 from rfl) (by decide) (by decide)]


/-! ### Reading back a store -/

/-- A store as `mips_step` performs it: `execute` merges `rt` into the word at `rs & !3`, and
the result is written back to that word. -/
def storeVia (insn : BitVec 32) (mem : Memory) (rs rt : BitVec 32) : Except Fault Memory :=
  execute insn rs rt (getMemory mem (rs &&& 0xfffffffc)) >>= fun val =>
    .ok (setMemory mem (rs &&& 0xfffffffc) val)

/-- A load as `mips_step` performs it: `execute` on the word at `rs & !3`. -/
def loadVia (insn : BitVec 32) (mem : Memory) (rs rt : BitVec 32) : Except Fault (BitVec 32) :=
  execute insn rs rt (getMemory mem (rs &&& 0xfffffffc))

theorem storeVia_eq {insn : BitVec 32} {mem : Memory} {rs rt w : BitVec 32}
    (h : execute insn rs rt (mem (rs &&& 0xfffffffc)) = .ok w) :
  storeVia insn mem rs rt = .ok (setMemory mem (rs &&& 0xfffffffc) w)
  := by
  rw [storeVia, getMemory, h, ok_bind]

theorem loadVia_setMemory (insn : BitVec 32) (mem : Memory) (rs rt w : BitVec 32) :
  loadVia insn (setMemory mem (rs &&& 0xfffffffc) w) rs rt = execute insn rs rt w
  := by
  rw [loadVia, getMemory, setMemory, Function.update_same]

/-- `lwl` at lane `k` of a word that `swl` wrote at lane `k` loads the top `4 - k` bytes of the
stored register into the top of the loaded one. -/
theorem byteAt_lwl_swl {k i : Nat} (hi : i < 4) (v m r : BitVec 32) :
  byteAt (ofBytes fun i => if i < 4 - k then
      byteAt (ofBytes fun j => if k ≤ j then byteAt v (j - k) else byteAt m j) (i + k)
    else byteAt r i) i = if i < 4 - k then byteAt v i else byteAt r i
  := by
  rw [byteAt_ofBytes _ hi]
  split_ifs with h
  · rw [byteAt_ofBytes _ (by omega), if_pos (by omega), Nat.add_sub_cancel]
  · rfl

/-- `lwr` at lane `k` of a word that `swr` wrote at lane `k` loads the low `k + 1` bytes of the
stored register into the bottom of the loaded one. -/
theorem byteAt_lwr_swr {k i : Nat} (hk : k < 4) (hi : i < 4) (v m r : BitVec 32) :
  byteAt (ofBytes fun i => if 3 - k ≤ i then
      byteAt (ofBytes fun j => if j ≤ k then byteAt v (j + (3 - k)) else byteAt m j) (i - (3 - k))
    else byteAt r i) i = if 3 - k ≤ i then byteAt v i else byteAt r i
  := by
  rw [byteAt_ofBytes _ hi]
  split_ifs with h
  · rw [byteAt_ofBytes _ (by omega), if_pos (by omega), Nat.sub_add_cancel h]
  · rfl

/-- A load of the lanes a store at the same address wrote reads the stored bits back. -/
theorem stores_read_back (mem : Memory) (a v r s l : BitVec 32) :
  (s >>> 26 = 0x28 → l >>> 26 = 0x24 →
    (storeVia s mem a v >>= fun m => loadVia l m a r) = .ok ((byteAt v 3).setWidth 32)) ∧
  (s >>> 26 = 0x28 → l >>> 26 = 0x20 →
    (storeVia s mem a v >>= fun m => loadVia l m a r) = .ok ((byteAt v 3).signExtend 32)) ∧
  (s >>> 26 = 0x29 → l >>> 26 = 0x25 →
    (storeVia s mem a v >>= fun m => loadVia l m a r) = .ok ((byteAt v 2 ++ byteAt v 3).setWidth 32)) ∧
  (s >>> 26 = 0x29 → l >>> 26 = 0x21 →
    (storeVia s mem a v >>= fun m => loadVia l m a r) = .ok ((byteAt v 2 ++ byteAt v 3).signExtend 32)) ∧
  (s >>> 26 = 0x2b → l >>> 26 = 0x23 → (storeVia s mem a v >>= fun m => loadVia l m a r) = .ok v) ∧
  (s >>> 26 = 0x2a → l >>> 26 = 0x22 → (storeVia s mem a v >>= fun m => loadVia l m a v) = .ok v) ∧
  (s >>> 26 = 0x2e → l >>> 26 = 0x26 → (storeVia s mem a v >>= fun m => loadVia l m a v) = .ok v)
  := by
  have hk := toNat_and_three_lt a
  have hh : (a &&& 2).toNat ≤ 2 := by rw [BitVec.toNat_and]; exact Nat.and_le_right
  refine ⟨fun hs hl => ?_, fun hs hl => ?_, fun hs hl => ?_, fun hs hl => ?_, fun hs hl => ?_,
    fun hs hl => ?_, fun hs hl => ?_⟩
  · rw [storeVia_eq (execute_sb hs _ _ _), ok_bind, loadVia_setMemory, (execute_loads _ _ _ _).2.1 hl,
      byteAt_ofBytes _ hk, if_pos rfl]
  · rw [storeVia_eq (execute_sb hs _ _ _), ok_bind, loadVia_setMemory, (execute_loads _ _ _ _).1 hl,
      byteAt_ofBytes _ hk, if_pos rfl]
  · rw [storeVia_eq (execute_sh hs _ _ _), ok_bind, loadVia_setMemory, (execute_loads _ _ _ _).2.2.2.1 hl,
      byteAt_ofBytes _ (by omega), byteAt_ofBytes _ (by omega), if_pos rfl, if_neg (by omega), if_pos rfl]
  · rw [storeVia_eq (execute_sh hs _ _ _), ok_bind, loadVia_setMemory, (execute_loads _ _ _ _).2.2.1 hl,
      byteAt_ofBytes _ (by omega), byteAt_ofBytes _ (by omega), if_pos rfl, if_neg (by omega), if_pos rfl]
  · rw [storeVia_eq (by rw [execute_memory (by rw [hs]; decide), hs]; rfl), ok_bind, loadVia_setMemory,
      (execute_loads _ _ _ _).2.2.2.2 hl]
  · rw [storeVia_eq (execute_swl hs _ _ _), ok_bind, loadVia_setMemory, execute_lwl hl]
    exact congrArg Except.ok (eq_of_byteAt_eq fun i hi => by rw [byteAt_lwl_swl hi, ite_self])
  · rw [storeVia_eq (execute_swr hs _ _ _), ok_bind, loadVia_setMemory, execute_lwr hl]
    exact congrArg Except.ok (eq_of_byteAt_eq fun i hi => by rw [byteAt_lwr_swr hk hi, ite_self])


/-- An address is its word address plus its lane. -/
theorem align_add_and_three (x : BitVec 32) : (x &&& 0xfffffffc) + (x &&& 3) = x := by
  rw [BitVec.add_eq_or_of_and_eq_zero]
  · ext i
    have h := congrArg (BitVec.getLsbD · i)
      (show (0xfffffffc ||| 3 : BitVec 32) = BitVec.allOnes 32 from rfl)
    simp only [BitVec.getLsbD_or, BitVec.getLsbD_and, BitVec.getLsbD_allOnes, i.isLt,
      decide_True] at h ⊢
    rw [← Bool.and_or_distrib_left, h, Bool.and_true]
  · rw [show (x &&& 0xfffffffc) &&& (x &&& 3) = (x &&& x) &&& (0xfffffffc &&& 3) by ac_rfl,
      show (0xfffffffc &&& 3 : BitVec 32) = 0#32 from rfl, BitVec.and_zero]

theorem toNat_align (x : BitVec 32) : (x &&& 0xfffffffc).toNat = x.toNat - x.toNat % 4 := by
  have h := congrArg BitVec.toNat (align_add_and_three x)
  have hle : (x &&& 0xfffffffc).toNat ≤ x.toNat := by rw [BitVec.toNat_and]; exact Nat.and_le_left
  rw [BitVec.toNat_add, toNat_and_three] at h
  omega

/-- The word and lane of `A + 3`: the word of `A` and lane 3 when `A` is aligned, the next word
and lane `k - 1` otherwise. -/
theorem plus_three_word (A : BitVec 32) :
  ((A &&& 3).toNat = 0 → (A + 3) &&& 0xfffffffc = A &&& 0xfffffffc ∧ ((A + 3) &&& 3).toNat = 3) ∧
  ((A &&& 3).toNat ≠ 0 → (A + 3) &&& 0xfffffffc = (A &&& 0xfffffffc) + 4 ∧
    ((A + 3) &&& 3).toNat = (A &&& 3).toNat - 1)
  := by
  have h2 := toNat_align (A + 3)
  have h4 := toNat_and_three (A + 3)
  have hA := A.isLt
  simp only [BitVec.toNat_eq, BitVec.toNat_add, toNat_align, toNat_and_three,
    show (3 : BitVec 32).toNat = 3 from rfl, show (4 : BitVec 32).toNat = 4 from rfl] at h2 h4 ⊢
  generalize A.toNat = n at *
  omega

/-- `swl` at `A` and `swr` at `A + 3` write an unaligned word that `lwl` at `A` and `lwr` at
`A + 3` read back, whether the two halves fall in one word or two. -/
theorem unaligned_round_trip {sl sr ll lr : BitVec 32} (hsl : sl >>> 26 = 0x2a)
    (hsr : sr >>> 26 = 0x2e) (hll : ll >>> 26 = 0x22) (hlr : lr >>> 26 = 0x26) (mem : Memory)
    (A v r : BitVec 32) :
  (storeVia sl mem A v >>= fun m₁ => storeVia sr m₁ (A + 3) v >>= fun m₂ =>
    loadVia ll m₂ A r >>= fun w => loadVia lr m₂ (A + 3) w) = .ok v
  := by
  have hk := toNat_and_three_lt A
  rw [storeVia_eq (execute_swl hsl _ _ _), ok_bind, storeVia_eq (execute_swr hsr _ _ _), ok_bind]
  by_cases h0 : (A &&& 3).toNat = 0
  · -- both halves fall in the word of `A`, and `swr` at lane 3 covers all of it
    obtain ⟨hW, hk'⟩ := (plus_three_word A).1 h0
    rw [hW, loadVia, getMemory, setMemory, Function.update_same, execute_lwl hll, ok_bind,
      loadVia, getMemory, hW, setMemory, Function.update_same, execute_lwr hlr, hk']
    simp only [setMemory, Function.update_same]
    exact congrArg Except.ok (eq_of_byteAt_eq fun i hi => by
      rw [byteAt_lwr_swr (by decide) hi, if_pos (Nat.zero_le i)])
  · -- `swl` fills the top `4 - k` bytes of the word of `A`, `swr` the low `k` of the next
    obtain ⟨hW, hk'⟩ := (plus_three_word A).2 h0
    have hne : (A &&& 0xfffffffc) + 4 ≠ A &&& 0xfffffffc := by bv_omega
    simp only [loadVia, getMemory]
    rw [hW]
    simp only [setMemory, Function.update_same, Function.update_noteq hne,
      Function.update_noteq hne.symm, execute_lwl hll, execute_lwr hlr, ok_bind, hk']
    refine congrArg Except.ok (eq_of_byteAt_eq fun i hi => ?_)
    rw [byteAt_lwr_swr (by omega) hi]
    split_ifs with h
    · rfl
    · rw [byteAt_lwl_swl hi, if_pos (by omega)]

/-- Loads and stores agree with the byte lanes of the effective address, and a load of the lanes
a store wrote reads the stored bits back. -/
theorem byte_lanes :
  (∀ insn a v m : BitVec 32,
    (insn >>> 26 = 0x20 → execute insn a v m = .ok ((byteAt m (a &&& 3).toNat).signExtend 32)) ∧
    (insn >>> 26 = 0x24 → execute insn a v m = .ok ((byteAt m (a &&& 3).toNat).setWidth 32)) ∧
    (insn >>> 26 = 0x21 → execute insn a v m =
      .ok ((byteAt m (a &&& 2).toNat ++ byteAt m ((a &&& 2).toNat + 1)).signExtend 32)) ∧
    (insn >>> 26 = 0x25 → execute insn a v m =
      .ok ((byteAt m (a &&& 2).toNat ++ byteAt m ((a &&& 2).toNat + 1)).setWidth 32)) ∧
    (insn >>> 26 = 0x23 → execute insn a v m = .ok m) ∧
    (insn >>> 26 = 0x22 → execute insn a v m = .ok (ofBytes fun i =>
      if i < 4 - (a &&& 3).toNat then byteAt m (i + (a &&& 3).toNat) else byteAt v i)) ∧
    (insn >>> 26 = 0x26 → execute insn a v m = .ok (ofBytes fun i =>
      if 3 - (a &&& 3).toNat ≤ i then byteAt m (i - (3 - (a &&& 3).toNat)) else byteAt v i)) ∧
    (insn >>> 26 = 0x28 → execute insn a v m = .ok (ofBytes fun i =>
      if i = (a &&& 3).toNat then byteAt v 3 else byteAt m i)) ∧
    (insn >>> 26 = 0x29 → execute insn a v m = .ok (ofBytes fun i =>
      if i = (a &&& 2).toNat then byteAt v 2
      else if i = (a &&& 2).toNat + 1 then byteAt v 3 else byteAt m i)) ∧
    (insn >>> 26 = 0x2b → execute insn a v m = .ok v) ∧
    (insn >>> 26 = 0x2a → execute insn a v m = .ok (ofBytes fun i =>
      if (a &&& 3).toNat ≤ i then byteAt v (i - (a &&& 3).toNat) else byteAt m i)) ∧
    (insn >>> 26 = 0x2e → execute insn a v m = .ok (ofBytes fun i =>
      if i ≤ (a &&& 3).toNat then byteAt v (i + (3 - (a &&& 3).toNat)) else byteAt m i))) ∧
  (∀ (mem : Memory) (a v r s l : BitVec 32),
    (s >>> 26 = 0x28 → l >>> 26 = 0x24 →
      (storeVia s mem a v >>= fun m => loadVia l m a r) = .ok ((byteAt v 3).setWidth 32)) ∧
    (s >>> 26 = 0x28 → l >>> 26 = 0x20 →
      (storeVia s mem a v >>= fun m => loadVia l m a r) = .ok ((byteAt v 3).signExtend 32)) ∧
    (s >>> 26 = 0x29 → l >>> 26 = 0x25 → (storeVia s mem a v >>= fun m => loadVia l m a r) =
      .ok ((byteAt v 2 ++ byteAt v 3).setWidth 32)) ∧
    (s >>> 26 = 0x29 → l >>> 26 = 0x21 → (storeVia s mem a v >>= fun m => loadVia l m a r) =
      .ok ((byteAt v 2 ++ byteAt v 3).signExtend 32)) ∧
    (s >>> 26 = 0x2b → l >>> 26 = 0x23 → (storeVia s mem a v >>= fun m => loadVia l m a r) = .ok v) ∧
    (s >>> 26 = 0x2a → l >>> 26 = 0x22 → (storeVia s mem a v >>= fun m => loadVia l m a v) = .ok v) ∧
    (s >>> 26 = 0x2e → l >>> 26 = 0x26 → (storeVia s mem a v >>= fun m => loadVia l m a v) = .ok v)) ∧
  (∀ sl sr ll lr : BitVec 32, sl >>> 26 = 0x2a → sr >>> 26 = 0x2e → ll >>> 26 = 0x22 →
    lr >>> 26 = 0x26 → ∀ (mem : Memory) (A v r : BitVec 32),
    (storeVia sl mem A v >>= fun m₁ => storeVia sr m₁ (A + 3) v >>= fun m₂ =>
      loadVia ll m₂ A r >>= fun w => loadVia lr m₂ (A + 3) w) = .ok v)
  := by
  refine ⟨fun insn a v m => ?_, stores_read_back, fun _ _ _ _ hsl hsr hll hlr =>
    unaligned_round_trip hsl hsr hll hlr⟩
  obtain ⟨hlb, hlbu, hlh, hlhu, hlw⟩ := execute_loads insn a v m
  refine ⟨hlb, hlbu, hlh, hlhu, hlw, fun h => execute_lwl h a v m, fun h => execute_lwr h a v m,
    fun h => execute_sb h a v m, fun h => execute_sh h a v m, fun h => ?_,
    fun h => execute_swl h a v m, fun h => execute_swr h a v m⟩
  rw [execute_memory (by rw [h]; decide), h]
  rfl

/-- `swl` at `0x1001` and `swr` at `0x1004` of `0x11223344`, then `lwl` at `0x1001` and `lwr` at
`0x1004`, read `0x11223344` back across the words at `0x1000` and `0x1004`. -/
theorem unaligned_word_at_0x1001 :
  (storeVia 0xa8000000 (fun _ => 0) 0x1001 0x11223344 >>= fun m₁ =>
    storeVia 0xb8000000 m₁ (0x1001 + 3) 0x11223344 >>= fun m₂ =>
      loadVia 0x88000000 m₂ 0x1001 0 >>= fun w => loadVia 0x98000000 m₂ (0x1001 + 3) w) =
    .ok 0x11223344
  := byte_lanes.2.2 _ _ _ _ (by decide) (by decide) (by decide) (by decide) _ _ _ _

end MipsEmulator
