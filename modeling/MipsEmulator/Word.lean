import Mathlib.Data.BitVec
import Mathlib.Data.Nat.Bitwise

/-!
# Words and bytes

The `u32` arithmetic of `state.rs` on `BitVec 32`, as a release build computes it: `+`, `-`
and `*` wrap, and a shift by `n` shifts by `n % 32` (`wrapping_shl`, `wrapping_shr`).
`sign_extension`, and the big-endian byte views `to_be_bytes` and `from_be_bytes` of
integers, which the preimage and hint paths use to move between words and byte strings.
-/

namespace MipsEmulator

/-- `x << n` on `u32` in a release build: the amount is taken modulo 32. -/
def wrappingShl (x n : BitVec 32) : BitVec 32 := x <<< (n.toNat % 32)

/-- `x >> n` on `u32` in a release build: the amount is taken modulo 32. -/
def wrappingShr (x n : BitVec 32) : BitVec 32 := x >>> (n.toNat % 32)

theorem wrappingShl_of_lt {x n : BitVec 32} (h : n.toNat < 32) :
  wrappingShl x n = x <<< n.toNat
  := by
  rw [wrappingShl, Nat.mod_eq_of_lt h]

theorem wrappingShr_of_lt {x n : BitVec 32} (h : n.toNat < 32) :
  wrappingShr x n = x >>> n.toNat
  := by
  rw [wrappingShr, Nat.mod_eq_of_lt h]

/-- `std::cmp::min` on `u32`. -/
def minU32 (a b : BitVec 32) : BitVec 32 := if a ≤ b then a else b

@[simp]
theorem toNat_minU32 (a b : BitVec 32) :
  (minU32 a b).toNat = min a.toNat b.toNat
  := by
  unfold minU32
  split <;> rename_i h <;> rw [BitVec.le_def] at h <;> omega

/-- `sign_extension(dat, idx)`: the low `idx` bits of `dat`, with every bit from `idx` up set
when `dat >> (idx - 1)` is not zero. -/
def signExtension (dat idx : BitVec 32) : BitVec 32 :=
  let isSigned : Bool := wrappingShr dat (idx - 1) != 0
  let signed := wrappingShl (wrappingShl 1 (32 - idx) - 1) idx
  let mask := wrappingShl 1 idx - 1
  if isSigned then dat &&& mask ||| signed else dat &&& mask

/-- The top bit of a word, as the loop of `clz`/`clo` tests it. -/
theorem top_bit_ne_zero_iff (x : BitVec 32) :
  x &&& 0x80000000 ≠ 0 ↔ 2 ^ 31 ≤ x.toNat
  := by
  have hx := x.isLt
  rw [Ne, BitVec.toNat_eq, BitVec.toNat_and,
    show (0x80000000 : BitVec 32).toNat = 2 ^ 31 from rfl, Nat.and_two_pow,
    Nat.testBit_to_div_mod]
  by_cases h : x.toNat / 2 ^ 31 % 2 = 1 <;> simp [h] <;> omega

/-! ### `sign_extension` -/

/-- The mask `(1 << m) - 1` has the bits below `m`. -/
theorem getLsbD_low_mask {m : Nat} (hm : m < 32) (i : Nat) :
  (1#32 <<< m - 1#32).getLsbD i = decide (i < m)
  := by
  have h1 : 1 ≤ 2 ^ m := Nat.one_le_two_pow
  have h2 : 2 ^ m < 2 ^ 32 := Nat.pow_lt_pow_right (by decide) hm
  have : (1#32 <<< m - 1#32).toNat = 2 ^ m - 1 := by
    simp [BitVec.toNat_sub, BitVec.toNat_shiftLeft, Nat.shiftLeft_eq]
    omega
  rw [BitVec.getLsbD, this, Nat.testBit_two_pow_sub_one]

/-- Below `2 ^ (k + 1)`, a word shifted right by `k` is not zero exactly when its bit `k` is
set: the test `is_signed` of `sign_extension` reads the sign bit of a value of `k + 1` bits. -/
theorem ushiftRight_ne_zero_iff {dat : BitVec 32} {k : Nat} (hdat : dat.toNat < 2 ^ (k + 1)) :
  dat >>> k ≠ 0 ↔ dat.getLsbD k = true
  := by
  have hq : dat.toNat / 2 ^ k < 2 := by
    rwa [Nat.div_lt_iff_lt_mul (Nat.two_pow_pos _), ← Nat.pow_succ']
  rw [Ne, BitVec.toNat_eq, BitVec.toNat_ushiftRight, Nat.shiftRight_eq_div_pow, BitVec.getLsbD,
    Nat.testBit_to_div_mod, decide_eq_true_eq]
  show ¬_ = 0 ↔ _
  generalize dat.toNat / 2 ^ k = q at hq ⊢
  omega

/-- On a value of `idx` bits, `0 < idx < 32`, `sign_extension` is the sign extension of those
bits to the word. -/
theorem signExtension_eq_signExtend {dat idx : BitVec 32} (h0 : 0 < idx.toNat)
    (h32 : idx.toNat < 32) (hdat : dat.toNat < 2 ^ idx.toNat) :
  signExtension dat idx = (dat.setWidth idx.toNat).signExtend 32
  := by
  have e1 : (idx - 1).toNat % 32 = idx.toNat - 1 := by bv_omega
  have e2 : (32 - idx).toNat % 32 = 32 - idx.toNat := by bv_omega
  simp only [signExtension, wrappingShl, wrappingShr, e1, e2, Nat.mod_eq_of_lt h32,
    show (1 : BitVec 32).toNat % 32 = 1 from rfl]
  generalize idx.toNat = k at *
  obtain ⟨j, rfl⟩ : ∃ j, k = j + 1 := ⟨k - 1, by omega⟩
  have hs : (dat >>> j != 0) = dat.getLsbD j := by
    rw [Bool.eq_iff_iff, bne_iff_ne, ushiftRight_ne_zero_iff hdat]
  ext i
  have hi := i.isLt
  simp only [Nat.add_sub_cancel, hs]
  have hm := @getLsbD_low_mask (j + 1) h32
  have hsg := @getLsbD_low_mask (31 - j) (by omega)
  cases hb : dat.getLsbD j <;> by_cases hlt : (i : Nat) < j + 1 <;>
    simp only [BitVec.getLsbD_or, BitVec.getLsbD_and, BitVec.getLsbD_shiftLeft,
      BitVec.getLsbD_signExtend, BitVec.getLsbD_setWidth, BitVec.msb_eq_getLsbD_last, hm, hsg, hlt,
      hb, ↓reduceIte, Bool.false_eq_true, BitVec.ofNat_eq_ofNat, Nat.reduceSubDiff, decide_True,
      decide_False, Bool.and_true, Bool.and_false, Bool.true_and, Bool.false_and, Bool.or_false,
      Bool.false_or, Bool.not_true, Bool.not_false, Bool.and_self, Fin.is_lt, Nat.add_one_sub_one,
      Nat.lt_add_one, decide_eq_true_eq]
  all_goals omega

/-- With `idx = 32` the shifts by `32 - idx` and `idx` are shifts by 0 in a release build, so
the mask and the sign bits are both 0. -/
theorem signExtension_thirtyTwo (dat : BitVec 32) : signExtension dat 32 = 0 := by
  simp [signExtension, wrappingShl, wrappingShr]

/-- `sign_extension` reads `idx` only through its shifts, that is modulo 32. -/
theorem signExtension_congr {dat idx idx' : BitVec 32} (h : idx.toNat % 32 = idx'.toNat % 32) :
  signExtension dat idx = signExtension dat idx'
  := by
  have e1 : (idx - 1).toNat % 32 = (idx' - 1).toNat % 32 := by bv_omega
  have e2 : (32 - idx).toNat % 32 = (32 - idx').toNat % 32 := by bv_omega
  simp only [signExtension, wrappingShl, wrappingShr, e1, e2, h]

/-- Shifting right logically by `n` and extending the sign of the `32 - n` bits left is the
arithmetic shift. -/
theorem setWidth_ushiftRight_signExtend (x : BitVec 32) {n : Nat} (hn : n < 32) :
  ((x >>> n).setWidth (32 - n)).signExtend 32 = x.sshiftRight n
  := by
  ext i
  have hi := i.isLt
  by_cases hlt : (i : Nat) < 32 - n
  · simp [BitVec.getLsbD_signExtend, BitVec.getLsbD_sshiftRight, hlt, show n + i < 32 by omega]
  · simp [BitVec.getLsbD_signExtend, BitVec.getLsbD_sshiftRight, BitVec.msb_eq_getLsbD_last, hlt,
      hi, show ¬n + i < 32 by omega, show n + (32 - n - 1) = 31 by omega,
      show 32 - n - 1 < 32 - n by omega]

/-- `sign_extension(rt >> s, 32 - s)`, the value of `sra` and `srav`, is the arithmetic shift of
`rt` by `s` modulo 32, except that for a shift by 0 modulo 32 it is 0. -/
theorem signExtension_shr (rt s : BitVec 32) :
  signExtension (wrappingShr rt s) (32 - s) =
    if s.toNat % 32 = 0 then 0 else rt.sshiftRight (s.toNat % 32)
  := by
  split
  · rw [signExtension_congr (show (32 - s).toNat % 32 = (32 : BitVec 32).toNat % 32 by bv_omega),
      signExtension_thirtyTwo]
  · have hn := Nat.mod_lt s.toNat (show 32 > 0 by decide)
    have hk : (32 - BitVec.ofNat 32 (s.toNat % 32)).toNat = 32 - s.toNat % 32 := by bv_omega
    have hdat : (rt >>> (s.toNat % 32)).toNat < 2 ^ (32 - s.toNat % 32) := by
      rw [BitVec.toNat_ushiftRight, Nat.shiftRight_eq_div_pow,
        Nat.div_lt_iff_lt_mul (Nat.two_pow_pos _), ← Nat.pow_add, Nat.sub_add_cancel hn.le]
      exact rt.isLt
    rw [signExtension_congr (show (32 - s).toNat % 32 =
        (32 - BitVec.ofNat 32 (s.toNat % 32)).toNat % 32 by bv_omega),
      wrappingShr, signExtension_eq_signExtend (by omega) (by omega) (hk ▸ hdat), hk,
      setWidth_ushiftRight_signExtend rt hn]

/-! ### Big-endian bytes -/

/-- `x.to_be_bytes()` for an unsigned integer `x` of `n` bytes: its bytes, most significant
first. -/
def toBeBytes (n x : Nat) : List (BitVec 8) :=
  List.ofFn fun i : Fin n => BitVec.ofNat 8 (x / 256 ^ (n - 1 - i))

/-- `u32::from_be_bytes`: the word whose bytes, most significant first, are `b`. -/
def fromBeBytes (b : List (BitVec 8)) : BitVec 32 :=
  BitVec.ofNat 32 (b.foldl (fun acc x => acc * 256 + x.toNat) 0)

@[simp]
theorem length_toBeBytes (n x : Nat) :
  (toBeBytes n x).length = n
  := List.length_ofFn _

theorem toBeBytes_four (x : Nat) :
  toBeBytes 4 x
    = [BitVec.ofNat 8 (x / 16777216), BitVec.ofNat 8 (x / 65536), BitVec.ofNat 8 (x / 256),
        BitVec.ofNat 8 x]
  := by
  simp [toBeBytes, List.ofFn_succ]

/-- Reading a word back from its big-endian bytes gives the word. -/
@[simp]
theorem fromBeBytes_toBeBytes (w : BitVec 32) :
  fromBeBytes (toBeBytes 4 w.toNat) = w
  := by
  have hw := w.isLt
  rw [toBeBytes_four, BitVec.toNat_eq]
  simp only [fromBeBytes, List.foldl, BitVec.toNat_ofNat]
  omega

end MipsEmulator
