import MipsEmulator.Execute

/-!
# The arithmetic and logic of `execute`

`execute` against the MIPS32 values of the ALU instructions. `mipsAluValue` gives the value
MIPS32 assigns to each register form, by its funct code: the sum and difference modulo
`2^32`, the bitwise `and`, `or`, `xor` and `nor`, and the signed and unsigned comparisons.
The immediate forms `addi` to `xori` are renamed to those funct codes, `lui` shifts its
immediate into the upper half, and `mul` keeps the low word of the signed product.

`execute` agrees with MIPS32 on all of them but two: its `match fun` answers the funct code
of `or` (`0x25`) with `rs ^ rt`, and has no arm for `xor` (`0x26`), so `or` and `ori` compute
the exclusive or, and `xor` and `xori` fall through to the final `panic!`.

The shifts shift by the `shamt` field or by `rs & 0x1f` as MIPS32 does, except the arithmetic
ones by 0: `sra` and `srav` call `sign_extension(rt >> s, 32 - s)`, and with `s = 0` that
masks with `(1 << 32) - 1`, which is 0 once the shift wraps, so they return 0 and not `rt`.

`clz` and `clo` count with the loop `while rs & 0x80000000 != 0 { rs <<= 1; i += 1 }`. It
runs once per leading one bit of its operand, at most 32 times, and returns that count: the
leading ones of `rs` for `clo`, of `!rs`, that is the leading zeros of `rs`, for `clz`.
-/

namespace MipsEmulator

/-- The funct codes of the ALU register forms: `add`, `addu`, `sub`, `subu`, `and`, `or`,
`xor`, `nor`, `slt` and `sltu`. -/
def aluFuncts : List (BitVec 32) := [0x20, 0x21, 0x22, 0x23, 0x24, 0x25, 0x26, 0x27, 0x2a, 0x2b]

/-- The immediate forms `addi`, `addiu`, `slti`, `sltiu`, `andi`, `ori` and `xori`, each with
the funct code of its register form. -/
def aluImmForms : List (BitVec 32 × BitVec 32) :=
  [(8, 0x20), (9, 0x21), (0xa, 0x2a), (0xb, 0x2b), (0xc, 0x24), (0xd, 0x25), (0xe, 0x26)]

/-- The MIPS32 value of the ALU instruction whose register form has funct code `fn`. -/
def mipsAluValue (fn rs rt : BitVec 32) : BitVec 32 :=
  if fn = 0x20 ∨ fn = 0x21 then rs + rt -- add, addu
  else if fn = 0x22 ∨ fn = 0x23 then rs - rt -- sub, subu
  else if fn = 0x24 then rs &&& rt -- and
  else if fn = 0x25 then rs ||| rt -- or
  else if fn = 0x26 then rs ^^^ rt -- xor
  else if fn = 0x27 then ~~~(rs ||| rt) -- nor
  else if fn = 0x2a then if rs.toInt < rt.toInt then 1 else 0 -- slt
  else if fn = 0x2b then if rs.toNat < rt.toNat then 1 else 0 -- sltu
  else 0

/-! ### The ALU arms of `execute` -/

/-- Opcode 0 runs the SPECIAL arm of `execute` on the funct code of the word. -/
theorem execute_opcode_zero {insn : BitVec 32} (h0 : insn >>> 26 = 0) (rs rt mem : BitVec 32) :
  execute insn rs rt mem = orInvalidInstruction 0 (executeSpecial insn (insn &&& 0x3f) rs rt)
  := by
  simp [execute, h0]

/-- A register form runs the `match fun` of `execute`. -/
theorem execute_rtype {insn : BitVec 32} (h0 : insn >>> 26 = 0) (hf : 0x20 ≤ insn &&& 0x3f)
    (rs rt mem : BitVec 32) :
  execute insn rs rt mem = orInvalidInstruction 0 (arithLog (insn &&& 0x3f) rs rt)
  := by
  rw [execute_opcode_zero h0, executeSpecial, if_neg (by bv_omega)]

/-- An immediate form runs the `match fun` of `execute` under the funct code of its register
form. -/
theorem execute_itype {insn op fn : BitVec 32} (hop : insn >>> 26 = op) (h : (op, fn) ∈ aluImmForms)
    (rs rt mem : BitVec 32) :
  execute insn rs rt mem = orInvalidInstruction 0 (arithLog fn rs rt)
  := by
  simp only [aluImmForms, List.mem_cons, Prod.mk.injEq, List.mem_nil_iff, or_false] at h
  rcases h with ⟨rfl, rfl⟩ | ⟨rfl, rfl⟩ | ⟨rfl, rfl⟩ | ⟨rfl, rfl⟩ | ⟨rfl, rfl⟩ | ⟨rfl, rfl⟩ |
    ⟨rfl, rfl⟩ <;> simp [execute, hop, arithLogIFun, executeSpecial]

/-- The `match fun` of `execute` on the ALU funct codes: the MIPS32 value, except that `or`
gives `rs ^ rt` and `xor` falls through to the `panic!`. -/
theorem arithLog_against_mips {fn : BitVec 32} (h : fn ∈ aluFuncts) (rs rt : BitVec 32) :
  orInvalidInstruction 0 (arithLog fn rs rt) =
    if fn = 0x25 then .ok (rs ^^^ rt)
    else if fn = 0x26 then .error (.invalidInstruction 0)
    else .ok (mipsAluValue fn rs rt)
  := by
  simp only [aluFuncts, List.mem_cons, List.mem_nil_iff, or_false] at h
  rcases h with rfl | rfl | rfl | rfl | rfl | rfl | rfl | rfl | rfl | rfl <;>
    simp [arithLog, mipsAluValue, orInvalidInstruction, BitVec.slt, BitVec.lt_def]

/-- `mul` keeps the low word of the signed product. -/
theorem ofInt_toInt_mul (rs rt : BitVec 32) : BitVec.ofInt 32 (rs.toInt * rt.toInt) = rs * rt :=
  BitVec.eq_of_toInt_eq (by simp)

/-- `execute` against the MIPS32 ALU values: on every register form and every immediate form
of the ALU instructions it returns the MIPS32 value, except that `or` and `ori` return
`rs ^ rt` and `xor` and `xori` abort; `lui` returns `rt << 16` and `mul` the low word of the
signed product. -/
theorem execute_against_mips_alu (insn rs rt mem : BitVec 32) :
  (∀ fn, (insn >>> 26 = 0 ∧ insn &&& 0x3f = fn ∧ fn ∈ aluFuncts ∨ (insn >>> 26, fn) ∈ aluImmForms) →
    execute insn rs rt mem =
      if fn = 0x25 then .ok (rs ^^^ rt)
      else if fn = 0x26 then .error (.invalidInstruction 0)
      else .ok (mipsAluValue fn rs rt)) ∧
  (insn >>> 26 = 0xf → execute insn rs rt mem = .ok (rt <<< 16)) ∧
  (insn >>> 26 = 0x1c → insn &&& 0x3f = 2 →
    execute insn rs rt mem = .ok (BitVec.ofInt 32 (rs.toInt * rt.toInt)))
  := by
  refine ⟨fun fn h => ?_, fun h => by simp [execute, h, orInvalidInstruction], fun h h2 => ?_⟩
  · rcases h with ⟨h0, rfl, hf⟩ | hi
    · have h20 : 0x20 ≤ insn &&& 0x3f := by
        simp only [aluFuncts, List.mem_cons, List.mem_nil_iff, or_false] at hf
        rcases hf with h | h | h | h | h | h | h | h | h | h <;> rw [h] <;> decide
      rw [execute_rtype h0 h20, arithLog_against_mips hf]
    · have hf : fn ∈ aluFuncts := by
        simp only [aluImmForms, List.mem_cons, Prod.mk.injEq, List.mem_nil_iff, or_false] at hi
        rcases hi with ⟨-, rfl⟩ | ⟨-, rfl⟩ | ⟨-, rfl⟩ | ⟨-, rfl⟩ | ⟨-, rfl⟩ | ⟨-, rfl⟩ | ⟨-, rfl⟩ <;>
          decide
      rw [execute_itype rfl hi, arithLog_against_mips hf]
  · simp_all [execute, executeSpecial2, orInvalidInstruction, ofInt_toInt_mul]

/-- `or $3, $1, $2` on `rs = rt = 1` returns 0, where MIPS32 gives `1 | 1 = 1`. -/
theorem execute_or_one_one :
  execute 0x00221825 1 1 0 = .ok 0 ∧ mipsAluValue 0x25 1 1 = 1
  := ⟨((execute_against_mips_alu 0x00221825 1 1 0).1 0x25 (.inl ⟨rfl, rfl, by decide⟩)).trans rfl,
    by decide⟩

/-! ### Shifts -/

theorem toNat_and_1f (x : BitVec 32) : (x &&& 0x1f).toNat = x.toNat % 32 := by
  rw [BitVec.toNat_and]
  exact Nat.and_pow_two_sub_one_eq_mod x.toNat 5

/-- The shifts of `execute` by the `shamt` field `s` and by `rs & 0x1f`: `sll`, `srl`, `sllv`
and `srlv` shift as MIPS32 does, and `sra` and `srav` shift arithmetically for an amount other
than 0 and return 0 for the amount 0. -/
theorem execute_shifts (insn rs rt mem : BitVec 32) (h0 : insn >>> 26 = 0) :
  (insn &&& 0x3f = 0 → execute insn rs rt mem = .ok (rt <<< ((insn >>> 6) &&& 0x1f).toNat)) ∧
  (insn &&& 0x3f = 2 → execute insn rs rt mem = .ok (rt >>> ((insn >>> 6) &&& 0x1f).toNat)) ∧
  (insn &&& 0x3f = 3 → execute insn rs rt mem =
    .ok (if (insn >>> 6) &&& 0x1f = 0 then 0 else rt.sshiftRight ((insn >>> 6) &&& 0x1f).toNat)) ∧
  (insn &&& 0x3f = 4 → execute insn rs rt mem = .ok (rt <<< (rs &&& 0x1f).toNat)) ∧
  (insn &&& 0x3f = 6 → execute insn rs rt mem = .ok (rt >>> (rs &&& 0x1f).toNat)) ∧
  (insn &&& 0x3f = 7 → execute insn rs rt mem =
    .ok (if rs &&& 0x1f = 0 then 0 else rt.sshiftRight (rs &&& 0x1f).toNat))
  := by
  have hsh := toNat_and_1f (insn >>> 6)
  have hrs := toNat_and_1f rs
  have hs32 : ((insn >>> 6) &&& 0x1f).toNat < 32 := by omega
  have hr32 : (rs &&& 0x1f).toNat < 32 := by omega
  have hz : ∀ x : BitVec 32, x.toNat = 0 ↔ x = 0 := fun x => by rw [BitVec.toNat_eq]; rfl
  refine ⟨fun hf => ?_, fun hf => ?_, fun hf => ?_, fun hf => ?_, fun hf => ?_, fun hf => ?_⟩ <;>
  · rw [execute_opcode_zero h0, hf]
    simp only [executeSpecial, signExtension_shr]
    simp only [wrappingShl_of_lt hs32, wrappingShr_of_lt hs32, wrappingShl_of_lt hr32,
      wrappingShr_of_lt hr32, Nat.mod_eq_of_lt hs32, ← hrs, hz]
    simp [orInvalidInstruction]

/-- `sra $3, $2, 0` on `rt = 5` returns 0, where MIPS32 returns `rt`. -/
theorem execute_sra_by_zero : execute 0x00021803 0 5 0 = .ok 0 :=
  ((execute_shifts 0x00021803 0 5 0 (by decide)).2.2.1 (by decide)).trans
    (by rw [if_pos (by decide)])

/-! ### The leading-bit scan of `clz` and `clo` -/

/-- `n` is the length of the run of bits equal to `b` at the top of `x`: its `n` most
significant bits are `b`, and the next one is not, unless the run fills the word. -/
def LeadingRun (b : Bool) (x : BitVec 32) (n : Nat) : Prop :=
  n ≤ 32 ∧ (∀ j < n, x.getMsbD j = b) ∧ (n < 32 → x.getMsbD n = !b)

instance (b : Bool) (x : BitVec 32) (n : Nat) : Decidable (LeadingRun b x n) :=
  inferInstanceAs (Decidable (_ ∧ _ ∧ _))

theorem getMsbD_not_of_lt (x : BitVec 32) {j : Nat} (hj : j < 32) :
  (~~~x).getMsbD j = !x.getMsbD j
  := by
  simp [BitVec.getMsbD_eq_getLsbD, hj, show 31 - j < 32 by omega]

/-- The complement turns a leading run of `b` into a leading run of `!b` of the same length. -/
theorem leadingRun_not {b : Bool} {x : BitVec 32} {n : Nat} :
  LeadingRun b (~~~x) n ↔ LeadingRun (!b) x n
  := by
  refine and_congr_right fun hn =>
    and_congr (forall₂_congr fun j hj => ?_) (imp_congr_right fun h => ?_)
  · rw [getMsbD_not_of_lt x (by omega), Bool.not_eq_eq_eq_not]
  · rw [getMsbD_not_of_lt x h, Bool.not_eq_eq_eq_not, Bool.not_not]

/-- A word has one leading run of each bit. -/
theorem LeadingRun.unique {b : Bool} {x : BitVec 32} {m n : Nat} (hm : LeadingRun b x m)
    (hn : LeadingRun b x n) :
  m = n
  := by
  have shorter : ∀ {m n}, LeadingRun b x m → LeadingRun b x n → ¬m < n := fun hm hn h => by
    simpa using (hn.2.1 _ h).symm.trans (hm.2.2 (by have := hn.1; omega))
  exact Nat.le_antisymm (not_lt.mp (shorter hn hm)) (not_lt.mp (shorter hm hn))

/-- The loop's test `rs & 0x80000000 != 0` reads the top bit. -/
theorem top_bit_iff_msb (x : BitVec 32) : x &&& 0x80000000 ≠ 0 ↔ x.msb = true := by
  rw [top_bit_ne_zero_iff, BitVec.msb_eq_decide]
  simp

/-- After `j` passes the loop tests bit `j` of the word it started from. -/
theorem top_bit_shiftLeft_iff (x : BitVec 32) (j : Nat) :
  x <<< j &&& 0x80000000 ≠ 0 ↔ x.getMsbD j = true
  := by
  rw [top_bit_iff_msb, BitVec.msb_shiftLeft]

/-- The loop adds to `i` the length of the leading run of ones of `rs`. -/
theorem leadingOnesLoop_spec (x i : BitVec 32) :
  ∃ n, LeadingRun true x n ∧ leadingOnesLoop x i = i + BitVec.ofNat 32 n
  := by
  induction x, i using leadingOnesLoop.induct with
  | case1 x i h ih =>
    obtain ⟨n, ⟨-, hrun, hend⟩, hloop⟩ := ih
    have h31 : n < 32 := by
      by_contra h32
      simpa using hrun 31 (by omega)
    refine ⟨n + 1, ⟨h31, fun j hj => ?_, fun _ => by simpa using hend h31⟩, ?_⟩
    · cases j with
      | zero => exact (top_bit_iff_msb x).mp h
      | succ j => simpa using hrun j (by omega)
    · rw [leadingOnesLoop, dif_pos h, hloop]
      bv_omega
  | case2 x i h =>
    refine ⟨0, ⟨by omega, fun j hj => absurd hj (Nat.not_lt_zero j), fun _ => ?_⟩, ?_⟩
    · simpa [BitVec.msb] using (top_bit_iff_msb x).not.mp h
    · rw [leadingOnesLoop, dif_neg h]
      simp

/-- Along a leading run of ones of length `n` the loop's test holds for `n` passes and fails
at the next. -/
theorem LeadingRun.guard {x : BitVec 32} {n : Nat} (h : LeadingRun true x n) :
  (∀ j < n, x <<< j &&& 0x80000000 ≠ 0) ∧ x <<< n &&& 0x80000000 = 0
  := by
  refine ⟨fun j hj => (top_bit_shiftLeft_iff x j).mpr (h.2.1 j hj), ?_⟩
  rw [← not_ne_iff, top_bit_shiftLeft_iff]
  rcases Nat.lt_or_ge n 32 with hn | hn
  · simp [h.2.2 hn]
  · simp [BitVec.getMsbD_ge x n hn]

/-- `clz` and `clo` run the loop on `!rs` and on `rs`. -/
theorem execute_scan {insn : BitVec 32} (h : insn >>> 26 = 0x1c)
    (hf : insn &&& 0x3f = 0x20 ∨ insn &&& 0x3f = 0x21) (rs rt mem : BitVec 32) :
  execute insn rs rt mem = .ok (leadingOnesLoop (if insn &&& 0x3f = 0x20 then ~~~rs else rs) 0)
  := by
  rcases hf with hf | hf <;> simp_all [execute, executeSpecial2, orInvalidInstruction]

/-- The loop of `clz`/`clo` on a word `x` passes its test exactly `n` times, for the length
`n ≤ 32` of the leading run of ones of `x`, and returns `n`. So `clo` returns the number of
leading ones of its operand and `clz` the number of leading zeros, both in `[0, 32]`, with
`clz(0) = 32` and `clo(0xffffffff) = 32`. -/
theorem leading_bit_scan (x rt mem : BitVec 32) :
  (∃ n, LeadingRun true x n ∧ (∀ j < n, x <<< j &&& 0x80000000 ≠ 0) ∧
    x <<< n &&& 0x80000000 = 0 ∧ leadingOnesLoop x 0 = BitVec.ofNat 32 n) ∧
  (∀ insn : BitVec 32, insn >>> 26 = 0x1c →
    (insn &&& 0x3f = 0x21 →
      ∃ n, LeadingRun true x n ∧ execute insn x rt mem = .ok (BitVec.ofNat 32 n)) ∧
    (insn &&& 0x3f = 0x20 →
      ∃ n, LeadingRun false x n ∧ execute insn x rt mem = .ok (BitVec.ofNat 32 n)) ∧
    (insn &&& 0x3f = 0x20 → execute insn 0 rt mem = .ok 32) ∧
    (insn &&& 0x3f = 0x21 → execute insn 0xffffffff rt mem = .ok 32))
  := by
  have loop : ∀ y : BitVec 32, ∃ n, LeadingRun true y n ∧ leadingOnesLoop y 0 = BitVec.ofNat 32 n :=
    fun y => by simpa using leadingOnesLoop_spec y 0
  have zeros : LeadingRun false 0 32 :=
    ⟨le_rfl, fun j _ => BitVec.getMsbD_zero, fun h => absurd h (lt_irrefl _)⟩
  have ones : LeadingRun true 0xffffffff 32 := (@leadingRun_not true 0 32).mpr zeros
  refine ⟨?_, fun insn h => ⟨fun hf => ?_, fun hf => ?_, fun hf => ?_, fun hf => ?_⟩⟩
  · obtain ⟨n, hn, hloop⟩ := loop x
    exact ⟨n, hn, hn.guard.1, hn.guard.2, hloop⟩
  · obtain ⟨n, hn, hloop⟩ := loop x
    exact ⟨n, hn, by rw [execute_scan h (.inr hf), if_neg (by rw [hf]; decide), hloop]⟩
  · obtain ⟨n, hn, hloop⟩ := loop (~~~x)
    exact ⟨n, leadingRun_not.mp hn, by rw [execute_scan h (.inl hf), if_pos hf, hloop]⟩
  · obtain ⟨n, hn, hloop⟩ := loop (~~~0)
    rw [execute_scan h (.inl hf), if_pos hf, hloop, (leadingRun_not.mp hn).unique zeros]
    rfl
  · obtain ⟨n, hn, hloop⟩ := loop 0xffffffff
    rw [execute_scan h (.inr hf), if_neg (by rw [hf]; decide), hloop, hn.unique ones]
    rfl

/-- `clz $3, $2` on `0x10000` counts the 15 zero bits above bit 16. -/
theorem execute_clz_bit_sixteen : execute 0x70431820 0x10000 0 0 = .ok 15 := by
  obtain ⟨n, hn, hex⟩ := ((leading_bit_scan 0x10000 0 0).2 0x70431820 (by decide)).2.1 (by decide)
  rw [hex, hn.unique (by decide : LeadingRun false 0x10000 15)]
  rfl

end MipsEmulator
