import MipsEmulator.State

/-!
# The value function

`execute` computes the value of an ALU, load or store instruction from the instruction
word, the operands `rs` and `rt` and the memory word `mem` that `mips_step` fetched. Its
arms are `executeSpecial` (opcode 0, and the immediate forms 8 to 0xe after they are
renamed to SPECIAL funct codes), `executeSpecial2` (opcode 0x1c), `executeLoad` (opcodes
0x20 to 0x27) and `executeStore` (0x28 and up). Each returns `none` where the source falls
through to its final `panic!`, whose message names the opcode as `execute` last set it.
-/

namespace MipsEmulator

/-- The loop `while rs & 0x80000000 != 0 { rs <<= 1; i += 1 }` of `clz`/`clo`, returning
`i`. It ends because each pass starts from a word with its top bit set, which the shift
makes smaller. -/
def leadingOnesLoop (rs i : BitVec 32) : BitVec 32 :=
  if h : rs &&& 0x80000000 ≠ 0 then leadingOnesLoop (rs <<< 1) (i + 1) else i
termination_by rs.toNat
decreasing_by
  rw [top_bit_ne_zero_iff] at h
  simp only [BitVec.toNat_shiftLeft, Nat.shiftLeft_eq]
  have := rs.isLt
  omega

/-- The funct code `execute` gives the ArithLogI opcodes 8 to 0xe. -/
def arithLogIFun (opcode fn : BitVec 32) : BitVec 32 :=
  if opcode = 8 then 0x20 -- addi
  else if opcode = 9 then 0x21 -- addiu
  else if opcode = 0xa then 0x2a -- slti
  else if opcode = 0xb then 0x2b -- sltiu
  else if opcode = 0xc then 0x24 -- andi
  else if opcode = 0xd then 0x25 -- ori
  else if opcode = 0xe then 0x26 -- xori
  else fn

/-- The R-type ArithLog `match fun` of `execute`. -/
def arithLog (fn rs rt : BitVec 32) : Option (BitVec 32) :=
  if fn = 0x20 ∨ fn = 0x21 then some (rs + rt) -- add or addu
  else if fn = 0x22 ∨ fn = 0x23 then some (rs - rt) -- sub or subu
  else if fn = 0x24 then some (rs &&& rt) -- and
  else if fn = 0x25 then some (rs ^^^ rt) -- xor
  else if fn = 0x27 then some (~~~(rs ||| rt)) -- nor
  else if fn = 0x2a then some (if rs.slt rt then 1 else 0) -- slt
  else if fn = 0x2b then some (if rs < rt then 1 else 0) -- sltu
  else none

/-- The `opcode == 0` arm of `execute`: the shifts, then the ArithLog codes. -/
def executeSpecial (insn fn rs rt : BitVec 32) : Option (BitVec 32) :=
  let shamt := (insn >>> 6) &&& 0x1f
  if fn < 0x20 then
    if 0x08 ≤ fn then some rs -- jr/jalr/div + others
    else if fn = 0x00 then some (wrappingShl rt shamt) -- sll
    else if fn = 0x02 then some (wrappingShr rt shamt) -- srl
    else if fn = 0x03 then some (signExtension (wrappingShr rt shamt) (32 - shamt)) -- sra
    else if fn = 0x04 then some (wrappingShl rt (rs &&& 0x1f)) -- sllv
    else if fn = 0x06 then some (wrappingShr rt (rs &&& 0x1f)) -- srlv
    else if fn = 0x07 then some (signExtension (wrappingShr rt rs) (32 - rs)) -- srav
    else arithLog fn rs rt
  else arithLog fn rs rt

/-- The SPECIAL2 arm of `execute`: `mul`, whose `i32` product wraps to the bits of the
`u32` product, and `clz`/`clo`. -/
def executeSpecial2 (fn rs rt : BitVec 32) : Option (BitVec 32) :=
  if fn = 2 then some (rs * rt)
  else if fn = 0x20 ∨ fn = 0x21 then some (leadingOnesLoop (if fn = 0x20 then ~~~rs else rs) 0)
  else none

/-- The loads of `execute`, for the opcodes 0x20 to 0x27. -/
def executeLoad (opcode rs rt mem : BitVec 32) : Option (BitVec 32) :=
  if opcode = 0x20 then -- lb
    some (signExtension (wrappingShr mem (24 - (rs &&& 3) * 8) &&& 0xff) 8)
  else if opcode = 0x21 then -- lh
    some (signExtension (wrappingShr mem (16 - (rs &&& 2) * 8) &&& 0xffff) 16)
  else if opcode = 0x22 then -- lwl
    let val := wrappingShl mem ((rs &&& 3) * 8)
    let mask := wrappingShl 0xffffffff ((rs &&& 3) * 8)
    some (rt &&& ~~~mask ||| val)
  else if opcode = 0x23 then some mem -- lw
  else if opcode = 0x24 then -- lbu
    some (wrappingShr mem (24 - (rs &&& 3) * 8) &&& 0xff)
  else if opcode = 0x25 then -- lhu
    some (wrappingShr mem (16 - (rs &&& 2) * 8) &&& 0xffff)
  else if opcode = 0x26 then -- lwr
    let val := wrappingShr mem (24 - (rs &&& 3) * 8)
    let mask := wrappingShr 0xffffffff (24 - (rs &&& 3) * 8)
    some (rt &&& ~~~mask ||| val)
  else none

/-- The stores of `execute`, for the opcodes from 0x28 on, with `ll` and `sc`. -/
def executeStore (opcode rs rt mem : BitVec 32) : Option (BitVec 32) :=
  if opcode = 0x28 then -- sb
    let val := wrappingShl (rt &&& 0xff) (24 - (rs &&& 3) * 8)
    let mask := 0xffffffff ^^^ wrappingShl 0xff (24 - (rs &&& 3) * 8)
    some (mem &&& mask ||| val)
  else if opcode = 0x29 then -- sh
    let val := wrappingShl (rt &&& 0xffff) (16 - (rs &&& 2) * 8)
    let mask := 0xffffffff ^^^ wrappingShl 0xffff (16 - (rs &&& 2) * 8)
    some (mem &&& mask ||| val)
  else if opcode = 0x2a then -- swl
    let val := wrappingShr rt ((rs &&& 3) * 8)
    let mask := wrappingShr 0xffffffff ((rs &&& 3) * 8)
    some (mem &&& ~~~mask ||| val)
  else if opcode = 0x2b then some rt -- sw
  else if opcode = 0x2e then -- swr
    let val := wrappingShl rt (24 - (rs &&& 3) * 8)
    let mask := wrappingShl 0xffffffff (24 - (rs &&& 3) * 8)
    some (mem &&& ~~~mask ||| val)
  else if opcode = 0x30 then some mem -- ll
  else if opcode = 0x38 then some rt -- lc
  else none

/-- The value `v`, or the final `panic!("invalid instruction, opcode: {}", opcode)`. -/
def orInvalidInstruction (opcode : BitVec 32) : Option (BitVec 32) → Except Fault (BitVec 32)
  | some v => .ok v
  | none => .error (.invalidInstruction opcode)

/-- `execute(insn, rs, rt, mem)`. The ArithLogI opcodes 8 to 0xe are renamed to opcode 0
with the funct code of their register form before the SPECIAL arm runs. -/
def execute (insn rs rt mem : BitVec 32) : Except Fault (BitVec 32) :=
  let opcode := insn >>> 26
  let fn := insn &&& 0x3f
  if opcode < 0x20 then
    let arithLogI := decide (8 ≤ opcode ∧ opcode < 0xf)
    let fn := if arithLogI then arithLogIFun opcode fn else fn
    let opcode := if arithLogI then 0 else opcode
    orInvalidInstruction opcode <|
      if opcode = 0 then executeSpecial insn fn rs rt
      else if opcode = 0xf then some (rt <<< 16) -- lui
      else if opcode = 0x1c then executeSpecial2 fn rs rt
      else none
  else if opcode < 0x28 then orInvalidInstruction opcode (executeLoad opcode rs rt mem)
  else orInvalidInstruction opcode (executeStore opcode rs rt mem)

end MipsEmulator
