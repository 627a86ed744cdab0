import Mathlib
import MipsEmulator.Gadgets

/-!
# Gadget expressions of the circuits

The `expr` builders of `circuit_gadgets/util.rs` build halo2 `Expression<F>` trees with the
operators of `halo2_proofs::plonk::Expression` (`+` a `Sum`, `-` a `Sum` with the right operand
`Negated`, `*` a `Product`, `* F` a `Scaled`) from the constants `n.expr()` of `i32`; the
`value` functions of the same modules compute the witness. `Expression.evaluate` evaluates a
tree under an assignment of its cell queries.

* Every builder evaluates, under every assignment, to its `value` function of the evaluated
  inputs, so a constraint that equates a cell with a gadget holds exactly when the cell holds
  the gadget's value.
* On cells that hold bits, the boolean builders compute on the constraint side what their
  doc comments promise.
* `expr_from_bytes` evaluates, on cells holding bytes, to the number whose little-endian bytes
  they hold, and when `256 ^ n` is at most the characteristic of the field two strings of `n`
  bytes recompose to one field element only when they are equal.
-/

namespace MipsEmulator

/-- halo2's `plonk::Expression<F>` with the constructors the gadgets build: constants, queries
of a cell (a column, of any kind, at a rotation), negation, sums, products and scaling by a
constant. Selectors and challenges, which no builder of `util.rs` makes, are left out. -/
inductive Expression (F : Type) where
  | constant (c : F)
  | query (column : Nat) (rotation : Int)
  | negated (e : Expression F)
  | sum (a b : Expression F)
  | product (a b : Expression F)
  | scaled (e : Expression F) (c : F)
deriving Repr, DecidableEq

namespace Expression

variable {F : Type}

/-- `impl Add for Expression<F>`: `Sum(self, rhs)`. -/
instance : Add (Expression F) := ⟨sum⟩

/-- `impl Neg for Expression<F>`: `Negated(self)`. -/
instance : Neg (Expression F) := ⟨negated⟩

/-- `impl Sub for Expression<F>`: `Sum(self, Negated(rhs))`. -/
instance : Sub (Expression F) := ⟨fun a b => sum a (negated b)⟩

/-- `impl Mul for Expression<F>`: `Product(self, rhs)`. -/
instance : Mul (Expression F) := ⟨product⟩

variable [Field F]

/-- `Expression::evaluate`, reading each cell query from `assign` and computing in `F`. -/
def evaluate (assign : Nat → Int → F) : Expression F → F
  | constant c => c
  | query column rotation => assign column rotation
  | negated e => -e.evaluate assign
  | sum a b => a.evaluate assign + b.evaluate assign
  | product a b => a.evaluate assign * b.evaluate assign
  | scaled e c => e.evaluate assign * c

variable (assign : Nat → Int → F)

@[simp]
theorem evaluate_add (a b : Expression F) :
  (a + b).evaluate assign = a.evaluate assign + b.evaluate assign
  := rfl

@[simp]
theorem evaluate_sub (a b : Expression F) :
  (a - b).evaluate assign = a.evaluate assign - b.evaluate assign
  := (sub_eq_add_neg _ _).symm

@[simp]
theorem evaluate_mul (a b : Expression F) :
  (a * b).evaluate assign = a.evaluate assign * b.evaluate assign
  := rfl

/-- A left fold of a builder that evaluates pointwise evaluates to the left fold of the
evaluated inputs. -/
theorem evaluate_foldl {op : Expression F → Expression F → Expression F} {f : F → F → F}
    (hop : ∀ a b, (op a b).evaluate assign = f (a.evaluate assign) (b.evaluate assign))
    (acc : Expression F) (es : List (Expression F)) :
  (es.foldl op acc).evaluate assign = (es.map (evaluate assign)).foldl f (acc.evaluate assign)
  := by
  induction es generalizing acc with
  | nil => rfl
  | cons e es ih => simp only [List.foldl, List.map, ih, hop]

end Expression

open Expression

variable {F : Type} [Field F] (assign : Nat → Int → F)

/-! ### The builders -/

/-- `impl Expr<F> for i32`: the constant `F::from(|n|)`, negated for a negative `n`. -/
def i32Expr (n : Int) : Expression F :=
  .constant ((n.natAbs : F) * if n < 0 then -1 else 1)

/-- `sum::expr`: the sum of the inputs, folded from `0.expr()`. -/
def sumExpr (inputs : List (Expression F)) : Expression F :=
  inputs.foldl (fun acc input => acc + input) (i32Expr 0)

/-- `sum::value`: the sum of the bytes as field elements, folded from `F::ZERO`. -/
def sumValue (values : List (BitVec 8)) : F :=
  values.foldl (fun acc value => acc + (value.toNat : F)) 0

/-- `and::expr`: the product of the inputs, folded from `1.expr()`. -/
def andExpr (inputs : List (Expression F)) : Expression F :=
  inputs.foldl (fun acc input => acc * input) (i32Expr 1)

/-- `not::expr`. -/
def notExpr (b : Expression F) : Expression F := i32Expr 1 - b

/-- `or::expr`: the `not` of the `and` of the negated inputs. -/
def orExpr (inputs : List (Expression F)) : Expression F :=
  notExpr (andExpr (inputs.map notExpr))

/-- `xor::expr`. -/
def xorExpr (a b : Expression F) : Expression F := a + b - i32Expr 2 * a * b

/-- `xor::value`, with `F::from(2u64)` as `2`. -/
def xorValue (a b : F) : F := a + b - 2 * a * b

/-- `select::expr`. -/
def selectExpr (selector whenTrue whenFalse : Expression F) : Expression F :=
  selector * whenTrue + (i32Expr 1 - selector) * whenFalse

/-- `expr_from_bytes`: the loop over the bytes adds each byte times `multiplier` (the `Mul<F>`
of an expression, a `Scaled`) to `value`, and multiplies `multiplier` by `F::from(256)`. -/
def exprFromBytes (bytes : List (Expression F)) : Expression F :=
  (bytes.foldl (fun (value, multiplier) byte => (value + .scaled byte multiplier, multiplier * 256))
    (i32Expr 0, 1)).1

/-! ### Evaluation -/

@[simp]
theorem evaluate_i32Expr (n : Int) : (i32Expr n : Expression F).evaluate assign = n := by
  rw [i32Expr, evaluate]
  split_ifs with hn
  · rw [← Int.cast_natCast, Int.ofNat_natAbs_of_nonpos hn.le, Int.cast_neg, neg_mul_neg, mul_one]
  · rw [← Int.cast_natCast, Int.natAbs_of_nonneg (not_lt.mp hn), mul_one]

theorem evaluate_notExpr (b : Expression F) :
  (notExpr b).evaluate assign = notValue (b.evaluate assign)
  := by
  rw [notExpr, evaluate_sub, evaluate_i32Expr, Int.cast_one, notValue]

theorem evaluate_andExpr (es : List (Expression F)) :
  (andExpr es).evaluate assign = andValue (es.map (evaluate assign))
  := by
  rw [andExpr, evaluate_foldl assign (fun _ _ => rfl), evaluate_i32Expr, Int.cast_one, andValue]

theorem evaluate_orExpr (es : List (Expression F)) :
  (orExpr es).evaluate assign = orValue (es.map (evaluate assign))
  := by
  rw [orExpr, evaluate_notExpr, evaluate_andExpr, orValue, List.map_map, List.map_map]
  congr 3
  funext b
  exact evaluate_notExpr assign b

theorem evaluate_sumExpr (es : List (Expression F)) :
  (sumExpr es).evaluate assign = (es.map (evaluate assign)).sum
  := by
  rw [sumExpr, evaluate_foldl assign (fun _ _ => rfl), evaluate_i32Expr, Int.cast_zero,
    List.sum_eq_foldl]

theorem sumValue_eq_sum (values : List (BitVec 8)) :
  (sumValue values : F) = (values.map fun v => (v.toNat : F)).sum
  := by
  rw [sumValue, List.sum_eq_foldl, List.foldl_map]

theorem evaluate_xorExpr (a b : Expression F) :
  (xorExpr a b).evaluate assign = xorValue (a.evaluate assign) (b.evaluate assign)
  := by
  rw [xorExpr, evaluate_sub, evaluate_add, evaluate_mul, evaluate_mul, evaluate_i32Expr,
    Int.cast_ofNat, xorValue]

theorem evaluate_selectExpr (s t f : Expression F) :
  (selectExpr s t f).evaluate assign =
    selectValue (s.evaluate assign) (t.evaluate assign) (f.evaluate assign)
  := by
  rw [selectExpr, evaluate_add, evaluate_mul, evaluate_mul, evaluate_sub, evaluate_i32Expr,
    Int.cast_one, selectValue]

/-- The constraint side of each gadget of `util.rs` agrees with its witness side: under every
assignment of the cells, `n.expr()` evaluates to `n`, `sum::expr` to the sum of its evaluated
inputs, which `sum::value` computes for bytes, and `and::expr`, `or::expr`, `not::expr`,
`xor::expr` and `select::expr` to `and::value`, `or::value`, `not::value`, `xor::value` and
`select::value` of their evaluated inputs. -/
theorem gadget_exprs_evaluate :
  (∀ n : Int, (i32Expr n : Expression F).evaluate assign = n) ∧
  (∀ es : List (Expression F), (sumExpr es).evaluate assign = (es.map (evaluate assign)).sum) ∧
  (∀ bs : List (BitVec 8), (sumValue bs : F) = (bs.map fun b => (b.toNat : F)).sum) ∧
  (∀ es : List (Expression F), (andExpr es).evaluate assign = andValue (es.map (evaluate assign))) ∧
  (∀ es : List (Expression F), (orExpr es).evaluate assign = orValue (es.map (evaluate assign))) ∧
  (∀ b : Expression F, (notExpr b).evaluate assign = notValue (b.evaluate assign)) ∧
  (∀ a b : Expression F,
    (xorExpr a b).evaluate assign = xorValue (a.evaluate assign) (b.evaluate assign)) ∧
  (∀ s t f : Expression F, (selectExpr s t f).evaluate assign =
    selectValue (s.evaluate assign) (t.evaluate assign) (f.evaluate assign))
  := ⟨evaluate_i32Expr assign, evaluate_sumExpr assign, sumValue_eq_sum, evaluate_andExpr assign,
    evaluate_orExpr assign, evaluate_notExpr assign, evaluate_xorExpr assign,
    evaluate_selectExpr assign⟩

/-! ### Bits -/

theorem IsBool.xorValue {a b : F} (ha : IsBool a) (hb : IsBool b) :
  IsBool (xorValue a b) ∧ (xorValue a b = 1 ↔ a ≠ b)
  := by
  rcases ha with rfl | rfl <;> rcases hb with rfl | rfl <;> norm_num [MipsEmulator.xorValue, IsBool]

theorem IsBool.selectValue {s : F} (hs : IsBool s) (t f : F) :
  selectValue s t f = t ∧ s = 1 ∨ selectValue s t f = f ∧ s = 0
  := by
  rcases hs with rfl | rfl
  · exact .inr ⟨by simp [MipsEmulator.selectValue], rfl⟩
  · exact .inl ⟨by simp [MipsEmulator.selectValue], rfl⟩

/-- On cells that hold bits, in every field, the boolean builders compute what their doc
comments promise: `and::expr` evaluates to a bit that is 1 exactly when every input is 1,
`or::expr` to one that is 1 exactly when some input is 1, `not::expr` to one that is 1 exactly
when its input is 0, `xor::expr` to one that is 1 exactly when its two inputs differ, and
`select::expr` to `when_true` for the selector 1 and to `when_false` for the selector 0. -/
theorem boolean_exprs_on_bits {es : List (Expression F)} {a b s : Expression F}
    (hes : ∀ x ∈ es, IsBool (x.evaluate assign)) (ha : IsBool (a.evaluate assign))
    (hb : IsBool (b.evaluate assign)) (hs : IsBool (s.evaluate assign)) (t f : Expression F) :
  (IsBool ((andExpr es).evaluate assign) ∧
    ((andExpr es).evaluate assign = 1 ↔ ∀ x ∈ es, x.evaluate assign = 1)) ∧
  (IsBool ((orExpr es).evaluate assign) ∧
    ((orExpr es).evaluate assign = 1 ↔ ∃ x ∈ es, x.evaluate assign = 1)) ∧
  (IsBool ((notExpr a).evaluate assign) ∧
    ((notExpr a).evaluate assign = 1 ↔ a.evaluate assign = 0)) ∧
  (IsBool ((xorExpr a b).evaluate assign) ∧
    ((xorExpr a b).evaluate assign = 1 ↔ a.evaluate assign ≠ b.evaluate assign)) ∧
  ((selectExpr s t f).evaluate assign = t.evaluate assign ∧ s.evaluate assign = 1 ∨
    (selectExpr s t f).evaluate assign = f.evaluate assign ∧ s.evaluate assign = 0)
  := by
  have hes' : ∀ x ∈ es.map (evaluate assign), IsBool x := List.forall_mem_map.mpr hes
  obtain ⟨hand, handiff⟩ := andValue_bool hes'
  obtain ⟨hor, horiff⟩ := orValue_bool hes'
  rw [evaluate_andExpr, evaluate_orExpr, evaluate_notExpr, evaluate_xorExpr, evaluate_selectExpr]
  refine ⟨⟨hand, handiff.trans List.forall_mem_map⟩, ⟨hor, horiff.trans ?_⟩,
    ⟨ha.notValue, notValue_eq_one_iff ha⟩, ha.xorValue hb, hs.selectValue _ _⟩
  simp only [List.mem_map, exists_exists_and_eq_and]

/-- `0 xor 1` on the constraint side, with the selector `1`: each hypothesis holds, so the
contracts apply. -/
theorem boolean_exprs_on_one_zero :
  ((∀ x ∈ [Expression.constant (1 : ℚ), .constant 0], IsBool (x.evaluate fun _ _ => 0)) ∧
    IsBool ((Expression.constant (0 : ℚ)).evaluate fun _ _ => 0) ∧
    IsBool ((Expression.constant (1 : ℚ)).evaluate fun _ _ => 0)) ∧
  (xorExpr (.constant (0 : ℚ)) (.constant 1)).evaluate (fun _ _ => 0) = 1 ∧
  (orExpr [.constant (1 : ℚ), .constant 0]).evaluate (fun _ _ => 0) = 1
  := by
  have hes : ∀ x ∈ [Expression.constant (1 : ℚ), .constant 0],
      IsBool (x.evaluate fun _ _ => 0) := by
    simp [IsBool, Expression.evaluate]
  have h0 : IsBool ((Expression.constant (0 : ℚ)).evaluate fun _ _ => 0) := .inl rfl
  have h1 : IsBool ((Expression.constant (1 : ℚ)).evaluate fun _ _ => 0) := .inr rfl
  have h := boolean_exprs_on_bits (fun _ _ => (0 : ℚ)) hes h0 h1 h1 (.constant 0) (.constant 0)
  refine ⟨⟨hes, h0, h1⟩, h.2.2.2.1.2.mpr (by simp [Expression.evaluate]),
    h.2.1.2.mpr ⟨_, List.mem_cons_self _ _, rfl⟩⟩

/-! ### Bytes -/

/-- The number whose little-endian bytes are `bytes`. -/
def leValue (bytes : List (BitVec 8)) : Nat := Nat.ofDigits 256 (bytes.map BitVec.toNat)

theorem leValue_cons (b : BitVec 8) (bs : List (BitVec 8)) :
  leValue (b :: bs) = b.toNat + 256 * leValue bs
  := rfl

theorem leValue_lt (bs : List (BitVec 8)) : leValue bs < 256 ^ bs.length := by
  rw [leValue, ← List.length_map bs BitVec.toNat]
  refine Nat.ofDigits_lt_base_pow_length (by norm_num) fun x hx => ?_
  obtain ⟨b, -, rfl⟩ := List.mem_map.mp hx
  exact b.isLt

/-- Byte strings of one length with one little-endian value are equal. -/
theorem leValue_injective {bs bs' : List (BitVec 8)} (hl : bs.length = bs'.length)
    (h : leValue bs = leValue bs') :
  bs = bs'
  := by
  induction bs generalizing bs' with
  | nil => cases bs' with
    | nil => rfl
    | cons => cases hl
  | cons b bs ih => cases bs' with
    | nil => cases hl
    | cons b' bs' =>
      rw [leValue_cons, leValue_cons] at h
      have := b.isLt
      have := b'.isLt
      rw [ih (Nat.succ.inj hl) (by omega), BitVec.eq_of_toNat_eq (show b.toNat = b'.toNat by omega)]

/-- The loop of `expr_from_bytes` from any `value` and `multiplier`, over cells holding the
digits `ds`. -/
theorem evaluate_exprFromBytes_foldl {es : List (Expression F)} {ds : List Nat}
    (he : es.map (evaluate assign) = ds.map Nat.cast) (value : Expression F) (multiplier : F) :
  (es.foldl (fun (value, multiplier) byte => (value + .scaled byte multiplier, multiplier * 256))
      (value, multiplier)).1.evaluate assign =
    value.evaluate assign + multiplier * Nat.ofDigits (256 : F) ds
  := by
  induction es generalizing ds value multiplier with
  | nil =>
    cases ds with
    | nil => simp [Nat.ofDigits]
    | cons => cases he
  | cons e es ih =>
    cases ds with
    | nil => cases he
    | cons d ds =>
      obtain ⟨hd, hes⟩ := List.cons.inj he
      rw [List.foldl, ih hes, evaluate_add, evaluate, hd, Nat.ofDigits]
      ring

theorem evaluate_exprFromBytes {es : List (Expression F)} {bs : List (BitVec 8)}
    (he : es.map (evaluate assign) = bs.map fun b => (b.toNat : F)) :
  (exprFromBytes es).evaluate assign = (leValue bs : F)
  := by
  have he' : es.map (evaluate assign) = (bs.map BitVec.toNat).map Nat.cast := by
    rw [he, List.map_map]
    rfl
  rw [exprFromBytes, evaluate_exprFromBytes_foldl assign he', evaluate_i32Expr, Int.cast_zero,
    zero_add, one_mul, leValue, Nat.coe_ofDigits, Nat.cast_ofNat]

/-- `expr_from_bytes` on cells that hold bytes evaluates to the number whose little-endian
bytes they hold. When the characteristic `p` of the field is 0 or at least `256 ^ n`, two
strings of `n` bytes, under any two assignments, recompose to one field element exactly when
they are equal: the constraint `expr_from_bytes(bytes) = x` fixes the bytes. -/
theorem exprFromBytes_little_endian {p : Nat} [CharP F p] {assign' : Nat → Int → F}
    {es es' : List (Expression F)} {bs bs' : List (BitVec 8)}
    (he : es.map (evaluate assign) = bs.map fun b => (b.toNat : F))
    (he' : es'.map (evaluate assign') = bs'.map fun b => (b.toNat : F))
    (hl : bs.length = bs'.length) (hp : p = 0 ∨ 256 ^ bs.length ≤ p) :
  (exprFromBytes es).evaluate assign = (leValue bs : F) ∧
    ((exprFromBytes es).evaluate assign = (exprFromBytes es').evaluate assign' ↔ bs = bs')
  := by
  rw [evaluate_exprFromBytes assign he, evaluate_exprFromBytes assign' he']
  refine ⟨rfl, fun h => leValue_injective hl ?_, fun h => by rw [h]⟩
  have hlt := leValue_lt bs
  have hlt' := leValue_lt bs'
  rw [← hl] at hlt'
  rw [CharP.natCast_eq_natCast F p, Nat.ModEq] at h
  rcases hp with rfl | hp
  · simpa using h
  · rwa [Nat.mod_eq_of_lt (lt_of_lt_of_le hlt hp), Nat.mod_eq_of_lt (lt_of_lt_of_le hlt' hp)] at h

/-- In `ℚ`, cells holding `0x34, 0x12` recompose to `0x1234`, and only the bytes `0x34, 0x12`
do. -/
theorem exprFromBytes_0x1234 :
  (exprFromBytes [.query 0 0, .query 1 0]).evaluate
      (fun c _ => if c = 0 then (0x34 : ℚ) else 0x12) = ((leValue [0x34, 0x12] : Nat) : ℚ) ∧
    leValue [0x34, 0x12] = 0x1234 ∧
    ((exprFromBytes [.query 0 0, .query 1 0]).evaluate
      (fun c _ => if c = 0 then (0x34 : ℚ) else 0x12) =
      (exprFromBytes [.constant (0x34 : ℚ), .constant 0x12]).evaluate (fun _ _ => 0) ↔
      ([0x34, 0x12] : List (BitVec 8)) = [0x34, 0x12])
  := by
  have h := @exprFromBytes_little_endian ℚ _ (fun c _ => if c = 0 then (0x34 : ℚ) else 0x12) 0 _
    (fun _ _ => 0) [.query 0 0, .query 1 0] [.constant 0x34, .constant 0x12] [0x34, 0x12]
    [0x34, 0x12] rfl rfl rfl
    (.inl rfl)
  exact ⟨h.1, rfl, h.2⟩

end MipsEmulator
