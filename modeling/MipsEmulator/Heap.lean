import MipsEmulator.Run

/-!
# The heap

`mmap(0, size)` allocates from the bump pointer `heap`: it returns the old heap and moves
the heap on by the size rounded up to a whole page. Both additions of the arm, the rounding
`size += PAGE_SIZE - (size & PAGE_ADDR_MASK)` and the bump `heap += size`, are unchecked `u32`
additions: a debug build panics on their overflow and a release build wraps, which the model
follows.

* `mmapSize` is a multiple of the page size, and the request rounded up to a page whenever
  that fits in 32 bits; when the rounding passes `2 ^ 32` it is `0`.
* A step moves the heap only in a heap `mmap`, and there by `mmapSize`; so the heap stays
  page aligned along every run.
* A heap `mmap` always returns, and one whose heap plus size passes `2 ^ 32` leaves the heap
  below where it was (`mipsStep_mmap_wraps`): the heap is not monotone and the region the call
  returns runs past `2 ^ 32`.
-/

namespace MipsEmulator

variable {env : Env} {fuel : Nat} {e e' : InstrumentedState}

/-- `x & PAGE_ADDR_MASK == 0`. -/
def Env.PageAligned (env : Env) (x : BitVec 32) : Prop := x &&& env.pageAddrMask = 0

instance (env : Env) : DecidablePred env.PageAligned :=
  fun _ => inferInstanceAs (Decidable (_ = _))

/-! ### Page arithmetic -/

theorem Env.pageSize_toNat (env : Env) :
  env.pageSize.toNat = 2 ^ env.pageAddrSize
  := by
  have h : 2 ^ env.pageAddrSize < 2 ^ 32 := Nat.pow_lt_pow_right (by decide) env.pageAddrSize_lt
  simp only [Env.pageSize, BitVec.toNat_shiftLeft, BitVec.toNat_ofNat, Nat.one_shiftLeft]
  exact Nat.mod_eq_of_lt h

theorem Env.pageAddrMask_toNat (env : Env) :
  env.pageAddrMask.toNat = 2 ^ env.pageAddrSize - 1
  := by
  have h : 2 ^ env.pageAddrSize < 2 ^ 32 := Nat.pow_lt_pow_right (by decide) env.pageAddrSize_lt
  have h1 : 1 ≤ 2 ^ env.pageAddrSize := Nat.one_le_two_pow
  rw [Env.pageAddrMask, BitVec.toNat_sub, Env.pageSize_toNat,
    show (1 : BitVec 32).toNat = 1 from rfl]
  omega

theorem Env.toNat_and_pageAddrMask (env : Env) (x : BitVec 32) :
  (x &&& env.pageAddrMask).toNat = x.toNat % 2 ^ env.pageAddrSize
  := by
  rw [BitVec.toNat_and, Env.pageAddrMask_toNat, Nat.and_pow_two_sub_one_eq_mod]

theorem Env.pageAligned_iff {x : BitVec 32} :
  env.PageAligned x ↔ x.toNat % 2 ^ env.pageAddrSize = 0
  := by
  rw [Env.PageAligned, BitVec.toNat_eq, Env.toNat_and_pageAddrMask]
  rfl

theorem Env.pow_dvd_two_pow_32 (env : Env) :
  2 ^ env.pageAddrSize ∣ 2 ^ 32
  := Nat.pow_dvd_pow 2 env.pageAddrSize_lt.le

/-- The size `mmap` maps is a multiple of the page size and, when the request rounded up to a
page fits in 32 bits, it is that: the multiple of the page size from `a1` below `a1` plus a
page. -/
theorem mmapSize_spec (env : Env) (a1 : BitVec 32) :
  (mmapSize env a1).toNat % 2 ^ env.pageAddrSize = 0 ∧
    (a1.toNat + 2 ^ env.pageAddrSize ≤ 2 ^ 32 →
      a1.toNat ≤ (mmapSize env a1).toNat ∧
        (mmapSize env a1).toNat < a1.toNat + 2 ^ env.pageAddrSize)
  := by
  have hP : 0 < 2 ^ env.pageAddrSize := Nat.two_pow_pos _
  have hdiv := Nat.div_add_mod a1.toNat (2 ^ env.pageAddrSize)
  have hlt := Nat.mod_lt a1.toNat hP
  have ha := a1.isLt
  unfold mmapSize
  split
  · rename_i hne
    have hr : a1.toNat % 2 ^ env.pageAddrSize ≠ 0 := by
      rwa [ne_eq, BitVec.toNat_eq, Env.toNat_and_pageAddrMask] at hne
    have hsum : a1.toNat + (2 ^ env.pageAddrSize - a1.toNat % 2 ^ env.pageAddrSize) =
        2 ^ env.pageAddrSize * (a1.toNat / 2 ^ env.pageAddrSize + 1) := by
      rw [Nat.mul_add_one]
      omega
    have hs : (a1 + (env.pageSize - (a1 &&& env.pageAddrMask))).toNat =
        (2 ^ env.pageAddrSize * (a1.toNat / 2 ^ env.pageAddrSize + 1)) % 2 ^ 32 := by
      rw [BitVec.toNat_add, BitVec.toNat_sub, Env.pageSize_toNat, Env.toNat_and_pageAddrMask,
        ← hsum]
      have : 2 ^ env.pageAddrSize < 2 ^ 32 := Nat.pow_lt_pow_right (by decide) env.pageAddrSize_lt
      congr 1
      omega
    rw [hs, Nat.mod_mod_of_dvd _ env.pow_dvd_two_pow_32, Nat.mul_mod_right]
    refine ⟨rfl, fun hfit => ?_⟩
    rw [Nat.mod_eq_of_lt (by omega)]
    omega
  · rename_i hz
    have hr : a1.toNat % 2 ^ env.pageAddrSize = 0 := by
      rwa [not_not, BitVec.toNat_eq, Env.toNat_and_pageAddrMask] at hz
    exact ⟨hr, fun _ => ⟨le_rfl, by omega⟩⟩

/-- Adding a multiple of the page size keeps an address page aligned, also when it wraps. -/
theorem Env.pageAligned_add {x y : BitVec 32} (hx : env.PageAligned x)
    (hy : y.toNat % 2 ^ env.pageAddrSize = 0) :
  env.PageAligned (x + y)
  := by
  rw [Env.pageAligned_iff] at *
  rw [BitVec.toNat_add, Nat.mod_mod_of_dvd _ env.pow_dvd_two_pow_32, Nat.add_mod, hx, hy,
    Nat.zero_mod]

/-- When the rounding of a request that is not page aligned passes `2 ^ 32`, the rounded size
wraps to `0`. -/
theorem mmapSize_eq_zero_of_overflow {a1 : BitVec 32} (hna : ¬env.PageAligned a1)
    (hov : 2 ^ 32 ≤ a1.toNat + (2 ^ env.pageAddrSize - a1.toNat % 2 ^ env.pageAddrSize)) :
  mmapSize env a1 = 0
  := by
  have hP : 2 ^ env.pageAddrSize < 2 ^ 32 := Nat.pow_lt_pow_right (by decide) env.pageAddrSize_lt
  have hr := Nat.mod_lt a1.toNat (Nat.two_pow_pos env.pageAddrSize)
  have ha := a1.isLt
  have hmod := (mmapSize_spec env a1).1
  have hs : (mmapSize env a1).toNat =
      a1.toNat + (2 ^ env.pageAddrSize - a1.toNat % 2 ^ env.pageAddrSize) - 2 ^ 32 := by
    rw [mmapSize, if_pos (show a1 &&& env.pageAddrMask ≠ 0 from hna), BitVec.toNat_add,
      BitVec.toNat_sub, Env.pageSize_toNat, Env.toNat_and_pageAddrMask]
    omega
  rw [hs, Nat.mod_eq_of_lt (by omega)] at hmod
  exact BitVec.eq_of_toNat_eq (hs.trans hmod)

/-! ### A step on the heap -/

/-- A heap `mmap` returns the old heap in `v0` and moves the heap by `mmapSize`. -/
theorem mipsStep_heapMmap (h : mipsStep env fuel e = .ok e') (hx : e.state.exited = false)
    (hm : IsHeapMmap e.state) :
  e'.state.registers 2 = e.state.heap ∧
    e'.state.heap = e.state.heap + mmapSize env (e.state.registers 5)
  := by
  obtain ⟨⟨h0, hc, h2⟩, h4⟩ := hm
  rw [mipsStep_syscall hx h0 hc] at h
  rcases handleSyscall_cases h with ⟨h2', -⟩ | ⟨-, e₂, v0, v1, hr, rfl⟩
  · rw [InstrumentedState.tick_state_registers, h2] at h2'
    exact absurd h2' (by decide)
  · simp only [InstrumentedState.tick_state_registers, h2, h4, syscallResult, if_pos, mmap_zero]
      at hr
    cases hr
    exact ⟨rfl, rfl⟩

/-- A step leaves the heap as it is, or is a heap `mmap` of a running machine. -/
theorem mipsStep_heap (h : mipsStep env fuel e = .ok e') :
  e'.state.heap = e.state.heap ∨
    e.state.exited = false ∧ IsHeapMmap e.state ∧ e'.state.registers 2 = e.state.heap ∧
      e'.state.heap = e.state.heap + mmapSize env (e.state.registers 5)
  := by
  cases hx : e.state.exited
  · by_cases hm : IsHeapMmap e.state
    · exact .inr ⟨rfl, hm, mipsStep_heapMmap h hx hm⟩
    · exact .inl (by_contra fun hne => hm ((stepFrame_of_mipsStep h hx).heap hne))
  · simp only [mipsStep, hx, if_true] at h
    cases h
    exact .inl rfl

theorem mipsStep_pageAligned (h : mipsStep env fuel e = .ok e')
    (ha : env.PageAligned e.state.heap) :
  env.PageAligned e'.state.heap
  := by
  rcases mipsStep_heap h with he | ⟨-, -, -, he⟩ <;> rw [he]
  · exact ha
  · exact env.pageAligned_add ha (mmapSize_spec env _).1

/-- A heap `mmap` of a running machine returns. -/
theorem mipsStep_heapMmap_ok (hx : e.state.exited = false) (hm : IsHeapMmap e.state) :
  ∃ e', mipsStep env fuel e = .ok e'
  := by
  obtain ⟨⟨h0, hc, h2⟩, h4⟩ := hm
  rw [mipsStep_syscall hx h0 hc]
  simp only [handleSyscall, InstrumentedState.tick_state_registers, h2, h4,
    if_neg (by decide : (4090 : BitVec 32) ≠ 4246)]
  exact ⟨_, rfl⟩

/-- The `mmap` arm overflows. A heap `mmap` of a running machine returns the old heap and
moves the heap by `mmapSize` with wrapping `u32` additions. The size is a multiple of the page
size, and the request rounded up to a page when that fits in 32 bits; a request whose rounding
passes `2 ^ 32` is given size `0`. A heap plus size that passes `2 ^ 32` leaves the heap at the
sum less `2 ^ 32`, below where it was. Along every run the heap stays page aligned. -/
theorem mipsStep_mmap_overflow :
  (∀ env fuel (e : InstrumentedState), e.state.exited = false → IsHeapMmap e.state →
    ∃ e', mipsStep env fuel e = .ok e' ∧ e'.state.registers 2 = e.state.heap ∧
      e'.state.heap = e.state.heap + mmapSize env (e.state.registers 5) ∧
      (mmapSize env (e.state.registers 5)).toNat % 2 ^ env.pageAddrSize = 0 ∧
      ((e.state.registers 5).toNat + 2 ^ env.pageAddrSize ≤ 2 ^ 32 →
        (e.state.registers 5).toNat ≤ (mmapSize env (e.state.registers 5)).toNat ∧
          (mmapSize env (e.state.registers 5)).toNat <
            (e.state.registers 5).toNat + 2 ^ env.pageAddrSize) ∧
      (¬env.PageAligned (e.state.registers 5) →
        2 ^ 32 ≤ (e.state.registers 5).toNat +
          (2 ^ env.pageAddrSize - (e.state.registers 5).toNat % 2 ^ env.pageAddrSize) →
        mmapSize env (e.state.registers 5) = 0) ∧
      (2 ^ 32 ≤ e.state.heap.toNat + (mmapSize env (e.state.registers 5)).toNat →
        e'.state.heap.toNat =
          e.state.heap.toNat + (mmapSize env (e.state.registers 5)).toNat - 2 ^ 32 ∧
        e'.state.heap.toNat < e.state.heap.toNat)) ∧
  (∀ env (e e' : InstrumentedState), env.PageAligned e.state.heap → Reachable env e e' →
    env.PageAligned e'.state.heap)
  := by
  refine ⟨fun env fuel e hx hm => ?_,
    fun _ _ _ ha hr => hr.invariant (fun hs h => mipsStep_pageAligned hs h) ha⟩
  obtain ⟨e', h⟩ := @mipsStep_heapMmap_ok env fuel e hx hm
  obtain ⟨h2, hh⟩ := mipsStep_heapMmap h hx hm
  refine ⟨e', h, h2, hh, (mmapSize_spec env _).1, (mmapSize_spec env _).2,
    mmapSize_eq_zero_of_overflow, fun hov => ?_⟩
  have hs := (mmapSize env (e.state.registers 5)).isLt
  rw [hh, BitVec.toNat_add]
  omega

/-- `mmap(0, 0x2000)` with the heap at `0xfffff000` returns the heap and moves it to `0x1000`,
below where it was. -/
theorem mipsStep_mmap_wraps :
  ∃ e', mipsStep Env.small 0
      (.load [0xc] (fun i => if i = 2 then 4090 else if i = 5 then 0x2000 else 0) 0xfffff000 0) =
        .ok e' ∧
    e'.state.registers 2 = 0xfffff000 ∧ e'.state.heap = 0x1000 ∧
    e'.state.heap.toNat < (0xfffff000 : BitVec 32).toNat
  := by
  obtain ⟨e', h, h2, hh, -, -, -, hwrap⟩ := mipsStep_mmap_overflow.1 Env.small 0
    (.load [0xc] (fun i => if i = 2 then 4090 else if i = 5 then 0x2000 else 0) 0xfffff000 0)
    rfl ⟨⟨rfl, rfl, rfl⟩, rfl⟩
  exact ⟨e', h, h2, hh.trans rfl, (hwrap (by decide)).2⟩

end MipsEmulator
