import MipsEmulator.Run

/-!
# The preimage oracle

The syscalls that talk to the preimage oracle, and where they abort.

* `FD_HINT_WRITE`: the loop over `last_hint` makes no progress while a complete record is
  followed by more bytes, so a step on such a buffer never ends, whatever the fuel.
* `FD_PREIMAGE_WRITE`: the two slice copies that shift the key need `a2 = 0` and `a2 = 4`, so
  every key write aborts.
* `FD_PREIMAGE_READ`: the copy into the word needs exactly `4 - (a1 & 3)` bytes, and
  `read_preimage` needs at most 32 bytes left, so a read of fewer bytes than reach the end of
  the word, a read near the end of the preimage, and a read with more than 32 bytes left all
  abort.
-/

namespace MipsEmulator

variable {env : Env} {fuel : Nat} {e : InstrumentedState}

/-! ### Syscalls that abort -/

/-- A syscall other than `exit_group` aborts with the fault of its arm. -/
theorem mipsStep_syscall_error {num : BitVec 32} {f : Fault} (hx : e.state.exited = false)
    (hs : IsSyscall e.state num) (hne : num ≠ 4246)
    (h : syscallResult env fuel e.tick num (e.state.registers 4) (e.state.registers 5)
      (e.state.registers 6) = .error f) :
  mipsStep env fuel e = .error f
  := by
  obtain ⟨h0, hc, h2⟩ := hs
  rw [mipsStep_syscall hx h0 hc]
  simp only [handleSyscall, InstrumentedState.tick_state_registers, h2, if_neg hne, h]
  rfl

/-- A syscall other than `exit_group` returns only when its arm returns. -/
theorem mipsStep_syscall_ok {num : BitVec 32} (h : mipsStep env fuel e = .ok e')
    (hx : e.state.exited = false) (hs : IsSyscall e.state num) (hne : num ≠ 4246) :
  ∃ r, syscallResult env fuel e.tick num (e.state.registers 4) (e.state.registers 5)
    (e.state.registers 6) = .ok r
  := by
  obtain ⟨h0, hc, h2⟩ := hs
  rw [mipsStep_syscall hx h0 hc] at h
  rcases handleSyscall_cases h with ⟨h2', -⟩ | ⟨-, e₂, v0, v1, hr, -⟩
  · exact absurd (h2.symm.trans h2') hne
  · rw [InstrumentedState.tick_state_registers, h2] at hr
    exact ⟨_, hr⟩

theorem syscallResult_hintWrite (a1 a2 : BitVec 32) :
  syscallResult env fuel e 4004 fdHintWrite a1 a2 = hintWrite fuel e a1 a2
  := rfl

theorem syscallResult_preimageWrite (a1 a2 : BitVec 32) :
  syscallResult env fuel e 4004 fdPreimageWrite a1 a2 = preimageWrite env e a1 a2
  := rfl

theorem syscallResult_preimageRead (a1 a2 : BitVec 32) :
  syscallResult env fuel e 4003 fdPreimageRead a1 a2 = preimageRead env e a1 a2
  := rfl

/-! ### Hint writes -/

/-- The buffer the loop of a hint write starts from: `last_hint` and the `a2` bytes at `a1`. -/
def hintBuffer (s : State) : List (BitVec 8) :=
  s.lastHint ++ readMemoryRange s.memory (s.registers 5) (s.registers 6)

/-- While the first record of the buffer is complete and followed by more bytes, a pass of
the loop changes nothing, so the loop runs out of any fuel. -/
theorem hintLoop_stalls {buf : List (BitVec 8)} (hlen : 4 < buf.length)
    (hlt : (fromBeBytes (buf.take 4)).toNat < (buf.drop 4).length)
    (hints : List (List (BitVec 8))) (fuel : Nat) :
  hintLoop fuel buf hints = .error .outOfFuel
  := by
  induction fuel with
  | zero => rw [hintLoop, if_pos hlen]
  | succ n ih =>
    rw [hintLoop, if_pos hlen]
    simp only [if_neg (Nat.not_le.mpr hlt)]
    exact ih

/-- A first record whose length runs past the buffer aborts on the slice
`last_hint[4..4 + hint_len]`. -/
theorem hintLoop_partial {buf : List (BitVec 8)} (hlen : 4 < buf.length)
    (hgt : (buf.drop 4).length < (fromBeBytes (buf.take 4)).toNat)
    (hints : List (List (BitVec 8))) (fuel : Nat) :
  hintLoop (fuel + 1) buf hints =
    .error (.sliceEndOutOfRange (4 + (fromBeBytes (buf.take 4)).toNat) buf.length)
  := by
  rw [hintLoop, if_pos hlen]
  simp only [List.length_drop] at hgt
  simp only [List.length_drop, if_pos hgt.le]
  rw [if_pos (by omega)]

/-- A hint write whose buffer starts with a complete record followed by more bytes never
returns: its loop runs out of every fuel. -/
theorem mipsStep_hintWrite_stalls (hx : e.state.exited = false) (hw : IsHintWrite e.state)
    (hlen : 4 < (hintBuffer e.state).length)
    (hlt : (fromBeBytes ((hintBuffer e.state).take 4)).toNat < ((hintBuffer e.state).drop 4).length) :
  mipsStep env fuel e = .error .outOfFuel
  := by
  refine mipsStep_syscall_error hx hw.1 (by decide) ?_
  rw [hw.2, syscallResult_hintWrite, hintWrite]
  simp only [InstrumentedState.tick]
  rw [show e.state.lastHint ++ readMemoryRange e.state.memory (e.state.registers 5)
      (e.state.registers 6) = hintBuffer e.state from rfl, hintLoop_stalls hlen hlt]
  rfl

/-- A hint write of eight zero bytes, two empty records, returns under no fuel. -/
theorem mipsStep_hintWrite_two_empty_hints :
  ¬∃ fuel e', mipsStep Env.small fuel
      (.load [0xc] (fun i => if i = 2 then 4004 else if i = 4 then 4 else if i = 5 then 0x2000
        else if i = 6 then 8 else 0) 0 0) = .ok e'
  := by
  rintro ⟨fuel, e', h⟩
  rw [mipsStep_hintWrite_stalls] at h
  · cases h
  all_goals first | rfl | exact ⟨⟨rfl, rfl, rfl⟩, rfl⟩ | decide

/-! ### Preimage key writes -/

/-- A step that returns from a running machine was no preimage-key write. -/
theorem not_isPreimageWrite_of_mipsStep (h : mipsStep env fuel e = .ok e')
    (hx : e.state.exited = false) :
  ¬IsPreimageWrite e.state
  := by
  intro hw
  obtain ⟨r, hr⟩ := mipsStep_syscall_ok h hx hw.1 (by decide)
  rw [hw.2, syscallResult_preimageWrite] at hr
  exact preimageWrite_ne_ok hr

/-- Every preimage-key write aborts, whatever the key, the word, the alignment and the
count. -/
theorem mipsStep_preimageWrite_aborts (hx : e.state.exited = false) (hw : IsPreimageWrite e.state)
    (e' : InstrumentedState) :
  mipsStep env fuel e ≠ .ok e'
  := fun h => not_isPreimageWrite_of_mipsStep h hx hw

/-- Writing the four bytes of the word at `0x2000` into the key aborts in the first slice
copy, which copies the 28 bytes `preimage_key[4..]` into all 32 bytes of `key`. -/
theorem mipsStep_preimageWrite_word_aborts :
  mipsStep Env.small 0 (.load [0xc] (fun i => if i = 2 then 4004 else if i = 4 then 6
      else if i = 5 then 0x2000 else if i = 6 then 4 else 0) 0 0x2000) =
      .error (.sliceLengthMismatch 32 28) ∧
    ∀ e', mipsStep Env.small 0 (.load [0xc] (fun i => if i = 2 then 4004 else if i = 4 then 6
      else if i = 5 then 0x2000 else if i = 6 then 4 else 0) 0 0x2000) ≠ .ok e'
  := ⟨rfl, mipsStep_preimageWrite_aborts rfl ⟨⟨rfl, rfl, rfl⟩, rfl⟩⟩

/-- No returning step changes the preimage key. -/
theorem mipsStep_preimageKey (h : mipsStep env fuel e = .ok e') :
  e'.state.preimageKey = e.state.preimageKey
  := by
  cases hx : e.state.exited
  · by_contra hne
    exact not_isPreimageWrite_of_mipsStep h hx ((stepFrame_of_mipsStep h hx).preimageKey hne)
  · unfold mipsStep at h
    rw [if_pos hx] at h
    cases h
    rfl

/-- Since every key write aborts, the preimage key of every state a run reaches is the key the
run started with: the oracle is asked for one preimage only. -/
theorem preimageKey_constant :
  (∀ env fuel (e e' : InstrumentedState), mipsStep env fuel e = .ok e' →
    e'.state.preimageKey = e.state.preimageKey) ∧
  (∀ env (e e' : InstrumentedState), Reachable env e e' →
    e'.state.preimageKey = e.state.preimageKey)
  := ⟨fun _ _ _ _ => mipsStep_preimageKey,
    fun _ _ _ hr => hr.invariant (fun hs h => (mipsStep_preimageKey hs).trans h) rfl⟩

/-! ### Preimage reads -/

/-- The cache of `read_preimage` holds the length-prefixed preimage of its key. -/
def CacheConsistent (env : Env) (e : InstrumentedState) : Prop :=
  e.lastPreimage = lengthPrefixed (env.getPreimage e.lastPreimageKey)

theorem refillPreimage_lastPreimage (hc : CacheConsistent env e) (k : Key) :
  (refillPreimage env e k).lastPreimage = lengthPrefixed (env.getPreimage k)
  := by
  unfold refillPreimage
  split
  · rfl
  · rename_i h
    rw [not_not] at h
    rw [h]
    exact hc

/-- `read_preimage` returns only when the offset is within the cached preimage and at most 32
bytes are left from it; it returns 32 bytes and the number left. -/
theorem readPreimage_eq_ok {k : Key} {o : BitVec 32}
    {r : InstrumentedState × List (BitVec 8) × BitVec 32} (h : readPreimage env e k o = .ok r) :
  o.toNat ≤ (refillPreimage env e k).lastPreimage.length ∧
    (refillPreimage env e k).lastPreimage.length ≤ o.toNat + 32 ∧
    r.2.1.length = 32 ∧ r.2.2.toNat = (refillPreimage env e k).lastPreimage.length - o.toNat
  := by
  unfold readPreimage at h
  dsimp only at h
  split at h
  · cases h
  · rename_i hle
    obtain ⟨_, hc, h⟩ := bind_eq_ok.mp h
    cases h
    simp only [copyFromSlice, List.length_take, List.length_replicate, List.length_drop] at hc
    split at hc
    · rename_i hlen
      simp only [List.length_append, List.length_drop, List.length_replicate, BitVec.toNat_ofNat]
      omega
    · cases hc

/-- The lane of `a1` in its word, `a1 & 3`, is at most 3. -/
theorem toNat_and_3_le (a : BitVec 32) : (a &&& 3).toNat ≤ 3 := by
  rw [BitVec.toNat_and]
  exact Nat.and_le_right

theorem toNat_four_sub_and_3 (a : BitVec 32) : (4 - (a &&& 3)).toNat = 4 - (a &&& 3).toNat := by
  have := toNat_and_3_le a
  rw [BitVec.toNat_sub, show (4 : BitVec 32).toNat = 4 from rfl]
  omega

/-- A preimage read returns only when it fills its word to the end, `4 - (a1 & 3)` bytes:
the count asks for that many, that many are left in the preimage, and at most 32 bytes are
left. -/
theorem preimageRead_bounds {a1 a2 : BitVec 32} {r : InstrumentedState × BitVec 32 × BitVec 32}
    (hc : CacheConsistent env e) (h : preimageRead env e a1 a2 = .ok r) :
  4 - (a1 &&& 3).toNat ≤ a2.toNat ∧
    e.state.preimageOffset.toNat + (4 - (a1 &&& 3).toNat) ≤
      (lengthPrefixed (env.getPreimage e.state.preimageKey)).length ∧
    (lengthPrefixed (env.getPreimage e.state.preimageKey)).length ≤
      e.state.preimageOffset.toNat + 32
  := by
  unfold preimageRead at h
  obtain ⟨e₃, ht, h⟩ := bind_eq_ok.mp h
  obtain ⟨-, rfl⟩ := trackMemoryAccess_eq_ok.mp ht
  obtain ⟨⟨e₄, d, n⟩, hr, h⟩ := bind_eq_ok.mp h
  obtain ⟨h1, h2, hd, hn⟩ := readPreimage_eq_ok hr
  have hc' : CacheConsistent env { e with
      lastMemAccess := a1 &&& 0xfffffffc
      memProof := env.merkleProof e.state.memory (a1 &&& 0xfffffffc) } := hc
  rw [refillPreimage_lastPreimage hc'] at h1 h2 hn
  obtain ⟨_, hcp, -⟩ := bind_eq_ok.mp h
  have hal := toNat_and_3_le a1
  dsimp only at h1 h2 hd hn
  simp only [copyFromSlice, List.length_drop, length_toBeBytes, List.length_take, hd,
    toNat_minU32, toNat_four_sub_and_3] at hcp
  split at hcp
  · omega
  · cases hcp

/-- A preimage read from a consistent cache aborts when the count stops short of the end of
the word, when fewer bytes than reach the end of the word are left in the preimage, or when
more than 32 bytes are left. -/
theorem mipsStep_preimageRead_aborts (hx : e.state.exited = false) (hr : IsPreimageRead e.state)
    (hc : CacheConsistent env e)
    (hbad : (e.state.registers 6).toNat < 4 - (e.state.registers 5 &&& 3).toNat ∨
      (lengthPrefixed (env.getPreimage e.state.preimageKey)).length <
        e.state.preimageOffset.toNat + (4 - (e.state.registers 5 &&& 3).toNat) ∨
      e.state.preimageOffset.toNat + 32 < (lengthPrefixed (env.getPreimage e.state.preimageKey)).length)
    (e' : InstrumentedState) :
  mipsStep env fuel e ≠ .ok e'
  := by
  intro h
  obtain ⟨r, hr'⟩ := mipsStep_syscall_ok h hx hr.1 (by decide)
  rw [hr.2, syscallResult_preimageRead] at hr'
  have := preimageRead_bounds (show CacheConsistent env e.tick from hc) hr'
  dsimp only [InstrumentedState.tick] at this
  omega

/-- Reading two bytes of the empty preimage's length prefix into an aligned word aborts: the
copy into the word needs four. -/
theorem mipsStep_preimageRead_two_bytes_aborts :
  mipsStep Env.small 0 (.load [0xc] (fun i => if i = 2 then 4003 else if i = 4 then 5
      else if i = 5 then 0x2000 else if i = 6 then 2 else 0) 0 0x2000) =
      .error (.sliceLengthMismatch 4 2) ∧
    ∀ e', mipsStep Env.small 0 (.load [0xc] (fun i => if i = 2 then 4003 else if i = 4 then 5
      else if i = 5 then 0x2000 else if i = 6 then 2 else 0) 0 0x2000) ≠ .ok e'
  := ⟨rfl, mipsStep_preimageRead_aborts rfl ⟨⟨rfl, rfl, rfl⟩, rfl⟩ rfl (.inl (by decide))⟩

end MipsEmulator
