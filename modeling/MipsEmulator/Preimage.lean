import MipsEmulator.Oracle

/-!
# The preimage cache

`read_preimage` keeps the length-prefixed preimage of the last key it was asked for. While that
cache is consistent, holding the preimage of its own key, a call reads the same bytes a fresh
fetch would, and it leaves the cache consistent, so this holds along any sequence of calls.

What the calls return differs from the accessor's contract, `uncachedRead`: the slice
`last_preimage[offset..]` panics for an offset past the end, where the contract returns no
bytes, and `data[..copy_size].copy_from_slice(bytes_to_copy)` panics when more than 32 bytes
are left, where the contract returns the first 32.
-/

namespace MipsEmulator

variable {env : Env} {e : InstrumentedState}

/-- The offsets `read_preimage` returns for: within the length-prefixed preimage of `k`, with at
most 32 bytes left from it. -/
def InRange (env : Env) (k : Key) (o : BitVec 32) : Prop :=
  o.toNat ≤ (lengthPrefixed (env.getPreimage k)).length ∧
    (lengthPrefixed (env.getPreimage k)).length ≤ o.toNat + 32

instance (env : Env) (k : Key) (o : BitVec 32) : Decidable (InRange env k o) :=
  inferInstanceAs (Decidable (_ ∧ _))

/-- `read_preimage` as its contract states it, on a fresh fetch of the preimage of `k`: the
`n = min(32, |buf| - o)` bytes of `buf = length prefix ++ preimage` from `o` on, padded with
zeros to 32, and `n`, which is 0 past the end. -/
def uncachedRead (env : Env) (k : Key) (o : BitVec 32) : List (BitVec 8) × BitVec 32 :=
  let rest := (lengthPrefixed (env.getPreimage k)).drop o.toNat
  (rest.take 32 ++ List.replicate (32 - min rest.length 32) 0, BitVec.ofNat 32 (min rest.length 32))

/-- After the refill the cache is keyed by `k`. -/
theorem refillPreimage_lastPreimageKey (k : Key) : (refillPreimage env e k).lastPreimageKey = k := by
  unfold refillPreimage
  split
  · rfl
  · rename_i h
    exact (not_not.mp h).symm

/-- From a consistent cache, `read_preimage(k, o)` aborts on an offset past the end of the
preimage and on more than 32 bytes left, and otherwise returns the fresh read and leaves the
cache consistent and keyed by `k`. -/
theorem readPreimage_consistent (hc : CacheConsistent env e) (k : Key) (o : BitVec 32) :
  ((lengthPrefixed (env.getPreimage k)).length < o.toNat → readPreimage env e k o =
    .error (.sliceIndexOutOfRange o.toNat (lengthPrefixed (env.getPreimage k)).length)) ∧
  (o.toNat + 32 < (lengthPrefixed (env.getPreimage k)).length → readPreimage env e k o =
    .error (.sliceLengthMismatch 32 ((lengthPrefixed (env.getPreimage k)).length - o.toNat))) ∧
  (InRange env k o → ∃ e', readPreimage env e k o = .ok (e', uncachedRead env k o) ∧
    CacheConsistent env e' ∧ e'.lastPreimageKey = k ∧ e'.state = e.state)
  := by
  have hb := refillPreimage_lastPreimage hc k
  unfold readPreimage
  dsimp only
  refine ⟨fun h => ?_, fun h => ?_, fun ⟨h1, h2⟩ => ?_⟩
  · rw [if_pos (by rw [hb]; exact h), hb]
  · rw [if_neg (by rw [hb]; omega), copyFromSlice, if_neg (by simp [hb]; omega), error_bind]
    simp only [List.length_take, List.length_replicate, List.length_drop, hb]
    congr 2
    omega
  · have hrest : ((lengthPrefixed (env.getPreimage k)).drop o.toNat).length ≤ 32 := by
      rw [List.length_drop]; omega
    rw [if_neg (by rw [hb]; omega), copyFromSlice, if_pos (by simp [hb]; omega), ok_bind]
    refine ⟨{ refillPreimage env e k with lastPreimageOffset := o }, ?_, ?_,
      refillPreimage_lastPreimageKey k, refillPreimage_state k⟩
    · simp only [uncachedRead, hb, List.take_of_length_le hrest]
    · show (refillPreimage env e k).lastPreimage = _
      rw [refillPreimage_lastPreimageKey, hb]


/-- `read_preimage` called on `calls` in order, each on the engine the call before left; the
results, or the first abort. -/
def readPreimages (env : Env) :
    InstrumentedState → List (Key × BitVec 32) →
      Except Fault (InstrumentedState × List (List (BitVec 8) × BitVec 32))
  | e, [] => .ok (e, [])
  | e, (k, o) :: calls => readPreimage env e k o >>= fun r =>
      readPreimages env r.1 calls >>= fun s => .ok (s.1, r.2 :: s.2)

/-- From a consistent cache, a sequence of calls returns the fresh reads exactly when every
offset is in range, and leaves the cache consistent. -/
theorem readPreimages_consistent (calls : List (Key × BitVec 32)) (hc : CacheConsistent env e) :
  ((∀ c ∈ calls, InRange env c.1 c.2) →
    ∃ e', readPreimages env e calls = .ok (e', calls.map fun c => uncachedRead env c.1 c.2) ∧
      CacheConsistent env e') ∧
  ((∃ c ∈ calls, ¬InRange env c.1 c.2) → ∃ f, readPreimages env e calls = .error f)
  := by
  induction calls generalizing e with
  | nil => exact ⟨fun _ => ⟨e, rfl, hc⟩, fun ⟨c, hc, _⟩ => absurd hc (List.not_mem_nil c)⟩
  | cons c calls ih =>
    obtain ⟨k, o⟩ := c
    obtain ⟨hlow, hhigh, hok⟩ := readPreimage_consistent hc k o
    by_cases hr : InRange env k o
    · obtain ⟨e₁, h₁, hc₁, -⟩ := hok hr
      obtain ⟨ihok, iherr⟩ := ih hc₁
      refine ⟨fun hall => ?_, fun ⟨c', hmem, hbad⟩ => ?_⟩
      · obtain ⟨e', h', hc'⟩ := ihok fun c hc => hall c (List.mem_cons_of_mem _ hc)
        exact ⟨e', by rw [readPreimages, h₁, ok_bind, h', ok_bind]; rfl, hc'⟩
      · rcases List.mem_cons.mp hmem with rfl | hmem
        · exact absurd hr hbad
        · obtain ⟨f, hf⟩ := iherr ⟨c', hmem, hbad⟩
          exact ⟨f, by rw [readPreimages, h₁, ok_bind, hf, error_bind]⟩
    · refine ⟨fun hall => absurd (hall (k, o) (List.mem_cons_self _ _)) hr, fun _ => ?_⟩
      rcases Nat.lt_or_ge (lengthPrefixed (env.getPreimage k)).length o.toNat with hlt | hge
      · exact ⟨_, by rw [readPreimages, hlow hlt, error_bind]⟩
      · exact ⟨_, by rw [readPreimages, hhigh (by unfold InRange at hr; omega), error_bind]⟩

/-- A cached `read_preimage` agrees with a fresh fetch along every sequence of calls from a
consistent cache, and keeps the cache consistent, but it returns only for an offset within the
preimage with at most 32 bytes left: past the end and before the last 32 bytes it aborts. -/
theorem readPreimage_against_uncached (hc : CacheConsistent env e) (k : Key) (o : BitVec 32)
    (calls : List (Key × BitVec 32)) :
  (InRange env k o → ∃ e', readPreimage env e k o = .ok (e', uncachedRead env k o) ∧
    CacheConsistent env e' ∧ e'.lastPreimageKey = k) ∧
  ((lengthPrefixed (env.getPreimage k)).length < o.toNat → readPreimage env e k o =
    .error (.sliceIndexOutOfRange o.toNat (lengthPrefixed (env.getPreimage k)).length)) ∧
  (o.toNat + 32 < (lengthPrefixed (env.getPreimage k)).length → readPreimage env e k o =
    .error (.sliceLengthMismatch 32 ((lengthPrefixed (env.getPreimage k)).length - o.toNat))) ∧
  ((∀ c ∈ calls, InRange env c.1 c.2) →
    ∃ e', readPreimages env e calls = .ok (e', calls.map fun c => uncachedRead env c.1 c.2) ∧
      CacheConsistent env e') ∧
  ((∃ c ∈ calls, ¬InRange env c.1 c.2) → ∃ f, readPreimages env e calls = .error f)
  := by
  obtain ⟨hlow, hhigh, hok⟩ := readPreimage_consistent hc k o
  exact ⟨fun h => (hok h).imp fun _ ⟨h₁, h₂, h₃, _⟩ => ⟨h₁, h₂, h₃⟩, hlow, hhigh,
    readPreimages_consistent calls hc⟩

/-- The empty preimage has an 8-byte buffer, its length prefix: reading it at offset 9 aborts,
where the contract returns 32 zero bytes and the count 0. -/
theorem readPreimage_past_end :
  readPreimage Env.small (.load [] (fun _ => 0) 0 0) Key.zero 9 =
      .error (.sliceIndexOutOfRange 9 8) ∧
    uncachedRead Env.small Key.zero 9 = (List.replicate 32 0, 0)
  := ⟨(@readPreimage_against_uncached Env.small (.load [] (fun _ => 0) 0 0) rfl Key.zero 9 []).2.1
    (by decide), by decide⟩

end MipsEmulator
