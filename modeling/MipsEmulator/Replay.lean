import MipsEmulator.Oracle

/-!
# Replaying a step from other caches

Besides the machine state, the writers and the hints, the engine keeps caches:
`last_mem_access` and `mem_proof`, which `track_memory_access` fills, and `last_preimage`,
`last_preimage_key` and `last_preimage_offset`, which `read_preimage` fills. A step never reads
`mem_proof`, reads `last_mem_access` only with memory proofs on, and reads the preimage cache
only after refilling it for the key it asks for. So while each preimage cache holds the oracle's
preimage of its key, what a step does is independent of the caches, except that with memory
proofs on it depends on `last_mem_access`.

* `Replica env e₁ e₂`: two engines that differ at most in their caches, both consistent with the
  oracle, and that agree on `last_mem_access` when memory proofs are on.
* `Both R x y`: two outcomes that abort with one fault, or return `R`-related values.
* `mipsStep_replica`: one step on two replicas gives `Both (Replica env)`, and
  `Reachable.replica` lifts it to runs.
-/

namespace MipsEmulator

/-- The caches of an engine that the machine state does not see. -/
structure Caches where
  lastMemAccess : BitVec 32
  memProof : List (BitVec 8)
  lastPreimage : List (BitVec 8)
  lastPreimageKey : Key
  lastPreimageOffset : BitVec 32

/-- The engine `e` with the caches `c`. -/
def InstrumentedState.withCaches (e : InstrumentedState) (c : Caches) : InstrumentedState :=
  { e with
    lastMemAccess := c.lastMemAccess
    memProof := c.memProof
    lastPreimage := c.lastPreimage
    lastPreimageKey := c.lastPreimageKey
    lastPreimageOffset := c.lastPreimageOffset }

/-- Two engines that differ at most in their caches, each preimage cache holding the oracle's
preimage of its key, and with memory proofs on tracking the same address. -/
structure Replica (env : Env) (e₁ e₂ : InstrumentedState) : Prop where
  caches : ∃ c, e₂ = e₁.withCaches c
  lastMemAccess : e₁.memProofEnabled = true → e₂.lastMemAccess = e₁.lastMemAccess
  consistent₁ : CacheConsistent env e₁
  consistent₂ : CacheConsistent env e₂

/-- Replicas returned with one value. -/
structure ReplicaWith (env : Env) {α : Type} (r₁ r₂ : InstrumentedState × α) : Prop where
  replica : Replica env r₁.1 r₂.1
  snd : r₁.2 = r₂.2

/-- Two outcomes that abort with one fault, or return `R`-related values. -/
inductive Both {α β : Type} (R : α → β → Prop) : Except Fault α → Except Fault β → Prop
  | error (f : Fault) : Both R (.error f) (.error f)
  | ok {a : α} {b : β} : R a b → Both R (.ok a) (.ok b)

variable {env : Env} {fuel : Nat} {e₁ e₂ : InstrumentedState}

/-! ### Outcomes -/

section Both

variable {α β γ δ : Type} {R : α → β → Prop} {S : γ → δ → Prop}

theorem Both.bind {x : Except Fault α} {y : Except Fault β} {f : α → Except Fault γ}
    {g : β → Except Fault δ} (h : Both R x y) (hf : ∀ a b, R a b → Both S (f a) (g b)) :
  Both S (x >>= f) (y >>= g)
  := by
  cases h with
  | error => exact .error _
  | ok hr => exact hf _ _ hr

/-- A computation that both sides run alike. -/
theorem Both.bind_same {x : Except Fault α} {f : α → Except Fault γ} {g : α → Except Fault δ}
    (hf : ∀ a, Both S (f a) (g a)) :
  Both S (x >>= f) (x >>= g)
  := by
  cases x with
  | error => exact .error _
  | ok a => exact hf a

/-- Two branches on one condition, related branch by branch. -/
theorem rel_ite {α' β' : Type} (r : α' → β' → Prop) {p : Prop} [Decidable p] {x x' : α'}
    {y y' : β'} (h : p → r x y) (h' : ¬p → r x' y') :
  r (if p then x else x') (if p then y else y')
  := by
  by_cases hp : p
  · simpa only [if_pos hp] using h hp
  · simpa only [if_neg hp] using h' hp

theorem Both.of_ok {a : α} {y : Except Fault β} (h : Both R (.ok a) y) :
  ∃ b, y = .ok b ∧ R a b
  := by
  generalize hx : (Except.ok a : Except Fault α) = x at h
  cases h with
  | error => cases hx
  | ok hr => cases hx; exact ⟨_, rfl, hr⟩

end Both

/-! ### The handlers -/

@[simp]
theorem InstrumentedState.withCaches_state (e : InstrumentedState) (c : Caches) :
  (e.withCaches c).state = e.state
  := rfl

/-- Tracking an address aborts on both sides or on neither, as both track the same address
when memory proofs are on; it sets the same two caches on both sides. -/
theorem trackMemoryAccess_replica (hr : Replica env e₁ e₂) (addr : BitVec 32) :
  Both (Replica env) (trackMemoryAccess env e₁ addr) (trackMemoryAccess env e₂ addr)
  := by
  obtain ⟨⟨c, rfl⟩, hp, hc₁, hc₂⟩ := hr
  have hl : e₁.memProofEnabled ∧ (e₁.withCaches c).lastMemAccess ≠ addr ↔
      e₁.memProofEnabled ∧ e₁.lastMemAccess ≠ addr := by
    cases hm : e₁.memProofEnabled
    · simp
    · rw [hp hm]
  unfold trackMemoryAccess
  rw [show (e₁.withCaches c).memProofEnabled = e₁.memProofEnabled from rfl, if_congr hl rfl rfl]
  refine rel_ite _ (fun h => ?_) fun _ => .ok ⟨⟨⟨addr, env.merkleProof e₁.state.memory addr,
    c.lastPreimage, c.lastPreimageKey, c.lastPreimageOffset⟩, rfl⟩, fun _ => rfl, hc₁, hc₂⟩
  rw [hp h.1]
  exact .error _

/-- A consistent cache is refilled to the oracle's preimage of the key asked for. -/
theorem refillPreimage_of_consistent {e : InstrumentedState} (hc : CacheConsistent env e)
    (k : Key) :
  refillPreimage env e k =
    { e with lastPreimageKey := k, lastPreimage := lengthPrefixed (env.getPreimage k) }
  := by
  unfold refillPreimage
  split
  · rfl
  · rename_i h
    rw [not_not] at h
    subst h
    rw [← hc]

theorem readPreimage_replica (hr : Replica env e₁ e₂) (k : Key) (o : BitVec 32) :
  Both (ReplicaWith env) (readPreimage env e₁ k o) (readPreimage env e₂ k o)
  := by
  obtain ⟨⟨c, rfl⟩, hp, hc₁, hc₂⟩ := hr
  unfold readPreimage
  rw [refillPreimage_of_consistent hc₁, refillPreimage_of_consistent hc₂]
  dsimp only
  exact rel_ite _ (fun _ => .error _) fun _ => Both.bind_same fun _ => .ok ⟨⟨⟨⟨c.lastMemAccess,
    c.memProof, lengthPrefixed (env.getPreimage k), k, o⟩, rfl⟩, hp, rfl, rfl⟩, rfl⟩

theorem handleBranch_replica (hr : Replica env e₁ e₂) (opcode insn rtReg rs : BitVec 32) :
  Both (Replica env) (handleBranch e₁ opcode insn rtReg rs) (handleBranch e₂ opcode insn rtReg rs)
  := by
  obtain ⟨⟨c, rfl⟩, hp, hc₁, hc₂⟩ := hr
  simp only [handleBranch, InstrumentedState.withCaches_state]
  refine rel_ite _ (fun _ => .error _) fun _ => ?_
  cases shouldBranch e₁.state.registers opcode insn rtReg rs
  · exact .error _
  · exact .ok ⟨⟨c, rfl⟩, hp, hc₁, hc₂⟩

theorem handleHilo_replica (hr : Replica env e₁ e₂) (fn rs rt storeReg : BitVec 32) :
  Both (Replica env) (handleHilo e₁ fn rs rt storeReg) (handleHilo e₂ fn rs rt storeReg)
  := by
  obtain ⟨⟨c, rfl⟩, hp, hc₁, hc₂⟩ := hr
  exact Both.bind_same fun _ => .ok ⟨⟨c, rfl⟩, hp, hc₁, hc₂⟩

theorem handleRd_replica (hr : Replica env e₁ e₂) (storeReg val : BitVec 32) (cond : Bool) :
  Both (Replica env) (handleRd e₁ storeReg val cond) (handleRd e₂ storeReg val cond)
  := by
  obtain ⟨⟨c, rfl⟩, hp, hc₁, hc₂⟩ := hr
  exact rel_ite _ (fun _ => .error _) fun _ => .ok ⟨⟨c, rfl⟩, hp, hc₁, hc₂⟩

/-! ### Syscalls -/

theorem preimageRead_replica (hr : Replica env e₁ e₂) (a1 a2 : BitVec 32) :
  Both (ReplicaWith env) (preimageRead env e₁ a1 a2) (preimageRead env e₂ a1 a2)
  := by
  refine Both.bind (trackMemoryAccess_replica hr _) ?_
  rintro a _ ⟨⟨c, rfl⟩, hp, hc₁, hc₂⟩
  refine Both.bind (readPreimage_replica ⟨⟨c, rfl⟩, hp, hc₁, hc₂⟩ _ _) ?_
  rintro ⟨b, data, n⟩ ⟨_, _, _⟩ ⟨⟨⟨c', rfl⟩, hp', hb₁, hb₂⟩, h⟩
  cases h
  exact Both.bind_same fun _ => .ok ⟨⟨⟨c', rfl⟩, hp', hb₁, hb₂⟩, rfl⟩

theorem hintWrite_replica (hr : Replica env e₁ e₂) (a1 a2 : BitVec 32) :
  Both (ReplicaWith env) (hintWrite fuel e₁ a1 a2) (hintWrite fuel e₂ a1 a2)
  := by
  obtain ⟨⟨c, rfl⟩, hp, hc₁, hc₂⟩ := hr
  exact Both.bind_same fun _ => .ok ⟨⟨⟨c, rfl⟩, hp, hc₁, hc₂⟩, rfl⟩

theorem preimageWrite_replica (hr : Replica env e₁ e₂) (a1 a2 : BitVec 32) :
  Both (ReplicaWith env) (preimageWrite env e₁ a1 a2) (preimageWrite env e₂ a1 a2)
  := by
  refine Both.bind (trackMemoryAccess_replica hr _) ?_
  rintro a _ ⟨⟨c, rfl⟩, hp, hc₁, hc₂⟩
  exact Both.bind_same fun _ => Both.bind_same fun _ => .ok ⟨⟨⟨c, rfl⟩, hp, hc₁, hc₂⟩, rfl⟩

theorem sysRead_replica (hr : Replica env e₁ e₂) (a0 a1 a2 : BitVec 32) :
  Both (ReplicaWith env) (sysRead env e₁ a0 a1 a2) (sysRead env e₂ a0 a1 a2)
  := by
  unfold sysRead
  refine rel_ite _ (fun _ => .ok ⟨hr, rfl⟩) fun _ => ?_
  refine rel_ite _ (fun _ => preimageRead_replica hr a1 a2) fun _ => ?_
  exact rel_ite _ (fun _ => .ok ⟨hr, rfl⟩) fun _ => .ok ⟨hr, rfl⟩

theorem sysWrite_replica (hr : Replica env e₁ e₂) (a0 a1 a2 : BitVec 32) :
  Both (ReplicaWith env) (sysWrite env fuel e₁ a0 a1 a2) (sysWrite env fuel e₂ a0 a1 a2)
  := by
  obtain ⟨⟨c, rfl⟩, hp, hc₁, hc₂⟩ := id hr
  unfold sysWrite
  refine rel_ite _ (fun _ => .ok ⟨⟨⟨c, rfl⟩, hp, hc₁, hc₂⟩, rfl⟩) fun _ => ?_
  refine rel_ite _ (fun _ => .ok ⟨⟨⟨c, rfl⟩, hp, hc₁, hc₂⟩, rfl⟩) fun _ => ?_
  refine rel_ite _ (fun _ => hintWrite_replica hr a1 a2) fun _ => ?_
  exact rel_ite _ (fun _ => preimageWrite_replica hr a1 a2) fun _ => .ok ⟨hr, rfl⟩

theorem syscallResult_replica (hr : Replica env e₁ e₂) (num a0 a1 a2 : BitVec 32) :
  Both (ReplicaWith env) (syscallResult env fuel e₁ num a0 a1 a2)
    (syscallResult env fuel e₂ num a0 a1 a2)
  := by
  obtain ⟨⟨c, rfl⟩, hp, hc₁, hc₂⟩ := id hr
  unfold syscallResult
  refine rel_ite _ (fun _ => .ok ⟨⟨⟨c, rfl⟩, hp, hc₁, hc₂⟩, rfl⟩) fun _ => ?_
  refine rel_ite _ (fun _ => .ok ⟨hr, rfl⟩) fun _ => rel_ite _ (fun _ => .ok ⟨hr, rfl⟩) fun _ => ?_
  refine rel_ite _ (fun _ => sysRead_replica hr a0 a1 a2) fun _ => ?_
  refine rel_ite _ (fun _ => sysWrite_replica hr a0 a1 a2) fun _ => ?_
  exact rel_ite _ (fun _ => .ok ⟨hr, rfl⟩) fun _ => .ok ⟨hr, rfl⟩

theorem handleSyscall_replica (hr : Replica env e₁ e₂) :
  Both (Replica env) (handleSyscall env fuel e₁) (handleSyscall env fuel e₂)
  := by
  obtain ⟨⟨c, rfl⟩, hp, hc₁, hc₂⟩ := id hr
  refine rel_ite _ (fun _ => .ok ⟨⟨c, rfl⟩, hp, hc₁, hc₂⟩) fun _ => ?_
  refine Both.bind (syscallResult_replica hr _ _ _ _) ?_
  rintro ⟨a, v⟩ ⟨_, _⟩ ⟨⟨⟨c', rfl⟩, hp', ha₁, ha₂⟩, h⟩
  cases h
  exact .ok ⟨⟨c', rfl⟩, hp', ha₁, ha₂⟩

/-! ### The stages of a step -/

theorem memoryFetch_replica (hr : Replica env e₁ e₂) (opcode insn : BitVec 32) (ops : Operands) :
  Both (ReplicaWith env) (memoryFetch env e₁ opcode insn ops) (memoryFetch env e₂ opcode insn ops)
  := by
  refine rel_ite _ (fun _ => ?_) fun _ => .ok ⟨hr, rfl⟩
  refine Both.bind (trackMemoryAccess_replica hr _) ?_
  rintro a _ ⟨⟨c, rfl⟩, hp, hc₁, hc₂⟩
  exact rel_ite _ (fun _ => .ok ⟨⟨⟨c, rfl⟩, hp, hc₁, hc₂⟩, rfl⟩) fun _ =>
    .ok ⟨⟨⟨c, rfl⟩, hp, hc₁, hc₂⟩, rfl⟩

theorem dispatchSpecial_replica (hr : Replica env e₁ e₂) (fn : BitVec 32) (ops : Operands) :
  Option.Rel (Both (Replica env)) (dispatchSpecial env fuel e₁ fn ops)
    (dispatchSpecial env fuel e₂ fn ops)
  := by
  obtain ⟨⟨c, rfl⟩, hp, hc₁, hc₂⟩ := id hr
  refine rel_ite _ (fun _ => .some (.ok ⟨⟨c, rfl⟩, hp, hc₁, hc₂⟩)) fun _ => ?_
  refine rel_ite _ (fun _ => .some (handleRd_replica hr _ _ _)) fun _ => ?_
  refine rel_ite _ (fun _ => .some (handleRd_replica hr _ _ _)) fun _ => ?_
  refine rel_ite _ (fun _ => .some (handleSyscall_replica hr)) fun _ => ?_
  exact rel_ite _ (fun _ => .some (handleHilo_replica hr _ _ _ _)) fun _ => .none

theorem writeBack_replica (hr : Replica env e₁ e₂) (opcode val : BitVec 32) (ops : Operands) :
  Both (Replica env) (writeBack env e₁ opcode val ops) (writeBack env e₂ opcode val ops)
  := by
  obtain ⟨⟨c, rfl⟩, hp, hc₁, hc₂⟩ := hr
  have hsc : Replica env
      (if opcode = 0x38 ∧ ops.rtReg ≠ 0 then
        { e₁ with state := { e₁.state with registers := writeReg e₁.state.registers ops.rtReg 1 } }
      else e₁)
      (if opcode = 0x38 ∧ ops.rtReg ≠ 0 then
        { e₁.withCaches c with
          state := { e₁.state with registers := writeReg e₁.state.registers ops.rtReg 1 } }
      else e₁.withCaches c) :=
    rel_ite _ (fun _ => ⟨⟨c, rfl⟩, hp, hc₁, hc₂⟩) fun _ => ⟨⟨c, rfl⟩, hp, hc₁, hc₂⟩
  unfold writeBack storeWord
  refine Both.bind (rel_ite _ (fun _ => ?_) fun _ => .ok hsc) fun _ _ h => handleRd_replica h _ _ _
  refine Both.bind (trackMemoryAccess_replica hsc _) ?_
  rintro a _ ⟨⟨c', rfl⟩, hp', ha₁, ha₂⟩
  exact .ok ⟨⟨c', rfl⟩, hp', ha₁, ha₂⟩

/-! ### Steps and runs -/

/-- The special dispatch of `mips_step`, or the writeback when it falls through, is related by
`r` when the dispatches and the writebacks are. -/
theorem rel_special {r : Except Fault InstrumentedState → Except Fault InstrumentedState → Prop}
    {o₁ o₂ : Option (Except Fault InstrumentedState)} (ho : Option.Rel r o₁ o₂) (p : Prop)
    [Decidable p] {k₁ k₂ : Except Fault InstrumentedState} (hk : r k₁ k₂) :
  r (match (if p then o₁ else none) with
      | some x => x
      | none => k₁)
    (match (if p then o₂ else none) with
      | some x => x
      | none => k₂)
  := by
  split_ifs
  · cases ho with
    | some h => exact h
    | none => exact hk
  · exact hk

/-- One step on two replicas aborts on both with one fault, or returns replicas. -/
theorem mipsStep_replica (hr : Replica env e₁ e₂) :
  Both (Replica env) (mipsStep env fuel e₁) (mipsStep env fuel e₂)
  := by
  obtain ⟨⟨c, rfl⟩, hp, hc₁, hc₂⟩ := id hr
  have ht : Replica env e₁.tick (e₁.withCaches c).tick := ⟨⟨c, rfl⟩, hp, hc₁, hc₂⟩
  unfold mipsStep
  refine rel_ite _ (fun _ => .ok hr) fun _ => ?_
  refine rel_ite _ (fun _ => .ok ⟨⟨c, rfl⟩, hp, hc₁, hc₂⟩) fun _ => ?_
  refine rel_ite _ (fun _ => handleBranch_replica ht _ _ _ _) fun _ => ?_
  refine Both.bind (memoryFetch_replica ht _ _ _) ?_
  rintro ⟨a, ops⟩ ⟨b, _⟩ ⟨hab, h⟩
  cases h
  exact Both.bind_same fun _ =>
    rel_special (dispatchSpecial_replica hab _ _) _ (writeBack_replica hab _ _ _)

/-- With memory proofs off, `lw $3, 0x2000($0)` reaches one machine state whatever address was
tracked last. -/
example :
  (mipsStep Env.small 0 { InstrumentedState.load [0x8c032000] (fun _ => 0) 0 0x2000 with
      memProofEnabled := false }).map (fun e => e.state) =
    (mipsStep Env.small 0 { InstrumentedState.load [0x8c032000] (fun _ => 0) 0 0x3000 with
      memProofEnabled := false }).map (fun e => e.state)
  := rfl

/-- A run from one of two replicas is matched by a run from the other to a replica. -/
theorem Reachable.replica {e₁' : InstrumentedState} (hr : Replica env e₁ e₂)
    (h : Reachable env e₁ e₁') :
  ∃ e₂', Reachable env e₂ e₂' ∧ Replica env e₁' e₂'
  := by
  induction h with
  | refl => exact ⟨e₂, .refl, hr⟩
  | tail _ hs ih =>
    obtain ⟨b, hb, hrb⟩ := ih
    obtain ⟨fuel, hs⟩ := hs
    have hstep := @mipsStep_replica env fuel _ _ hrb
    rw [hs] at hstep
    obtain ⟨b', hb', hr'⟩ := hstep.of_ok
    exact ⟨b', hb.tail ⟨fuel, hb'⟩, hr'⟩

/-- With memory proofs off and each preimage cache holding the oracle's preimage of its key,
the caches are unobservable: a step on two engines that differ only in their caches aborts on
both with one fault, or returns on both to engines that again differ only in their caches; and
every run from one is matched by a run from the other. -/
theorem caches_unobservable :
  (∀ env fuel (e₁ e₂ : InstrumentedState), Replica env e₁ e₂ →
    Both (Replica env) (mipsStep env fuel e₁) (mipsStep env fuel e₂)) ∧
  (∀ env (e₁ e₂ e₁' : InstrumentedState), Replica env e₁ e₂ → Reachable env e₁ e₁' →
    ∃ e₂', Reachable env e₂ e₂' ∧ Replica env e₁' e₂')
  := ⟨fun _ _ _ _ => mipsStep_replica, fun _ _ _ _ => Reachable.replica⟩

end MipsEmulator
