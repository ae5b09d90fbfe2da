import BoundaryTag.Proofs.Balance

namespace BoundaryTag

namespace Machine

variable {σ : Type}

/-- The heap and its memory are the same. What the source was asked may not be. -/
structure Intact (s t : Machine σ) : Prop where
  extent : t.heap.extent = s.heap.extent
  blocks : t.heap.blocks t.memory = s.heap.blocks s.memory
  memory : t.memory = s.memory

theorem Intact.of_eq {s t : Machine σ} (extent : t.heap.extent = s.heap.extent) (memory : t.memory = s.memory) :
    s.Intact t := by
  refine ⟨extent, ?_, memory⟩
  unfold Heap.blocks
  rw [extent, memory]

theorem Intact.noting {α : Type} {s t : Machine σ} (intact : s.Intact t) (size : Nat) (answer : Except AllocError α) :
    s.Intact (t.noting size answer) := by
  apply Intact.of_eq
  · rw [noting_heap, intact.extent]
  · rw [noting_memory, intact.memory]

theorem Intact.allocated {s t : Machine σ} (intact : s.Intact t) : t.allocated = s.allocated := by
  unfold Machine.allocated
  rw [intact.blocks]

structure Moved (s t : Machine σ) (old new : Block) (size : Nat) : Prop where
  elsewhere : new.addr ≠ old.addr
  live : new ∈ t.allocated
  usable : ∃ bytes, t.memory.usableSize new.addr = .ok bytes ∧ size ≤ bytes
  contents : ∃ bytes, s.memory.usableSize old.addr = .ok bytes ∧
    ∀ i < min size bytes, t.memory.byte (new.addr + i) = s.memory.byte (old.addr + i)
  gone : old.addr ∉ t.allocated.map Block.addr
  others : ∀ other ∈ s.allocated, other ≠ old → other ∈ t.allocated ∧
    ∀ address, other.PayloadByte address → t.memory.byte address = s.memory.byte address

variable [Source σ]

theorem Serving.intact {s t : Machine σ} {x y : Extent} {blocks others : List Block} {size : Nat} {cause : AllocError}
    (serving : s.Serving x blocks size (.error cause) t y others) : s.Intact t := by
  cases serving with
  | huge => exact .of_eq rfl rfl
  | full => exact .of_eq rfl rfl
  | refused => exact .of_eq rfl rfl

variable [LawfulSource σ] {s t u : Machine σ} {x y z : Extent} {blocks others rest : List Block} {old new : Block}
  {size target : Nat}

theorem Reallots.gone (step : s.Reallots t [new] [old]) (consistent : s.Consistent)
    (fresh : new.addr ∉ s.allocated.map Block.addr) : old.addr ∉ t.allocated.map Block.addr := by
  have before : ((new :: s.allocated).map Block.addr).Nodup := List.nodup_cons.mpr ⟨fresh, consistent.nodup⟩
  have after := (step.blocks.map Block.addr).nodup_iff.mpr before
  exact (List.nodup_cons.mp after).1

/-- The copy lies in the payload of the new block, which the release of the old one leaves alone. -/
theorem Serving.moved_byte (serving : s.Serving x blocks size (.ok (some target)) t y others)
    (ready : s.Ready x blocks) (member : old ∈ blocks) (busy : old.allocated = true)
    (releasing : (t.copied old.addr target (min size (old.size - tagBytes))).Releasing y others old u z rest) {i : Nat}
    (copied : i < min size (old.size - tagBytes)) : u.memory.byte (target + i) = s.memory.byte (old.addr + i) := by
  obtain ⟨new, rfl, serves, step⟩ := (serving.served ready).answered
  have held := ready.mem_allocated.mpr ⟨member, busy⟩
  have after := serving.copied ready old
  have taken : new ∈ (t.copied old.addr new.addr (min size (old.size - tagBytes))).allocated :=
    after.mem_allocated.mpr ((serving.ready ready).mem_allocated.mp (step.mem_taken (by simp) (by simp)))
  have distinct : new ≠ old := fun same => step.fresh (same ▸ List.mem_map_of_mem held)
  have room := serves.payload
  have least := (ready.tiled.isBlockSize member).2.1
  have inside : new.PayloadByte (new.addr + i) := ⟨Nat.le_add_right .., by omega⟩
  have source : old.PayloadByte (old.addr + i) := ⟨Nat.le_add_right .., by simp only [Block.stop]; omega⟩
  calc u.memory.byte (new.addr + i)
      = (t.copied old.addr new.addr (min size (old.size - tagBytes))).memory.byte (new.addr + i) :=
        (releasing.reallots after busy).payload new taken (by simpa using distinct) _ inside
    _ = t.memory.byte (old.addr + i) := by
        rw [Machine.copied, Memory.byte_copy, if_pos (by omega), Nat.add_sub_cancel_left]
    _ = s.memory.byte (old.addr + i) := step.payload old held (by simp) _ source

theorem Serving.reallocated (serving : s.Serving x blocks size (.ok (some target)) t y others)
    (ready : s.Ready x blocks) (member : old ∈ blocks) (busy : old.allocated = true)
    (releasing : (t.copied old.addr target (min size (old.size - tagBytes))).Releasing y others old u z rest) :
    ∃ new, new.addr = target ∧ s.Moved u old new size := by
  have held := ready.mem_allocated.mpr ⟨member, busy⟩
  obtain ⟨new, rfl, serves, fresh, step⟩ := serving.moved ready busy releasing
  have distinct : new.addr ≠ old.addr := fun same => fresh (same ▸ List.mem_map_of_mem held)
  have live : new ∈ u.allocated := by
    apply step.mem_taken (List.mem_singleton_self new)
    intro same
    exact distinct (congrArg Block.addr (List.mem_singleton.mp same))
  refine ⟨new, rfl, distinct, live, ⟨_, step.consistent.usableSize live, ?_⟩, ⟨_, ready.usableSize member, ?_⟩,
    step.gone ready.consistent fresh, ?_⟩
  · have payload := serves.payload
    simp only [Block.stop] at payload
    omega
  · intro i copied
    exact serving.moved_byte ready member busy releasing copied
  · intro other otherHeld different
    have kept : other ∉ [old] := by simpa using different
    exact ⟨step.kept otherHeld kept, step.payload other otherHeld kept⟩

theorem Ready.reallocate (ready : s.Ready x blocks) (member : old ∈ blocks) (busy : old.allocated = true)
    (positive : size ≠ 0) (mode : Mode) : ∃ answer t, HeapM.reallocate mode (some old.addr) size s = .ok answer t ∧
      match answer with
      | some target => ∃ new, new.addr = target ∧ s.Moved t old new size
      | none => s.Intact t := by
  rcases ready.serves_move member busy positive with
    ⟨cause, t, y, others, serving⟩ | ⟨target, t, y, others, u, z, rest, serving, releasing⟩
  · have run := (Course.stay ready member busy positive serving).run mode
    exact ⟨_, _, run, serving.intact.noting size _⟩
  · have run := (Course.move ready member busy positive serving releasing).run mode
    exact ⟨_, _, run, serving.reallocated ready member busy releasing⟩

end Machine

namespace World

variable {σ : Type} [Source σ] [LawfulSource σ] {mode : Mode} {w : World σ}

/-- A reallocation of a live block moves it or leaves the heap as it is, an empty one releases, and one of null
    allocates. -/
theorem Reachable.reallocate_moves (reachable : w.Reachable mode) :
    (∀ old ∈ w.machine.allocated, ∀ size ≠ 0, ∃ answer t,
      HeapM.reallocate mode (some old.addr) size w.machine = .ok answer t ∧
        match answer with
        | some target => ∃ new, new.addr = target ∧ w.machine.Moved t old new size
        | none => w.machine.Intact t ∧ old ∈ t.allocated) ∧
      (∀ pointer, HeapM.reallocate mode pointer 0 w.machine =
        (do HeapM.free mode pointer; return none : HeapM σ (Option Nat)) w.machine) ∧
      ∀ size ≠ 0, HeapM.reallocate mode none size w.machine = HeapM.allocate size w.machine := by
  refine ⟨?_, fun pointer => rfl, ?_⟩
  · intro old held size positive
    obtain ⟨x, blocks, ready⟩ := reachable.balanced.consistent.ready held
    obtain ⟨member, busy⟩ := ready.mem_allocated.mp held
    obtain ⟨answer, t, run, result⟩ := ready.reallocate member busy positive mode
    refine ⟨answer, t, run, ?_⟩
    cases answer with
    | some target => exact result
    | none => exact ⟨result, by rwa [result.allocated]⟩
  · intro size positive
    simp only [HeapM.reallocate, if_neg positive]

theorem trial_reallocate_moves :
    (∀ old ∈ trial.machine.allocated, ∀ size ≠ 0, ∃ answer t,
      HeapM.reallocate .vetting (some old.addr) size trial.machine = .ok answer t ∧
        match answer with
        | some target => ∃ new, new.addr = target ∧ trial.machine.Moved t old new size
        | none => trial.machine.Intact t ∧ old ∈ t.allocated) ∧
      (∀ pointer, HeapM.reallocate .vetting pointer 0 trial.machine =
        (do HeapM.free .vetting pointer; return none : HeapM Region (Option Nat)) trial.machine) ∧
      ∀ size ≠ 0, HeapM.reallocate .vetting none size trial.machine = HeapM.allocate size trial.machine :=
  Reachable.reallocate_moves trial_reachable

end World

end BoundaryTag
