import BoundaryTag.Proofs.Balance
import BoundaryTag.Proofs.Diagnosis

namespace BoundaryTag

variable {σ : Type} [Source σ] [LawfulSource σ] {mode : Mode} {s : Machine σ} {w : World σ}

namespace Machine

theorem Ready.heap_sound {x : Extent} {blocks : List Block} (ready : s.Ready x blocks) : s.heap.Sound s.memory := by
  intro y extent
  obtain rfl : x = y := ready.extent_eq extent
  rw [ready.tiled.blocks_eq]
  exact ready.sound

theorem Consistent.heap_sound (consistent : s.Consistent) : s.heap.Sound s.memory := by
  rcases consistent with unset | ⟨x, blocks, ready⟩
  · intro x extent
    exact absurd extent unset.extent_ne
  · exact ready.heap_sound

theorem Consistent.stands (consistent : s.Consistent) :
    LawfulSource.EndsAt s.heap.source (s.heap.extent.map Extent.stop) := by
  rcases consistent with unset | ⟨x, blocks, ready⟩
  · rw [unset.extent]
    exact unset.stands
  · rw [ready.extent]
    exact ready.stands

theorem Consistent.mem_blocks (consistent : s.Consistent) {block : Block}
    (member : block ∈ s.heap.blocks s.memory) :
    block.addr % unitSize = 0 ∧ IsBlockSize block.size ∧
      s.memory.header block.addr = s.memory.footer block.addr := by
  rcases consistent with unset | ⟨x, blocks, ready⟩
  · simp [Heap.blocks, unset.extent] at member
  · rw [ready.blocks_eq] at member
    have tiled := ready.tiled
    exact ⟨tiled.addr_mod member, tiled.isBlockSize member, tiled.header_eq_footer member⟩

theorem Consistent.check (consistent : s.Consistent) : s.heap.check s.memory = .ok (s.heap.stats s.memory) := by
  rcases consistent with unset | ⟨x, blocks, ready⟩
  · simp only [Heap.check, Heap.stats, unset.extent, Option.elim]
  · simp only [Heap.check, Heap.stats, ready.extent, ready.sound.check_eq, ready.tiled.blocks_eq, Option.elim]

theorem Consistent.sum_eq (consistent : s.Consistent) {x : Extent} (extent : s.heap.extent = some x) :
    ((x.blocks s.memory).map Block.size).sum + frameBytes = x.size ∧ x.size ≤ frameBytes + maxBlock := by
  have tiled := (consistent.heap_sound x extent).toTiled
  exact ⟨tiled.sum_eq, tiled.encodable⟩

end Machine

namespace World

/-- Every heap is well formed after every action, whether it succeeded or failed: it is sound, its blocks
    are aligned and carry equal tags, its source stands where it ends, and its check succeeds and counts
    what it holds. -/
theorem Reachable.well_formed (reachable : w.Reachable mode) :
    w.machine.heap.Sound w.machine.memory ∧
      (∀ block ∈ w.machine.heap.blocks w.machine.memory, block.addr % unitSize = 0 ∧ IsBlockSize block.size ∧
        w.machine.memory.header block.addr = w.machine.memory.footer block.addr) ∧
      LawfulSource.EndsAt w.machine.heap.source (w.machine.heap.extent.map Extent.stop) ∧
      w.machine.heap.check w.machine.memory = .ok (w.machine.heap.stats w.machine.memory) := by
  have consistent := reachable.balanced.consistent
  refine ⟨consistent.heap_sound, ?_, consistent.stands, consistent.check⟩
  intro block member
  exact consistent.mem_blocks member

theorem trial_well_formed :
    trial.machine.heap.Sound trial.machine.memory ∧
      (∀ block ∈ trial.machine.heap.blocks trial.machine.memory, block.addr % unitSize = 0 ∧ IsBlockSize block.size ∧
        trial.machine.memory.header block.addr = trial.machine.memory.footer block.addr) ∧
      LawfulSource.EndsAt trial.machine.heap.source (trial.machine.heap.extent.map Extent.stop) ∧
      trial.machine.heap.check trial.machine.memory = .ok (trial.machine.heap.stats trial.machine.memory) :=
  Reachable.well_formed trial_reachable

/-- The blocks of every heap add up to what one tag can hold, and no command with null or a live pointer
    faults: no sum overflows, no difference is negative, no tag is unaligned or too large for its word, and all
    growth follows the end of the heap. -/
theorem Reachable.within_tag_range (reachable : w.Reachable mode) :
    (∀ x, w.machine.heap.extent = some x → frameBytes ≤ x.size ∧
      ((x.blocks w.machine.memory).map Block.size).sum = x.size - frameBytes ∧ x.size - frameBytes ≤ maxBlock) ∧
    (∀ command, w.Permits (.command command) → ∀ fault t, command.perform mode w.machine ≠ .error (.fault fault) t) ∧
    ∀ loan ∈ w.loans, ∃ bytes, w.machine.memory.usableSize loan.addr = .ok bytes := by
  have balanced := reachable.balanced
  refine ⟨fun x extent => ?_, fun command permitted fault t faulted => ?_, fun loan held => ?_⟩
  · obtain ⟨sum, limit⟩ := balanced.consistent.sum_eq extent
    omega
  · rcases balanced.consistent.perform command (balanced.live permitted) mode with
      ⟨cause, t, run, -⟩ | ⟨answer, t, run, -⟩ <;> rw [run] at faulted <;> cases faulted
  · have usable := balanced.consistent.usableSize (balanced.mem_allocated held)
    exact ⟨_, usable⟩

theorem trial_within_tag_range :
    (∀ x, trial.machine.heap.extent = some x → frameBytes ≤ x.size ∧
      ((x.blocks trial.machine.memory).map Block.size).sum = x.size - frameBytes ∧ x.size - frameBytes ≤ maxBlock) ∧
    (∀ command, trial.Permits (.command command) →
      ∀ fault t, command.perform .vetting trial.machine ≠ .error (.fault fault) t) ∧
    ∀ loan ∈ trial.loans, ∃ bytes, trial.machine.memory.usableSize loan.addr = .ok bytes :=
  Reachable.within_tag_range trial_reachable

end World

end BoundaryTag
