import BoundaryTag.Proofs.Scanning
import Mathlib.Data.List.Iterate

namespace BoundaryTag

namespace Block.Tagged

variable {m : Memory} {block : Block}

theorem priorTag_next (tagged : block.Tagged m) (whole : block.size % unitSize = 0) (fits : block.size < tagLimit) :
    m.priorTag (m.next block.addr) = m.header block.addr := by
  rw [tagged.next_eq whole fits, Memory.priorTag, tagged.footer, tagged.header]

theorem prior_next (tagged : block.Tagged m) (whole : block.size % unitSize = 0) (fits : block.size < tagLimit) :
    m.prior (m.next block.addr) = block.addr := by
  rw [Memory.prior, tagged.priorTag_next whole fits, tagged.header_size whole fits, tagged.next_eq whole fits, stop,
    Nat.add_sub_cancel]

end Block.Tagged

namespace Memory.Chained

variable {m : Memory} {start stop addr : Nat} {blocks : List Block} {block : Block}

theorem steps_back (chained : m.Chained start blocks stop)
    (back : ∀ block ∈ blocks, m.prior (m.next block.addr) = block.addr) :
    m.prior^[blocks.length] stop = start ∧
      (List.iterate m.prior (m.prior stop) blocks.length).map m.blockAt = blocks.reverse := by
  induction blocks generalizing start with
  | nil => exact ⟨chained.symm, rfl⟩
  | cons block rest ih =>
    obtain ⟨rfl, tail⟩ := chained
    obtain ⟨first, others⟩ := List.forall_mem_cons.mp back
    obtain ⟨here, seen⟩ := ih tail others
    have begins : m.prior^[rest.length + 1] stop = start := by
      rw [Function.iterate_succ_apply', here]
      exact first
    refine ⟨begins, ?_⟩
    rw [List.length_cons, List.iterate_add, List.map_append, seen, List.reverse_cons, ← Function.iterate_succ_apply,
      begins]
    rfl

theorem exists_next_eq (chained : m.Chained start blocks stop)
    (later : addr = stop ∨ ∃ block ∈ blocks, block.addr = addr) :
    addr = start ∨ ∃ block ∈ blocks, m.next block.addr = addr := by
  induction blocks generalizing start with
  | nil =>
    obtain rfl : start = stop := chained
    simpa using later
  | cons block rest ih =>
    obtain ⟨rfl, tail⟩ := chained
    simp only [List.exists_mem_cons_iff] at later ⊢
    rcases later with ends | here | further
    · exact .inr ((ih tail (.inl ends)).imp_left Eq.symm)
    · exact .inl here.symm
    · exact .inr ((ih tail (.inr further)).imp_left Eq.symm)

end Memory.Chained

namespace Extent.Sound

variable {x : Extent} {m : Memory} {blocks : List Block} {block : Block} {addr : Nat}

theorem back (sound : x.Sound m blocks) (member : block ∈ x.sentinel :: blocks) :
    m.prior (m.next block.addr) = block.addr ∧ m.priorTag (m.next block.addr) = m.header block.addr := by
  rcases List.mem_cons.mp member with rfl | member
  · have whole : x.sentinel.size % unitSize = 0 := Nat.mod_self unitSize
    have fits : x.sentinel.size < tagLimit := show unitSize < tagLimit by decide
    exact ⟨sound.sentinel.prior_next whole fits, sound.sentinel.priorTag_next whole fits⟩
  · have whole := (sound.isBlockSize member).1
    have fits := sound.fits member
    exact ⟨(sound.tagged _ member).prior_next whole fits, (sound.tagged _ member).priorTag_next whole fits⟩

theorem next_prior (sound : x.Sound m blocks) (later : addr = x.stop ∨ ∃ block ∈ blocks, block.addr = addr) :
    m.next (m.prior addr) = addr := by
  obtain ⟨-, chained⟩ := sound.chained_sentinel
  have before : ∃ block ∈ x.sentinel :: blocks, m.next block.addr = addr :=
    (List.exists_mem_cons_iff ..).mpr ((chained.exists_next_eq later).imp_left Eq.symm)
  obtain ⟨block, member, rfl⟩ := before
  rw [(sound.back member).1]

end Extent.Sound

namespace World

variable {σ : Type} [Source σ] [LawfulSource σ] {mode : Mode} {w : World σ} {x : Extent}

/-- Steps back from the end sentinel go past the blocks of a heap in reverse order and come to the start sentinel.
    At each block they undo the steps forward, and are undone by them. -/
theorem Reachable.retraced (reachable : w.Reachable mode) (extent : w.machine.heap.extent = some x) :
    let m := w.machine.memory
    let blocks := w.machine.heap.blocks m
    (List.iterate m.prior (m.prior x.stop) (blocks.length + 1)).map m.blockAt = blocks.reverse ++ [x.sentinel] ∧
      (∀ block ∈ x.sentinel :: blocks, m.prior (m.next block.addr) = block.addr ∧
        m.priorTag (m.next block.addr) = m.header block.addr) ∧
      (∀ block ∈ blocks, m.next (m.prior block.addr) = block.addr) ∧ m.next (m.prior x.stop) = x.stop := by
  have ready := reachable.balanced.consistent.ready_of_extent extent
  rw [← ready.blocks_eq] at ready
  refine ⟨?_, fun block member => ready.sound.back member, fun block member => ?_, ready.sound.next_prior (.inl rfl)⟩
  · rw [← List.reverse_cons]
    exact (ready.sound.chained_sentinel.steps_back fun block member => (ready.sound.back member).1).2
  · exact ready.sound.next_prior (.inr ⟨block, member, rfl⟩)

theorem trial_retraced :
    let m := trial.machine.memory
    let blocks := trial.machine.heap.blocks m
    (List.iterate m.prior (m.prior trialExtent.stop) (blocks.length + 1)).map m.blockAt =
        blocks.reverse ++ [trialExtent.sentinel] ∧
      (∀ block ∈ trialExtent.sentinel :: blocks, m.prior (m.next block.addr) = block.addr ∧
        m.priorTag (m.next block.addr) = m.header block.addr) ∧
      (∀ block ∈ blocks, m.next (m.prior block.addr) = block.addr) ∧
      m.next (m.prior trialExtent.stop) = trialExtent.stop :=
  Reachable.retraced trial_reachable trial_extent

end World

end BoundaryTag
