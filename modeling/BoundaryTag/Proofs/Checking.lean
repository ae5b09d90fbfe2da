import BoundaryTag.Heap.Check
import BoundaryTag.Proofs.Soundness

namespace BoundaryTag

def Stats.add (stats : Stats) (block : Block) : Stats :=
  if block.allocated then
    { stats with blocks := stats.blocks + 1, allocatedBytes := stats.allocatedBytes + block.size }
  else
    { stats with
      blocks := stats.blocks + 1
      freeBlocks := stats.freeBlocks + 1
      freeBytes := stats.freeBytes + block.size }

def Extent.stats (x : Extent) (blocks : List Block) : Stats := blocks.foldl .add { heapSize := x.size }

def Heap.stats {σ : Type} (heap : Heap σ) (m : Memory) : Stats := heap.extent.elim {} fun x => x.stats (x.blocks m)

namespace CheckM

theorem add_eq {a b : Nat} (fits : a + b < addressLimit) : add a b = .ok (a + b) := by
  simp only [add, checkedAdd, if_pos fits]
  rfl

theorem add_of_le {a b : Nat} (far : addressLimit ≤ a + b) : add a b = .error (.fault .overflow) := by
  simp only [add, checkedAdd, if_neg (Nat.not_lt.mpr far)]
  rfl

theorem sub_eq {a b : Nat} (least : b ≤ a) : sub a b = .ok (a - b) := by
  simp only [sub, checkedSub, if_pos least]
  rfl

end CheckM

namespace Walked

def pass (x : Extent) (walked : Walked) (block : Block) : Walked where
  stats := walked.stats.add block
  counted := walked.counted + block.size
  priorFree := !block.allocated
  cursorSeen := walked.cursorSeen || block.addr == x.cursor

/-- No count is above the bytes that were walked over. -/
structure Bounded (walked : Walked) : Prop where
  blocks : walked.stats.blocks ≤ walked.counted
  freeBlocks : walked.stats.freeBlocks ≤ walked.counted
  freeBytes : walked.stats.freeBytes ≤ walked.counted
  allocatedBytes : walked.stats.allocatedBytes ≤ walked.counted

variable {x : Extent} {walked : Walked} {block : Block} {blocks : List Block}

theorem Bounded.pass (bounded : walked.Bounded) (least : minBlock ≤ block.size) :
    (walked.pass x block).Bounded := by
  obtain ⟨all, free, freeBytes, allocated⟩ := bounded
  constructor <;> simp only [Walked.pass, Stats.add] <;> split <;> dsimp only <;> lia

theorem Bounded.foldl (bounded : walked.Bounded) (least : ∀ block ∈ blocks, minBlock ≤ block.size) :
    (blocks.foldl (Walked.pass x) walked).Bounded := by
  induction blocks generalizing walked with
  | nil => exact bounded
  | cons block rest ih =>
    obtain ⟨first, others⟩ := List.forall_mem_cons.mp least
    exact ih (bounded.pass first) others

theorem count_eq {tag : Tag} (bounded : walked.Bounded) (size : tag.size = block.size)
    (flag : tag.isAllocated = block.allocated) (least : minBlock ≤ block.size)
    (limit : walked.counted + block.size < addressLimit) :
    { walked with cursorSeen := walked.cursorSeen || block.addr == x.cursor }.count tag =
      .ok (walked.pass x block) := by
  obtain ⟨all, free, freeBytes, allocated⟩ := bounded
  simp only [Walked.count, size, flag, CheckM.add_eq limit, Bind.bind, Except.bind,
    CheckM.add_eq (show walked.stats.blocks + 1 < addressLimit by lia)]
  cases busy : block.allocated with
  | true =>
    have bytes := CheckM.add_eq (show walked.stats.allocatedBytes + block.size < addressLimit by omega)
    simp only [if_true, bytes]
    simp only [Walked.pass, Stats.add, busy, if_true]
    rfl
  | false =>
    have count := CheckM.add_eq (show walked.stats.freeBlocks + 1 < addressLimit by lia)
    have bytes := CheckM.add_eq (show walked.stats.freeBytes + block.size < addressLimit by omega)
    simp only [Bool.false_eq_true, if_false, count, bytes]
    simp only [Walked.pass, Stats.add, busy, Bool.false_eq_true, if_false]
    rfl

theorem foldl_pass (x : Extent) (walked : Walked) (blocks : List Block) :
    (blocks.foldl (Walked.pass x) walked).stats = blocks.foldl .add walked.stats ∧
      (blocks.foldl (Walked.pass x) walked).counted = walked.counted + (blocks.map Block.size).sum ∧
      (blocks.foldl (Walked.pass x) walked).cursorSeen = (walked.cursorSeen || blocks.any (·.addr == x.cursor)) := by
  induction blocks generalizing walked with
  | nil => simp
  | cons block rest ih =>
    obtain ⟨stats, counted, seen⟩ := ih (walked.pass x block)
    refine ⟨stats, ?_, ?_⟩
    · rw [List.foldl_cons, counted, List.map_cons, List.sum_cons]
      exact Nat.add_assoc ..
    · rw [List.foldl_cons, seen, List.any_cons]
      exact Bool.or_assoc ..

end Walked

namespace Extent

theorem readTag_eq {x : Extent} {m : Memory} {addr : Nat} (above : x.start ≤ addr) (below : addr + wordSize ≤ x.stop) :
    x.readTag m addr = .ok (m.tagAt addr) :=
  if_pos ⟨above, below⟩

end Extent

end BoundaryTag
