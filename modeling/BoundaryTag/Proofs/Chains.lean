import BoundaryTag.Proofs.Tagged
import BoundaryTag.Proofs.Tiling

namespace BoundaryTag

namespace Memory

def blockAt (m : Memory) (addr : Nat) : Block := ⟨addr, (m.header addr).size, (m.header addr).isAllocated⟩

def Chained (m : Memory) : Nat → List Block → Nat → Prop
  | start, [], stop => start = stop
  | start, block :: rest, stop => m.blockAt start = block ∧ m.Chained (m.next start) rest stop

variable {m : Memory} {start middle stop : Nat} {blocks front back : List Block} {block : Block}

theorem chained_of_tiles (tiles : Tiles start blocks stop) (tagged : ∀ block ∈ blocks, block.Tagged m)
    (fits : ∀ block ∈ blocks, block.size < tagLimit) : m.Chained start blocks stop := by
  induction blocks generalizing start with
  | nil => exact tiles
  | cons block rest ih =>
    obtain ⟨begins, whole, -, tail⟩ := tiles
    have own := tagged block List.mem_cons_self
    have small := fits block List.mem_cons_self
    subst begins
    refine ⟨?_, ?_⟩
    · simp only [blockAt, own.header_size whole small, own.header_isAllocated whole]
    · rw [own.next_eq whole small]
      exact ih tail (fun other member => tagged other (List.mem_cons_of_mem _ member))
        fun other member => fits other (List.mem_cons_of_mem _ member)

namespace Chained

theorem append (left : m.Chained start front middle) (right : m.Chained middle back stop) :
    m.Chained start (front ++ back) stop := by
  induction front generalizing start with
  | nil =>
    obtain rfl : start = middle := left
    exact right
  | cons block rest ih =>
    obtain ⟨here, tail⟩ := left
    exact ⟨here, ih tail⟩

theorem blockAt_eq (chained : m.Chained start blocks stop) (member : block ∈ blocks) :
    m.blockAt block.addr = block := by
  induction blocks generalizing start with
  | nil => cases member
  | cons first rest ih =>
    obtain ⟨rfl, tail⟩ := chained
    rcases List.mem_cons.mp member with rfl | member
    · rfl
    · exact ih tail member

/-- Sizes in headers are whole, so a chain of blocks that are large enough tiles what it goes through. -/
theorem tiles (chained : m.Chained start blocks stop) (least : ∀ block ∈ blocks, minBlock ≤ block.size) :
    Tiles start blocks stop := by
  induction blocks generalizing start with
  | nil => exact chained
  | cons block rest ih =>
    obtain ⟨rfl, tail⟩ := chained
    obtain ⟨first, others⟩ := List.forall_mem_cons.mp least
    exact ⟨rfl, Tag.size_mod _, first, ih tail others⟩

theorem walk_eq (chained : m.Chained start blocks stop) (least : ∀ block ∈ blocks, minBlock ≤ block.size)
    (empty : (m.header stop).size = 0) (bounded : stop < addressLimit) : m.walk start = blocks := by
  induction blocks generalizing start with
  | nil =>
    obtain rfl : start = stop := chained
    exact walk_eq_nil empty
  | cons block rest ih =>
    have below := (chained.tiles least).start_le
    obtain ⟨rfl, tail⟩ := chained
    obtain ⟨first, others⟩ := List.forall_mem_cons.mp least
    have positive : minBlock ≤ (m.header start).size := first
    rw [walk_eq_cons (by lia) (by omega), ih tail others]
    rfl

theorem stop_le {limit : Nat} (chained : m.Chained start blocks stop) (low : start ≤ limit)
    (inside : ∀ block ∈ blocks, m.next block.addr ≤ limit) : stop ≤ limit := by
  induction blocks generalizing start with
  | nil =>
    obtain rfl : start = stop := chained
    exact low
  | cons block rest ih =>
    obtain ⟨rfl, tail⟩ := chained
    obtain ⟨first, others⟩ := List.forall_mem_cons.mp inside
    exact ih tail first others

theorem comparable (chained : m.Chained start blocks stop) (other : m.Chained start front middle) :
    (∃ rest, blocks = front ++ rest ∧ m.Chained middle rest stop) ∨
      ∃ rest, front = blocks ++ m.blockAt stop :: rest := by
  induction front generalizing start blocks with
  | nil =>
    obtain rfl : start = middle := other
    exact .inl ⟨blocks, rfl, chained⟩
  | cons block front ih =>
    obtain ⟨rfl, tail⟩ := other
    cases blocks with
    | nil =>
      obtain rfl : start = stop := chained
      exact .inr ⟨front, rfl⟩
    | cons block blocks =>
      obtain ⟨rfl, chained⟩ := chained
      rcases ih chained tail with ⟨rest, rfl, later⟩ | ⟨rest, rfl⟩
      · exact .inl ⟨rest, rfl, later⟩
      · exact .inr ⟨rest, rfl⟩

theorem continues (chained : m.Chained start blocks stop) (empty : (m.header stop).size = 0)
    (part : m.Chained start front middle) (least : ∀ block ∈ front, minBlock ≤ block.size) :
    ∃ rest, blocks = front ++ rest ∧ m.Chained middle rest stop := by
  rcases chained.comparable part with continued | ⟨rest, rfl⟩
  · exact continued
  · have positive : minBlock ≤ (m.header stop).size := least (m.blockAt stop) (by simp)
    lia

end Chained

end Memory

end BoundaryTag
