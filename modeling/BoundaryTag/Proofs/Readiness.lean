import BoundaryTag.Proofs.Growth
import BoundaryTag.Proofs.Lawful
import BoundaryTag.Proofs.Placement

namespace BoundaryTag

def Extent.bare (start : Nat) : Extent := ⟨start, frameBytes, start + unitSize⟩

theorem Extent.Sound.frame (m : Memory) {start : Nat} (aligned : start % unitSize = 0)
    (limit : start + frameBytes < addressLimit) : (Extent.bare start).Sound (HeapM.frame m start) [] := by
  refine ⟨⟨aligned, limit, by simp only [bare]; omega, ⟨?_, ?_⟩, rfl, by simp, ?_⟩, .nil, .inl rfl⟩
  · simp only [sentinel, startSentinel, bare, Memory.header, HeapM.frame]
    rw [Memory.tagAt_setTagAt_of_disjoint (by lia), Memory.tagAt_setTagAt_of_disjoint (by lia),
      show start + unitSize - wordSize = start + wordSize by lia, Memory.tagAt_setTagAt]
  · simp only [sentinel, startSentinel, bare, Block.stop, HeapM.frame]
    rw [Memory.tagAt_setTagAt_of_disjoint (by lia),
      show start + unitSize + unitSize - tagBytes = start + 2 * wordSize by lia, Memory.tagAt_setTagAt]
  · simp only [stop, bare, Memory.header, HeapM.frame]
    rw [show start + frameBytes - wordSize = start + 3 * wordSize by lia, Memory.tagAt_setTagAt]

namespace Machine

variable {σ : Type}

def allocated (s : Machine σ) : List Block := (s.heap.blocks s.memory).filter (·.allocated)

variable [Source σ]

def seek (s : Machine σ) (x : Extent) (cursor : Nat) : Machine σ :=
  { s with heap := { s.heap with extent := some { x with cursor } } }

def framed (s : Machine σ) (start : Nat) : Machine σ where
  heap := { (s.asked frameBytes).heap with extent := some (.bare start) }
  memory := HeapM.frame s.memory start
  trace := (s.asked frameBytes).trace ++ [.initialized start]

def place (s : Machine σ) (block : Block) (need : Nat) : Machine σ :=
  { s with memory := (block.placed need).foldl .retag s.memory, trace := s.trace ++ [block.placement need] }

omit [Source σ] in
theorem place_memory (s : Machine σ) (block : Block) (need : Nat) :
    (s.place block need).memory = (block.placed need).foldl .retag s.memory := by
  simp only [place]

end Machine

namespace HeapM

variable {σ : Type} [Source σ] {s : Machine σ} {x : Extent}

theorem init_done (extent : s.heap.extent = some x) : init s = ends (.ok x) s := by
  simp only [init, Bind.bind, EStateM.bind, get_run, extent]
  rfl

end HeapM

namespace Machine

variable {σ : Type} [Source σ] [LawfulSource σ]

structure Unset (s : Machine σ) : Prop where
  extent : s.heap.extent = none
  stands : LawfulSource.EndsAt s.heap.source none

/-- The heap is set up and sound, and its source stands at the end of it. -/
structure Ready (s : Machine σ) (x : Extent) (blocks : List Block) : Prop where
  extent : s.heap.extent = some x
  valid : s.heap.config.validate = .ok ()
  stands : LawfulSource.EndsAt s.heap.source (some x.stop)
  sound : x.Sound s.memory blocks

theorem Unset.extent_ne {s : Machine σ} {x : Extent} (unset : s.Unset) : s.heap.extent ≠ some x := by
  rw [unset.extent]
  nofun

theorem Unset.refused {s : Machine σ} {bytes : Nat} {cause : AllocError} (unset : s.Unset)
    (refused : (Source.grow s.heap.source bytes).answer = .error cause) : (s.asked bytes).Unset :=
  ⟨unset.extent, LawfulSource.refused unset.stands refused⟩

theorem Unset.framed {s : Machine σ} {start : Nat} (unset : s.Unset) (valid : s.heap.config.validate = .ok ())
    (granted : (Source.grow s.heap.source frameBytes).answer = .ok start) :
    (s.framed start).Ready (.bare start) [] := by
  obtain ⟨-, aligned, limit, stands⟩ := LawfulSource.granted unset.stands granted
  exact ⟨rfl, valid, stands, .frame s.memory (aligned rfl) limit⟩

namespace Ready

variable {s : Machine σ} {x : Extent} {blocks left right : List Block} {block : Block} {before : Option Block}
  {bytes need cursor : Nat} {cause : AllocError}

theorem extent_eq {y : Extent} (ready : s.Ready x blocks) (extent : s.heap.extent = some y) : x = y :=
  Option.some.inj (ready.extent.symm.trans extent)

theorem tiled (ready : s.Ready x blocks) : x.Tiled s.memory blocks := ready.sound.toTiled

theorem blocks_eq (ready : s.Ready x blocks) : s.heap.blocks s.memory = blocks := by
  simp only [Heap.blocks, ready.extent, Option.elim, ready.tiled.blocks_eq]

theorem refused (ready : s.Ready x blocks) (refused : (Source.grow s.heap.source bytes).answer = .error cause) :
    (s.asked bytes).Ready x blocks :=
  ⟨ready.extent, ready.valid, LawfulSource.refused ready.stands refused, ready.sound⟩

theorem seek (ready : s.Ready x blocks) (member : block ∈ blocks) :
    (s.seek x block.addr).Ready { x with cursor := block.addr } blocks :=
  ⟨rfl, ready.valid, ready.stands, ready.tiled.withCursor _, ready.sound.separated, .inr ⟨block, member, rfl⟩⟩

theorem placed (ready : s.Ready x (left ++ [block] ++ right)) (free : block.allocated = false)
    (least : minBlock ≤ need) (whole : need % unitSize = 0) :
    (s.place block need).Ready x (left ++ block.placed need ++ right) := by
  refine ⟨ready.extent, ready.valid, ready.stands, ?_⟩
  rw [place_memory]
  exact ready.sound.placed free least whole

theorem grown (ready : s.Ready x (left ++ before.toList)) (neighbours : FreeNeighbours left before none [])
    (admits : x.Admits bytes) (granted : (Source.grow s.heap.source bytes).answer = .ok x.stop) :
    (s.grown x bytes before).Ready (x.grown bytes before) (left ++ [x.tail bytes before]) := by
  obtain ⟨-, -, -, stands⟩ := LawfulSource.granted ready.stands granted
  refine ⟨rfl, ready.valid, ?_, ready.sound.grown neighbours admits⟩
  rw [Extent.stop_grown]
  exact stands

theorem congr {m : Memory} (ready : s.Ready x blocks)
    (same : ∀ address, x.TagByte blocks address → m.byte address = s.memory.byte address) :
    Ready { s with memory := m } x blocks :=
  ⟨ready.extent, ready.valid, ready.stands, ready.tiled.congr same, ready.sound.separated, ready.sound.cursor⟩

theorem extend_refused (ready : s.Ready x blocks) (size : IsBlockSize bytes)
    (room : x.size - frameBytes + bytes ≤ maxBlock)
    (refused : (Source.grow s.heap.source bytes).answer = .error cause) :
    HeapM.extend x (bytes / wordSize) s = .error (.failed cause) (s.asked bytes) :=
  HeapM.extend_refused (bytesOfWords?_eq size) ready.sound.frame_le room refused

theorem extend_full (ready : s.Ready x blocks) (size : IsBlockSize bytes)
    (full : maxBlock < x.size - frameBytes + bytes) :
    HeapM.extend x (bytes / wordSize) s = .error (.failed (.outOfMemory bytes)) s :=
  HeapM.extend_full (bytesOfWords?_eq size) ready.sound.frame_le full

theorem extend_grown {start : Nat} (ready : s.Ready x (left ++ before.toList))
    (neighbours : FreeNeighbours left before none []) (size : IsBlockSize bytes)
    (room : x.size - frameBytes + bytes ≤ maxBlock)
    (granted : (Source.grow s.heap.source bytes).answer = .ok start) :
    HeapM.extend x (bytes / wordSize) s =
        .ok ((x.tail bytes before).addr, x.grown bytes before) (s.grown x bytes before) ∧
      (s.grown x bytes before).Ready (x.grown bytes before) (left ++ [x.tail bytes before]) := by
  obtain ⟨follows, -, limit, -⟩ := LawfulSource.granted ready.stands granted
  obtain rfl : start = x.stop := follows _ rfl
  have admits : x.Admits bytes := ⟨size.1, size.2.1, room, limit⟩
  exact ⟨HeapM.extend_grown (bytesOfWords?_eq size) ready.sound neighbours admits granted,
    ready.grown neighbours admits granted⟩

end Ready

def Consistent (s : Machine σ) : Prop := s.Unset ∨ ∃ x blocks, s.Ready x blocks

section

variable {s : Machine σ} {x : Extent} {blocks : List Block} {block : Block}

theorem Unset.allocated_eq (unset : s.Unset) : s.allocated = [] := by
  simp only [allocated, Heap.blocks, unset.extent, Option.elim, List.filter_nil]

theorem Ready.allocated_eq (ready : s.Ready x blocks) : s.allocated = blocks.filter (·.allocated) := by
  rw [allocated, ready.blocks_eq]

theorem Ready.mem_allocated (ready : s.Ready x blocks) :
    block ∈ s.allocated ↔ block ∈ blocks ∧ block.allocated = true := by
  rw [ready.allocated_eq, List.mem_filter]

theorem Ready.consistent (ready : s.Ready x blocks) : s.Consistent := .inr ⟨x, blocks, ready⟩

theorem Consistent.ready (consistent : s.Consistent) (member : block ∈ s.allocated) :
    ∃ x blocks, s.Ready x blocks := by
  rcases consistent with unset | ready
  · rw [unset.allocated_eq] at member
    cases member
  · exact ready

theorem Consistent.ready_of_extent (consistent : s.Consistent) (extent : s.heap.extent = some x) :
    s.Ready x (x.blocks s.memory) := by
  rcases consistent with unset | ⟨y, blocks, ready⟩
  · exact absurd extent unset.extent_ne
  · obtain rfl : y = x := ready.extent_eq extent
    rwa [ready.tiled.blocks_eq]

theorem Consistent.nodup (consistent : s.Consistent) : (s.allocated.map Block.addr).Nodup := by
  rcases consistent with unset | ⟨x, blocks, ready⟩
  · rw [unset.allocated_eq]
    exact .nil
  · rw [ready.allocated_eq]
    exact ready.sound.tiles.nodup.sublist (List.filter_sublist.map _)

end

end Machine

end BoundaryTag
