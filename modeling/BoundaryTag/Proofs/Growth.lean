import BoundaryTag.Proofs.Merging
import BoundaryTag.Proofs.Running

namespace BoundaryTag

/-- The memory of a heap that grew by `bytes` at `start`, before its new block is merged. -/
def Memory.opened (m : Memory) (start bytes : Nat) : Memory :=
  (m.retag ⟨start, bytes, false⟩).setTagAt (start + bytes - wordSize) (.pack 0 true)

def Extent.longer (x : Extent) (bytes : Nat) : Extent := { x with size := x.size + bytes }

def Extent.fresh (x : Extent) (bytes : Nat) : Block := ⟨x.stop, bytes, false⟩

def Machine.opened {σ : Type} [Source σ] (s : Machine σ) (x : Extent) (bytes : Nat) : Machine σ where
  heap := { (s.asked bytes).heap with extent := some (x.longer bytes) }
  memory := s.memory.opened x.stop bytes
  trace := (s.asked bytes).trace ++ [.grown bytes (x.size + bytes)]

def Extent.tail (x : Extent) (bytes : Nat) (before : Option Block) : Block := (x.fresh bytes).join before none

def Extent.growth (x : Extent) (m : Memory) (bytes : Nat) (before : Option Block) : Merged :=
  (x.longer bytes).joined (m.opened x.stop bytes) (x.fresh bytes) before none

def Extent.grown (x : Extent) (bytes : Nat) (before : Option Block) : Extent :=
  { x.longer bytes with cursor := (x.tail bytes before).relocate x.cursor }

def Machine.grown {σ : Type} [Source σ] (s : Machine σ) (x : Extent) (bytes : Nat) (before : Option Block) :
    Machine σ where
  heap := { (s.asked bytes).heap with extent := some (x.grown bytes before) }
  memory := (x.growth s.memory bytes before).memory
  trace := (s.opened x bytes).trace ++ (x.growth s.memory bytes before).events

/-- A growth that leaves room in a tag for every size and an address for the end. -/
structure Extent.Admits (x : Extent) (bytes : Nat) : Prop where
  whole : bytes % unitSize = 0
  least : minBlock ≤ bytes
  room : x.size - frameBytes + bytes ≤ maxBlock
  limit : x.stop + bytes < addressLimit

theorem HeapM.extend_granted {σ : Type} [Source σ] {s : Machine σ} {x : Extent} {words bytes : Nat}
    {merged : Merged} (asked : bytesOfWords? words = some bytes) (framed : frameBytes ≤ x.size)
    (admits : x.Admits bytes)
    (granted : (Source.grow s.heap.source bytes).answer = .ok x.stop)
    (answer : (x.longer bytes).merge (s.memory.opened x.stop bytes) x.stop = .ok merged) :
    extend x words s = .ok (merged.block, { x.longer bytes with cursor := merged.cursor })
      { heap := { (s.asked bytes).heap with extent := some { x.longer bytes with cursor := merged.cursor } }
        memory := merged.memory
        trace := (s.opened x bytes).trace ++ merged.events } := by
  obtain ⟨whole, -, room, -⟩ := admits
  have total : checkedAdd x.size bytes = .ok (x.size + bytes) := if_pos (by lia)
  have tags := Memory.setTags_eq_retag s.memory ⟨x.stop, bytes, false⟩ whole (by dsimp only; lia)
  dsimp only at tags
  simp only [extend, asked, checkedSub, if_pos framed, if_neg (Nat.not_lt.mpr room), Bind.bind, EStateM.bind,
    ofChecked_ok, pure_run, request_run, granted, ofAnswer_ok, ne_eq, not_true_eq_false, if_false, total,
    setExtent_run, record_run, memory_run, setMemory_run, Machine.asked, tags]
  have step : HeapM.merge (x.longer bytes) x.stop (s.opened x bytes) = _ := merge_run answer
  simp only [Machine.opened, Machine.asked, granted] at step ⊢
  exact step

namespace Extent

variable {x : Extent} {m : Memory} {blocks left : List Block} {before : Option Block} {bytes address : Nat}

theorem stop_longer : (x.longer bytes).stop = x.stop + bytes := by
  simp only [longer, stop]
  omega

theorem stop_grown : (x.grown bytes before).stop = x.stop + bytes := by
  simp only [grown, longer, stop]
  omega

theorem byte_opened (blocks : List Block)
    (outside : ¬(x.longer bytes).TagByte (blocks ++ [x.fresh bytes]) address) :
    (m.opened x.stop bytes).byte address = m.byte address := by
  simp only [TagByte, not_or, not_and, not_exists, stop_longer] at outside
  obtain ⟨-, fresh, terminator⟩ := outside
  rw [Memory.opened, Memory.byte_setTagAt (by omega)]
  exact Memory.byte_retag (fresh (x.fresh bytes) (by simp))

theorem Tiled.opened (tiled : x.Tiled m blocks) (admits : x.Admits bytes) :
    (x.longer bytes).Tiled (m.opened x.stop bytes) (blocks ++ [x.fresh bytes]) := by
  obtain ⟨whole, least, room, limit⟩ := admits
  have framed := tiled.frame_le
  have high := tiled.tiles.start_le
  have below : ∀ address, address + wordSize < x.stop →
      (m.opened x.stop bytes).byte address = m.byte address := by
    intro address low
    rw [Memory.opened, Memory.byte_setTagAt (by omega)]
    apply Memory.byte_retag
    intro tag
    have own := tag.within (by dsimp only; omega) (by dsimp only; lia)
    dsimp only at own
    omega
  have new : Tiles x.stop [x.fresh bytes] (x.longer bytes).stop := by
    simp only [fresh, Tiles, Block.stop, stop_longer]
    exact ⟨trivial, whole, least, trivial⟩
  refine ⟨tiled.aligned, by rw [stop_longer]; exact limit, by simp only [longer]; omega, ?_,
    tiled.tiles.append new, ?_, ?_⟩
  · refine tiled.sentinel.congr fun address tag => below address ?_
    have own := sentinel_tag tag
    omega
  · intro block member
    rcases List.mem_append.mp member with old | new
    · refine (tiled.tagged block old).congr fun address tag => below address ?_
      exact (tag.inside tiled.tiles old (by lia)).2
    · obtain rfl := List.mem_singleton.mp new
      have low : wordSize ≤ (x.fresh bytes).addr := by simp only [fresh]; lia
      have enough : unitSize ≤ (x.fresh bytes).size := by simp only [fresh]; lia
      refine (Block.Tagged.retag m (x.fresh bytes) low enough).congr ?_
      intro address tag
      have own := tag.within low enough
      simp only [fresh, Block.stop] at own
      exact Memory.byte_setTagAt (by omega)
  · rw [stop_longer, Memory.header, Memory.opened, Memory.tagAt_setTagAt]

theorem Tiled.opened_run (tiled : x.Tiled m (left ++ before.toList)) (admits : x.Admits bytes) :
    (x.longer bytes).Tiled (m.opened x.stop bytes)
      (left ++ (before.toList ++ x.fresh bytes :: (none : Option Block).toList) ++ []) := by
  simpa using tiled.opened admits

theorem CursorAt.opened (cursor : x.CursorAt (left ++ before.toList)) :
    (x.longer bytes).CursorAt (left ++ (before.toList ++ x.fresh bytes :: (none : Option Block).toList) ++ []) := by
  rcases cursor with sentinel | ⟨block, member, points⟩
  · exact .inl sentinel
  · refine .inr ⟨block, ?_, points⟩
    rcases List.mem_append.mp member with member | member <;> simp [member]

theorem Sound.growth_merge (sound : x.Sound m (left ++ before.toList))
    (neighbours : FreeNeighbours left before none []) (admits : x.Admits bytes) :
    (x.longer bytes).merge (m.opened x.stop bytes) x.stop = .ok (x.growth m bytes before) :=
  (sound.toTiled.opened_run admits).merge_eq neighbours

theorem Sound.growth_cursor (sound : x.Sound m (left ++ before.toList)) (admits : x.Admits bytes) :
    (x.growth m bytes before).cursor = (x.tail bytes before).relocate x.cursor :=
  (sound.toTiled.opened_run admits).joined_cursor sound.cursor.opened

theorem Sound.grown (sound : x.Sound m (left ++ before.toList)) (neighbours : FreeNeighbours left before none [])
    (admits : x.Admits bytes) :
    (x.grown bytes before).Sound (x.growth m bytes before).memory (left ++ [x.tail bytes before]) := by
  have ahead : Separated left := (List.isChain_append.mp sound.separated).1
  have opened := sound.toTiled.opened_run admits
  have merged := opened.joined_sound rfl neighbours ahead .nil sound.cursor.opened
  rw [List.append_nil] at merged
  rw [Extent.grown, ← sound.growth_cursor admits]
  exact merged

theorem Sound.stop_tail (sound : x.Sound m (left ++ before.toList)) :
    (x.tail bytes before).stop = x.stop + bytes := by
  cases before with
  | none => simp only [tail, fresh, Block.join, Block.stop, Option.getD, Option.elim]; omega
  | some last =>
    have ends : last.stop = x.stop := sound.tiles.around.2.2.2
    simp only [Block.stop] at ends
    simp only [tail, fresh, Block.join, Block.stop, Option.getD, Option.elim]
    omega

theorem Sound.byte_growth (sound : x.Sound m (left ++ before.toList))
    (old : ¬x.TagByte (left ++ before.toList) address)
    (new : ¬(x.grown bytes before).TagByte (left ++ [x.tail bytes before]) address) :
    (x.growth m bytes before).memory.byte address = m.byte address := by
  have tail : ¬(x.tail bytes before).TagByte address := fun tag => new (.inr (.inl ⟨_, by simp, tag⟩))
  refine (Tiled.joined_byte tail).trans (byte_opened [] ?_)
  rintro (sentinel | ⟨block, member, tag⟩ | terminator)
  · exact old (.inl sentinel)
  · obtain rfl : block = x.fresh bytes := by simpa using member
    rcases tag with header | footer
    · exact old (.inr (.inr header))
    · exact tail (.inr (by rw [sound.stop_tail]; exact footer))
  · rw [stop_longer] at terminator
    exact new (.inr (.inr (by rw [stop_grown]; exact terminator)))

end Extent

namespace HeapM

variable {σ : Type} [Source σ] {s : Machine σ} {x : Extent} {left : List Block} {before : Option Block}
    {words bytes : Nat}

theorem extend_grown (asked : bytesOfWords? words = some bytes) (sound : x.Sound s.memory (left ++ before.toList))
    (neighbours : FreeNeighbours left before none []) (admits : x.Admits bytes)
    (granted : (Source.grow s.heap.source bytes).answer = .ok x.stop) :
    extend x words s = .ok ((x.tail bytes before).addr, x.grown bytes before) (s.grown x bytes before) := by
  have merged := sound.growth_merge neighbours admits
  rw [extend_granted asked sound.frame_le admits granted merged, sound.growth_cursor admits]
  simp only [Machine.grown, Extent.growth, Extent.Tiled.joined_block]
  rfl

end HeapM

end BoundaryTag
