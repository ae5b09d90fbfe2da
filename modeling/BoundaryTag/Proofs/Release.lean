import BoundaryTag.Proofs.Readiness

namespace BoundaryTag

def Block.freed (block : Block) : Block := { block with allocated := false }

theorem Block.join_freed (block : Block) (before after : Option Block) :
    block.freed.join before after = block.join before after := by cases before <;> rfl

theorem Separated.neighbours {front back : List Block} {block : Block}
    (separated : Separated (front ++ block :: back)) :
    ∃ left before after right, front ++ block :: back = left ++ (before.toList ++ block :: after.toList) ++ right ∧
      FreeNeighbours left before after right := by
  obtain ⟨ahead, rest, -⟩ := List.isChain_append.mp separated
  obtain ⟨-, behind⟩ := List.isChain_cons.mp rest
  obtain ⟨left, before, rfl, beforeFree, leftClosed⟩ := Separated.cut_last ahead
  obtain ⟨after, right, rfl, afterFree, rightClosed⟩ := Separated.cut_head behind
  exact ⟨left, before, after, right, by simp, ⟨beforeFree, afterFree, leftClosed, rightClosed⟩⟩

namespace Extent

variable {x : Extent} {m : Memory} {blocks left right : List Block} {before after : Option Block} {block : Block}

theorem Tiled.freed (tiled : x.Tiled m (left ++ (before.toList ++ block :: after.toList) ++ right)) :
    x.Tiled (m.retag block.freed) (left ++ (before.toList ++ block.freed :: after.toList) ++ right) := by
  have plain : x.Tiled m ((left ++ before.toList) ++ [block] ++ (after.toList ++ right)) := by simpa using tiled
  have low := (plain.tiles.within (by simp : block ∈ _)).1
  have least := (plain.isBlockSize (by simp : block ∈ _)).2.1
  have freed :
      x.Tiled (m.retag block.freed) ((left ++ before.toList) ++ [block.freed] ++ (after.toList ++ right)) := by
    refine plain.replace (fun run => run) ?_ fun address outside => Memory.byte_retag (outside block.freed (by simp))
    have tagged := Block.Tagged.retag m block.freed (by simp only [Block.freed]; lia) (by simp only [Block.freed]; lia)
    simpa using tagged
  simpa using freed

theorem CursorAt.freed (cursor : x.CursorAt (left ++ (before.toList ++ block :: after.toList) ++ right)) :
    x.CursorAt (left ++ (before.toList ++ block.freed :: after.toList) ++ right) := by
  rcases cursor with sentinel | ⟨other, member, points⟩
  · exact .inl sentinel
  · simp only [List.mem_append, List.mem_cons] at member
    rcases member with (member | member | rfl | member) | member
    · exact .inr ⟨other, by simp [member], points⟩
    · exact .inr ⟨other, by simp_all, points⟩
    · exact .inr ⟨other.freed, by simp, points⟩
    · exact .inr ⟨other, by simp_all, points⟩
    · exact .inr ⟨other, by simp [member], points⟩

/-- Vetting the address of a block asks only whether the block is allocated. -/
theorem Tiled.vet_block (tiled : x.Tiled m blocks) (member : block ∈ blocks) :
    x.vet m block.addr = if block.allocated then .ok () else .error (.notAllocated block.addr) := by
  have tagged := tiled.tagged block member
  obtain ⟨above, below, whole, least⟩ := tiled.tiles.within member
  have fits := tiled.fits member
  have aligned := tiled.addr_mod member
  have size := tiled.size_eq member
  have footer := tiled.header_eq_footer member
  have inside : ¬(block.addr < x.start + frameBytes ∨ x.stop ≤ block.addr) := by
    simp only [Block.stop] at below
    lia
  have sized : ¬(block.size < minBlock ∨ x.stop ≤ block.addr - wordSize + block.size) := by
    simp only [Block.stop] at below
    lia
  simp only [vet, aligned, inside, size, sized, ← footer, tagged.header_isAllocated whole, ne_eq,
    not_true_eq_false, if_false]
  cases block.allocated <;> rfl

theorem Tiled.vet_eq (tiled : x.Tiled m blocks) (member : block ∈ blocks) (busy : block.allocated = true) :
    x.vet m block.addr = .ok () := by rw [tiled.vet_block member, if_pos busy]

end Extent

namespace Machine

variable {σ : Type}

def releasing (s : Machine σ) (x : Extent) (block : Block) (before after : Option Block) : Merged :=
  x.joined (s.memory.retag block.freed) block.freed before after

def released (s : Machine σ) (x : Extent) (block : Block) (before after : Option Block) : Machine σ where
  heap := { s.heap with extent := some { x with cursor := (s.releasing x block before after).cursor } }
  memory := (s.releasing x block before after).memory
  trace := s.trace ++ (s.releasing x block before after).events

variable [Source σ] [LawfulSource σ] {s : Machine σ} {x : Extent} {blocks left right : List Block}
  {before after : Option Block} {block : Block}

namespace Ready

theorem vet (ready : s.Ready x blocks) (member : block ∈ blocks) (busy : block.allocated = true) (mode : Mode) :
    HeapM.vet mode block.addr s = .ok () s := by
  cases mode with
  | trusting => rfl
  | vetting =>
    simp only [HeapM.vet, if_true, Bind.bind, EStateM.bind, HeapM.get_run, HeapM.memory_run, ready.extent,
      Option.getD_some, ready.tiled.vet_eq member busy]
    rfl

theorem released (ready : s.Ready x (left ++ (before.toList ++ block :: after.toList) ++ right))
    (neighbours : FreeNeighbours left before after right) :
    (s.released x block before after).Ready { x with cursor := (s.releasing x block before after).cursor }
      (left ++ [block.join before after] ++ right) := by
  obtain ⟨front, behind, -⟩ := List.isChain_append.mp ready.sound.separated
  have ahead : Separated left := (List.isChain_append.mp front).1
  have merged := ready.tiled.freed.joined_sound rfl neighbours ahead behind ready.sound.cursor.freed
  rw [Block.join_freed] at merged
  exact ⟨rfl, ready.valid, ready.stands, merged⟩

theorem releasing_cursor (ready : s.Ready x (left ++ (before.toList ++ block :: after.toList) ++ right)) :
    (s.releasing x block before after).cursor = (block.join before after).relocate x.cursor := by
  rw [releasing, ready.tiled.freed.joined_cursor ready.sound.cursor.freed, Block.join_freed]

theorem free_run (ready : s.Ready x (left ++ (before.toList ++ block :: after.toList) ++ right))
    (neighbours : FreeNeighbours left before after right) (busy : block.allocated = true) (mode : Mode) :
    HeapM.free mode (some block.addr) s = .ok () (s.released x block before after) := by
  have tiled := ready.tiled
  have member : block ∈ left ++ (before.toList ++ block :: after.toList) ++ right := by simp
  have fits := tiled.fits member
  have size := tiled.size_eq member
  have tags : s.memory.setTags block.addr block.size false = .ok (s.memory.retag block.freed) :=
    Memory.setTags_eq_retag s.memory block.freed (tiled.isBlockSize member).1 fits
  have merged : HeapM.merge x block.addr { s with memory := s.memory.retag block.freed } = _ :=
    HeapM.merge_run (tiled.freed.merge_eq neighbours)
  simp only [HeapM.free, Bind.bind, EStateM.bind, HeapM.attempt_ends (HeapM.init_done ready.extent),
    ready.vet member busy mode, HeapM.memory_run, size, tags, HeapM.ofChecked_ok, HeapM.pure_run, HeapM.setMemory_run,
    merged]
  rfl

end Ready

inductive Releasing (s : Machine σ) (x : Extent) (blocks : List Block) (block : Block) :
    Machine σ → Extent → List Block → Prop
  | joined {left right : List Block} {before after : Option Block}
    (parts : blocks = left ++ (before.toList ++ block :: after.toList) ++ right)
    (neighbours : FreeNeighbours left before after right) :
    Releasing s x blocks block (s.released x block before after)
      { x with cursor := (s.releasing x block before after).cursor } (left ++ [block.join before after] ++ right)

theorem Ready.exists_releasing (ready : s.Ready x blocks) (member : block ∈ blocks) :
    ∃ t y others, s.Releasing x blocks block t y others := by
  obtain ⟨front, back, rfl⟩ := List.append_of_mem member
  obtain ⟨left, before, after, right, parts, neighbours⟩ := ready.sound.separated.neighbours
  exact ⟨_, _, _, .joined parts neighbours⟩

namespace Releasing

variable {t : Machine σ} {y : Extent} {others : List Block}

omit [Source σ] [LawfulSource σ] in
theorem config (releasing : s.Releasing x blocks block t y others) : t.heap.config = s.heap.config := by
  cases releasing
  rfl

omit [Source σ] [LawfulSource σ] in
theorem grows (releasing : s.Releasing x blocks block t y others) : y.start = x.start ∧ y.stop = x.stop := by
  cases releasing
  exact ⟨rfl, rfl⟩

omit [Source σ] [LawfulSource σ] in
theorem member (releasing : s.Releasing x blocks block t y others) : block ∈ blocks := by
  cases releasing with
  | joined parts neighbours => simp [parts]

theorem run (releasing : s.Releasing x blocks block t y others) (ready : s.Ready x blocks)
    (busy : block.allocated = true) (mode : Mode) : HeapM.free mode (some block.addr) s = .ok () t := by
  cases releasing with
  | joined parts neighbours =>
    subst parts
    exact ready.free_run neighbours busy mode

theorem ready (releasing : s.Releasing x blocks block t y others) (ready : s.Ready x blocks) : t.Ready y others := by
  cases releasing with
  | joined parts neighbours =>
    subst parts
    exact ready.released neighbours

end Releasing

end Machine

end BoundaryTag
