import BoundaryTag.Proofs.Course

namespace BoundaryTag

namespace Block

variable {block : Block} {need address : Nat}

/-- The address is a byte of a word beside the payload or beside the block, where every layout with the block
    has tags. -/
def Rim (block : Block) (address : Nat) : Prop :=
  block.addr - tagBytes ≤ address ∧ address < block.addr ∨
    block.stop - tagBytes ≤ address ∧ address < block.stop

theorem TagByte.placed (tag : block.TagByte address) (enough : need ≤ block.size) :
    ∃ other ∈ block.placed need, other.TagByte address := by
  rcases tag with header | footer
  · exact ⟨block.granted need, List.mem_cons_self, .inl header⟩
  · by_cases splits : block.Splits need
    · refine ⟨⟨block.addr + need, block.size - need, false⟩, by simp [Block.placed, spare, splits], .inr ?_⟩
      have same : block.addr + need + (block.size - need) = block.stop := by
        simp only [Block.stop]
        omega
      rwa [Block.stop, same]
    · refine ⟨block.granted need, List.mem_cons_self, .inr ?_⟩
      simpa only [granted, if_neg splits, Block.stop] using footer

end Block

namespace Extent

variable {x : Extent} {m : Memory} {blocks left right : List Block} {before after : Option Block} {block : Block}
  {address : Nat}

theorem Tiled.rim (tiled : x.Tiled m blocks) (member : block ∈ blocks) (rim : block.Rim address) :
    x.TagByte blocks address := by
  obtain ⟨front, back, rfl⟩ := List.append_of_mem member
  obtain ⟨ahead, whole, least, behind⟩ := tiled.tiles.around
  have own : block.TagByte address → x.TagByte (front ++ block :: back) address := fun tag =>
    .inr (.inl ⟨block, member, tag⟩)
  rcases rim with ⟨above, below⟩ | ⟨above, below⟩
  · by_cases header : block.addr - wordSize ≤ address
    · exact own (.inl (by lia))
    -- the word before the header is the footer of the block before, or of the start sentinel
    rcases List.eq_nil_or_concat' front with rfl | ⟨rest, last, rfl⟩
    · have begins : x.start + frameBytes = block.addr := ahead
      refine .inl (.inr ?_)
      simp only [Extent.sentinel, startSentinel, Block.stop]
      lia
    · have ends : last.stop = block.addr := by
        obtain ⟨-, -, -, ends⟩ := ahead.around
        exact ends
      exact .inr (.inl ⟨last, by simp, .inr (by lia)⟩)
  · by_cases footer : address < block.stop - tagBytes + wordSize
    · exact own (.inr ⟨above, footer⟩)
    -- the word behind the footer is the header of the block behind, or the end sentinel
    cases back with
    | nil =>
      have ends : block.stop = x.stop := behind
      exact .inr (.inr (by lia))
    | cons first rest =>
      have begins : first.addr = block.stop := behind.1
      exact .inr (.inl ⟨first, by simp, .inl (by lia)⟩)

theorem Tiled.joined_tag {y : Extent} (tiled : x.Tiled m (left ++ (before.toList ++ block :: after.toList) ++ right))
    (start : y.start = x.start) (size : y.size = x.size)
    (tag : x.TagByte (left ++ (before.toList ++ block :: after.toList) ++ right) address) :
    y.TagByte (left ++ [block.join before after] ++ right) address ∨ block.Rim address := by
  have stop : y.stop = x.stop := by simp only [Extent.stop, start, size]
  obtain ⟨low, -, -, least⟩ := tiled.tiles.within (by simp : block ∈ _)
  have room : block.addr + minBlock ≤ block.stop := Nat.add_le_add_left least _
  obtain ⟨lower, upper, -, run, -⟩ := tiled.tiles.split
  have own : (block.join before after).TagByte address →
      y.TagByte (left ++ [block.join before after] ++ right) address := fun tag =>
    .inr (.inl ⟨block.join before after, by simp, tag⟩)
  rcases tag with sentinel | ⟨other, member, tag⟩ | terminator
  · exact .inl (.inl (by simpa only [Extent.sentinel, startSentinel, start] using sentinel))
  · obtain ⟨begins, -, -, ends⟩ := run.join
    have ends : (block.join before after).stop = upper := ends
    simp only [List.mem_append, List.mem_cons, Option.mem_toList] at member
    rcases member with (member | rfl | rfl | rfl) | member
    · exact .inl (.inr (.inl ⟨other, by simp [member], tag⟩))
    · obtain ⟨first, -, -, next, -⟩ := run
      rcases tag with header | footer
      · exact .inl (own (.inl (by lia)))
      · exact .inr (.inl (by lia))
    · rcases tag with header | footer
      · exact .inr (.inl (by lia))
      · exact .inr (.inr (by lia))
    · obtain ⟨-, -, -, next, -, -, last⟩ := (Tiles.append_iff.mp run).choose_spec.2
      have last : other.stop = upper := last
      rcases tag with header | footer
      · exact .inr (.inr (by lia))
      · exact .inl (own (.inr (by lia)))
    · exact .inl (.inr (.inl ⟨other, by simp [member], tag⟩))
  · exact .inl (.inr (.inr (by rwa [stop])))

end Extent

theorem Memory.byte_frame {m : Memory} {start address : Nat}
    (outside : address < start ∨ start + frameBytes ≤ address) :
    (HeapM.frame m start).byte address = m.byte address := by
  simp only [HeapM.frame]
  rw [byte_setTagAt (by lia), byte_setTagAt (by lia), byte_setTagAt (by lia), byte_setTagAt (by lia)]

def Command.Moves (command : Command) (m : Memory) (answer : Option Nat) (address : Nat) : Prop :=
  ∃ pointer size target usable, command = .reallocate (some pointer) size ∧ answer = some target ∧
    m.usableSize pointer = .ok usable ∧ target ≤ address ∧ address < target + min size usable

/-- The byte lies in the heap as the command leaves it. If there was a heap before, the byte is one of a tag
    before or after the command, or one that the command moved there. -/
def Machine.Touches {σ : Type} (s t : Machine σ) (command : Command) (answer : Option Nat) (address : Nat) : Prop :=
  ∃ y, t.heap.extent = some y ∧ y.start ≤ address ∧ address < y.stop ∧
    ∀ x, s.heap.extent = some x → x.TagByte (x.blocks s.memory) address ∨ y.TagByte (y.blocks t.memory) address ∨
      command.Moves s.memory answer address

namespace Machine

variable {σ : Type} [Source σ] [LawfulSource σ] {s t u : Machine σ} {x y : Extent} {blocks others : List Block}
  {block : Block} {size address : Nat} {answer : Except AllocError (Option Nat)}

theorem Serving.byte (serving : s.Serving x blocks size answer t y others) (ready : s.Ready x blocks)
    (old : ¬x.TagByte blocks address) (new : ¬y.TagByte others address) :
    t.memory.byte address = s.memory.byte address := by
  cases serving with
  | empty => rfl
  | huge => rfl
  | found positive adjusted parts found =>
    rw [place_memory]
    exact Memory.byte_foldl_retag fun other member tag => new (.inr (.inl ⟨other, by simp [member], tag⟩))
  | full => rfl
  | refused => rfl
  | @grown need start left before positive adjusted unfound room granted parts neighbours =>
    subst parts
    obtain ⟨-, -, enough⟩ := ready.grown_tail adjusted neighbours room granted
    have placed : ∀ other ∈ (x.tail (s.growthFor need) before).placed need, ¬other.TagByte address :=
      fun other member tag => new (.inr (.inl ⟨other, by simp [member], tag⟩))
    rw [place_memory, Memory.byte_foldl_retag placed]
    refine ready.sound.byte_growth old ?_
    rintro (sentinel | ⟨other, member, tag⟩ | terminator)
    · exact new (.inl sentinel)
    · rcases List.mem_append.mp member with kept | tail
      · exact new (.inr (.inl ⟨other, by simp [kept], tag⟩))
      · obtain rfl := List.mem_singleton.mp tail
        obtain ⟨piece, member, tag⟩ := tag.placed enough
        exact placed piece member tag
    · exact new (.inr (.inr terminator))

omit [Source σ] [LawfulSource σ] in
theorem Releasing.byte (releasing : s.Releasing x blocks block t y others) (old : ¬x.TagByte blocks address)
    (new : ¬y.TagByte others address) : t.memory.byte address = s.memory.byte address := by
  cases releasing with
  | @joined left right before after parts neighbours =>
    subst parts
    have retagged : ¬block.freed.TagByte address := fun tag => old (.inr (.inl ⟨block, by simp, tag⟩))
    refine (Extent.Tiled.joined_byte fun tag => new (.inr (.inl ⟨block.join before after, by simp, ?_⟩))).trans
      (Memory.byte_retag retagged)
    rwa [← Block.join_freed]

theorem Releasing.tag (releasing : s.Releasing x blocks block t y others) (ready : s.Ready x blocks)
    (tag : x.TagByte blocks address) : y.TagByte others address ∨ block.Rim address := by
  cases releasing with
  | joined parts neighbours =>
    subst parts
    exact ready.tiled.joined_tag rfl rfl tag

theorem Unset.byte {answer : Except AllocError Extent} (unset : s.Unset) (setup : s.Setup answer t)
    (outside : ∀ y, t.heap.extent = some y → ¬(y.start ≤ address ∧ address < y.stop)) :
    t.memory.byte address = s.memory.byte address := by
  cases setup with
  | invalid => rfl
  | unframed => rfl
  | @bare start _ valid granted refused =>
    have apart := outside (.bare start) rfl
    simp only [Extent.bare, Extent.stop] at apart
    have frame : (HeapM.frame s.memory start).byte address = s.memory.byte address := Memory.byte_frame (by omega)
    exact frame
  | @started start stop valid granted grown =>
    have framed : (s.framed start).Ready (.bare start) ([] ++ (none : Option Block).toList) :=
      unset.framed valid granted
    have after := (unset.started valid granted grown).2
    have apart := outside (.started start s.heap.config.initialSize) rfl
    rw [Extent.start_started, Extent.stop_started] at apart
    have frame : (HeapM.frame s.memory start).byte address = s.memory.byte address := Memory.byte_frame (by omega)
    rw [started_memory, ← frame]
    refine framed.sound.byte_growth (fun old => apart ?_) fun new => apart ?_
    · have inside := framed.tiled.tag_inside old
      simp only [Extent.bare, Extent.stop] at inside
      omega
    · have inside := after.tiled.tag_inside new
      rwa [Extent.start_started, Extent.stop_started] at inside

omit [Source σ] [LawfulSource σ] in
theorem Serving.grows [Source σ] (serving : s.Serving x blocks size answer t y others) :
    y.start = x.start ∧ x.stop ≤ y.stop := by
  cases serving with
  | empty => exact ⟨rfl, le_rfl⟩
  | huge => exact ⟨rfl, le_rfl⟩
  | found => exact ⟨rfl, le_rfl⟩
  | full => exact ⟨rfl, le_rfl⟩
  | refused => exact ⟨rfl, le_rfl⟩
  | grown => exact ⟨rfl, by rw [Extent.stop_grown]; exact Nat.le_add_right ..⟩

variable {command : Command} {reply : Option Nat}

theorem Ready.touches (ready : s.Ready x blocks) (after : t.Ready y others) (start : y.start = x.start)
    (grows : x.stop ≤ y.stop) (tag : ¬x.TagByte blocks address → y.TagByte others address) :
    s.Touches t command reply address := by
  have inside : y.start ≤ address ∧ address < y.stop := by
    by_cases old : x.TagByte blocks address
    · have bounds := ready.tiled.tag_inside old
      omega
    · exact after.tiled.tag_inside (tag old)
  refine ⟨y, after.extent, inside.1, inside.2, fun z extent => ?_⟩
  obtain rfl : x = z := ready.extent_eq extent
  rw [ready.tiled.blocks_eq, after.tiled.blocks_eq]
  by_cases old : x.TagByte blocks address
  · exact .inl old
  · exact .inr (.inl (tag old))

theorem Unset.touches (unset : s.Unset) (extent : t.heap.extent = some y)
    (inside : y.start ≤ address ∧ address < y.stop) :
    s.Touches t command reply address :=
  ⟨y, extent, inside.1, inside.2, fun _ before => absurd before unset.extent_ne⟩

theorem Requesting.touches (requesting : s.Requesting size answer t)
    (changed : t.memory.byte address ≠ s.memory.byte address) : s.Touches t command reply address := by
  cases requesting with
  | unready unset setup =>
    by_contra untouched
    exact changed (unset.byte setup fun y extent inside => untouched (unset.touches extent inside))
  | @started x y blocks others u _ _ unset setup ready serving =>
    obtain ⟨start, grows⟩ := serving.grows
    have after := serving.ready ready
    by_contra untouched
    have outside : ¬(y.start ≤ address ∧ address < y.stop) := fun inside =>
      untouched (unset.touches after.extent inside)
    refine changed ((serving.byte ready (fun old => outside ?_) fun new => outside ?_).trans
      (unset.byte setup fun z extent inside => outside ?_))
    · have bounds := ready.tiled.tag_inside old
      omega
    · exact after.tiled.tag_inside new
    · obtain rfl : x = z := ready.extent_eq extent
      omega
  | ready ready serving =>
    obtain ⟨start, grows⟩ := serving.grows
    refine ready.touches (serving.ready ready) start grows fun old => ?_
    by_contra new
    exact changed (serving.byte ready old new)

theorem Releasing.touches (releasing : s.Releasing x blocks block t y others) (ready : s.Ready x blocks)
    (changed : t.memory.byte address ≠ s.memory.byte address) : s.Touches t command reply address := by
  have same := releasing.grows
  refine ready.touches (releasing.ready ready) same.1 (Nat.le_of_eq same.2.symm) fun old => ?_
  by_contra new
  exact changed (releasing.byte old new)

theorem Requesting.noting_touches (requesting : s.Requesting size answer t)
    (changed : (t.noting size answer).memory.byte address ≠ s.memory.byte address) :
    s.Touches (t.noting size answer) command reply address := by
  rw [noting_memory] at changed
  simpa only [Touches, noting_heap, noting_memory] using requesting.touches changed

theorem Serving.moved_touches {z : Extent} {rest : List Block} {target : Nat}
    (serving : s.Serving x blocks size (.ok (some target)) t y others) (ready : s.Ready x blocks)
    (member : block ∈ blocks)
    (releasing : (t.copied block.addr target (min size (block.size - tagBytes))).Releasing y others block u z rest)
    (changed : u.memory.byte address ≠ s.memory.byte address) :
    s.Touches u (.reallocate (some block.addr) size) (some target) address := by
  have copied := serving.copied ready block
  have after := releasing.ready copied
  obtain ⟨start, stop⟩ := releasing.grows
  obtain ⟨begins, grows⟩ := serving.grows
  obtain ⟨new, taken, -, rfl, serves⟩ := serving.target ready
  by_cases moved : new.addr ≤ address ∧ address < new.addr + min size (block.size - tagBytes)
  · have payload := serves.payload
    have inside := (serving.ready ready).tiled.payload_inside taken ⟨moved.1, by omega⟩
    refine ⟨z, after.extent, by omega, by omega, fun _ _ => .inr (.inr ?_)⟩
    exact ⟨block.addr, size, new.addr, _, rfl, rfl, ready.usableSize member, moved⟩
  · refine ready.touches after (start.trans begins) (by omega) fun old => ?_
    by_contra fresh
    have passing : ¬y.TagByte others address := fun tag =>
      (releasing.tag copied tag).elim fresh fun rim => old (ready.tiled.rim member rim)
    refine changed ?_
    calc u.memory.byte address
        = (t.copied block.addr new.addr (min size (block.size - tagBytes))).memory.byte address :=
          releasing.byte passing fresh
      _ = t.memory.byte address := by rw [Machine.copied, Memory.byte_copy, if_neg moved]
      _ = s.memory.byte address := serving.byte ready old passing

theorem Course.touches (course : s.Course command answer t) (changed : t.memory.byte address ≠ s.memory.byte address) :
    s.Touches t command answer.toOption.join address := by
  cases course with
  | init requesting => exact requesting.touches changed
  | tryAllocate requesting => exact requesting.touches changed
  | allocate requesting => exact requesting.noting_touches changed
  | freeNull => exact absurd rfl changed
  | free ready busy releasing => exact releasing.touches ready changed
  | reallocateEmpty freeing =>
    cases freeing with
    | freeNull => exact absurd rfl changed
    | free ready busy releasing => exact releasing.touches ready changed
  | reallocateNull positive allocating =>
    cases allocating with
    | allocate requesting => exact requesting.noting_touches changed
  | stay ready member busy positive serving => exact (Requesting.ready ready serving).noting_touches changed
  | move ready member busy positive serving releasing => exact serving.moved_touches ready member releasing changed

end Machine

end BoundaryTag
