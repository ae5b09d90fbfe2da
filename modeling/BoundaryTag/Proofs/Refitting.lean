import BoundaryTag.Proofs.Carving

namespace BoundaryTag

namespace Block

variable {block : Block} {need : Nat}

theorem placed_parts (block : Block) (need : Nat) : ∃ after : Option Block,
    block.placed need = block.granted need :: after.toList ∧ (∀ b ∈ after, b.allocated = false) ∧
      (need ≤ block.size → block.allocated = false → (block.granted need).join none after = block) := by
  by_cases splits : block.Splits need
  · refine ⟨some ⟨block.addr + need, block.size - need, false⟩, ?_, ?_, ?_⟩
    · simp only [placed, spare, if_pos splits, Option.toList_some]
    · rintro _ ⟨⟩
      rfl
    · intro enough free
      have sum : need + (0 + (block.size - need)) = block.size := by omega
      simp only [join, granted, if_pos splits, Option.getD_none, Option.elim, sum, ← free]
  · refine ⟨none, ?_, by simp, ?_⟩
    · simp only [placed, spare, if_neg splits, Option.toList_none]
    · intro _ free
      simp only [join, granted, if_neg splits, Option.getD_none, Option.elim, Nat.add_zero, ← free]

theorem relocate_addr (block : Block) : block.relocate block.addr = block.addr :=
  if_neg (by simp)

end Block

theorem Separated.closed {left right : List Block} {block : Block} (separated : Separated (left ++ [block] ++ right))
    (free : block.allocated = false) : FreeNeighbours left none none right := by
  obtain ⟨ahead, -, behind⟩ := List.isChain_append.mp separated
  obtain ⟨-, -, before⟩ := List.isChain_append.mp ahead
  refine ⟨by simp, by simp, ?_, ?_⟩
  · intro b member
    exact (before b member block (by simp)).resolve_right (by simp [free])
  · intro b member
    exact (behind block (by simp) b member).resolve_left (by simp [free])

namespace Extent.Sound

variable {x : Extent} {m : Memory} {blocks left right : List Block} {block : Block} {need : Nat}

theorem findFit?_at_cursor (sound : x.Sound m blocks) (member : block ∈ blocks) (points : x.cursor = block.addr)
    (fits : block.fits need = true) : x.findFit? m need = some block := by
  unfold findFit?
  rcases sound.searchOrder_cases with ⟨sentinel, -⟩ | ⟨front, first, back, rfl, begins, order⟩
  · have low := (sound.tiles.within member).1
    rw [← points, sentinel, startSentinel] at low
    lia
  · obtain rfl : first = block := sound.tiles.eq_of_addr (by simp) member (begins.symm.trans points)
    rw [order, List.cons_append]
    exact List.find?_cons_of_pos fits

theorem findFit?_of_unfit (sound : x.Sound m (left ++ [block] ++ right)) (fits : block.fits need = true)
    (unfit : ∀ other ∈ left ++ right, other.fits need = false) : x.findFit? m need = some block := by
  cases search : x.findFit? m need with
  | none =>
    rw [(sound.findFit?_eq_none_iff need).mp search block (by simp)] at fits
    cases fits
  | some other =>
    obtain ⟨member, free, enough⟩ := sound.mem_of_findFit? search
    simp only [List.mem_append, List.mem_singleton] at member
    by_cases same : other = block
    · rw [same]
    · have misfit := unfit other (by simp only [List.mem_append]; tauto)
      simp [Block.fits, free, enough] at misfit

end Extent.Sound

namespace Machine

/-- The blocks after the request that led from `s` to `t` was released again: those of before, with the bytes of a
    growth at the end of the heap. -/
def Regained {σ : Type} (s : Machine σ) (x : Extent) (t : Machine σ) (others : List Block) : Prop :=
  t.requests = s.requests ∧ t.heap.size = s.heap.size ∧ others = x.blocks s.memory ∨
    ∃ bytes left tail, t.requests = s.requests ++ [(bytes, .ok x.stop)] ∧ t.heap.size = s.heap.size + bytes ∧
      Stretched (x.blocks s.memory) x.stop bytes left tail ∧ others = left ++ [tail]

variable {σ : Type} [Source σ] [LawfulSource σ] {s t : Machine σ} {x y : Extent}
  {blocks others left right : List Block}
  {block : Block} {size need pointer : Nat}

theorem Ready.exists_unplacing (ready : t.Ready y (left ++ block.placed need ++ right))
    (neighbours : FreeNeighbours left none none right) (free : block.allocated = false) (enough : need ≤ block.size) :
    ∃ u z, t.Releasing y (left ++ block.placed need ++ right) (block.granted need) u z (left ++ [block] ++ right) ∧
      z.cursor = block.relocate y.cursor := by
  obtain ⟨after, parts, vacant, join⟩ := block.placed_parts need
  have whole := join enough free
  have around : FreeNeighbours left none after right := ⟨by simp, vacant, neighbours.left, neighbours.right⟩
  have run : left ++ block.placed need ++ right =
      left ++ ((none : Option Block).toList ++ block.granted need :: after.toList) ++ right := by simp [parts]
  have releasing := Releasing.joined (s := t) (x := y) run around
  rw [whole] at releasing
  refine ⟨_, _, releasing, ?_⟩
  rw [run] at ready
  simp only [ready.releasing_cursor, whole]

/-- What comes of a request that was placed into `block`, once it is released and asked again: the release brings
    back the block, and the same request takes it again and asks nothing of the source. -/
theorem Ready.refits (ready : t.Ready y (left ++ block.placed need ++ right)) (positive : size ≠ 0)
    (adjusted : blockSizeFor? size = some need) (neighbours : FreeNeighbours left none none right)
    (free : block.allocated = false) (enough : need ≤ block.size)
    (search : ∀ (z : Extent) m, z.cursor = block.relocate y.cursor → z.Sound m (left ++ [block] ++ right) →
      z.findFit? m need = some block) (mode : Mode) :
    ∃ u v, HeapM.free mode (some block.addr) t = .ok () u ∧ u.heap.blocks u.memory = left ++ [block] ++ right ∧
      HeapM.tryAllocate size u = .ok (some block.addr) v ∧ v.requests = u.requests ∧
      v.heap.source = u.heap.source ∧ v.heap.blocks v.memory = left ++ block.placed need ++ right := by
  obtain ⟨u, z, releasing, cursor⟩ := ready.exists_unplacing neighbours free enough
  have released := releasing.ready ready
  have found := search z u.memory cursor released.sound
  have serving := Serving.found positive adjusted (rfl : left ++ [block] ++ right = _) found
  refine ⟨u, _, releasing.run ready rfl mode, released.blocks_eq, (Requesting.ready released serving).run, ?_, rfl,
    (serving.ready released).blocks_eq⟩
  rw [place_requests]
  rfl

theorem Serving.regained (serving : s.Serving x blocks size (.ok (some pointer)) t y others) (ready : s.Ready x blocks)
    (mode : Mode) :
    ∃ u v, HeapM.free mode (some pointer) t = .ok () u ∧ s.Regained x t (u.heap.blocks u.memory) ∧
      HeapM.tryAllocate size u = .ok (some pointer) v ∧ v.requests = u.requests ∧ v.heap.source = u.heap.source ∧
      v.heap.blocks v.memory = others := by
  have after := serving.ready ready
  have listed := ready.tiled.blocks_eq
  cases serving with
  | @found need left right block positive adjusted parts found =>
    subst parts
    obtain ⟨-, free, enough⟩ := ready.found found
    have fits : block.fits need = true := by simp [Block.fits, free, enough]
    have neighbours := ready.sound.separated.closed free
    obtain ⟨u, v, freed, restored, served⟩ :=
      after.refits positive adjusted neighbours free enough (fun z m cursor sound =>
        sound.findFit?_at_cursor (by simp) (cursor.trans block.relocate_addr) fits) mode
    refine ⟨u, v, freed, .inl ⟨?_, ?_, restored.trans listed.symm⟩, served⟩
    · rw [place_requests]
      rfl
    · simp only [Heap.size, ready.extent, after.extent, Option.elim]
  | @grown need start left before positive adjusted unfound room granted parts neighbours =>
    subst parts
    obtain ⟨-, grown, enough⟩ := ready.grown_tail adjusted neighbours room granted
    -- growth left the cursor where it was, but the search had found nothing, so only the new tail can fit
    have unfit : ∀ other ∈ left ++ [], other.fits need = false := by
      rw [List.append_nil]
      exact fun other old => (ready.sound.findFit?_eq_none_iff need).mp unfound other (List.mem_append_left _ old)
    have fits : (x.tail (s.growthFor need) before).fits need = true := by
      simp only [Block.fits, enough, decide_true, Bool.and_true]
      rfl
    have closed := grown.sound.separated.closed rfl
    rw [← List.append_nil (left ++ _)] at after
    obtain ⟨u, v, freed, restored, served⟩ :=
      after.refits positive adjusted closed rfl enough (fun z m _ sound => sound.findFit?_of_unfit fits unfit) mode
    obtain ⟨follows, -⟩ := LawfulSource.granted ready.stands granted
    refine ⟨u, v, freed, .inr ⟨s.growthFor need, left, x.tail (s.growthFor need) before, ?_, ?_, ?_, ?_⟩, ?_⟩
    · rw [place_requests, grown_requests, asked_requests, granted, follows _ rfl]
    · simp only [Heap.size, ready.extent, after.extent, Option.elim]
      rfl
    · rw [listed]
      exact x.stretched_tail _ neighbours
    · simpa using restored
    · simpa using served

end Machine

namespace World

variable {σ : Type} [Source σ] [LawfulSource σ] {mode : Mode} {w : World σ} {x : Extent} {size pointer : Nat}

/-- A release takes back what the request before it did to the blocks, but for a growth; and the same request, made
    again, is served at the same pointer and asks nothing of the source. -/
theorem Reachable.refit (reachable : w.Reachable mode) (extent : w.machine.heap.extent = some x)
    (answered : w.answer? mode (.tryAllocate size) = some (some pointer)) :
    let t := (w.after mode (.command (.tryAllocate size))).machine
    ∃ u v, HeapM.free mode (some pointer) t = .ok () u ∧ w.machine.Regained x t (u.heap.blocks u.memory) ∧
      HeapM.tryAllocate size u = .ok (some pointer) v ∧ v.requests = u.requests ∧
      v.heap.source = u.heap.source ∧ v.heap.blocks v.memory = t.heap.blocks t.memory := by
  have ready := reachable.balanced.consistent.ready_of_extent extent
  obtain ⟨result, t, y, others, serving⟩ := ready.exists_serving size
  have run := (Machine.Requesting.ready ready serving).run
  cases result with
  | error cause => simp [answer?, Command.perform, run, HeapM.ends] at answered
  | ok answer =>
    obtain rfl : answer = some pointer := by simpa [answer?, Command.perform, run, HeapM.ends] using answered
    have next : (w.after mode (.command (.tryAllocate size))).machine = t := by
      simp only [World.after, Command.perform, run, HeapM.ends, settle]
    have after := serving.ready ready
    simp only [next, after.blocks_eq]
    exact serving.regained ready mode

theorem trial_refit :
    let t := (trial.after .vetting (.command (.tryAllocate 200))).machine
    ∃ u v, HeapM.free .vetting (some 65696) t = .ok () u ∧
      trial.machine.Regained trialExtent t (u.heap.blocks u.memory) ∧
      HeapM.tryAllocate 200 u = .ok (some 65696) v ∧ v.requests = u.requests ∧
      v.heap.source = u.heap.source ∧ v.heap.blocks v.memory = t.heap.blocks t.memory :=
  Reachable.refit trial_reachable trial_extent (by decide +kernel)

end World

end BoundaryTag
