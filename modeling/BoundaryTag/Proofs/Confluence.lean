import BoundaryTag.Proofs.Coalescing

namespace BoundaryTag

open scoped List

namespace Tiles

variable {start stop : Nat} {blocks others rest : List Block} {block other : Block}

theorem eq_of_contains (tiles : Tiles start blocks stop) (first : block ∈ blocks) (second : other ∈ blocks)
    {address : Nat} (inside : block.Contains address) (otherInside : other.Contains address) : block = other := by
  by_contra distinct
  have apart := tiles.apart first second distinct
  unfold Block.Contains at inside otherInside
  omega

theorem free_stop (tail : Tiles block.stop rest stop) (closed : ∀ next ∈ rest.head?, next.allocated = true) :
    block.stop = ((rest.filter (·.allocated)).head?.map Block.addr).getD stop := by
  cases rest with
  | nil => exact tail
  | cons next rest =>
    have busy := closed next rfl
    rw [List.filter_cons_of_pos busy]
    exact tail.1.symm

theorem not_mem_of_lt (tail : Tiles other.stop rest stop) (least : minBlock ≤ other.size)
    (same : block.addr = other.addr) : block ∉ rest := by
  intro member
  have bounds := tail.within member
  simp only [Block.stop, minBlock] at *
  omega

theorem eq_of_allocated (tiles : Tiles start blocks stop) (also : Tiles start others stop)
    (separated : Separated blocks) (alsoSeparated : Separated others)
    (same : blocks.filter (·.allocated) = others.filter (·.allocated)) : blocks = others := by
  induction blocks generalizing start others with
  | nil =>
    obtain rfl : start = stop := tiles
    exact also.eq_nil.symm
  | cons block rest ih =>
    cases others with
    | nil =>
      obtain rfl : start = stop := also
      exact tiles.eq_nil
    | cons other more =>
      obtain ⟨begins, -, least, tail⟩ := tiles
      obtain ⟨alsoBegins, -, alsoLeast, alsoTail⟩ := also
      obtain ⟨closed, apart⟩ := List.isChain_cons.mp separated
      obtain ⟨alsoClosed, alsoApart⟩ := List.isChain_cons.mp alsoSeparated
      have level : block.addr = other.addr := begins.trans alsoBegins.symm
      cases busy : block.allocated <;> cases alsoBusy : other.allocated
      · simp only [List.filter_cons, busy, alsoBusy, Bool.false_eq_true, if_false] at same
        have ends := tail.free_stop fun next first => (closed next first).resolve_left (by simp [busy])
        have alsoEnds := alsoTail.free_stop fun next first => (alsoClosed next first).resolve_left (by simp [alsoBusy])
        have stops : block.stop = other.stop := by rw [ends, alsoEnds, same]
        have equal : block = other := by
          obtain ⟨addr, size, allocated⟩ := block
          obtain ⟨addr', size', allocated'⟩ := other
          simp only [Block.stop] at level stops busy alsoBusy
          simp only [Block.mk.injEq]
          exact ⟨level, by omega, busy.trans alsoBusy.symm⟩
        subst equal
        rw [ih tail alsoTail apart alsoApart same]
      · simp only [List.filter_cons, busy, alsoBusy, Bool.false_eq_true, if_false, if_true] at same
        have member : other ∈ rest.filter (·.allocated) := by simp [same]
        exact absurd (List.mem_filter.mp member).1 (tail.not_mem_of_lt least level.symm)
      · simp only [List.filter_cons, busy, alsoBusy, Bool.false_eq_true, if_false, if_true] at same
        have member : block ∈ more.filter (·.allocated) := by simp [← same]
        exact absurd (List.mem_filter.mp member).1 (alsoTail.not_mem_of_lt alsoLeast level)
      · simp only [List.filter_cons, busy, alsoBusy, if_true, List.cons.injEq] at same
        obtain ⟨rfl, same⟩ := same
        rw [ih tail alsoTail apart alsoApart same]

end Tiles

def Covers (others blocks : List Block) : Prop :=
  ∀ block ∈ blocks, ∃ cover ∈ others, cover.addr ≤ block.addr ∧ block.stop ≤ cover.stop

namespace Covers

theorem refl (blocks : List Block) : Covers blocks blocks :=
  fun block member => ⟨block, member, Nat.le_refl _, Nat.le_refl _⟩

theorem trans {blocks others rest : List Block} (covers : Covers others blocks) (later : Covers rest others) :
    Covers rest blocks := by
  intro block member
  obtain ⟨cover, coverMember, below, above⟩ := covers block member
  obtain ⟨outer, outerMember, lower, upper⟩ := later cover coverMember
  exact ⟨outer, outerMember, Nat.le_trans lower below, Nat.le_trans above upper⟩

end Covers

namespace Extent

variable {x y z : Extent} {m : Memory} {blocks others rest : List Block}

/-- The cursor of the extent `y` is at the block that has the cursor of `x`, among the blocks of `y`. -/
def Follows (x y : Extent) (others : List Block) : Prop :=
  x.cursor = x.startSentinel ∧ y.cursor = x.startSentinel ∨
    ∃ block ∈ others, block.addr = y.cursor ∧ block.Contains x.cursor

theorem CursorAt.follows (cursor : x.CursorAt blocks) (tiled : x.Tiled m blocks) : x.Follows x blocks := by
  rcases cursor with sentinel | ⟨block, member, points⟩
  · exact .inl ⟨sentinel, sentinel⟩
  · refine .inr ⟨block, member, points, ?_⟩
    have least := (tiled.tiles.within member).2.2.2
    unfold Block.Contains Block.stop
    lia

theorem not_contains_sentinel {stop : Nat} {block : Block} (tiles : Tiles (x.start + frameBytes) blocks stop)
    (member : block ∈ blocks) : ¬block.Contains x.startSentinel := by
  have bounds := tiles.within member
  unfold Block.Contains startSentinel
  lia

theorem Follows.trans (follows : x.Follows y others) (next : y.Follows z rest) (start : y.start = x.start)
    {stop : Nat} (tiles : Tiles (x.start + frameBytes) others stop) (after : Tiles (x.start + frameBytes) rest stop)
    (covers : Covers rest others) : x.Follows z rest := by
  have sentinel : y.startSentinel = x.startSentinel := by rw [startSentinel, startSentinel, start]
  rcases follows with ⟨first, last⟩ | ⟨block, member, points, inside⟩
  · rcases next with ⟨-, still⟩ | ⟨later, laterMember, -, laterInside⟩
    · exact .inl ⟨first, still.trans sentinel⟩
    · rw [last] at laterInside
      exact absurd laterInside (not_contains_sentinel after laterMember)
  · rcases next with ⟨moved, -⟩ | ⟨later, laterMember, laterPoints, laterInside⟩
    · have low := (tiles.within member).1
      rw [points, moved, sentinel] at low
      unfold startSentinel at low
      lia
    · obtain ⟨cover, coverMember, below, above⟩ := covers block member
      have whole : cover.Contains y.cursor := by
        have least := (tiles.within member).2.2.2
        unfold Block.Contains Block.stop at *
        lia
      obtain rfl := after.eq_of_contains laterMember coverMember laterInside whole
      refine .inr ⟨later, laterMember, laterPoints, ?_⟩
      unfold Block.Contains at *
      omega

theorem Follows.cursor_eq (follows : x.Follows y others) (also : x.Follows z others) {stop : Nat}
    (tiles : Tiles (x.start + frameBytes) others stop) : y.cursor = z.cursor := by
  rcases follows with ⟨first, last⟩ | ⟨block, member, points, inside⟩ <;>
    rcases also with ⟨alsoFirst, alsoLast⟩ | ⟨other, otherMember, otherPoints, otherInside⟩
  · rw [last, alsoLast]
  · rw [first] at otherInside
    exact absurd otherInside (not_contains_sentinel tiles otherMember)
  · rw [alsoFirst] at inside
    exact absurd inside (not_contains_sentinel tiles member)
  · rw [← points, ← otherPoints, tiles.eq_of_contains member otherMember inside otherInside]

end Extent

def HeapM.freeAll {σ : Type} [Source σ] (mode : Mode) : List Nat → HeapM σ Unit
  | [] => return
  | pointer :: rest => do
    free mode (some pointer)
    freeAll mode rest

namespace Machine

variable {σ : Type} [Source σ] [LawfulSource σ] {s t u : Machine σ} {x y z : Extent}
  {blocks others rest released more : List Block} {block : Block}

/-- The machine `t` is what the releases of some blocks leave. Nothing here depends on their order. -/
structure Cleared (s : Machine σ) (x : Extent) (blocks released : List Block) (t : Machine σ) (y : Extent)
    (others : List Block) : Prop where
  ready : t.Ready y others
  heap : t.heap = { s.heap with extent := some y }
  extent : y = { x with cursor := y.cursor }
  step : s.Reallots t [] released
  covers : Covers others blocks
  follows : x.Follows y others

namespace Cleared

theorem refl (ready : s.Ready x blocks) : s.Cleared x blocks [] s x blocks where
  ready := ready
  heap := by rw [← ready.extent]
  extent := rfl
  step := .refl ready.consistent
  covers := .refl blocks
  follows := ready.sound.cursor.follows ready.tiled

theorem start_eq (cleared : s.Cleared x blocks released t y others) : y.start = x.start := by rw [cleared.extent]

theorem size_eq (cleared : s.Cleared x blocks released t y others) : y.size = x.size := by rw [cleared.extent]

theorem stop_eq (cleared : s.Cleared x blocks released t y others) : y.stop = x.stop := by
  unfold Extent.stop
  rw [cleared.start_eq, cleared.size_eq]

theorem tiles (cleared : s.Cleared x blocks released t y others) : Tiles (x.start + frameBytes) others x.stop := by
  rw [← cleared.start_eq, ← cleared.stop_eq]
  exact cleared.ready.tiled.tiles

theorem trans (cleared : s.Cleared x blocks released t y others) (next : t.Cleared y others more u z rest) :
    s.Cleared x blocks (released ++ more) u z rest where
  ready := next.ready
  heap := by rw [next.heap, cleared.heap]
  extent := by rw [next.extent, cleared.extent]
  step := cleared.step.trans next.step
  covers := cleared.covers.trans next.covers
  follows := by
    have after := next.tiles
    rw [cleared.start_eq, cleared.stop_eq] at after
    exact cleared.follows.trans next.follows cleared.start_eq cleared.tiles after next.covers

end Cleared

theorem Releasing.cleared (releasing : s.Releasing x blocks block t y others) (ready : s.Ready x blocks)
    (busy : block.allocated = true) : s.Cleared x blocks [block] t y others := by
  have after := releasing.ready ready
  have step := releasing.reallots ready busy
  cases releasing with
  | @joined left right before behind parts neighbours =>
    subst parts
    refine ⟨after, rfl, rfl, step, ?_, ?_⟩
    · obtain ⟨lower, upper, -, run, -⟩ := ready.tiled.tiles.split
      obtain ⟨begins, -, -, ends⟩ := run.join
      have ends : (block.join before behind).stop = upper := ends
      intro old member
      rcases List.mem_append.mp member with member | member
      · rcases List.mem_append.mp member with member | member
        · exact ⟨old, by simp [member], Nat.le_refl _, Nat.le_refl _⟩
        · have bounds := run.within member
          exact ⟨block.join before behind, by simp, by omega, by omega⟩
      · exact ⟨old, by simp [member], Nat.le_refl _, Nat.le_refl _⟩
    · have cursor := after.sound.cursor
      unfold Extent.Follows
      rw [ready.releasing_cursor] at cursor ⊢
      apply cursor.contains
      · simp
      · exact after.sound.tiles

theorem Ready.freeAll (ready : s.Ready x blocks) (live : ∀ block ∈ released, block ∈ s.allocated)
    (once : released.Nodup) (mode : Mode) :
    ∃ t y others, HeapM.freeAll mode (released.map Block.addr) s = .ok () t ∧
      s.Cleared x blocks released t y others := by
  induction released generalizing s x blocks with
  | nil => exact ⟨s, x, blocks, rfl, .refl ready⟩
  | cons block released ih =>
    obtain ⟨fresh, once⟩ := List.nodup_cons.mp once
    obtain ⟨member, busy⟩ := ready.mem_allocated.mp (live block List.mem_cons_self)
    obtain ⟨t, y, others, releasing⟩ := ready.exists_releasing member
    have first := releasing.cleared ready busy
    have stays : ∀ other ∈ released, other ∈ t.allocated := by
      intro other later
      apply first.step.kept (live other (List.mem_cons_of_mem _ later))
      rw [List.mem_singleton]
      rintro rfl
      exact fresh later
    obtain ⟨u, z, rest, run, cleared⟩ := ih first.ready stays once
    refine ⟨u, z, rest, ?_, first.trans cleared⟩
    rw [List.map_cons, HeapM.freeAll, HeapM.bind_ok (releasing.run ready busy mode)]
    exact run

theorem Ready.allocated_ordered (ready : s.Ready x blocks) : s.allocated.Pairwise fun a b => a.stop ≤ b.addr := by
  rw [ready.allocated_eq]
  exact ready.tiled.tiles.ordered.sublist List.filter_sublist

theorem Cleared.allocated_eq (cleared : s.Cleared x blocks released t y others)
    (also : s.Cleared x blocks more u z rest) (order : released ~ more) : t.allocated = u.allocated := by
  have same : t.allocated ~ u.allocated := by
    apply (List.perm_append_left_iff released).mp
    calc released ++ t.allocated
        ~ s.allocated := cleared.step.blocks
      _ ~ more ++ u.allocated := also.step.blocks.symm
      _ ~ released ++ u.allocated := order.symm.append_right _
  apply same.eq_of_pairwise ?_ cleared.ready.allocated_ordered also.ready.allocated_ordered
  intro a b first second below above
  have least := (cleared.ready.tiled.isBlockSize (cleared.ready.mem_allocated.mp first).1).2.1
  unfold Block.stop at below above
  lia

theorem Cleared.unique (cleared : s.Cleared x blocks released t y others)
    (also : s.Cleared x blocks more u z rest) (order : released ~ more) : others = rest ∧ y = z := by
  have same := cleared.allocated_eq also order
  rw [cleared.ready.allocated_eq, also.ready.allocated_eq] at same
  obtain rfl := cleared.tiles.eq_of_allocated also.tiles cleared.ready.sound.separated also.ready.sound.separated same
  refine ⟨rfl, ?_⟩
  rw [cleared.extent, also.extent, cleared.follows.cursor_eq also.follows cleared.tiles]

theorem Ready.vacant (ready : s.Ready x blocks) (none : s.allocated = []) :
    blocks = if x.size = frameBytes then [] else [⟨x.start + frameBytes, x.size - frameBytes, false⟩] := by
  have tiles := ready.tiled.tiles
  have framed := ready.tiled.frame_le
  rw [ready.allocated_eq] at none
  split
  · rename_i bare
    have stop : x.stop = x.start + frameBytes := by rw [Extent.stop, bare]
    rw [stop] at tiles
    exact tiles.eq_nil
  · rename_i larger
    -- one free block of the whole stretch has no allocated blocks either
    have single : Tiles (x.start + frameBytes) [⟨x.start + frameBytes, x.size - frameBytes, false⟩] x.stop := by
      obtain ⟨block, member⟩ : ∃ block, block ∈ blocks := by
        apply List.exists_mem_of_ne_nil
        rintro rfl
        have sum := ready.tiled.sum_eq
        simp only [List.map_nil, List.sum_nil] at sum
        omega
      have bounds := tiles.within member
      have start := ready.tiled.aligned
      have stop := ready.tiled.stop_mod
      simp only [Tiles, Block.stop, Extent.stop] at *
      lia
    exact tiles.eq_of_allocated single ready.sound.separated (.singleton _) none

end Machine

namespace World

variable {σ : Type} [Source σ] [LawfulSource σ] {mode : Mode} {w : World σ} {first second : List Block}

/-- Live blocks can be released in any order: each is released, and the heap and its blocks are the same in the end.
    Once all are released, the whole heap is one free block, or it has none. -/
theorem Reachable.release_order (reachable : w.Reachable mode) (live : ∀ block ∈ first, block ∈ w.machine.allocated)
    (once : first.Nodup) (order : first ~ second) :
    ∃ t u, HeapM.freeAll mode (first.map Block.addr) w.machine = .ok () t ∧
      HeapM.freeAll mode (second.map Block.addr) w.machine = .ok () u ∧
      t.heap = u.heap ∧ t.heap.blocks t.memory = u.heap.blocks u.memory ∧
      ∀ x, w.machine.heap.extent = some x → first ~ w.machine.allocated →
        t.heap.blocks t.memory =
          if x.size = frameBytes then [] else [⟨x.start + frameBytes, x.size - frameBytes, false⟩] := by
  rcases reachable.balanced.consistent with unset | ⟨x, blocks, ready⟩
  · rw [unset.allocated_eq] at live
    obtain rfl : first = [] := List.eq_nil_iff_forall_not_mem.mpr fun block member => by simpa using live block member
    obtain rfl := order.symm.eq_nil
    exact ⟨w.machine, w.machine, rfl, rfl, rfl, rfl, fun x extent => absurd extent unset.extent_ne⟩
  · have alsoLive : ∀ block ∈ second, block ∈ w.machine.allocated := fun block member =>
      live block (order.mem_iff.mpr member)
    obtain ⟨t, y, others, run, cleared⟩ := ready.freeAll live once mode
    obtain ⟨u, z, rest, alsoRun, also⟩ := ready.freeAll alsoLive (order.nodup_iff.mp once) mode
    obtain ⟨rfl, rfl⟩ := cleared.unique also order
    refine ⟨t, u, run, alsoRun, by rw [cleared.heap, also.heap], ?_, ?_⟩
    · rw [cleared.ready.blocks_eq, also.ready.blocks_eq]
    · intro x' extent all
      obtain rfl := ready.extent_eq extent
      have none : t.allocated = [] := by
        apply List.Perm.eq_nil
        apply (List.perm_append_left_iff first).mp
        calc first ++ t.allocated
            ~ w.machine.allocated := cleared.step.blocks
          _ ~ first ++ [] := by simpa using all.symm
      rw [cleared.ready.blocks_eq, cleared.ready.vacant none, cleared.start_eq, cleared.size_eq]

theorem trial_release_order :
    ∃ t u, HeapM.freeAll .vetting [65552, 65584] trial.machine = .ok () t ∧
      HeapM.freeAll .vetting [65584, 65552] trial.machine = .ok () u ∧
      t.heap = u.heap ∧ t.heap.blocks t.memory = u.heap.blocks u.memory ∧
      t.heap.blocks t.memory = [⟨65552, 176, false⟩] := by
  have blocks : trial.machine.allocated = [⟨65552, 32, true⟩, ⟨65584, 112, true⟩] := by decide +kernel
  have live : ∀ block ∈ ([⟨65552, 32, true⟩, ⟨65584, 112, true⟩] : List Block), block ∈ trial.machine.allocated := by
    simp [blocks]
  obtain ⟨t, u, run, alsoRun, heap, same, all⟩ := Reachable.release_order trial_reachable live (by decide)
    (List.Perm.swap (⟨65584, 112, true⟩ : Block) ⟨65552, 32, true⟩ [])
  exact ⟨t, u, run, alsoRun, heap, same, all trialExtent trial_extent (by rw [blocks])⟩

end World

end BoundaryTag
