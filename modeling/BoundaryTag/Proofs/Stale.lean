import BoundaryTag.Proofs.Integrity
import BoundaryTag.Proofs.Vetting

namespace BoundaryTag

def Block.Overlaps (block other : Block) : Prop := block.addr < other.stop ∧ other.addr < block.stop

instance (block other : Block) : Decidable (block.Overlaps other) :=
  inferInstanceAs (Decidable (block.addr < other.stop ∧ other.addr < block.stop))

structure Block.Aligned (block : Block) : Prop where
  addr : block.addr % unitSize = 0
  positive : 0 < block.addr
  size : block.size % unitSize = 0

theorem Extent.Tiled.block_aligned {x : Extent} {m : Memory} {blocks : List Block} {block : Block}
    (tiled : x.Tiled m blocks) (member : block ∈ blocks) : block.Aligned := by
  obtain ⟨above, -, whole, -⟩ := tiled.tiles.within member
  exact ⟨tiled.addr_mod member, by lia, whole⟩

/-- The address could be that of a block, and the header there says that no block is allocated. -/
structure Memory.Vacant (m : Memory) (p : Nat) : Prop where
  aligned : p % unitSize = 0
  positive : 0 < p
  header : (m.header p).isAllocated = false

namespace Memory

variable {m other : Memory} {block : Block} {before after : Option Block} {p : Nat}

theorem header_retag (aligned : block.Aligned) (even : p % unitSize = 0) (positive : 0 < p) :
    (m.retag block).header p = if block.addr = p then .pack block.size block.allocated else m.header p := by
  obtain ⟨addr, low, size⟩ := aligned
  rw [header, retag, tagAt_setTagAt_of_disjoint (by simp only [Block.stop]; lia)]
  by_cases same : block.addr = p
  · rw [same, if_pos rfl, tagAt_setTagAt]
  · rw [if_neg same, tagAt_setTagAt_of_disjoint (by lia), header]

theorem vacant_retag (aligned : block.Aligned) (free : block.allocated = false) :
    (m.retag block).Vacant block.addr := by
  refine ⟨aligned.addr, aligned.positive, ?_⟩
  rw [header_retag aligned aligned.addr aligned.positive, if_pos rfl, Tag.isAllocated_pack _ _ aligned.size, free]

namespace Vacant

theorem congr (vacant : m.Vacant p)
    (same : ∀ address, p - wordSize ≤ address → address < p → other.byte address = m.byte address) :
    other.Vacant p := by
  obtain ⟨aligned, positive, unallocated⟩ := vacant
  refine ⟨aligned, positive, ?_⟩
  rw [← unallocated]
  exact congrArg Tag.isAllocated (tagAt_congr fun i small => same _ (by omega) (by lia))

/-- Only the tags of a block that is allocated right there can end a vacancy. -/
theorem retag (vacant : m.Vacant p) (aligned : block.Aligned) (free : block.addr = p → block.allocated = false) :
    (m.retag block).Vacant p := by
  by_cases same : block.addr = p
  · rw [← same]
    exact vacant_retag aligned (free same)
  · refine ⟨vacant.aligned, vacant.positive, ?_⟩
    rw [header_retag aligned vacant.aligned vacant.positive, if_neg same]
    exact vacant.header

theorem foldl_retag {blocks : List Block} (vacant : m.Vacant p) (aligned : ∀ block ∈ blocks, block.Aligned)
    (free : ∀ block ∈ blocks, block.addr = p → block.allocated = false) : (blocks.foldl .retag m).Vacant p := by
  induction blocks generalizing m with
  | nil => exact vacant
  | cons block rest ih =>
    rw [List.forall_mem_cons] at aligned free
    exact ih (vacant.retag aligned.1 free.1) aligned.2 free.2

theorem joined (vacant : m.Vacant p) (x : Extent) (aligned : (block.join before after).Aligned) :
    (x.joined m block before after).memory.Vacant p := by
  simp only [Extent.joined]
  split
  · exact vacant
  · exact vacant.retag aligned fun _ => rfl

theorem growth {x : Extent} {bytes : Nat} (vacant : m.Vacant p) (fresh : (x.fresh bytes).Aligned) (below : p < x.stop)
    (tail : (x.tail bytes before).Aligned) : (x.growth m bytes before).memory.Vacant p := by
  refine joined (.congr (vacant.retag fresh fun _ => rfl) fun address _ _ => ?_) (x.longer bytes) tail
  -- the new end sentinel is farther up
  have room : p + unitSize ≤ x.stop := by
    have addr := fresh.addr
    have even := vacant.aligned
    simp only [Extent.fresh] at addr
    lia
  exact byte_setTagAt (.inl (by lia))

end Vacant

end Memory

namespace Machine

variable {σ : Type}

def Uncovered (s : Machine σ) (p : Nat) : Prop := ∀ block ∈ s.allocated, p < block.addr ∨ block.stop ≤ p

/-- The address lies among the blocks of the heap, and no header there says that a block is allocated. -/
def Stale (s : Machine σ) (p : Nat) : Prop :=
  ∃ x, s.heap.extent = some x ∧ x.start + frameBytes ≤ p ∧ p < x.stop ∧ s.memory.Vacant p

variable [Source σ] [LawfulSource σ] {s t : Machine σ} {x y : Extent} {blocks others : List Block} {block : Block}
  {size p : Nat} {answer : Except AllocError (Option Nat)} {command : Command}

theorem Ready.uncovered (ready : s.Ready x blocks) :
    s.Uncovered p ↔ ∀ block ∈ blocks, block.allocated = true → p < block.addr ∨ block.stop ≤ p := by
  simp only [Uncovered, ready.mem_allocated, and_imp]

theorem Serving.vacant (serving : s.Serving x blocks size answer t y others) (ready : s.Ready x blocks)
    (vacant : s.memory.Vacant p) (below : p < x.stop)
    (free : ∀ block ∈ others, block.addr = p → block.allocated = false) : t.memory.Vacant p := by
  have aligned : ∀ block ∈ others, block.Aligned := fun block => (serving.ready ready).tiled.block_aligned
  cases serving with
  | empty => exact vacant
  | huge => exact vacant
  | found positive adjusted parts found =>
    rw [place_memory]
    exact vacant.foldl_retag (fun block member => aligned block (by simp [member])) fun block member =>
      free block (by simp [member])
  | full => exact vacant
  | refused => exact vacant
  | @grown need start left before positive adjusted unfound room granted parts neighbours =>
    subst parts
    obtain ⟨-, grown, -⟩ := ready.grown_tail adjusted neighbours room granted
    have fresh : (x.fresh (s.growthFor need)).Aligned :=
      ⟨ready.tiled.stop_mod, by simp only [Extent.fresh]; omega, (ready.growth_size adjusted).1⟩
    rw [place_memory]
    refine Memory.Vacant.foldl_retag ?_ (fun block member => aligned block (by simp [member])) fun block member =>
      free block (by simp [member])
    exact vacant.growth fresh below (grown.tiled.block_aligned (by simp))

theorem Releasing.vacant (releasing : s.Releasing x blocks block t y others) (ready : s.Ready x blocks)
    (vacant : p = block.addr ∨ s.memory.Vacant p) : t.memory.Vacant p := by
  have aligned : block.freed.Aligned :=
    have own := ready.tiled.block_aligned releasing.member
    ⟨own.addr, own.positive, own.size⟩
  have joined : ∀ block ∈ others, block.Aligned := fun block => (releasing.ready ready).tiled.block_aligned
  cases releasing with
  | @joined left right before after parts neighbours =>
    have freed : (s.memory.retag block.freed).Vacant p := by
      rcases vacant with rfl | vacant
      · exact Memory.vacant_retag aligned rfl
      · exact vacant.retag aligned fun _ => rfl
    refine freed.joined x ?_
    rw [Block.join_freed]
    exact joined _ (by simp)

theorem Serving.stale (serving : s.Serving x blocks size answer t y others) (ready : s.Ready x blocks)
    (stale : s.Stale p) (uncovered : t.Uncovered p) : t.Stale p := by
  obtain ⟨z, extent, above, below, vacant⟩ := stale
  obtain rfl : x = z := ready.extent_eq extent
  obtain ⟨start, grows⟩ := serving.grows
  have after := serving.ready ready
  refine ⟨y, after.extent, by omega, by omega, serving.vacant ready vacant below fun block member same => ?_⟩
  have least := (after.tiled.isBlockSize member).2.1
  by_contra busy
  have apart := after.uncovered.mp uncovered block member (by simpa using busy)
  simp only [Block.stop] at apart
  lia

theorem Releasing.stale (releasing : s.Releasing x blocks block t y others) (ready : s.Ready x blocks)
    (stale : p = block.addr ∨ s.Stale p) : t.Stale p := by
  obtain ⟨start, stop⟩ := releasing.grows
  have after := releasing.ready ready
  rcases stale with rfl | ⟨z, extent, above, below, vacant⟩
  · obtain ⟨above, below, -, least⟩ := ready.tiled.tiles.within releasing.member
    simp only [Block.stop] at below
    exact ⟨y, after.extent, by omega, by lia, releasing.vacant ready (.inl rfl)⟩
  · obtain rfl : x = z := ready.extent_eq extent
    exact ⟨y, after.extent, by omega, by omega, releasing.vacant ready (.inr vacant)⟩

theorem Requesting.stale (requesting : s.Requesting size answer t) (stale : s.Stale p) (uncovered : t.Uncovered p) :
    t.Stale p := by
  have ⟨_, extent, _⟩ := stale
  cases requesting with
  | unready unset setup => exact absurd extent unset.extent_ne
  | started unset setup ready serving => exact absurd extent unset.extent_ne
  | ready ready serving => exact serving.stale ready stale uncovered

omit [Source σ] [LawfulSource σ] in
theorem noting_stale {α : Type} {cause : Except AllocError α} :
    (s.noting size cause).Stale p ↔ s.Stale p := by simp only [Stale, noting_heap, noting_memory]

omit [Source σ] [LawfulSource σ] in
theorem noting_uncovered {α : Type} {cause : Except AllocError α} :
    (s.noting size cause).Uncovered p ↔ s.Uncovered p := by
  simp only [Uncovered, allocated, noting_heap, noting_memory]

theorem Serving.moved_stale {u : Machine σ} {z : Extent} {rest : List Block} {target : Nat}
    (serving : s.Serving x blocks size (.ok (some target)) t y others) (ready : s.Ready x blocks)
    (member : block ∈ blocks) (busy : block.allocated = true)
    (releasing : (t.copied block.addr target (min size (block.size - tagBytes))).Releasing y others block u z rest)
    (stale : s.Stale p) (before : s.Uncovered p) (after : u.Uncovered p) : u.Stale p := by
  have copied := serving.copied ready block
  have served := serving.ready ready
  -- what is allocated on the way was so before or is so after
  have between : t.Uncovered p := by
    intro other allocated
    by_cases same : other = block
    · rw [same]
      exact before block (ready.mem_allocated.mpr ⟨member, busy⟩)
    · have held := copied.mem_allocated.mpr (served.mem_allocated.mp allocated)
      exact after other ((releasing.reallots copied busy).kept held (by simpa using same))
  obtain ⟨new, taken, live, rfl, serves⟩ := serving.target ready
  obtain ⟨v, extent, above, below, vacant⟩ := serving.stale ready stale between
  have apart := between new (served.mem_allocated.mpr ⟨taken, live⟩)
  have payload := serves.payload
  refine releasing.stale copied (.inr ⟨v, extent, above, below, vacant.congr fun address low high => ?_⟩)
  rw [Machine.copied, Memory.byte_copy, if_neg]
  lia

theorem Course.stale (course : s.Course command answer t) (stale : s.Stale p) (before : s.Uncovered p)
    (after : t.Uncovered p) : t.Stale p := by
  induction course with
  | init requesting => exact requesting.stale stale after
  | tryAllocate requesting => exact requesting.stale stale after
  | allocate requesting => exact noting_stale.mpr (requesting.stale stale (noting_uncovered.mp after))
  | freeNull => exact stale
  | free ready busy releasing => exact releasing.stale ready (.inr stale)
  | reallocateEmpty freeing ih => exact ih after
  | reallocateNull positive allocating ih => exact ih after
  | stay ready member busy positive serving =>
    exact noting_stale.mpr (serving.stale ready stale (noting_uncovered.mp after))
  | move ready member busy positive serving releasing =>
    exact serving.moved_stale ready member busy releasing stale before after

theorem Course.released_stale {pointer : Option Nat} (course : s.Course command (.ok pointer) t)
    (released : command.released? pointer = some p) : t.Stale p := by
  cases course with
  | init => cases released
  | tryAllocate => cases released
  | allocate => cases released
  | freeNull => cases released
  | free ready busy releasing =>
    cases released
    exact releasing.stale ready (.inl rfl)
  | reallocateEmpty freeing =>
    cases freeing with
    | freeNull => cases released
    | free ready busy releasing =>
      cases released
      exact releasing.stale ready (.inl rfl)
  | reallocateNull positive allocating => simp [Command.released?] at released
  | stay ready member busy positive serving => simp [Command.released?, positive] at released
  | move ready member busy positive serving releasing =>
    obtain rfl : _ = p := by simpa [Command.released?] using released
    exact releasing.stale (serving.copied ready _) (.inl rfl)

end Machine

theorem Extent.vet_vacant {m : Memory} {p : Nat} (x : Extent) (vacant : m.Vacant p) :
    ∃ cause, x.vet m p = .error cause := by
  simp only [vet, vacant.header, Bool.not_false, if_true]
  split_ifs <;> exact ⟨_, rfl⟩

theorem Machine.Stale.caught {σ : Type} [Source σ] {s : Machine σ} {p : Nat} (stale : s.Stale p) {command : Command}
    (given : command.pointer? = some p) : ∃ cause, command.perform .vetting s = .error (.fault (.misuse cause)) s := by
  obtain ⟨x, extent, -, -, vacant⟩ := stale
  obtain ⟨cause, misuse⟩ := x.vet_vacant vacant
  exact ⟨cause, rejects extent misuse command given⟩

namespace World

variable {σ : Type} [Source σ] {mode : Mode} {w : World σ} {action : Action σ} {actions : List (Action σ)} {p : Nat}

def Clear (w : World σ) (block : Block) : Prop := ∀ other ∈ w.machine.allocated, ¬other.Overlaps block

instance (w : World σ) : DecidablePred w.Clear := fun block =>
  inferInstanceAs (Decidable (∀ other ∈ w.machine.allocated, ¬other.Overlaps block))

def StaysClear (mode : Mode) (w : World σ) (block : Block) : List (Action σ) → Prop
  | [] => w.Clear block
  | action :: rest => w.Clear block ∧ (w.after mode action).StaysClear mode block rest

instance decidableStaysClear (mode : Mode) (block : Block) :
    ∀ (w : World σ) (actions : List (Action σ)), Decidable (w.StaysClear mode block actions)
  | w, [] => inferInstanceAs (Decidable (w.Clear block))
  | w, action :: rest =>
    have := decidableStaysClear mode block (w.after mode action) rest
    inferInstanceAs (Decidable (w.Clear block ∧ (w.after mode action).StaysClear mode block rest))

theorem StaysClear.now {block : Block} (clear : w.StaysClear mode block actions) : w.Clear block := by
  cases actions with
  | nil => exact clear
  | cons action rest => exact clear.1

omit [Source σ] in
theorem Clear.uncovered {block : Block} (clear : w.Clear block) (positive : 0 < block.size) :
    w.machine.Uncovered block.addr := by
  intro other member
  have apart := clear other member
  simp only [Block.Overlaps, Block.stop] at apart ⊢
  omega

variable [LawfulSource σ]

theorem Balanced.stale_after (balanced : w.Balanced) (permitted : w.Permits action) (stale : w.machine.Stale p)
    (before : w.machine.Uncovered p) (after : (w.after mode action).machine.Uncovered p) :
    (w.after mode action).machine.Stale p := by
  cases action with
  | command command =>
    obtain ⟨result, course, -⟩ := balanced.course mode permitted
    exact course.stale stale before after
  | write target value =>
    obtain ⟨x, extent, above, below, vacant⟩ := stale
    refine ⟨x, extent, above, below, vacant.congr fun address low high => ?_⟩
    rw [World.after, Memory.byte_set, if_neg]
    rintro rfl
    rcases permitted with ⟨loan, held, byte⟩ | outside
    · have apart := before _ (balanced.mem_allocated held)
      obtain ⟨above, below⟩ := Loan.byte_iff.mpr byte
      lia
    · exact outside x extent (by lia)
  | drift source => exact stale

theorem Balanced.stale_run {block : Block} (balanced : w.Balanced) (permitted : w.PermitsAll mode actions)
    (positive : 0 < block.size) (clear : w.StaysClear mode block actions) (stale : w.machine.Stale block.addr) :
    (w.run mode actions).machine.Stale block.addr := by
  induction actions generalizing w with
  | nil => exact stale
  | cons action rest ih =>
    have next := balanced.stale_after permitted.1 stale (clear.1.uncovered positive) (clear.2.now.uncovered positive)
    exact ih (balanced.after permitted.1) permitted.2 clear.2 next

/-- A pointer that was released is caught when it is passed again, as long as no block was handed out over a byte
    of the old one, and nothing changes then. The old block may long be part of another free block. -/
theorem Reachable.double_free_caught (reachable : w.Reachable .vetting) {loan : Loan} (held : loan ∈ w.loans)
    {command : Command} (permitted : w.Permits (.command command)) (released : w.Ends .vetting loan (.command command))
    (permittedAll : (w.after .vetting (.command command)).PermitsAll .vetting actions)
    (clear : (w.after .vetting (.command command)).StaysClear .vetting loan.block actions) :
    let v := (w.after .vetting (.command command)).run .vetting actions
    ∀ again : Command, again.pointer? = some loan.addr →
      ∃ cause, again.perform .vetting v.machine = .error (.fault (.misuse cause)) v.machine := by
  intro v again given
  have balanced := reachable.balanced
  obtain ⟨result, course, answered⟩ := balanced.course .vetting permitted
  obtain ⟨pointer, answer, gone⟩ := released
  have stale : (w.after .vetting (.command command)).machine.Stale loan.block.addr := by
    cases result with
    | error cause => simp [answered, Except.toOption] at answer
    | ok reply =>
      obtain rfl : reply = pointer := by simpa [answered, Except.toOption] using answer
      exact course.released_stale gone
  obtain ⟨-, size, -⟩ := balanced.consistent.mem_blocks (List.mem_of_mem_filter (balanced.mem_allocated held))
  have positive : 0 < loan.block.size := Nat.lt_of_lt_of_le (by decide) size.2.1
  exact Machine.Stale.caught ((balanced.after permitted).stale_run permittedAll positive clear stale) given

def holed : World Region :=
  (World.fresh (.fresh 65536 512) { initialSize := 128, chunkSize := 64 } {}).run .vetting
    [.command (.tryAllocate 24), .command (.tryAllocate 24), .command (.tryAllocate 24), .command (.free (some 65552))]

theorem holed_reachable : holed.Reachable .vetting := by
  have stands : LawfulSource.EndsAt (Region.fresh 65536 512) none := by constructor <;> decide
  refine (Reachable.fresh _ _ _ stands).run ⟨?_, ?_, ?_, ?_, trivial⟩
  · decide +kernel
  · decide +kernel
  · decide +kernel
  · decide +kernel

/-- The second block is freed into the first, split off from it again and merged with the third. -/
theorem holed_double_free_caught :
    let v := (holed.after .vetting (.command (.free (some 65584)))).run .vetting
      [.command (.allocate 24), .command (.allocate 24), .write 65560 1, .command (.free (some 65616)),
        .command (.reallocate (some 65648) 100)]
    ∀ again : Command, again.pointer? = some 65584 →
      ∃ cause, again.perform .vetting v.machine = .error (.fault (.misuse cause)) v.machine := by
  have held : (⟨65584, 24, 24⟩ : Loan) ∈ holed.loans := by decide +kernel
  refine Reachable.double_free_caught holed_reachable held ?_ ⟨none, ?_, rfl⟩ ⟨?_, ?_, ?_, ?_, ?_, trivial⟩ ?_
  · decide +kernel
  · decide +kernel
  · decide +kernel
  · decide +kernel
  · decide +kernel
  · decide +kernel
  · decide +kernel
  · decide +kernel

end World

end BoundaryTag
