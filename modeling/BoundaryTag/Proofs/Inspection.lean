import BoundaryTag.Proofs.Checking

namespace BoundaryTag

def endsFree (blocks : List Block) : Bool := blocks.getLast?.any (!·.allocated)

theorem endsFree_append_singleton (blocks : List Block) (block : Block) :
    endsFree (blocks ++ [block]) = !block.allocated := by simp [endsFree]

theorem Separated.append_singleton {blocks : List Block} {block : Block} (separated : Separated blocks)
    (apart : endsFree blocks = true → block.allocated = true) : Separated (blocks ++ [block]) := by
  refine List.isChain_append.mpr ⟨separated, .singleton _, ?_⟩
  intro last member other same
  obtain rfl : block = other := by simpa using same
  cases busy : last.allocated with
  | true => exact .inl rfl
  | false =>
    refine .inr (apart ?_)
    rw [endsFree, Option.mem_def.mp member]
    simp [busy]

theorem Separated.allocated_behind {front back : List Block} {block : Block}
    (separated : Separated (front ++ block :: back)) (free : endsFree front = true) : block.allocated = true := by
  rcases List.eq_nil_or_concat' front with rfl | ⟨rest, last, rfl⟩
  · cases free
  · rw [endsFree_append_singleton] at free
    obtain ⟨-, -, closed⟩ := List.isChain_append.mp separated
    exact (closed last (by simp) block (by simp)).resolve_left (by simpa using free)

namespace Extent

structure Passable (x : Extent) (m : Memory) (addr : Nat) : Prop where
  aligned : addr % unitSize = 0
  least : minBlock ≤ (m.header addr).size
  inside : addr + (m.header addr).size ≤ x.stop
  agrees : m.footer addr = m.header addr

/-- The damage that a walk reports at an address, where `priorFree` says whether the block before is free: the first
    test that fails there. -/
inductive DamagedAt (x : Extent) (m : Memory) (priorFree : Bool) (addr : Nat) : CheckError → Prop
  | misaligned (odd : addr % unitSize ≠ 0) : DamagedAt x m priorFree addr (.misaligned addr)
  | badEpilogue (aligned : addr % unitSize = 0) (empty : (m.header addr).size = 0)
    (bad : (m.header addr).isAllocated = false ∨ addr ≠ x.stop) : DamagedAt x m priorFree addr (.badEpilogue addr)
  | tooSmall (aligned : addr % unitSize = 0) (positive : (m.header addr).size ≠ 0)
    (small : (m.header addr).size < minBlock) :
    DamagedAt x m priorFree addr (.tooSmall addr (m.header addr).size)
  | outOfBounds (aligned : addr % unitSize = 0) (least : minBlock ≤ (m.header addr).size)
    (beyond : x.stop < addr + (m.header addr).size) : DamagedAt x m priorFree addr (.outOfBounds addr)
  | tagMismatch (aligned : addr % unitSize = 0) (least : minBlock ≤ (m.header addr).size)
    (inside : addr + (m.header addr).size ≤ x.stop) (differs : m.footer addr ≠ m.header addr) :
    DamagedAt x m priorFree addr (.tagMismatch addr)
  | adjacentFree (passable : x.Passable m addr) (free : (m.header addr).isAllocated = false)
    (prior : priorFree = true) : DamagedAt x m priorFree addr (.adjacentFree addr)

/-- The bounds test of a step adds a size that nothing has vouched for yet, and here the sum is no address. -/
structure OverflowsAt (m : Memory) (addr : Nat) : Prop where
  aligned : addr % unitSize = 0
  least : minBlock ≤ (m.header addr).size
  far : addressLimit ≤ addr - wordSize + (m.header addr).size

inductive Inspected (x : Extent) (m : Memory) (priorFree : Bool) (addr : Nat) : CheckM (Option Tag) → Prop
  | damaged {damage : CheckError} (damaged : x.DamagedAt m priorFree addr damage) (fits : ¬OverflowsAt m addr) :
    Inspected x m priorFree addr (.error (.failed damage))
  | overflow (overflows : OverflowsAt m addr) : Inspected x m priorFree addr (.error (.fault .overflow))
  | ended (aligned : addr % unitSize = 0) (empty : (m.header addr).size = 0)
    (closed : (m.header addr).isAllocated = true) (ends : addr = x.stop) : Inspected x m priorFree addr (.ok none)
  | passed (passable : x.Passable m addr) (apart : priorFree = true → (m.header addr).isAllocated = true) :
    Inspected x m priorFree addr (.ok (some (m.header addr)))

variable {x : Extent} {m other : Memory} {blocks : List Block} {block : Block} {addr : Nat} {damage : CheckError}

theorem DamagedAt.stuck {priorFree : Bool} (damaged : x.DamagedAt m priorFree addr damage)
    (passable : x.Passable m addr) (apart : priorFree = true → (m.header addr).isAllocated = true) : False := by
  have least := passable.least
  cases damaged with
  | misaligned odd => exact odd passable.aligned
  | badEpilogue _ empty => lia
  | tooSmall _ _ small => omega
  | outOfBounds _ _ beyond => exact Nat.not_lt.mpr passable.inside beyond
  | tagMismatch _ _ _ differs => exact differs passable.agrees
  | adjacentFree _ free prior =>
    rw [apart prior] at free
    cases free

theorem inspected (bounded : x.stop < addressLimit) (above : x.start + frameBytes ≤ addr) (below : addr ≤ x.stop)
    (m : Memory) (priorFree : Bool) : x.Inspected m priorFree addr (x.inspect m priorFree addr) := by
  have header : x.readTag m (addr - wordSize) = .ok (m.header addr) := readTag_eq (by lia) (by lia)
  simp only [inspect, CheckM.report, Nat.not_lt.mpr below, CheckM.sub_eq (show wordSize ≤ addr by lia), header,
    CheckM.sub_eq (show wordSize ≤ x.stop by lia), Bind.bind, Except.bind, if_false]
  split
  · rename_i odd
    exact .damaged (.misaligned odd) fun overflows => odd overflows.aligned
  rename_i even
  have aligned : addr % unitSize = 0 := not_not.mp even
  split
  · rename_i empty
    split
    · rename_i bad
      refine .damaged (.badEpilogue aligned empty (by simpa using bad)) fun overflows => ?_
      have least := overflows.least
      lia
    · rename_i right
      obtain ⟨closed, ends⟩ : (m.header addr).isAllocated = true ∧ addr = x.stop := by simpa using right
      exact .ended aligned empty closed ends
  rename_i positive
  split
  · rename_i small
    exact .damaged (.tooSmall aligned positive small) fun overflows => Nat.not_lt.mpr overflows.least small
  rename_i large
  have least : minBlock ≤ (m.header addr).size := Nat.not_lt.mp large
  rcases Nat.lt_or_ge (addr - wordSize + (m.header addr).size) addressLimit with fits | far
  swap
  · simp only [CheckM.add_of_le far]
    exact .overflow ⟨aligned, least, far⟩
  have near : ¬OverflowsAt m addr := fun overflows => Nat.not_lt.mpr overflows.far fits
  simp only [CheckM.add_eq fits]
  split
  · exact .damaged (.outOfBounds aligned least (by lia)) near
  have inside : addr + (m.header addr).size ≤ x.stop := by lia
  have footer : x.readTag m (addr + (m.header addr).size - tagBytes) = .ok (m.footer addr) :=
    readTag_eq (by lia) (by lia)
  simp only [CheckM.add_eq (show addr + (m.header addr).size < addressLimit by omega),
    CheckM.sub_eq (show tagBytes ≤ addr + (m.header addr).size by lia), footer]
  split
  · exact .damaged (.tagMismatch aligned least inside ‹_›) near
  rename_i agrees
  have passable : x.Passable m addr := ⟨aligned, least, inside, not_not.mp agrees⟩
  split
  · rename_i free
    obtain ⟨free, prior⟩ : (m.header addr).isAllocated = false ∧ priorFree = true := by simpa using free
    exact .damaged (.adjacentFree passable free prior) near
  · rename_i apart
    exact .passed passable fun prior => by simpa [prior] using apart

structure Passed (x : Extent) (m : Memory) (blocks : List Block) (addr : Nat) : Prop where
  chained : m.Chained (x.start + frameBytes) blocks addr
  passable : ∀ block ∈ blocks, x.Passable m block.addr
  separated : Separated blocks

namespace Passed

theorem least (passed : x.Passed m blocks addr) (member : block ∈ blocks) : minBlock ≤ block.size := by
  have own : (m.header block.addr).size = block.size := congrArg Block.size (passed.chained.blockAt_eq member)
  rw [← own]
  exact (passed.passable block member).least

theorem tiles (passed : x.Passed m blocks addr) : Tiles (x.start + frameBytes) blocks addr :=
  passed.chained.tiles fun _ member => passed.least member

/-- Block sizes are whole, so a walk is off its alignment at the first block or never. -/
theorem misaligned (passed : x.Passed m blocks addr) (odd : addr % unitSize ≠ 0) :
    x.start % unitSize ≠ 0 ∧ addr = x.start + frameBytes := by
  refine ⟨fun whole => odd (passed.tiles.stop_mod (by lia)), ?_⟩
  cases blocks with
  | nil => exact passed.chained.symm
  | cons first rest =>
    obtain ⟨begins, -⟩ := passed.tiles
    have aligned := (passed.passable first (by simp)).aligned
    exact absurd (passed.tiles.stop_mod (begins ▸ aligned)) odd

/-- A walk that has come to one address gets to another one where a sum overflows, or has no way to go on. -/
theorem reaches {far : Nat} {front : List Block} (passed : x.Passed m blocks addr) (bounded : x.stop < addressLimit)
    (other : x.Passed m front far) (overflows : OverflowsAt m far) :
    far = addr ∨ x.Passable m addr ∧ (endsFree blocks = true → (m.header addr).isAllocated = true) := by
  rcases passed.chained.comparable other.chained with ⟨rest, rfl, later⟩ | ⟨rest, rfl⟩
  · cases rest with
    | nil => exact .inl later
    | cons block rest =>
      obtain ⟨rfl, -⟩ := later
      have inside : far + (m.header far).size ≤ x.stop := (passed.passable (m.blockAt far) (by simp)).inside
      have sum := overflows.far
      omega
  · exact .inr ⟨other.passable (m.blockAt addr) (by simp), fun free => other.separated.allocated_behind free⟩

theorem snoc (passed : x.Passed m blocks addr) (passable : x.Passable m addr)
    (apart : endsFree blocks = true → (m.header addr).isAllocated = true) :
    x.Passed m (blocks ++ [m.blockAt addr]) (m.next addr) := by
  refine ⟨passed.chained.append ⟨rfl, rfl⟩, ?_, passed.separated.append_singleton apart⟩
  intro block member
  rcases List.mem_append.mp member with member | member
  · exact passed.passable block member
  · obtain rfl := List.mem_singleton.mp member
    exact passable

end Passed

def begun (x : Extent) : Walked where
  stats := { heapSize := x.size }
  cursorSeen := x.cursor == x.startSentinel

def walked (x : Extent) (blocks : List Block) : Walked := blocks.foldl (Walked.pass x) x.begun

theorem walked_priorFree (x : Extent) (blocks : List Block) : (x.walked blocks).priorFree = endsFree blocks := by
  rcases List.eq_nil_or_concat' blocks with rfl | ⟨rest, last, rfl⟩
  · rfl
  · rw [endsFree_append_singleton, walked, List.foldl_append]
    rfl

theorem Passed.walked_counted (passed : x.Passed m blocks addr) :
    x.start + (x.walked blocks).counted = addr := by
  have total := passed.tiles.stop_eq
  rw [walked, (Walked.foldl_pass x x.begun blocks).2.1, total]
  exact (Nat.add_assoc ..).symm

theorem Passed.walked_bounded (passed : x.Passed m blocks addr) : (x.walked blocks).Bounded := by
  have begun : x.begun.Bounded := by constructor <;> exact Nat.zero_le _
  exact begun.foldl fun _ member => passed.least member

theorem Passed.counts (passed : x.Passed m blocks addr) (bounded : x.stop < addressLimit)
    (passable : x.Passable m addr) :
    { x.walked blocks with cursorSeen := (x.walked blocks).cursorSeen || addr == x.cursor }.count (m.header addr) =
      .ok (x.walked (blocks ++ [m.blockAt addr])) := by
  have inside := passable.inside
  have counted := passed.walked_counted
  have limit : (x.walked blocks).counted + (m.blockAt addr).size < addressLimit := by
    simp only [Memory.blockAt]
    omega
  have next : x.walked (blocks ++ [m.blockAt addr]) = (x.walked blocks).pass x (m.blockAt addr) := by
    rw [walked, List.foldl_append]
    rfl
  have size : (m.header addr).size = (m.blockAt addr).size := rfl
  have flag : (m.header addr).isAllocated = (m.blockAt addr).allocated := rfl
  have counts := Walked.count_eq (x := x) passed.walked_bounded size flag passable.least limit
  rw [next]
  exact counts

inductive Toured (x : Extent) (m : Memory) : CheckM Walked → Prop
  | damaged {blocks : List Block} {addr : Nat} {damage : CheckError} (passed : x.Passed m blocks addr)
    (damaged : x.DamagedAt m (endsFree blocks) addr damage) (fits : ¬OverflowsAt m addr) :
    Toured x m (.error (.failed damage))
  | overflow {blocks : List Block} {addr : Nat} (passed : x.Passed m blocks addr) (overflows : OverflowsAt m addr) :
    Toured x m (.error (.fault .overflow))
  | ended {blocks : List Block} (passed : x.Passed m blocks x.stop) (aligned : x.stop % unitSize = 0)
    (empty : (m.header x.stop).size = 0) (closed : (m.header x.stop).isAllocated = true) :
    Toured x m (.ok { x.walked blocks with cursorSeen := (x.walked blocks).cursorSeen || x.stop == x.cursor })

theorem Passed.toured (bounded : x.stop < addressLimit) (passed : x.Passed m blocks addr)
    (below : addr ≤ x.stop) : x.Toured m (x.checkFrom m addr (x.walked blocks)) := by
  -- what is left of the heap gets smaller with every block
  generalize left : x.stop - addr = room
  induction room using Nat.strong_induction_on generalizing blocks addr with
  | _ room ih =>
    have above := passed.tiles.start_le
    have step := inspected bounded above below m (x.walked blocks).priorFree
    rw [checkFrom]
    simp only
    generalize x.inspect m (x.walked blocks).priorFree addr = result at step
    rw [walked_priorFree] at step
    cases step with
    | damaged damaged fits => exact .damaged passed damaged fits
    | overflow overflows => exact .overflow passed overflows
    | ended aligned empty closed ends =>
      subst ends
      exact .ended passed aligned empty closed
    | passed passable apart =>
      have least := passable.least
      have inside := passable.inside
      have later : addr < addr + (m.header addr).size ∧ addr + (m.header addr).size < addressLimit := by lia
      simp only [behind, dif_pos later, passed.counts bounded passable, Bind.bind, Except.bind]
      exact ih _ (by lia) (passed.snoc passable apart) inside rfl

end Extent

end BoundaryTag
