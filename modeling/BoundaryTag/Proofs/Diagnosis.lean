import BoundaryTag.Proofs.Inspection
import BoundaryTag.Proofs.World

namespace BoundaryTag

open World (trial trialExtent)

namespace Memory

inductive Yields (m : Memory) : Nat → List Block → Prop
  | ended {addr : Nat} (empty : (m.header addr).size = 0) : Yields m addr []
  | block {addr : Nat} {rest : List Block} (positive : (m.header addr).size ≠ 0) (tail : Yields m (m.next addr) rest) :
    Yields m addr (m.blockAt addr :: rest)

theorem Chained.yields_iff {m : Memory} {start stop : Nat} {blocks yielded : List Block}
    (chained : m.Chained start blocks stop) (least : ∀ block ∈ blocks, minBlock ≤ block.size)
    (empty : (m.header stop).size = 0) : m.Yields start yielded ↔ yielded = blocks := by
  induction blocks generalizing start yielded with
  | nil =>
    obtain rfl : start = stop := chained
    constructor
    · intro run
      cases run with
      | ended => rfl
      | block positive => exact absurd empty positive
    · rintro rfl
      exact .ended empty
  | cons block rest ih =>
    obtain ⟨rfl, tail⟩ := chained
    obtain ⟨first, others⟩ := List.forall_mem_cons.mp least
    have positive : (m.header start).size ≠ 0 := Nat.ne_of_gt (Nat.lt_of_lt_of_le (by decide) first)
    constructor
    · intro run
      cases run with
      | ended empty => exact absurd empty positive
      | block _ later => rw [(ih tail others).mp later]
    · rintro rfl
      exact .block positive ((ih tail others).mpr rfl)

end Memory

namespace Extent

def census (x : Extent) (blocks : List Block) : Stats where
  heapSize := x.size
  blocks := blocks.length
  freeBlocks := (blocks.filter (!·.allocated)).length
  freeBytes := ((blocks.filter (!·.allocated)).map Block.size).sum
  allocatedBytes := ((blocks.filter (·.allocated)).map Block.size).sum

theorem stats_eq_census (x : Extent) (blocks : List Block) : x.stats blocks = x.census blocks := by
  have counts : ∀ stats : Stats, blocks.foldl .add stats =
      ⟨stats.heapSize, stats.blocks + (x.census blocks).blocks, stats.freeBlocks + (x.census blocks).freeBlocks,
        stats.freeBytes + (x.census blocks).freeBytes, stats.allocatedBytes + (x.census blocks).allocatedBytes⟩ := by
    induction blocks with
    | nil => exact fun stats => rfl
    | cons block rest ih =>
      intro stats
      rw [List.foldl_cons, ih]
      cases busy : block.allocated <;> simp [Stats.add, census, busy] <;> omega
  rw [Extent.stats, counts]
  simp only [Nat.zero_add]
  rfl

theorem census_bytes (x : Extent) (blocks : List Block) :
    (x.census blocks).freeBytes + (x.census blocks).allocatedBytes = (blocks.map Block.size).sum := by
  simp only [census]
  induction blocks with
  | nil => rfl
  | cons block rest ih =>
    cases busy : block.allocated <;> simp [busy, ← ih] <;> omega

structure Framed (x : Extent) (m : Memory) : Prop where
  header : m.header x.startSentinel = .pack unitSize true
  footer : m.tagAt x.startSentinel = .pack unitSize true

/-- A sum of the check is no address: the end of the heap, or a bound that the walk computes where sound blocks have
    taken it. -/
def Overflows (x : Extent) (m : Memory) : Prop :=
  x.stop = addressLimit ∨ ∃ blocks addr, x.Framed m ∧ x.Passed m blocks addr ∧ OverflowsAt m addr

/-- The blocks go on from the start sentinel to the end sentinel, and every word that a check reads is right. -/
structure Sane (x : Extent) (m : Memory) (blocks : List Block) : Prop where
  framed : x.Framed m
  passed : x.Passed m blocks x.stop
  empty : (m.header x.stop).size = 0
  closed : (m.header x.stop).isAllocated = true
  cursor : x.CursorAt blocks ∨ x.cursor = x.stop

/-- The damage is the first one in the order of the walk: nothing is wrong with what is before it. -/
inductive Diagnosed (x : Extent) (m : Memory) : CheckError → Prop
  | prologue (damaged : ¬x.Framed m) : Diagnosed x m (.badPrologue x.startSentinel)
  | block {blocks : List Block} {addr : Nat} {damage : CheckError} (framed : x.Framed m)
    (passed : x.Passed m blocks addr) (damaged : x.DamagedAt m (endsFree blocks) addr damage) : Diagnosed x m damage
  | cursor {blocks : List Block} (framed : x.Framed m) (passed : x.Passed m blocks x.stop)
    (aligned : x.stop % unitSize = 0) (empty : (m.header x.stop).size = 0)
    (closed : (m.header x.stop).isAllocated = true) (astray : ¬(x.CursorAt blocks ∨ x.cursor = x.stop)) :
    Diagnosed x m (.cursorMisplaced x.cursor)

inductive Verdict (x : Extent) (m : Memory) : CheckM Stats → Prop
  | damaged {damage : CheckError} (diagnosed : x.Diagnosed m damage) (fits : ¬x.Overflows m) :
    Verdict x m (.error (.failed damage))
  | overflow (overflows : x.Overflows m) : Verdict x m (.error (.fault .overflow))
  | sane {blocks : List Block} (sane : x.Sane m blocks) (aligned : x.stop % unitSize = 0) (fits : ¬x.Overflows m) :
    Verdict x m (.ok (x.stats blocks))

variable {x : Extent} {m : Memory} {blocks front : List Block} {addr : Nat} {damage : CheckError}

theorem walked_cursorSeen (x : Extent) (blocks : List Block) :
    ((x.walked blocks).cursorSeen || x.stop == x.cursor) = true ↔ x.CursorAt blocks ∨ x.cursor = x.stop := by
  rw [walked, (Walked.foldl_pass x x.begun blocks).2.2]
  simp only [begun, CursorAt, Bool.or_eq_true, beq_iff_eq, List.any_eq_true, eq_comm (a := x.stop)]

/-- Where a walk ends, it has met every sum there is. -/
theorem Passed.not_overflows (passed : x.Passed m blocks addr) (bounded : x.stop < addressLimit)
    (fits : ¬OverflowsAt m addr)
    (stuck : x.Passable m addr → ¬(endsFree blocks = true → (m.header addr).isAllocated = true)) :
    ¬x.Overflows m := by
  rintro (full | ⟨front, far, -, other, overflows⟩)
  · exact absurd full (Nat.ne_of_lt bounded)
  · rcases passed.reaches bounded other overflows with rfl | ⟨passable, apart⟩
    · exact fits overflows
    · exact stuck passable apart

theorem Passed.not_overflows_of_empty (passed : x.Passed m blocks addr) (bounded : x.stop < addressLimit)
    (empty : (m.header addr).size = 0) : ¬x.Overflows m := by
  refine passed.not_overflows bounded (fun overflows => ?_) (fun passable => ?_)
  · have least := overflows.least
    lia
  · have least := passable.least
    lia

theorem not_overflows_of_not_framed (bounded : x.stop < addressLimit) (damaged : ¬x.Framed m) : ¬x.Overflows m := by
  rintro (full | ⟨-, -, framed, -⟩)
  · exact absurd full (Nat.ne_of_lt bounded)
  · exact damaged framed

theorem Passed.walked_counted_stop (passed : x.Passed m blocks x.stop) : (x.walked blocks).counted = x.size := by
  have counted := passed.walked_counted
  simp only [stop] at counted
  omega

/-- At the end sentinel all that is left to be wrong is the cursor. -/
theorem Passed.verdict_of_ended (passed : x.Passed m blocks x.stop) (framed : x.Framed m)
    (bounded : x.stop < addressLimit) (aligned : x.stop % unitSize = 0) (empty : (m.header x.stop).size = 0)
    (closed : (m.header x.stop).isAllocated = true) :
    x.Verdict m (if !((x.walked blocks).cursorSeen || x.stop == x.cursor)
      then .error (.failed (.cursorMisplaced x.cursor)) else .ok (x.walked blocks).stats) := by
  have stats : (x.walked blocks).stats = x.stats blocks := (Walked.foldl_pass x x.begun blocks).1
  have seen := x.walked_cursorSeen blocks
  have fits : ¬x.Overflows m := passed.not_overflows_of_empty bounded empty
  split
  · rename_i astray
    refine .damaged (.cursor framed passed aligned empty closed ?_) fits
    rw [← seen]
    simpa using astray
  · rename_i found
    rw [stats]
    refine .sane ⟨framed, passed, empty, closed, ?_⟩ aligned fits
    rw [← seen]
    simpa only [Bool.not_eq_true', Bool.not_eq_false] using found

theorem verdict_of_lt (framed : frameBytes ≤ x.size) (bounded : x.stop < addressLimit) (m : Memory) :
    x.Verdict m (x.check m) := by
  have low : x.start + frameBytes ≤ x.stop := by
    simp only [stop]
    omega
  have header : x.readTag m (x.start + unitSize - wordSize) = .ok (m.header x.startSentinel) :=
    readTag_eq (by lia) (by lia)
  have footer : x.readTag m (x.start + unitSize) = .ok (m.tagAt x.startSentinel) := readTag_eq (by omega) (by lia)
  have none : x.Passed m [] (x.start + frameBytes) := ⟨rfl, by simp, .nil⟩
  have toured : x.Toured m (x.checkFrom m (x.start + unitSize + unitSize)
    { stats := { heapSize := x.size }, cursorSeen := x.cursor == x.start + unitSize }) := none.toured bounded low
  have size : (Tag.pack unitSize true).size = unitSize := Tag.size_pack unitSize true (by decide) (by decide)
  simp only [check, CheckM.report, CheckM.add_eq bounded]
  simp only [CheckM.add_eq (show x.start + unitSize < addressLimit by lia),
    CheckM.sub_eq (show wordSize ≤ x.start + unitSize by lia), header, footer, Bind.bind, Except.bind]
  split
  · rename_i bad
    have damaged : ¬x.Framed m := fun right => bad right.header
    exact .damaged (.prologue damaged) (not_overflows_of_not_framed bounded damaged)
  rename_i right
  obtain right := not_not.mp right
  simp only [right, size, CheckM.add_eq (show x.start + unitSize + unitSize < addressLimit by lia)]
  split
  · rename_i bad
    have damaged : ¬x.Framed m := fun right => bad right.footer
    exact .damaged (.prologue damaged) (not_overflows_of_not_framed bounded damaged)
  rename_i good
  have framed : x.Framed m := ⟨right, not_not.mp good⟩
  generalize x.checkFrom m _ _ = result at toured ⊢
  cases toured with
  | damaged passed damaged fits =>
    exact .damaged (.block framed passed damaged) (passed.not_overflows bounded fits fun able => damaged.stuck able)
  | @overflow blocks addr passed overflows => exact .overflow (.inr ⟨blocks, addr, framed, passed, overflows⟩)
  | @ended blocks passed aligned empty closed =>
    simp only [passed.walked_counted_stop, ne_eq, not_true_eq_false, if_false]
    exact passed.verdict_of_ended framed bounded aligned empty closed

theorem verdict (framed : frameBytes ≤ x.size) (bounded : x.stop ≤ addressLimit) (m : Memory) :
    x.Verdict m (x.check m) := by
  rcases Nat.lt_or_eq_of_le bounded with below | full
  · exact verdict_of_lt framed below m
  · -- the end of the heap is the first sum of all
    have stops : x.check m = .error (.fault .overflow) := by
      simp only [check, CheckM.add_of_le (show addressLimit ≤ x.start + x.size from full.ge), Bind.bind, Except.bind]
    rw [stops]
    exact .overflow (.inl full)

theorem Sane.continues (sane : x.Sane m blocks) (passed : x.Passed m front addr) :
    addr = x.stop ∧ blocks = front ∨ ∃ rest, blocks = front ++ m.blockAt addr :: rest := by
  have least : ∀ block ∈ front, minBlock ≤ block.size := fun _ member => passed.least member
  obtain ⟨rest, rfl, later⟩ := sane.passed.chained.continues sane.empty passed.chained least
  cases rest with
  | nil => exact .inl ⟨later, List.append_nil _⟩
  | cons block rest =>
    obtain ⟨rfl, -⟩ := later
    exact .inr ⟨rest, rfl⟩

theorem Sane.undamaged (sane : x.Sane m blocks) (aligned : x.stop % unitSize = 0) (passed : x.Passed m front addr) :
    ¬x.DamagedAt m (endsFree front) addr damage := by
  intro damaged
  rcases sane.continues passed with ⟨rfl, rfl⟩ | ⟨rest, rfl⟩
  · have empty := sane.empty
    have closed := sane.closed
    cases damaged with
    | misaligned odd => exact odd aligned
    | badEpilogue _ _ bad => simp [closed] at bad
    | tooSmall _ positive => exact positive empty
    | outOfBounds _ least => lia
    | tagMismatch _ least => lia
    | adjacentFree _ free => simp [closed] at free
  · have passable : x.Passable m addr := sane.passed.passable (m.blockAt addr) (by simp)
    exact damaged.stuck passable fun free => sane.passed.separated.allocated_behind free

theorem Sane.eq_of_passed (sane : x.Sane m blocks) (passed : x.Passed m front x.stop) : blocks = front := by
  rcases sane.continues passed with ⟨-, rfl⟩ | ⟨rest, rfl⟩
  · rfl
  · have least := (sane.passed.passable (m.blockAt x.stop) (by simp)).least
    have empty : (m.header (m.blockAt x.stop).addr).size = 0 := sane.empty
    rw [empty] at least
    lia

theorem Sane.undiagnosed (sane : x.Sane m blocks) (aligned : x.stop % unitSize = 0) : ¬x.Diagnosed m damage := by
  intro diagnosed
  cases diagnosed with
  | prologue damaged => exact damaged sane.framed
  | block _ passed damaged => exact sane.undamaged aligned passed damaged
  | cursor _ passed _ _ _ astray =>
    obtain rfl := sane.eq_of_passed passed
    exact astray sane.cursor

theorem Sane.check_eq (sane : x.Sane m blocks) (aligned : x.stop % unitSize = 0) (framed : frameBytes ≤ x.size)
    (bounded : x.stop < addressLimit) : x.check m = .ok (x.stats blocks) := by
  have ends := verdict framed bounded.le m
  generalize x.check m = result at ends
  cases ends with
  | damaged diagnosed => exact absurd diagnosed (sane.undiagnosed aligned)
  | overflow overflows => exact absurd overflows (sane.passed.not_overflows_of_empty bounded sane.empty)
  | sane own => rw [sane.eq_of_passed own.passed]

theorem Sound.sane (sound : x.Sound m blocks) : x.Sane m blocks where
  framed := ⟨sound.sentinel.header, sound.sentinel.footer⟩
  passed := by
    have chained : m.Chained (x.start + frameBytes) blocks x.stop :=
      Memory.chained_of_tiles sound.tiles sound.tagged fun _ member => sound.fits member
    refine ⟨chained, fun block member => ?_, sound.separated⟩
    obtain ⟨-, inside, -, least⟩ := sound.tiles.within member
    have size := sound.size_eq member
    refine ⟨sound.addr_mod member, ?_, ?_, (sound.header_eq_footer member).symm⟩
    · rwa [size]
    · rwa [size]
  empty := sound.terminator_size
  closed := by rw [sound.terminator, Tag.isAllocated_pack 0 true (by decide)]
  cursor := .inl sound.cursor

theorem Sound.check_eq (sound : x.Sound m blocks) : x.check m = .ok (x.stats blocks) :=
  sound.sane.check_eq sound.stop_mod sound.frame_le sound.bounded

theorem Sane.blocks_eq (sane : x.Sane m blocks) (bounded : x.stop < addressLimit) :
    x.first m = x.start + frameBytes ∧ x.blocks m = blocks := by
  have first : x.first m = x.start + frameBytes := by
    rw [first, Memory.next, sane.framed.header, Tag.size_pack unitSize true (by decide) (by decide), startSentinel]
    lia
  refine ⟨first, ?_⟩
  rw [Extent.blocks, first]
  exact sane.passed.chained.walk_eq (fun _ member => sane.passed.least member) sane.empty bounded

/-- The check passes a heap if and only if every word in it is right and it ends at a whole address, and tells then
    what its blocks amount to. These are the blocks that the iteration yields. Damage is named where it is. -/
theorem check_exact (framed : frameBytes ≤ x.size) (bounded : x.stop < addressLimit) (m : Memory) :
    (∀ stats, x.check m = .ok stats ↔
      ∃ blocks, x.Sane m blocks ∧ x.stop % unitSize = 0 ∧ stats = x.census blocks) ∧
    (∀ blocks, x.Sane m blocks → x.blocks m = blocks ∧ (∀ yielded, m.Yields (x.first m) yielded ↔ yielded = blocks) ∧
      (x.census blocks).freeBytes + (x.census blocks).allocatedBytes + frameBytes = x.size) ∧
    ∀ damage, x.check m = .error (.failed damage) → x.Diagnosed m damage := by
  have ends := verdict framed bounded.le m
  refine ⟨fun stats => ⟨fun passes => ?_, ?_⟩, fun blocks sane => ?_, fun damage fails => ?_⟩
  · rw [passes] at ends
    cases ends with
    | sane sane aligned => exact ⟨_, sane, aligned, stats_eq_census ..⟩
  · rintro ⟨blocks, sane, aligned, rfl⟩
    rw [sane.check_eq aligned framed bounded, stats_eq_census]
  · obtain ⟨first, listed⟩ := sane.blocks_eq bounded
    have total := sane.passed.tiles.stop_eq
    refine ⟨listed, fun yielded => ?_, ?_⟩
    · rw [first]
      exact sane.passed.chained.yields_iff (fun _ member => sane.passed.least member) sane.empty
    · rw [census_bytes]
      simp only [stop] at total
      omega
  · rw [fails] at ends
    cases ends with
    | damaged diagnosed => exact diagnosed

theorem trial_check_exact :
    (∀ stats, trialExtent.check trial.machine.memory = .ok stats ↔
      ∃ blocks, trialExtent.Sane trial.machine.memory blocks ∧ trialExtent.stop % unitSize = 0 ∧
        stats = trialExtent.census blocks) ∧
    (∀ blocks, trialExtent.Sane trial.machine.memory blocks →
      trialExtent.blocks trial.machine.memory = blocks ∧
      (∀ yielded, trial.machine.memory.Yields (trialExtent.first trial.machine.memory) yielded ↔ yielded = blocks) ∧
      (trialExtent.census blocks).freeBytes + (trialExtent.census blocks).allocatedBytes + frameBytes =
        trialExtent.size) ∧
    ∀ damage, trialExtent.check trial.machine.memory = .error (.failed damage) →
      trialExtent.Diagnosed trial.machine.memory damage :=
  check_exact (by decide) (by decide) trial.machine.memory

/-- Where the heap starts off a whole address, every word can be right and the check still fails. -/
theorem shifted_refused :
    frameBytes ≤ (bare 65540).size ∧ (bare 65540).stop < addressLimit ∧
      (bare 65540).Sane (HeapM.frame {} 65540) [] ∧
      (bare 65540).check (HeapM.frame {} 65540) = .error (.failed (.misaligned 65556)) := by
  have framed : (bare 65540).Framed (HeapM.frame {} 65540) := ⟨by decide +kernel, by decide +kernel⟩
  have passed : (bare 65540).Passed (HeapM.frame {} 65540) [] (bare 65540).stop := ⟨rfl, by simp, .nil⟩
  refine ⟨by decide, by decide, ⟨framed, passed, ?_, ?_, .inl (.inl rfl)⟩, ?_⟩
  · decide +kernel
  · decide +kernel
  · decide +kernel

theorem Passed.below (passed : x.Passed m blocks addr) (framed : frameBytes ≤ x.size) : addr ≤ x.stop := by
  refine passed.chained.stop_le ?_ fun block member => (passed.passable block member).inside
  simp only [stop]
  omega

end Extent

end BoundaryTag
