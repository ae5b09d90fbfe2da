import BoundaryTag.Proofs.Integrity
import BoundaryTag.Proofs.Search

namespace BoundaryTag

namespace Memory

/-- A loop over the blocks from an address on, with the blocks that it looks at and the one it stops at. It goes
    on as long as `goes` says so and no block fits. -/
inductive Scan (m : Memory) (need : Nat) (goes : Nat → Prop) : Nat → List Block → Option Block → Prop
  | stopped {addr : Nat} (ends : ¬goes addr) : Scan m need goes addr [] none
  | found {addr : Nat} (runs : goes addr) (fits : (m.blockAt addr).fits need = true) :
    Scan m need goes addr [m.blockAt addr] (some (m.blockAt addr))
  | passed {addr : Nat} {seen : List Block} {found : Option Block} (runs : goes addr)
    (unfit : (m.blockAt addr).fits need = false) (rest : Scan m need goes (m.next addr) seen found) :
    Scan m need goes addr (m.blockAt addr :: seen) found

end Memory

def lookedAt (order : List Block) (need : Nat) : List Block :=
  order.takeWhile (!·.fits need) ++ (order.find? (·.fits need)).toList

section

variable {order front back : List Block} {block : Block} {need : Nat}

theorem lookedAt_cons (block : Block) (rest : List Block) (need : Nat) :
    lookedAt (block :: rest) need = if block.fits need then [block] else block :: lookedAt rest need := by
  cases fits : block.fits need <;> simp [lookedAt, fits]

theorem lookedAt_of_none (unfit : order.find? (·.fits need) = none) : lookedAt order need = order := by
  induction order with
  | nil => rfl
  | cons block rest ih =>
    obtain ⟨first, others⟩ := List.forall_mem_cons.mp (List.find?_eq_none.mp unfit)
    rw [lookedAt_cons, if_neg first, ih (List.find?_eq_none.mpr others)]

theorem lookedAt_append (front back : List Block) (need : Nat) :
    lookedAt (front ++ back) need =
      if (front.find? (·.fits need)).isSome then lookedAt front need else front ++ lookedAt back need := by
  induction front with
  | nil => rfl
  | cons block rest ih =>
    cases fits : block.fits need
    · simp only [List.cons_append, lookedAt_cons, fits, ih, List.find?_cons_of_neg, Bool.false_eq_true, if_false,
        not_false_eq_true]
      split <;> rfl
    · simp [lookedAt_cons, fits]

end

theorem Memory.Chained.scan_iff {m : Memory} {start stop need : Nat} {blocks seen : List Block} {found : Option Block}
    {goes : Nat → Prop} (chained : m.Chained start blocks stop) (runs : ∀ block ∈ blocks, goes block.addr)
    (ends : ¬goes stop) :
    m.Scan need goes start seen found ↔ seen = lookedAt blocks need ∧ found = blocks.find? (·.fits need) := by
  induction blocks generalizing start seen found with
  | nil =>
    obtain rfl : start = stop := chained
    constructor
    · intro scan
      cases scan with
      | stopped => exact ⟨rfl, rfl⟩
      | found runs => exact absurd runs ends
      | passed runs => exact absurd runs ends
    · rintro ⟨rfl, rfl⟩
      exact .stopped ends
  | cons block rest ih =>
    obtain ⟨rfl, tail⟩ := chained
    obtain ⟨first, others⟩ := List.forall_mem_cons.mp runs
    have here : goes start := first
    rw [lookedAt_cons, List.find?_cons]
    cases fits : (m.blockAt start).fits need with
    | true =>
      simp only [if_true]
      constructor
      · intro scan
        cases scan with
        | stopped ends => exact absurd here ends
        | found => exact ⟨rfl, rfl⟩
        | passed _ unfit => simp [fits] at unfit
      · rintro ⟨rfl, rfl⟩
        exact .found here fits
    | false =>
      simp only [Bool.false_eq_true, if_false]
      constructor
      · intro scan
        cases scan with
        | stopped ends => exact absurd here ends
        | found _ fit => simp [fits] at fit
        | passed _ _ later =>
          obtain ⟨rfl, rfl⟩ := (ih tail others).mp later
          exact ⟨rfl, rfl⟩
      · rintro ⟨rfl, rfl⟩
        exact .passed here fits ((ih tail others).mpr ⟨rfl, rfl⟩)

namespace Extent

/-- A search as its two loops: from the cursor to a header of size zero, and unless a block fits there, from the
    first block up to the cursor. -/
inductive Searching (x : Extent) (m : Memory) (need : Nat) : List Block → Option Block → Prop
  | ahead {seen : List Block} {block : Block}
    (scan : m.Scan need (fun addr => 0 < (m.header addr).size) x.cursor seen (some block)) :
    Searching x m need seen (some block)
  | around {seen more : List Block} {found : Option Block}
    (ahead : m.Scan need (fun addr => 0 < (m.header addr).size) x.cursor seen none)
    (behind : m.Scan need (· < x.cursor) (x.first m) more found) : Searching x m need (seen ++ more) found

/-- The blocks from the cursor to the last one, and then from the first one to the one before the cursor. A cursor
    at the start sentinel is before all blocks. -/
inductive Cyclic (x : Extent) : List Block → List Block → Prop
  | sentinel {blocks : List Block} (points : x.cursor = x.startSentinel) : Cyclic x blocks (x.sentinel :: blocks)
  | block {front back : List Block} {block : Block} (points : x.cursor = block.addr) :
    Cyclic x (front ++ block :: back) (block :: back ++ front)

variable {x : Extent} {m : Memory} {blocks ahead behind order seen : List Block} {found : Option Block} {need : Nat}

theorem searching_iff
    (first : ∀ seen found, m.Scan need (fun addr => 0 < (m.header addr).size) x.cursor seen found ↔
      seen = lookedAt ahead need ∧ found = ahead.find? (·.fits need))
    (second : ∀ seen found, m.Scan need (· < x.cursor) (x.first m) seen found ↔
      seen = lookedAt behind need ∧ found = behind.find? (·.fits need)) :
    x.Searching m need seen found ↔
      seen = lookedAt (ahead ++ behind) need ∧ found = (ahead ++ behind).find? (·.fits need) := by
  rw [lookedAt_append, List.find?_append]
  -- The second loop runs only where the first one found nothing.
  cases hit : ahead.find? (·.fits need) with
  | none =>
    simp only [Option.isSome_none, Bool.false_eq_true, if_false, Option.none_or]
    rw [hit, lookedAt_of_none hit] at first
    constructor
    · intro searching
      cases searching with
      | ahead scan => exact absurd ((first _ _).mp scan).2 (by simp)
      | around before after =>
        obtain ⟨rfl, -⟩ := (first _ _).mp before
        obtain ⟨rfl, rfl⟩ := (second _ _).mp after
        exact ⟨rfl, rfl⟩
    · rintro ⟨rfl, rfl⟩
      exact .around ((first _ _).mpr ⟨rfl, rfl⟩) ((second _ _).mpr ⟨rfl, rfl⟩)
  | some block =>
    simp only [Option.isSome_some, if_true, Option.some_or]
    rw [hit] at first
    constructor
    · intro searching
      cases searching with
      | ahead scan =>
        obtain ⟨rfl, same⟩ := (first _ _).mp scan
        exact ⟨rfl, same⟩
      | around before after => exact absurd ((first _ _).mp before).2 (by simp)
    · rintro ⟨rfl, rfl⟩
      exact .ahead ((first _ _).mpr ⟨rfl, rfl⟩)

namespace Sound

theorem cyclic (sound : x.Sound m blocks) : x.Cyclic blocks (x.searchOrder m) := by
  rcases sound.searchOrder_cases with ⟨points, order⟩ | ⟨front, block, back, rfl, points, order⟩
  · rw [order]
    exact .sentinel points
  · rw [order]
    exact .block points

theorem header_positive (sound : x.Sound m blocks) {block : Block} (member : block ∈ blocks) :
    0 < (m.header block.addr).size := by
  have least := (sound.isBlockSize member).2.1
  rw [sound.size_eq member]
  lia

theorem chained (sound : x.Sound m blocks) {start stop : Nat} {part : List Block} (tiles : Tiles start part stop)
    (within : part ⊆ blocks) : m.Chained start part stop :=
  Memory.chained_of_tiles tiles (fun _ member => sound.tagged _ (within member))
    fun _ member => sound.fits (within member)

theorem chained_sentinel (sound : x.Sound m blocks) : m.Chained x.startSentinel (x.sentinel :: blocks) x.stop := by
  refine ⟨?_, ?_⟩
  · simp only [Memory.blockAt, sound.sentinel_size, sound.sentinel_isAllocated, sentinel]
  · have first : m.next x.startSentinel = x.start + frameBytes := sound.first_eq
    rw [first]
    exact sound.chained sound.tiles (List.Subset.refl _)

theorem searching_iff (sound : x.Sound m blocks) :
    x.Searching m need seen found ↔ seen = lookedAt (x.searchOrder m) need ∧ found = x.findFit? m need := by
  have ends : ¬0 < (m.header x.stop).size := by rw [sound.terminator_size]; decide
  rw [findFit?]
  rcases sound.searchOrder_cases with ⟨points, order⟩ | ⟨front, block, back, rfl, points, order⟩
  · rw [order, ← List.append_nil (x.sentinel :: blocks)]
    apply Extent.searching_iff
    · intro seen found
      rw [points]
      refine sound.chained_sentinel.scan_iff ?_ ends
      intro block member
      rcases List.mem_cons.mp member with rfl | member
      · exact Nat.lt_of_lt_of_eq (by decide) sound.sentinel_size.symm
      · exact sound.header_positive member
    · -- Nothing is before the start sentinel, so the second loop ends at once.
      intro seen found
      have empty : m.Chained (x.first m) [] (x.first m) := rfl
      refine empty.scan_iff (by simp) ?_
      simp only [sound.first_eq, points, startSentinel]
      lia
  · rw [order]
    obtain ⟨left, whole, least, right⟩ := sound.tiles.around
    apply Extent.searching_iff
    · intro seen found
      have rest : m.Chained x.cursor (block :: back) x.stop := by
        rw [points]
        exact sound.chained ⟨rfl, whole, least, right⟩ (List.subset_append_right _ _)
      refine rest.scan_iff (fun other member => ?_) ends
      exact sound.header_positive (List.mem_append_right _ member)
    · intro seen found
      have before : m.Chained (x.first m) front x.cursor := by
        rw [points, sound.first_eq]
        exact sound.chained left (List.subset_append_left _ _)
      refine before.scan_iff (fun other member => ?_) (Nat.lt_irrefl _)
      have bounds := left.within member
      simp only [Block.stop] at bounds
      lia

end Sound

theorem Cyclic.nodup {start stop : Nat} (cyclic : x.Cyclic blocks order) (tiles : Tiles start blocks stop)
    (low : x.startSentinel < start) : (order.map Block.addr).Nodup := by
  cases cyclic with
  | sentinel =>
    refine List.nodup_cons.mpr ⟨fun member => ?_, tiles.nodup⟩
    obtain ⟨block, member, same⟩ := List.mem_map.mp member
    have bounds := tiles.within member
    have same : block.addr = x.startSentinel := same
    omega
  | @block front back block =>
    have turned : (block :: back ++ front).Perm (front ++ block :: back) := List.perm_append_comm
    exact (turned.map Block.addr).nodup_iff.mpr tiles.nodup

/-- A search ends, and looks at no block twice and skips none: it goes in cyclic order up to the first block that
    fits, and the cursor moves there. If no free block of the heap holds what is needed, it has looked at all of
    them and the cursor stays where it is. -/
theorem Sound.search_first_fit (sound : x.Sound m blocks) (need : Nat) :
    ∃ order, x.Cyclic blocks order ∧ (order.map Block.addr).Nodup ∧
      (∀ seen found, x.Searching m need seen found ↔
        seen = lookedAt order need ∧ found = order.find? (·.fits need)) ∧
      ((x.search m need).1 = none ↔ ∀ block ∈ blocks, block.fits need = false) ∧
      match order.find? (·.fits need) with
      | none => lookedAt order need = order ∧ x.search m need = (none, x)
      | some block => block ∈ blocks ∧ x.search m need = (some block.addr, { x with cursor := block.addr }) := by
  have low : x.startSentinel < x.start + frameBytes := by
    simp only [startSentinel]
    lia
  refine ⟨x.searchOrder m, sound.cyclic, sound.cyclic.nodup sound.tiles low, ?_, ?_, ?_⟩
  · intro seen found
    exact sound.searching_iff
  · rw [← sound.findFit?_eq_none_iff, search]
    cases x.findFit? m need <;> simp
  · cases hit : (x.searchOrder m).find? (·.fits need) with
    | none =>
      have none : x.findFit? m need = none := hit
      exact ⟨lookedAt_of_none hit, by rw [search, none]⟩
    | some block =>
      have found : x.findFit? m need = some block := hit
      exact ⟨(sound.mem_of_findFit? found).1, by rw [search, found]⟩

end Extent

namespace World

theorem trial_search_first_fit :
    ∃ order, trialExtent.Cyclic (trialExtent.blocks trial.machine.memory) order ∧ (order.map Block.addr).Nodup ∧
      (∀ seen found, trialExtent.Searching trial.machine.memory 16 seen found ↔
        seen = lookedAt order 16 ∧ found = order.find? (·.fits 16)) ∧
      ((trialExtent.search trial.machine.memory 16).1 = none ↔
        ∀ block ∈ trialExtent.blocks trial.machine.memory, block.fits 16 = false) ∧
      match order.find? (·.fits 16) with
      | none => lookedAt order 16 = order ∧ trialExtent.search trial.machine.memory 16 = (none, trialExtent)
      | some block => block ∈ trialExtent.blocks trial.machine.memory ∧
        trialExtent.search trial.machine.memory 16 = (some block.addr, { trialExtent with cursor := block.addr }) :=
  Extent.Sound.search_first_fit (trial_reachable.balanced.consistent.heap_sound trialExtent trial_extent) 16

end World

end BoundaryTag
