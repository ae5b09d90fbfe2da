import BoundaryTag.Proofs.Readiness
import BoundaryTag.Proofs.Search

namespace BoundaryTag

/-- The block is large enough for the request, and at most a unit larger than need be. -/
def Block.Serves (block : Block) (request : Nat) : Prop :=
  ∃ need, blockSizeFor? request = some need ∧ (block.size = need ∨ block.size = need + tagBytes)

theorem Block.Serves.payload {block : Block} {size : Nat} (serves : block.Serves size) :
    block.addr + size ≤ block.stop - tagBytes := by
  obtain ⟨need, adjusted, size⟩ := serves
  obtain ⟨-, covers⟩ := isBlockSize_of_blockSizeFor? adjusted
  simp only [stop]
  omega

theorem Block.Serves.granted {block : Block} {size need : Nat} (adjusted : blockSizeFor? size = some need)
    (enough : need ≤ block.size) (even : block.size % unitSize = 0) : (block.granted need).Serves size :=
  ⟨need, adjusted, granted_size enough (isBlockSize_of_blockSizeFor? adjusted).1.1 even⟩

def Machine.growthFor {σ : Type} (s : Machine σ) (need : Nat) : Nat := max need s.heap.config.chunkSize

namespace HeapM

variable {σ : Type} [Source σ]

def occupy (block need : Nat) : HeapM σ (Option Nat) := do
  let (placed, event) ← ofChecked ((← memory).place block need)
  setMemory placed
  record [event]
  return block

def serve (x : Extent) (size : Nat) : HeapM σ (Option Nat) := do
  if size = 0 then return none
  let some need := blockSizeFor? size | fail (.requestTooLarge size)
  let (found, x) := x.search (← memory) need
  setExtent x
  let block ← match found with
    | some block => pure block
    | none => Prod.fst <$> extend x (max need (← config).chunkSize / wordSize)
  occupy block need

theorem tryAllocate_eq (size : Nat) : (tryAllocate size : HeapM σ (Option Nat)) = init >>= (serve · size) := rfl

variable {s t : Machine σ} {x y : Extent} {blocks left right : List Block} {block : Block} {size need : Nat}
  {cause : AllocError}

theorem serve_zero : serve x 0 s = .ok none s := rfl

theorem serve_huge (positive : size ≠ 0) (huge : blockSizeFor? size = none) :
    serve x size s = .error (.failed (.requestTooLarge size)) s := by
  simp only [serve, if_neg positive, huge, fail_run]

theorem serve_found (positive : size ≠ 0) (adjusted : blockSizeFor? size = some need)
    (found : x.findFit? s.memory need = some block) :
    serve x size s = (occupy block.addr need : HeapM σ _) (s.seek x block.addr) := by
  simp only [serve, if_neg positive, adjusted, Bind.bind, EStateM.bind, memory_run, Extent.search, found,
    setExtent_run, pure_run, Machine.seek]

theorem serve_unfound (extent : s.heap.extent = some x) (positive : size ≠ 0)
    (adjusted : blockSizeFor? size = some need) (unfound : x.findFit? s.memory need = none) :
    serve x size s = (do
      let (block, _) ← extend x (s.growthFor need / wordSize)
      occupy block need : HeapM σ _) s := by
  have same : { s with heap := { s.heap with extent := some x } } = s := by rw [← extent]
  simp only [serve, if_neg positive, adjusted, Bind.bind, EStateM.bind, memory_run, Extent.search, unfound,
    setExtent_run, same, config_run, Functor.map, EStateM.map, Machine.growthFor]
  cases extend x (max need s.heap.config.chunkSize / wordSize) s <;> rfl

end HeapM

namespace Machine

variable {σ : Type} [Source σ]

inductive Serving (s : Machine σ) (x : Extent) (blocks : List Block) (size : Nat) :
    Except AllocError (Option Nat) → Machine σ → Extent → List Block → Prop
  | empty (zero : size = 0) : Serving s x blocks size (.ok none) s x blocks
  | huge (positive : size ≠ 0) (huge : blockSizeFor? size = none) :
    Serving s x blocks size (.error (.requestTooLarge size)) s x blocks
  | found {need : Nat} {left right : List Block} {block : Block} (positive : size ≠ 0)
    (adjusted : blockSizeFor? size = some need) (parts : blocks = left ++ [block] ++ right)
    (found : x.findFit? s.memory need = some block) :
    Serving s x blocks size (.ok (some block.addr)) ((s.seek x block.addr).place block need)
      { x with cursor := block.addr } (left ++ block.placed need ++ right)
  | full {need : Nat} (positive : size ≠ 0) (adjusted : blockSizeFor? size = some need)
    (unfound : x.findFit? s.memory need = none)
    (full : maxBlock < x.size - frameBytes + s.growthFor need) :
    Serving s x blocks size (.error (.outOfMemory (s.growthFor need))) s x blocks
  | refused {need : Nat} {cause : AllocError} (positive : size ≠ 0) (adjusted : blockSizeFor? size = some need)
    (unfound : x.findFit? s.memory need = none)
    (room : x.size - frameBytes + s.growthFor need ≤ maxBlock)
    (refused : (Source.grow s.heap.source (s.growthFor need)).answer = .error cause) :
    Serving s x blocks size (.error cause) (s.asked (s.growthFor need)) x blocks
  | grown {need start : Nat} {left : List Block} {before : Option Block} (positive : size ≠ 0)
    (adjusted : blockSizeFor? size = some need) (unfound : x.findFit? s.memory need = none)
    (room : x.size - frameBytes + s.growthFor need ≤ maxBlock)
    (granted : (Source.grow s.heap.source (s.growthFor need)).answer = .ok start)
    (parts : blocks = left ++ before.toList) (neighbours : FreeNeighbours left before none []) :
    Serving s x blocks size (.ok (some (x.tail (s.growthFor need) before).addr))
      ((s.grown x (s.growthFor need) before).place (x.tail (s.growthFor need) before) need)
      (x.grown (s.growthFor need) before) (left ++ (x.tail (s.growthFor need) before).placed need)

theorem Serving.config {s t : Machine σ} {x y : Extent} {blocks others : List Block} {size : Nat}
    {answer : Except AllocError (Option Nat)} (serving : s.Serving x blocks size answer t y others) :
    t.heap.config = s.heap.config := by cases serving <;> rfl

variable [LawfulSource σ] {s t : Machine σ} {x y : Extent} {blocks others left right : List Block} {block : Block}
  {size need : Nat} {answer : Except AllocError (Option Nat)}

namespace Ready

theorem growth_size (ready : s.Ready x blocks) (adjusted : blockSizeFor? size = some need) :
    IsBlockSize (s.growthFor need) := by
  obtain ⟨needed, -⟩ := isBlockSize_of_blockSizeFor? adjusted
  obtain ⟨-, chunk⟩ := (Config.validate_eq_ok_iff _).mp ready.valid
  exact needed.max chunk

theorem exists_serving (ready : s.Ready x blocks) (size : Nat) :
    ∃ answer t y others, s.Serving x blocks size answer t y others := by
  by_cases zero : size = 0
  · exact ⟨_, _, _, _, .empty zero⟩
  cases adjusted : blockSizeFor? size with
  | none => exact ⟨_, _, _, _, .huge zero adjusted⟩
  | some need =>
    cases search : x.findFit? s.memory need with
    | some block =>
      obtain ⟨left, right, parts⟩ := List.append_of_mem (ready.sound.mem_of_findFit? search).1
      exact ⟨_, _, _, _, .found zero adjusted (parts.trans (List.append_cons ..)) search⟩
    | none =>
      by_cases room : x.size - frameBytes + s.growthFor need ≤ maxBlock
      · cases answer : (Source.grow s.heap.source (s.growthFor need)).answer with
        | error cause => exact ⟨_, _, _, _, .refused zero adjusted search room answer⟩
        | ok start =>
          obtain ⟨left, before, parts, free, closed⟩ := ready.sound.separated.cut_last
          exact ⟨_, _, _, _, .grown zero adjusted search room answer parts ⟨free, by simp, closed, by simp⟩⟩
      · exact ⟨_, _, _, _, .full zero adjusted search (Nat.lt_of_not_le room)⟩

theorem occupy (ready : s.Ready x (left ++ [block] ++ right)) (enough : need ≤ block.size)
    (whole : need % unitSize = 0) :
    HeapM.occupy block.addr need s = .ok (some block.addr) (s.place block need) := by
  have plain : x.Tiled s.memory (left ++ block :: right) := by simpa using ready.tiled
  have even := (plain.isBlockSize (by simp : block ∈ _)).1
  have placed := Memory.place_eq (plain.size_eq (by simp)) even (plain.fits (by simp)) enough whole
  simp only [HeapM.occupy, Bind.bind, EStateM.bind, HeapM.memory_run, placed, HeapM.ofChecked_ok, HeapM.pure_run,
    HeapM.setMemory_run, HeapM.record_run, place]

theorem found (ready : s.Ready x (left ++ [block] ++ right)) (found : x.findFit? s.memory need = some block) :
    (s.seek x block.addr).Ready { x with cursor := block.addr } (left ++ [block] ++ right) ∧
      block.allocated = false ∧ need ≤ block.size :=
  ⟨ready.seek (by simp), (ready.sound.mem_of_findFit? found).2⟩

/-- No second search after growth: the last block holds at least the new bytes, so the request fits there. -/
theorem grown_tail {start : Nat} {before : Option Block} (ready : s.Ready x (left ++ before.toList))
    (adjusted : blockSizeFor? size = some need) (neighbours : FreeNeighbours left before none [])
    (room : x.size - frameBytes + s.growthFor need ≤ maxBlock)
    (granted : (Source.grow s.heap.source (s.growthFor need)).answer = .ok start) :
    HeapM.extend x (s.growthFor need / wordSize) s =
        .ok ((x.tail (s.growthFor need) before).addr, x.grown (s.growthFor need) before)
          (s.grown x (s.growthFor need) before) ∧
      (s.grown x (s.growthFor need) before).Ready (x.grown (s.growthFor need) before)
        (left ++ [x.tail (s.growthFor need) before] ++ []) ∧
      need ≤ (x.tail (s.growthFor need) before).size := by
  obtain ⟨run, grown⟩ := ready.extend_grown neighbours (ready.growth_size adjusted) room granted
  refine ⟨run, by rwa [List.append_nil], ?_⟩
  exact Nat.le_trans (Nat.le_max_left ..) (Nat.le_add_right ..)

end Ready

namespace Serving

theorem run (serving : s.Serving x blocks size answer t y others) (ready : s.Ready x blocks) :
    HeapM.serve x size s = HeapM.ends answer t := by
  cases serving with
  | empty zero =>
    subst zero
    exact HeapM.serve_zero
  | huge positive huge => exact HeapM.serve_huge positive huge
  | found positive adjusted parts found =>
    subst parts
    obtain ⟨⟨whole, -⟩, -⟩ := isBlockSize_of_blockSizeFor? adjusted
    obtain ⟨sought, -, enough⟩ := ready.found found
    exact (HeapM.serve_found positive adjusted found).trans (sought.occupy enough whole)
  | full positive adjusted unfound full =>
    have stopped := ready.extend_full (ready.growth_size adjusted) full
    exact (HeapM.serve_unfound ready.extent positive adjusted unfound).trans (HeapM.bind_error stopped)
  | refused positive adjusted unfound room refused =>
    have stopped := ready.extend_refused (ready.growth_size adjusted) room refused
    exact (HeapM.serve_unfound ready.extent positive adjusted unfound).trans (HeapM.bind_error stopped)
  | grown positive adjusted unfound room granted parts neighbours =>
    subst parts
    obtain ⟨⟨whole, -⟩, -⟩ := isBlockSize_of_blockSizeFor? adjusted
    obtain ⟨run, grown, enough⟩ := ready.grown_tail adjusted neighbours room granted
    rw [HeapM.serve_unfound ready.extent positive adjusted unfound, HeapM.bind_ok run]
    exact grown.occupy enough whole

theorem ready (serving : s.Serving x blocks size answer t y others) (ready : s.Ready x blocks) :
    t.Ready y others := by
  cases serving with
  | empty => exact ready
  | huge => exact ready
  | found positive adjusted parts found =>
    subst parts
    obtain ⟨⟨whole, least, -⟩, -⟩ := isBlockSize_of_blockSizeFor? adjusted
    obtain ⟨sought, free, -⟩ := ready.found found
    exact sought.placed free least whole
  | full => exact ready
  | refused positive adjusted unfound room refused => exact ready.refused refused
  | grown positive adjusted unfound room granted parts neighbours =>
    subst parts
    obtain ⟨⟨whole, least, -⟩, -⟩ := isBlockSize_of_blockSizeFor? adjusted
    obtain ⟨-, grown, -⟩ := ready.grown_tail adjusted neighbours room granted
    simpa using grown.placed rfl least whole

theorem target {target : Nat} (serving : s.Serving x blocks size (.ok (some target)) t y others)
    (ready : s.Ready x blocks) :
    ∃ block ∈ others, block.allocated = true ∧ block.addr = target ∧ block.Serves size := by
  cases serving with
  | @found need left right block positive adjusted parts found =>
    subst parts
    obtain ⟨sought, -, enough⟩ := ready.found found
    have even := (sought.tiled.isBlockSize (by simp : block ∈ _)).1
    exact ⟨block.granted need, by simp [Block.placed], rfl, rfl, .granted adjusted enough even⟩
  | @grown need start left before positive adjusted unfound room granted parts neighbours =>
    subst parts
    obtain ⟨-, grown, enough⟩ := ready.grown_tail adjusted neighbours room granted
    have even := (grown.tiled.isBlockSize (by simp : x.tail (s.growthFor need) before ∈ _)).1
    exact ⟨(x.tail (s.growthFor need) before).granted need, by simp [Block.placed], rfl, rfl,
      .granted adjusted enough even⟩

theorem kept (serving : s.Serving x blocks size answer t y others) (ready : s.Ready x blocks)
    (member : block ∈ blocks) (busy : block.allocated = true) : block ∈ others := by
  cases serving with
  | empty => exact member
  | huge => exact member
  | @found need left right free positive adjusted parts found =>
    subst parts
    have distinct : block ≠ free := by
      rintro rfl
      exact absurd busy (by simp [(ready.found found).2.1])
    simp only [List.mem_append, List.mem_singleton, distinct, or_false] at member
    exact member.elim (fun ahead => by simp [ahead]) fun behind => by simp [behind]
  | full => exact member
  | refused => exact member
  | grown positive adjusted unfound room granted parts neighbours =>
    subst parts
    rcases List.mem_append.mp member with ahead | last
    · exact List.mem_append_left _ ahead
    · exact absurd busy (by simp [neighbours.before block (Option.mem_toList.mp last)])

end Serving

end Machine

end BoundaryTag
