import BoundaryTag.Proofs.Release
import BoundaryTag.Proofs.Serving
import BoundaryTag.Proofs.Setup

namespace BoundaryTag

inductive Command where
  | init
  | tryAllocate (size : Nat)
  | allocate (size : Nat)
  | free (pointer : Option Nat)
  | reallocate (pointer : Option Nat) (size : Nat)
  deriving DecidableEq, Repr

namespace Command

def perform {σ : Type} [Source σ] (mode : Mode) : Command → HeapM σ (Option Nat)
  | init => do
    let _ ← HeapM.init
    return none
  | tryAllocate size => HeapM.tryAllocate size
  | allocate size => HeapM.allocate size
  | free pointer => do
    HeapM.free mode pointer
    return none
  | reallocate pointer size => HeapM.reallocate mode pointer size

def pointer? : Command → Option Nat
  | free pointer => pointer
  | reallocate pointer _ => pointer
  | _ => none

def request : Command → Nat
  | tryAllocate size => size
  | allocate size => size
  | reallocate _ size => size
  | _ => 0

/-- The pointer that is not live any more once the operation gave the answer. -/
def released? (command : Command) (answer : Option Nat) : Option Nat :=
  match command with
  | free pointer => pointer
  | reallocate pointer size => if size = 0 ∨ answer.isSome then pointer else none
  | _ => none

end Command

namespace Machine

variable {σ : Type}

def copied (s : Machine σ) (source target count : Nat) : Machine σ :=
  { s with memory := s.memory.copy source target count }

def noting {α : Type} (s : Machine σ) (size : Nat) (answer : Except AllocError α) : Machine σ :=
  match answer with
  | .ok _ => s
  | .error cause => { s with trace := s.trace ++ [.allocationFailed size cause] }

@[simp] theorem noting_heap {α : Type} (s : Machine σ) (size : Nat) (answer : Except AllocError α) :
    (s.noting size answer).heap = s.heap := by cases answer <;> rfl

@[simp] theorem noting_memory {α : Type} (s : Machine σ) (size : Nat) (answer : Except AllocError α) :
    (s.noting size answer).memory = s.memory := by cases answer <;> rfl

variable [Source σ] [LawfulSource σ]

inductive Requesting (s : Machine σ) (size : Nat) : Except AllocError (Option Nat) → Machine σ → Prop
  | unready {cause : AllocError} {t : Machine σ} (unset : s.Unset) (setup : s.Setup (.error cause) t) :
    Requesting s size (.error cause) t
  | started {x y : Extent} {blocks others : List Block} {t u : Machine σ} {answer : Except AllocError (Option Nat)}
    (unset : s.Unset) (setup : s.Setup (.ok x) t) (ready : t.Ready x blocks)
    (serving : t.Serving x blocks size answer u y others) : Requesting s size answer u
  | ready {x y : Extent} {blocks others : List Block} {t : Machine σ} {answer : Except AllocError (Option Nat)}
    (ready : s.Ready x blocks) (serving : s.Serving x blocks size answer t y others) : Requesting s size answer t

/-- The courses of a command, with the answer and the machine at the end. -/
inductive Course (s : Machine σ) : Command → Except AllocError (Option Nat) → Machine σ → Prop
  | init {answer : Except AllocError (Option Nat)} {t : Machine σ} (requesting : s.Requesting 0 answer t) :
    Course s .init answer t
  | tryAllocate {size : Nat} {answer : Except AllocError (Option Nat)} {t : Machine σ}
    (requesting : s.Requesting size answer t) : Course s (.tryAllocate size) answer t
  | allocate {size : Nat} {answer : Except AllocError (Option Nat)} {t : Machine σ}
    (requesting : s.Requesting size answer t) :
    Course s (.allocate size) (.ok answer.toOption.join) (t.noting size answer)
  | freeNull (consistent : s.Consistent) : Course s (.free none) (.ok none) s
  | free {x y : Extent} {blocks others : List Block} {block : Block} {t : Machine σ} (ready : s.Ready x blocks)
    (busy : block.allocated = true) (releasing : s.Releasing x blocks block t y others) :
    Course s (.free (some block.addr)) (.ok none) t
  | reallocateEmpty {pointer : Option Nat} {answer : Except AllocError (Option Nat)} {t : Machine σ}
    (freeing : Course s (.free pointer) answer t) : Course s (.reallocate pointer 0) answer t
  | reallocateNull {size : Nat} {answer : Except AllocError (Option Nat)} {t : Machine σ} (positive : size ≠ 0)
    (allocating : Course s (.allocate size) answer t) : Course s (.reallocate none size) answer t
  | stay {x y : Extent} {blocks others : List Block} {block : Block} {size : Nat} {cause : AllocError} {t : Machine σ}
    (ready : s.Ready x blocks) (member : block ∈ blocks) (busy : block.allocated = true) (positive : size ≠ 0)
    (serving : s.Serving x blocks size (.error cause) t y others) :
    Course s (.reallocate (some block.addr) size) (.ok none)
      (t.noting size (.error cause : Except AllocError (Option Nat)))
  | move {x y z : Extent} {blocks others rest : List Block} {block : Block} {size target : Nat} {t u : Machine σ}
    (ready : s.Ready x blocks) (member : block ∈ blocks) (busy : block.allocated = true) (positive : size ≠ 0)
    (serving : s.Serving x blocks size (.ok (some target)) t y others)
    (releasing : (t.copied block.addr target (min size (block.size - tagBytes))).Releasing y others block u z rest) :
    Course s (.reallocate (some block.addr) size) (.ok (some target)) u

variable {s t u : Machine σ} {x y z : Extent} {blocks others rest : List Block} {block : Block} {size target : Nat}
  {answer : Except AllocError (Option Nat)} {command : Command}

namespace Requesting

theorem run (requesting : s.Requesting size answer t) : HeapM.tryAllocate size s = HeapM.ends answer t := by
  rw [HeapM.tryAllocate_eq]
  cases requesting with
  | unready unset setup => exact HeapM.bind_error (unset.init_run setup)
  | started unset setup ready serving => exact (HeapM.bind_ok (unset.init_run setup)).trans (serving.run ready)
  | ready ready serving => exact (HeapM.bind_ok (HeapM.init_done ready.extent)).trans (serving.run ready)

theorem allocate_run (requesting : s.Requesting size answer t) :
    HeapM.allocate size s = .ok answer.toOption.join (t.noting size answer) := by
  have tried := HeapM.attempt_ends requesting.run
  cases answer with
  | ok pointer => simp only [HeapM.allocate, Bind.bind, EStateM.bind, tried, HeapM.pure_run]; rfl
  | error cause => simp only [HeapM.allocate, Bind.bind, EStateM.bind, tried, HeapM.record_run, HeapM.pure_run]; rfl

theorem exists_of_consistent (consistent : s.Consistent) (size : Nat) :
    ∃ answer t, s.Requesting size answer t := by
  rcases consistent with unset | ⟨x, blocks, ready⟩
  · obtain ⟨answer, t, setup⟩ := s.exists_setup
    cases answer with
    | error cause => exact ⟨_, _, .unready unset setup⟩
    | ok x =>
      obtain ⟨block, -, ready⟩ := unset.ready setup
      obtain ⟨answer, u, y, others, serving⟩ := ready.exists_serving size
      exact ⟨_, _, .started unset setup ready serving⟩
  · obtain ⟨answer, t, y, others, serving⟩ := ready.exists_serving size
    exact ⟨_, _, .ready ready serving⟩

theorem config (requesting : s.Requesting size answer t) : t.heap.config = s.heap.config := by
  cases requesting with
  | unready unset setup => exact setup.config
  | started unset setup ready serving => exact serving.config.trans setup.config
  | ready ready serving => exact serving.config

end Requesting

theorem Ready.copied {new : Block} {source count : Nat} (ready : s.Ready x blocks) (member : new ∈ blocks)
    (room : new.addr + count ≤ new.stop - tagBytes) : (s.copied source new.addr count).Ready x blocks := by
  apply ready.congr
  intro address tag
  rw [Memory.byte_copy, if_neg]
  exact fun inside => ready.tiled.payload_not_tag member ⟨inside.1, by omega⟩ tag

theorem Ready.usableSize (ready : s.Ready x blocks) (member : block ∈ blocks) :
    s.memory.usableSize block.addr = .ok (block.size - tagBytes) := by
  have tiled := ready.tiled
  obtain ⟨-, least, -⟩ := tiled.isBlockSize member
  rw [Memory.usableSize, tiled.size_eq member, checkedSub, if_pos (by lia)]

theorem Consistent.usableSize (consistent : s.Consistent) (member : block ∈ s.allocated) :
    s.memory.usableSize block.addr = .ok (block.size - tagBytes) := by
  obtain ⟨x, blocks, ready⟩ := consistent.ready member
  exact ready.usableSize (ready.mem_allocated.mp member).1

theorem Serving.copied (serving : s.Serving x blocks size (.ok (some target)) t y others) (ready : s.Ready x blocks)
    (block : Block) : (t.copied block.addr target (min size (block.size - tagBytes))).Ready y others := by
  obtain ⟨new, member, -, rfl, serves⟩ := serving.target ready
  have payload := serves.payload
  exact (serving.ready ready).copied member (by omega)

namespace Course

theorem config (course : s.Course command answer t) : t.heap.config = s.heap.config := by
  induction course with
  | init requesting => exact requesting.config
  | tryAllocate requesting => exact requesting.config
  | allocate requesting => rw [noting_heap, requesting.config]
  | freeNull consistent => rfl
  | free ready busy releasing => exact releasing.config
  | reallocateEmpty freeing ih => exact ih
  | reallocateNull positive allocating ih => exact ih
  | stay ready member busy positive serving => rw [noting_heap, serving.config]
  | move ready member busy positive serving releasing => exact releasing.config.trans serving.config

theorem run (course : s.Course command answer t) (mode : Mode) :
    command.perform mode s = HeapM.ends answer t := by
  induction course with
  | init requesting => exact requesting.run
  | tryAllocate requesting => exact requesting.run
  | allocate requesting => exact requesting.allocate_run
  | freeNull consistent => rfl
  | free ready busy releasing => exact HeapM.bind_ok (releasing.run ready busy mode)
  | reallocateEmpty freeing ih => exact ih
  | reallocateNull positive allocating ih =>
    rw [← ih]
    simp only [Command.perform, HeapM.reallocate, if_neg positive]
  | stay ready member busy positive serving =>
    have vetted := ready.vet member busy mode
    have allocated : HeapM.allocate _ _ = .ok none _ := (Requesting.ready ready serving).allocate_run
    simp only [Command.perform, HeapM.reallocate, if_neg positive, Bind.bind, EStateM.bind, vetted, allocated]
    rfl
  | @move x y z blocks others rest block size target t u ready member busy positive serving releasing =>
    have vetted := ready.vet member busy mode
    have allocated : HeapM.allocate size s = .ok (some target) t := (Requesting.ready ready serving).allocate_run
    have usable := (serving.ready ready).usableSize (serving.kept ready member busy)
    have freed := releasing.run (serving.copied ready block) busy mode
    simp only [Machine.copied] at freed
    simp only [Command.perform, HeapM.reallocate, if_neg positive, Bind.bind, EStateM.bind, vetted, allocated,
      HeapM.memory_run, usable, HeapM.ofChecked_ok, HeapM.pure_run, HeapM.setMemory_run, freed]
    rfl

end Course

theorem Consistent.exists_freeing (consistent : s.Consistent) {pointer : Option Nat}
    (live : ∀ p ∈ pointer, p ∈ s.allocated.map Block.addr) : ∃ answer t, s.Course (.free pointer) answer t := by
  cases pointer with
  | none => exact ⟨_, _, .freeNull consistent⟩
  | some addr =>
    obtain ⟨block, member, rfl⟩ := List.mem_map.mp (live addr rfl)
    obtain ⟨x, blocks, ready⟩ := consistent.ready member
    obtain ⟨member, busy⟩ := ready.mem_allocated.mp member
    obtain ⟨t, y, others, releasing⟩ := ready.exists_releasing member
    exact ⟨_, _, .free ready busy releasing⟩

theorem Ready.serves_move (ready : s.Ready x blocks) (member : block ∈ blocks) (busy : block.allocated = true)
    (positive : size ≠ 0) :
    (∃ cause t y others, s.Serving x blocks size (.error cause) t y others) ∨
      ∃ target t y others u z rest, s.Serving x blocks size (.ok (some target)) t y others ∧
        (t.copied block.addr target (min size (block.size - tagBytes))).Releasing y others block u z rest := by
  obtain ⟨answer, t, y, others, serving⟩ := ready.exists_serving size
  cases answer with
  | error cause => exact .inl ⟨_, _, _, _, serving⟩
  | ok pointer =>
    cases pointer with
    | none => cases serving with | empty zero => exact absurd zero positive
    | some target =>
      have copied := serving.copied ready block
      obtain ⟨u, z, rest, releasing⟩ := copied.exists_releasing (serving.kept ready member busy)
      exact .inr ⟨_, _, _, _, _, _, _, serving, releasing⟩

theorem Ready.exists_moving (ready : s.Ready x blocks) (member : block ∈ blocks) (busy : block.allocated = true)
    (positive : size ≠ 0) : ∃ answer t, s.Course (.reallocate (some block.addr) size) answer t := by
  rcases ready.serves_move member busy positive with
    ⟨cause, t, y, others, serving⟩ | ⟨target, t, y, others, u, z, rest, serving, releasing⟩
  · exact ⟨_, _, .stay ready member busy positive serving⟩
  · exact ⟨_, _, .move ready member busy positive serving releasing⟩

theorem Consistent.exists_course (consistent : s.Consistent) (command : Command)
    (live : ∀ p ∈ command.pointer?, p ∈ s.allocated.map Block.addr) : ∃ answer t, s.Course command answer t := by
  cases command with
  | init =>
    obtain ⟨answer, t, requesting⟩ := Requesting.exists_of_consistent consistent 0
    exact ⟨_, _, .init requesting⟩
  | tryAllocate size =>
    obtain ⟨answer, t, requesting⟩ := Requesting.exists_of_consistent consistent size
    exact ⟨_, _, .tryAllocate requesting⟩
  | allocate size =>
    obtain ⟨answer, t, requesting⟩ := Requesting.exists_of_consistent consistent size
    exact ⟨_, _, .allocate requesting⟩
  | free pointer => exact consistent.exists_freeing live
  | reallocate pointer size =>
    by_cases positive : size = 0
    · subst positive
      obtain ⟨answer, t, course⟩ := consistent.exists_freeing live
      exact ⟨_, _, .reallocateEmpty course⟩
    cases pointer with
    | none =>
      obtain ⟨answer, t, requesting⟩ := Requesting.exists_of_consistent consistent size
      exact ⟨_, _, .reallocateNull positive (.allocate requesting)⟩
    | some addr =>
      obtain ⟨block, member, rfl⟩ := List.mem_map.mp (live addr rfl)
      obtain ⟨x, blocks, ready⟩ := consistent.ready member
      obtain ⟨member, busy⟩ := ready.mem_allocated.mp member
      exact ready.exists_moving member busy positive

end Machine

end BoundaryTag
