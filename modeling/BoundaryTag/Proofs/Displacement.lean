import BoundaryTag.Proofs.Exchange
import BoundaryTag.Proofs.Integrity
import BoundaryTag.Proofs.LiveSet
import BoundaryTag.Proofs.Moving
import BoundaryTag.Proofs.Shifting

namespace BoundaryTag

open BreakPrimitive (shift)
open LawfulBreak (position Valid)

variable {β : Type} [BreakPrimitive β] [LawfulBreak β]

namespace Machine

def Unfit {σ : Type} (s : Machine σ) (x : Extent) (size : Nat) : Prop :=
  ∀ need, blockSizeFor? size = some need → ∀ block ∈ x.blocks s.memory, block.fits need = false

/-- Why a request is not served while the break is away from the end of the heap, and what was asked for it. -/
inductive Denied (s : Machine (BreakSource β)) (x : Extent) (size : Nat) : AllocError → List Ask → Prop
  | huge (huge : blockSizeFor? size = none) : Denied s x size (.requestTooLarge size) []
  | full {need : Nat} (adjusted : blockSizeFor? size = some need)
    (full : maxBlock < x.size - frameBytes + s.growthFor need) :
    Denied s x size (.outOfMemory (s.growthFor need)) []
  | refused {need : Nat} (adjusted : blockSizeFor? size = some need)
    (refused : (shift s.heap.source.primitive (s.growthFor need)).1 = breakRefused) :
    Denied s x size (.outOfMemory (s.growthFor need)) [(s.growthFor need, .error (.outOfMemory (s.growthFor need)))]
  | displaced {need : Nat} (adjusted : blockSizeFor? size = some need)
    (accepted : (shift s.heap.source.primitive (s.growthFor need)).1 ≠ breakRefused) :
    Denied s x size (.nonContiguous x.stop (position s.heap.source.primitive))
      [(s.growthFor need, .error (.nonContiguous x.stop (position s.heap.source.primitive)))]

variable {s t : Machine (BreakSource β)} {x y : Extent} {blocks others : List Block} {size need : Nat}
  {answer : Except AllocError (Option Nat)}

theorem Ready.growth_answer (ready : s.Ready x blocks) (adjusted : blockSizeFor? size = some need) :
    (Source.grow s.heap.source (s.growthFor need)).answer =
      if (shift s.heap.source.primitive (s.growthFor need)).1 = breakRefused then
        .error (.outOfMemory (s.growthFor need))
      else if position s.heap.source.primitive = x.stop then .ok x.stop
      else .error (.nonContiguous x.stop (position s.heap.source.primitive)) := by
  obtain ⟨last, valid⟩ := ready.stands
  have growth := ready.growth_size adjusted
  have small : s.growthFor need < addressLimit / 2 := by
    unfold IsBlockSize at growth
    lia
  exact ((BreakSource.growing valid _).claim last small).answer_eq last

theorem Ready.unfound (ready : s.Ready x blocks) (unfit : s.Unfit x size) (adjusted : blockSizeFor? size = some need) :
    x.findFit? s.memory need = none := by
  apply (ready.sound.findFit?_eq_none_iff need).mpr
  rw [← ready.tiled.blocks_eq]
  exact unfit need adjusted

theorem Serving.denied (serving : s.Serving x blocks size answer t y others) (ready : s.Ready x blocks)
    (positive : size ≠ 0) (unfit : s.Unfit x size) (away : position s.heap.source.primitive ≠ x.stop) :
    ∃ cause asks, answer = .error cause ∧ s.Denied x size cause asks ∧ t.requests = s.requests ++ asks := by
  cases serving with
  | empty zero => exact absurd zero positive
  | huge positive huge => exact ⟨_, [], rfl, .huge huge, by simp⟩
  | found positive adjusted parts found =>
    rw [ready.unfound unfit adjusted] at found
    cases found
  | full positive adjusted unfound full => exact ⟨_, [], rfl, .full adjusted full, by simp⟩
  | @refused need cause positive adjusted unfound room refused =>
    refine ⟨cause, [(s.growthFor need, .error cause)], rfl, ?_, by rw [asked_requests, refused]⟩
    rw [ready.growth_answer adjusted, if_neg away] at refused
    split at refused
    · rename_i stuck
      cases refused
      exact .refused adjusted stuck
    · rename_i accepted
      cases refused
      exact .displaced adjusted accepted
  | grown positive adjusted unfound room granted =>
    rw [ready.growth_answer adjusted, if_neg away] at granted
    split at granted <;> cases granted

theorem Serving.resumed (serving : s.Serving x blocks size answer t y others) (ready : s.Ready x blocks)
    (positive : size ≠ 0) (adjusted : blockSizeFor? size = some need) (unfit : s.Unfit x size)
    (room : x.size - frameBytes + s.growthFor need ≤ maxBlock) (back : position s.heap.source.primitive = x.stop)
    (accepted : (shift s.heap.source.primitive (s.growthFor need)).1 ≠ breakRefused) :
    ∃ target, answer = .ok (some target) ∧ t.requests = s.requests ++ [(s.growthFor need, .ok x.stop)] ∧
      y.start = x.start ∧ y.stop = x.stop + s.growthFor need := by
  have grants := ready.growth_answer adjusted
  rw [if_neg accepted, if_pos back] at grants
  cases serving with
  | empty zero => exact absurd zero positive
  | huge positive huge => simp [adjusted] at huge
  | found positive same parts found =>
    rw [ready.unfound unfit same] at found
    cases found
  | full positive same unfound full =>
    cases adjusted.symm.trans same
    omega
  | refused positive same unfound room refused =>
    cases adjusted.symm.trans same
    rw [grants] at refused
    cases refused
  | grown positive same unfound room granted =>
    cases adjusted.symm.trans same
    refine ⟨_, rfl, ?_, rfl, Extent.stop_grown⟩
    rw [place_requests, grown_requests, asked_requests, grants]

end Machine

namespace World

variable {mode : Mode} {w : World (BreakSource β)}

/-- Others may move the break and let it refuse what they like. -/
theorem permits_shared (w : World (BreakSource β)) {primitive : β} (valid : Valid primitive) :
    w.Permits (.drift { w.machine.heap.source with primitive }) := by
  intro last stands
  exact ⟨stands.1, valid⟩

structure Survives (mode : Mode) (w : World (BreakSource β)) : Prop where
  check : w.machine.heap.check w.machine.memory = .ok (w.machine.heap.stats w.machine.memory)
  payloads : ∀ action, w.Permits action → ∀ loan ∈ w.loans, ¬w.Disturbs mode loan action →
    ∀ address, loan.Byte address →
      (w.after mode action).machine.memory.byte address = w.machine.memory.byte address
  /-- no command faults, so all growth that the heap sees follows its end -/
  answers : ∀ command, w.Permits (.command command) →
    ∀ fault t, command.perform mode w.machine ≠ .error (.fault fault) t
  others : ∀ primitive, Valid primitive → w.Permits (.drift { w.machine.heap.source with primitive })
  last : w.machine.heap.source.lastEnd = w.machine.heap.extent.map Extent.stop
  denied : ∀ x, w.machine.heap.extent = some x → ∀ size ≠ 0, w.machine.Unfit x size →
    position w.machine.heap.source.primitive ≠ x.stop → ∃ cause asks t, w.machine.Denied x size cause asks ∧
      HeapM.tryAllocate size w.machine = .error (.failed cause) t ∧
      HeapM.allocate size w.machine = .ok none (t.noting size (.error cause : Except AllocError Nat)) ∧
      t.requests = w.machine.requests ++ asks ∧ w.machine.Intact t
  resumed : ∀ x, w.machine.heap.extent = some x → ∀ size ≠ 0, ∀ need, blockSizeFor? size = some need →
    w.machine.Unfit x size → x.size - frameBytes + w.machine.growthFor need ≤ maxBlock →
    position w.machine.heap.source.primitive = x.stop →
    (shift w.machine.heap.source.primitive (w.machine.growthFor need)).1 ≠ breakRefused → ∃ target t,
      HeapM.tryAllocate size w.machine = .ok (some target) t ∧ HeapM.allocate size w.machine = .ok (some target) t ∧
      t.requests = w.machine.requests ++ [(w.machine.growthFor need, .ok x.stop)] ∧
      t.heap.size = w.machine.heap.size + w.machine.growthFor need

/-- Whatever others do to the break, the heap stays sound, keeps its payloads and sees contiguous grants only. -/
theorem Reachable.survives (reachable : w.Reachable mode) : w.Survives mode := by
  have balanced := reachable.balanced
  have consistent := balanced.consistent
  refine ⟨consistent.check, ?_, ?_, ?_, consistent.stands.1, ?_, ?_⟩
  · intro action permitted loan held spared address byte
    exact balanced.payload_after permitted held spared byte
  · intro command permitted
    exact balanced.answers mode permitted
  · intro primitive valid
    exact w.permits_shared valid
  · intro x extent size positive unfit away
    have ready := consistent.ready_of_extent extent
    obtain ⟨answer, t, y, others, serving⟩ := ready.exists_serving size
    obtain ⟨cause, asks, rfl, denied, requests⟩ := serving.denied ready positive unfit away
    have requesting : w.machine.Requesting size (.error cause) t := .ready ready serving
    exact ⟨cause, asks, t, denied, requesting.run, requesting.allocate_run, requests, serving.intact⟩
  · intro x extent size positive need adjusted unfit room back accepted
    have ready := consistent.ready_of_extent extent
    obtain ⟨answer, t, y, others, serving⟩ := ready.exists_serving size
    obtain ⟨target, rfl, requests, start, stop⟩ := serving.resumed ready positive adjusted unfit room back accepted
    have requesting : w.machine.Requesting size (.ok (some target)) t := .ready ready serving
    refine ⟨target, t, requesting.run, requesting.allocate_run, requests, ?_⟩
    unfold Heap.size
    rw [extent, (serving.ready ready).extent]
    simp only [Option.elim]
    unfold Extent.stop at stop
    omega

def lowBreak : ProgramBreak := { position := 65540, floor := 65536, limit := 66560 }

def displaced : World (BreakSource ProgramBreak) :=
  let w := (World.fresh (.fresh lowBreak) { initialSize := 64, chunkSize := 64 } {}).after .vetting
    (.command (.tryAllocate 24))
  w.after .vetting (.drift { w.machine.heap.source with primitive := { lowBreak with position := 65648 } })

theorem displaced_reachable : displaced.Reachable .vetting := by
  have valid : Valid lowBreak := ⟨⟨by decide, by decide⟩, by decide, by decide⟩
  have stands : LawfulSource.EndsAt (BreakSource.fresh lowBreak) none := ⟨rfl, valid⟩
  refine .after (.after (.fresh _ _ _ stands) ?_) (permits_shared _ ?_)
  · intro p given
    cases given
  · exact ProgramBreak.valid_at valid (by decide) (by decide)

theorem displaced_survives : displaced.Survives .vetting := Reachable.survives displaced_reachable

example : (displaced.after .vetting (.command (.allocate 200))).machine.requests =
    [(16, .ok 65544), (64, .ok 65560), (208, .error (.nonContiguous 65624 65648))] := by
  decide +kernel

end World

end BoundaryTag
