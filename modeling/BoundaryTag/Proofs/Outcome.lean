import BoundaryTag.Proofs.Exchange
import BoundaryTag.Proofs.LiveSet
import BoundaryTag.Proofs.Moving
import BoundaryTag.Proofs.Shifting

namespace BoundaryTag

def AllocError.Shortage : AllocError → Prop
  | outOfMemory _ => True
  | nonContiguous .. => True
  | _ => False

def Source.Honest {σ : Type} [Source σ] (source : σ) : Prop :=
  ∀ bytes cause, (Source.grow source bytes).answer = .error cause → cause.Shortage

theorem Region.honest (region : Region) : Source.Honest region := by
  intro bytes cause refused
  by_cases fits : bytes ≤ region.remaining
  · simp [Source.grow, grow, fits] at refused
  · simp only [Source.grow, grow, fits, dif_neg, not_false_eq_true, Except.error.injEq] at refused
    rw [← refused]
    trivial

namespace BreakSource

variable {β : Type} [BreakPrimitive β] [LawfulBreak β] {source : BreakSource β} {bytes : Nat}
  {grant : Grant (BreakSource β)} {cause : AllocError}

theorem Claiming.shortage (claiming : source.Claiming bytes grant) (refused : grant.answer = .error cause) :
    cause.Shortage := by
  cases claiming <;> cases refused <;> trivial

theorem honest (valid : LawfulBreak.Valid source.primitive) : Source.Honest source := by
  intro bytes cause refused
  have growing := growing valid bytes
  change (source.grow bytes).answer = .error cause at refused
  generalize source.grow bytes = grant at growing refused
  cases growing with
  | huge => cases refused; trivial
  | unpadded => cases refused; trivial
  | padded _ _ _ _ claiming => exact claiming.shortage refused
  | later _ _ claiming => exact claiming.shortage refused

end BreakSource

namespace Extent

variable {x : Extent} {m : Memory} {blocks : List Block} {block : Block} {need : Nat}

def Holds (x : Extent) (m : Memory) (need : Nat) : Prop := ∃ block ∈ x.blocks m, block.fits need = true

instance (x : Extent) (m : Memory) : DecidablePred (x.Holds m) := fun need =>
  inferInstanceAs (Decidable (∃ block ∈ x.blocks m, block.fits need = true))

theorem Sound.holds (sound : x.Sound m blocks) (found : x.findFit? m need = some block) : x.Holds m need := by
  have fits := List.find?_some found
  have member := (sound.mem_of_findFit? found).1
  rw [← sound.toTiled.blocks_eq] at member
  exact ⟨block, member, fits⟩

theorem Sound.not_holds (sound : x.Sound m blocks) (unfound : x.findFit? m need = none) : ¬x.Holds m need := by
  have unfit := (sound.findFit?_eq_none_iff need).mp unfound
  rw [← sound.toTiled.blocks_eq] at unfit
  rintro ⟨block, member, fits⟩
  simp [unfit block member] at fits

end Extent

namespace Machine

variable {σ : Type} [Source σ]

def Outcome (s : Machine σ) (x : Extent) (size : Nat) (result : Except AllocError (Option Nat)) (t : Machine σ) :
    Prop :=
  match blockSizeFor? size with
  | none => result = .error (.requestTooLarge size) ∧ t = s
  | some need =>
    if x.Holds s.memory need then
      (∃ pointer, result = .ok (some pointer)) ∧ t.heap.source = s.heap.source ∧ t.requests = s.requests
    else if maxBlock < x.size - frameBytes + s.growthFor need then
      result = .error (.outOfMemory (s.growthFor need)) ∧ t = s
    else
      let grant := Source.grow s.heap.source (s.growthFor need)
      t.heap.source = grant.source ∧ t.requests = s.requests ++ [(s.growthFor need, grant.answer)] ∧
        match grant.answer with
        | .ok _ => ∃ pointer, result = .ok (some pointer)
        | .error cause => result = .error cause

variable {s t : Machine σ} {x y : Extent} {blocks others : List Block} {size : Nat}
  {result : Except AllocError (Option Nat)}

theorem Outcome.tooLarge_iff (outcome : s.Outcome x size result t) (honest : Source.Honest s.heap.source) :
    result = .error (.requestTooLarge size) ↔ blockSizeFor? size = none := by
  unfold Outcome at outcome
  cases adjusted : blockSizeFor? size with
  | none =>
    rw [adjusted] at outcome
    exact ⟨fun _ => rfl, fun _ => outcome.1⟩
  | some need =>
    simp only [adjusted] at outcome
    refine ⟨fun failed => ?_, nofun⟩
    subst failed
    split at outcome
    · simp at outcome
    · split at outcome
      · simp at outcome
      · obtain ⟨-, -, answer⟩ := outcome
        split at answer
        · simp at answer
        · rename_i cause refused
          cases answer
          exact (honest _ _ refused).elim

variable [LawfulSource σ]

theorem Serving.outcome (serving : s.Serving x blocks size result t y others) (ready : s.Ready x blocks)
    (positive : size ≠ 0) : s.Outcome x size result t := by
  unfold Outcome
  cases serving with
  | empty zero => exact absurd zero positive
  | huge positive huge =>
    rw [huge]
    exact ⟨rfl, rfl⟩
  | found positive adjusted parts found =>
    rw [adjusted]
    dsimp only
    rw [if_pos (ready.sound.holds found)]
    exact ⟨⟨_, rfl⟩, rfl, place_requests ..⟩
  | full positive adjusted unfound full =>
    rw [adjusted]
    dsimp only
    rw [if_neg (ready.sound.not_holds unfound), if_pos full]
    exact ⟨rfl, rfl⟩
  | refused positive adjusted unfound room refused =>
    rw [adjusted]
    dsimp only
    rw [if_neg (ready.sound.not_holds unfound), if_neg (Nat.not_lt.mpr room), refused]
    exact ⟨rfl, by rw [asked_requests, refused], rfl⟩
  | grown positive adjusted unfound room granted parts neighbours =>
    rw [adjusted]
    dsimp only
    rw [if_neg (ready.sound.not_holds unfound), if_neg (Nat.not_lt.mpr room), granted]
    exact ⟨rfl, by rw [place_requests, grown_requests, asked_requests, granted], _, rfl⟩

theorem Ready.outcome (ready : s.Ready x blocks) (positive : size ≠ 0) :
    ∃ result t, HeapM.tryAllocate size s = HeapM.ends result t ∧ s.Outcome x size result t := by
  obtain ⟨result, t, y, others, serving⟩ := ready.exists_serving size
  exact ⟨result, t, (Requesting.ready ready serving).run, serving.outcome ready positive⟩

theorem Serving.failed {cause : AllocError} (serving : s.Serving x blocks size (.error cause) t y others)
    (ready : s.Ready x blocks) : t.Ready x blocks := by
  have after := serving.ready ready
  cases serving with
  | huge => exact after
  | full => exact after
  | refused => exact after

end Machine

namespace World

variable {σ : Type} [Source σ] [LawfulSource σ] {mode : Mode} {w : World σ} {x : Extent} {size : Nat}

/-- The machine `t` has the heap and the memory of `w`, whose pointers can be used and released as before, and serves
    later requests by the same law, whatever the source answers then. -/
structure Unharmed (mode : Mode) (w : World σ) (x : Extent) (t : Machine σ) : Prop where
  intact : w.machine.Intact t
  reachable : ({ w with machine := t } : World σ).Reachable mode
  honours : ∀ loan ∈ w.loans, ({ w with machine := t } : World σ).Honours loan
  later : ∀ source : σ, LawfulSource.EndsAt source (some x.stop) → ∀ size ≠ 0, ∃ result u,
    HeapM.tryAllocate size { t with heap := { t.heap with source } } = HeapM.ends result u ∧
      Machine.Outcome { t with heap := { t.heap with source } } x size result u

/-- A request to a heap that is set up is served, or it fails for one cause and changes nothing. -/
theorem Reachable.request_outcome (reachable : w.Reachable mode) (extent : w.machine.heap.extent = some x)
    (positive : size ≠ 0) :
    ∃ result t, HeapM.tryAllocate size w.machine = HeapM.ends result t ∧ w.machine.Outcome x size result t ∧
      (Source.Honest w.machine.heap.source →
        (result = .error (.requestTooLarge size) ↔ blockSizeFor? size = none)) ∧
      ∀ cause, result = .error cause → w.Unharmed mode x t := by
  have ready := reachable.balanced.consistent.ready_of_extent extent
  obtain ⟨result, t, y, others, serving⟩ := ready.exists_serving size
  have run := (Machine.Requesting.ready ready serving).run
  have outcome := serving.outcome ready positive
  refine ⟨result, t, run, outcome, outcome.tooLarge_iff, ?_⟩
  rintro cause rfl
  -- The failed request is itself a step of the world, so what holds of every reachable one holds after it.
  have permitted : w.Permits (.command (.tryAllocate size)) := nofun
  have next : w.after mode (.command (.tryAllocate size)) = { w with machine := t } := by
    simp only [World.after, Command.perform, run, HeapM.ends]
  have after := reachable.after permitted
  rw [next] at after
  have still := serving.failed ready
  refine ⟨serving.intact, after, ?_, ?_⟩
  · intro loan held
    exact after.balanced.honours held
  · intro source stands size positive
    have ready : Machine.Ready { t with heap := { t.heap with source } } x _ :=
      ⟨still.extent, still.valid, stands, still.sound⟩
    exact ready.outcome positive

theorem trial_request_outcome :
    ∃ result t, HeapM.tryAllocate 400 trial.machine = HeapM.ends result t ∧
      trial.machine.Outcome trialExtent 400 result t ∧
      (result = .error (.requestTooLarge 400) ↔ blockSizeFor? 400 = none) ∧
      ∀ cause, result = .error cause → trial.Unharmed .vetting trialExtent t := by
  obtain ⟨result, t, run, outcome, huge, failed⟩ :=
    Reachable.request_outcome trial_reachable trial_extent (show 400 ≠ 0 by decide)
  exact ⟨result, t, run, outcome, huge (Region.honest _), failed⟩

end World

end BoundaryTag
