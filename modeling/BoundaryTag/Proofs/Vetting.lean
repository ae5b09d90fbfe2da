import BoundaryTag.Proofs.Balance

namespace BoundaryTag

namespace Extent

variable {x : Extent} {m : Memory} {p : Nat}

theorem vet_misaligned (odd : p % unitSize ≠ 0) : x.vet m p = .error (.misaligned p) := by
  rw [vet, if_pos odd]

theorem vet_foreign (aligned : p % unitSize = 0) (outside : p < x.start + frameBytes ∨ x.stop ≤ p) :
    x.vet m p = .error (.foreign p) := by
  rw [vet, if_neg (by simpa using aligned), if_pos outside]

end Extent

namespace Machine

variable {σ : Type} [Source σ] {s : Machine σ} {x : Extent} {p : Nat} {cause : Misuse}

def Rejects (s : Machine σ) (p : Nat) (cause : Misuse) : Prop :=
  ∀ command : Command, command.pointer? = some p → command.perform .vetting s = .error (.fault (.misuse cause)) s

theorem rejects (extent : s.heap.extent = some x) (misuse : x.vet s.memory p = .error cause) :
    s.Rejects p cause := by
  have vetted : HeapM.vet .vetting p s = .error (.fault (.misuse cause)) s := by
    simp only [HeapM.vet, if_true, Bind.bind, EStateM.bind, HeapM.get_run, HeapM.memory_run, extent, Option.getD_some,
      misuse]
    rfl
  have freed : HeapM.free .vetting (some p) s = .error (.fault (.misuse cause)) s := by
    simp only [HeapM.free, Bind.bind, EStateM.bind, HeapM.attempt_ends (HeapM.init_done extent), vetted]
  intro command given
  cases command with
  | init => cases given
  | tryAllocate size => cases given
  | allocate size => cases given
  | free pointer =>
    obtain rfl : pointer = some p := given
    exact HeapM.bind_error freed
  | reallocate pointer size =>
    obtain rfl : pointer = some p := given
    -- an empty request releases at once, and any other is vetted before it allocates
    by_cases zero : size = 0
    · simp only [Command.perform, HeapM.reallocate, if_pos zero]
      exact HeapM.bind_error freed
    · simp only [Command.perform, HeapM.reallocate, if_neg zero]
      exact HeapM.bind_error vetted

end Machine

namespace World

variable {σ : Type} [Source σ]

def results (mode : Mode) (w : World σ) :
    List (Action σ) → List (EStateM.Result (Stop AllocError) (Machine σ) (Option Nat))
  | [] => []
  | .command command :: rest => command.perform mode w.machine :: (w.after mode (.command command)).results mode rest
  | action :: rest => (w.after mode action).results mode rest

variable [LawfulSource σ] {mode other : Mode} {w : World σ} {command : Command} {action : Action σ}
  {actions : List (Action σ)}

namespace Balanced

theorem perform_eq (balanced : w.Balanced) (permitted : w.Permits (.command command)) (mode other : Mode) :
    command.perform mode w.machine = command.perform other w.machine := by
  obtain ⟨answer, t, course⟩ := balanced.consistent.exists_course command (balanced.live permitted)
  rw [course.run mode, course.run other]

theorem after_eq (balanced : w.Balanced) (permitted : w.Permits action) (mode other : Mode) :
    w.after mode action = w.after other action := by
  cases action with
  | command command =>
    simp only [World.after, balanced.perform_eq permitted mode other]
  | write address value => rfl
  | drift source => rfl

theorem run_eq (balanced : w.Balanced) (permitted : w.PermitsAll mode actions) (other : Mode) :
    w.run mode actions = w.run other actions := by
  induction actions generalizing w with
  | nil => rfl
  | cons action rest ih =>
    obtain ⟨first, later⟩ := permitted
    have next := balanced.after_eq first mode other
    calc (w.after mode action).run mode rest
        = (w.after mode action).run other rest := ih (balanced.after first) later
      _ = (w.after other action).run other rest := by rw [next]

theorem results_eq (balanced : w.Balanced) (permitted : w.PermitsAll mode actions) (other : Mode) :
    w.results mode actions = w.results other actions := by
  induction actions generalizing w with
  | nil => rfl
  | cons action rest ih =>
    obtain ⟨first, later⟩ := permitted
    have next := ih (balanced.after first) later
    rw [balanced.after_eq first mode other] at next
    cases action with
    | command command =>
      unfold results
      rw [balanced.perform_eq first mode other, balanced.after_eq first mode other, next]
    | write address value => exact next
    | drift source => exact next

theorem results_answer (balanced : w.Balanced) (permitted : w.PermitsAll mode actions)
    {result : EStateM.Result (Stop AllocError) (Machine σ) (Option Nat)} (member : result ∈ w.results mode actions)
    (fault : Fault) (t : Machine σ) : result ≠ .error (.fault fault) t := by
  induction actions generalizing w with
  | nil => cases member
  | cons action rest ih =>
    obtain ⟨first, later⟩ := permitted
    have next := ih (balanced.after first) later
    cases action with
    | command command =>
      rcases List.mem_cons.mp member with rfl | member
      · exact balanced.answers mode first fault t
      · exact next member
    | write address value => exact next member
    | drift source => exact next member

end Balanced

/-- Vetting changes nothing for a client that keeps its promises: no command of such a run faults, and each one
    ends as it does without vetting, on the same machine. Pointers that are misaligned, outside the blocks or those
    of free blocks are rejected. -/
theorem vetting_changes_nothing {source : σ} {config : Config} {memory : Memory}
    (stands : LawfulSource.EndsAt source none)
    (permitted : (World.fresh source config memory).PermitsAll mode actions) :
    let start := World.fresh source config memory
    let w := start.run mode actions
    start.results .vetting actions = start.results .trusting actions ∧
      start.run .vetting actions = start.run .trusting actions ∧
      (∀ result ∈ start.results .vetting actions, ∀ fault t, result ≠ .error (.fault fault) t) ∧
      ∀ x, w.machine.heap.extent = some x → ∀ p,
        (p % unitSize ≠ 0 → w.machine.Rejects p (.misaligned p)) ∧
        (p % unitSize = 0 → p < x.start + frameBytes ∨ x.stop ≤ p → w.machine.Rejects p (.foreign p)) ∧
        ∀ block ∈ x.blocks w.machine.memory, block.allocated = false → block.addr = p →
          w.machine.Rejects p (.notAllocated p) := by
  intro start w
  have balanced : start.Balanced := .fresh config memory stands
  have results := balanced.results_eq permitted
  have run := balanced.run_eq permitted
  refine ⟨(results .vetting).symm.trans (results .trusting), (run .vetting).symm.trans (run .trusting), ?_, ?_⟩
  · intro result member
    rw [← results .vetting] at member
    exact balanced.results_answer permitted member
  · intro x extent p
    have reachable : w.Reachable mode := (Reachable.fresh source config memory stands).run permitted
    have ready := reachable.balanced.consistent.ready_of_extent extent
    refine ⟨fun odd => ?_, fun aligned outside => ?_, ?_⟩
    · exact Machine.rejects extent (Extent.vet_misaligned odd)
    · exact Machine.rejects extent (Extent.vet_foreign aligned outside)
    · rintro block member free rfl
      exact Machine.rejects extent (by rw [ready.tiled.vet_block member, free]; rfl)

theorem vetting_changes_nothing_region :
    let start := World.fresh (Region.fresh 65536 512) { initialSize := 64, chunkSize := 64 } {}
    let actions : List (Action Region) :=
      [.command (.tryAllocate 24), .command (.allocate 100), .write 65552 7, .command (.allocate 8),
        .command (.free (some 65584)), .command (.reallocate (some 65552) 40)]
    let w := start.run .vetting actions
    start.results .vetting actions = start.results .trusting actions ∧
      start.run .vetting actions = start.run .trusting actions ∧
      (∀ result ∈ start.results .vetting actions, ∀ fault t, result ≠ .error (.fault fault) t) ∧
      ∀ x, w.machine.heap.extent = some x → ∀ p,
        (p % unitSize ≠ 0 → w.machine.Rejects p (.misaligned p)) ∧
        (p % unitSize = 0 → p < x.start + frameBytes ∨ x.stop ≤ p → w.machine.Rejects p (.foreign p)) ∧
        ∀ block ∈ x.blocks w.machine.memory, block.allocated = false → block.addr = p →
          w.machine.Rejects p (.notAllocated p) := by
  refine vetting_changes_nothing ?_ ⟨?_, ?_, ?_, ?_, ?_, ?_, trivial⟩
  · constructor <;> decide
  · decide +kernel
  · decide +kernel
  · decide +kernel
  · decide +kernel
  · decide +kernel
  · decide +kernel

end World

end BoundaryTag
