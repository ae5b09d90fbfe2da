import BoundaryTag.Proofs.Shifting
import Mathlib.Control.Monad.Basic

namespace BoundaryTag

open BreakPrimitive (shift)

namespace BreakSource

section

variable {β : Type} [BreakPrimitive β]

def Restored (position : β → Nat) (source after : BreakSource β) : Prop :=
  after.lastEnd = source.lastEnd ∧ position after.primitive = position source.primitive

instance (position : β → Nat) (source after : BreakSource β) : Decidable (Restored position source after) :=
  inferInstanceAs (Decidable (_ ∧ _))

def padded (source : BreakSource β) : BreakSource β := { source with primitive := (pad source.primitive).2.1 }

/-- A first call pads the break and is refused then. -/
structure PaddingKept (position : β → Nat) (source : BreakSource β) (bytes : Nat) : Prop where
  first : source.lastEnd = none
  small : bytes < addressLimit / 2
  uneven : position source.primitive % unitSize ≠ 0
  aligned : (pad source.primitive).1 = true
  refused : (shift source.padded.primitive bytes).1 = breakRefused

/-- A first call is granted bytes at zero. -/
structure GrantLost (position : β → Nat) (source : BreakSource β) (bytes : Nat) : Prop where
  first : source.lastEnd = none
  small : bytes < addressLimit / 2
  zero : position source.primitive = 0
  nonempty : 0 < bytes
  accepted : (shift source.padded.primitive bytes).1 ≠ breakRefused

variable {position : β → Nat} {Valid : β → Prop} {source : BreakSource β} {bytes : Nat} {b : β} {cause : AllocError}

theorem later_claim_restored {stop : Nat} (contract : BreakContract position Valid) (valid : Valid source.primitive)
    (last : source.lastEnd = some stop) (failed : (source.claim bytes).answer = .error cause)
    (undone : ∀ start, .rollbackFailed bytes start ∉ (source.claim bytes).events) :
    Restored position source (source.claim bytes).source := by
  by_cases refused : (shift source.primitive bytes).1 = breakRefused
  · rw [claim_of_refused refused]
    exact ⟨rfl, (contract.refused valid refused).2⟩
  · have displaced : position source.primitive ≠ stop := by
      -- what follows the last grant is granted, since that did not end at zero
      rintro rfl
      have named : position source.primitive ≠ 0 := fun zero => source.named (zero ▸ last)
      rw [claim_of_follows contract valid refused (by simp [last])] at failed
      simp only [if_neg named] at failed
      cases failed
    rw [claim_of_displaced contract valid refused last displaced] at undone ⊢
    have back : (shift (shift source.primitive bytes).2 (-bytes)).1 ≠ breakRefused := by
      intro stuck
      exact undone (position source.primitive) (by simp only [stuck, if_true]; simp)
    exact ⟨rfl, contract.position_back valid refused back⟩

theorem grow_first (first : source.lastEnd = none) (small : bytes < addressLimit / 2)
    (aligned : (pad source.primitive).1 = true) :
    (source.grow bytes).answer = (source.padded.claim bytes).answer ∧
      (source.grow bytes).source = (source.padded.claim bytes).source := by
  simp [grow, padded, first, aligned, Nat.not_le.mpr small]

theorem grow_later {stop : Nat} (last : source.lastEnd = some stop) (small : bytes < addressLimit / 2) :
    source.grow bytes = source.claim bytes := by
  simp [grow, last, Nat.not_le.mpr small]

theorem endOf_zero (small : bytes < addressLimit / 2) (nonempty : 0 < bytes) : endOf 0 bytes = some bytes := by
  unfold endOf
  rw [Nat.zero_add, Nat.mod_eq_of_lt (by lia)]
  exact if_neg (by omega)

theorem padded_spec (contract : BreakContract position Valid) (valid : Valid source.primitive)
    (aligned : (pad source.primitive).1 = true) :
    Valid source.padded.primitive ∧ position source.padded.primitive = roundUp (position source.primitive) := by
  obtain ⟨valid, -, stands⟩ := pad_spec contract valid
  exact ⟨valid, stands.trans (if_pos aligned)⟩

theorem aligned_of_even (contract : BreakContract position Valid) (valid : Valid b)
    (even : position b % unitSize = 0) : (pad b).1 = true := by
  simp only [pad, (contract.asked valid).1, roundUp_eq _ even, Nat.sub_self, if_true]

theorem PaddingKept.leaves (contract : BreakContract position Valid) (valid : Valid source.primitive)
    (kept : PaddingKept position source bytes) :
    (source.grow bytes).answer = .error (.outOfMemory bytes) ∧ (source.grow bytes).source.lastEnd = none ∧
      position (source.grow bytes).source.primitive = roundUp (position source.primitive) := by
  obtain ⟨first, small, uneven, aligned, refused⟩ := kept
  obtain ⟨valid, stands⟩ := padded_spec contract valid aligned
  obtain ⟨answer, after⟩ := grow_first first small aligned
  rw [answer, after, claim_of_refused refused]
  exact ⟨rfl, first, (contract.refused valid refused).2.trans stands⟩

/-- The grant stays, and later calls have to follow it. -/
theorem GrantLost.leaves (contract : BreakContract position Valid) (valid : Valid source.primitive)
    (lost : GrantLost position source bytes) :
    (source.grow bytes).answer = .error (.outOfMemory bytes) ∧ (source.grow bytes).source.lastEnd = some bytes ∧
      position (source.grow bytes).source.primitive = bytes := by
  obtain ⟨first, small, zero, nonempty, accepted⟩ := lost
  have aligned := aligned_of_even contract valid (by lia)
  obtain ⟨valid, stands⟩ := padded_spec contract valid aligned
  obtain ⟨answer, after⟩ := grow_first first small aligned
  have still : position source.padded.primitive = 0 := by rw [stands, zero, roundUp_eq 0 rfl]
  have up := contract.position_shift valid accepted
  rw [still, Nat.zero_add] at up
  rw [answer, after, claim_of_follows contract valid accepted (by simp [padded, first]), still]
  exact ⟨rfl, endOf_zero small nonempty, up⟩

theorem first_grow_restored (contract : BreakContract position Valid) (valid : Valid source.primitive)
    (first : source.lastEnd = none) (small : bytes < addressLimit / 2)
    (failed : (source.grow bytes).answer = .error cause) (unpadded : ¬PaddingKept position source bytes)
    (held : ¬GrantLost position source bytes) : Restored position source (source.grow bytes).source := by
  cases aligned : (pad source.primitive).1 with
  | false =>
    have stands := (pad_spec contract valid).2.2
    simp only [aligned, Bool.false_eq_true, if_false] at stands
    simp only [grow, if_neg (Nat.not_le.mpr small), first, aligned, Option.isSome_none, Bool.false_eq_true, if_false]
    exact ⟨first.symm, stands⟩
  | true =>
    obtain ⟨validPadded, stands⟩ := padded_spec contract valid aligned
    obtain ⟨answer, after⟩ := grow_first first small aligned
    by_cases refused : (shift source.padded.primitive bytes).1 = breakRefused
    · have even : position source.primitive % unitSize = 0 :=
        Decidable.byContradiction fun uneven => unpadded ⟨first, small, uneven, aligned, refused⟩
      rw [roundUp_eq _ even] at stands
      rw [after, claim_of_refused refused]
      exact ⟨rfl, (contract.refused validPadded refused).2.trans stands⟩
    · -- a grant is answered as a failure at zero only, and there `GrantLost` leaves no bytes to be granted
      have claimed := claim_of_follows contract validPadded refused (by simp [padded, first])
      have low := le_roundUp (position source.primitive)
      have zero : position source.padded.primitive = 0 := by
        rw [answer, claimed] at failed
        refine Decidable.byContradiction fun positive => ?_
        simp only [if_neg positive] at failed
        cases failed
      have here : position source.primitive = 0 := by omega
      have empty : bytes = 0 :=
        Decidable.byContradiction fun present => held ⟨first, small, here, Nat.pos_of_ne_zero present, refused⟩
      have up := contract.position_shift validPadded refused
      rw [after, claimed, zero]
      subst empty
      exact ⟨first.symm, up.trans (zero.trans here.symm)⟩

theorem restored_of_failed (contract : BreakContract position Valid) (valid : Valid source.primitive)
    (failed : (source.grow bytes).answer = .error cause)
    (undone : ∀ start, .rollbackFailed bytes start ∉ (source.grow bytes).events)
    (unpadded : ¬PaddingKept position source bytes) (held : ¬GrantLost position source bytes) :
    Restored position source (source.grow bytes).source := by
  by_cases huge : addressLimit / 2 ≤ bytes
  · simp only [grow, if_pos huge]
    exact ⟨rfl, rfl⟩
  · have small : bytes < addressLimit / 2 := by omega
    cases last : source.lastEnd with
    | none => exact first_grow_restored contract valid last small failed unpadded held
    | some stop =>
      rw [grow_later last small] at failed undone ⊢
      exact later_claim_restored contract valid last failed undone

/-- A call that fails, and has not been refused to take back a grant, leaves no trace with two exceptions: a first call
    leaves the padding when growth is refused after it, and all that it was granted at zero. -/
theorem failed_grow_restored_iff (contract : BreakContract position Valid) (valid : Valid source.primitive)
    (failed : (source.grow bytes).answer = .error cause)
    (undone : ∀ start, .rollbackFailed bytes start ∉ (source.grow bytes).events) :
    (Restored position source (source.grow bytes).source ↔
      ¬PaddingKept position source bytes ∧ ¬GrantLost position source bytes) ∧
    (PaddingKept position source bytes → (source.grow bytes).source.lastEnd = none ∧
      position (source.grow bytes).source.primitive = roundUp (position source.primitive)) ∧
    (GrantLost position source bytes → (source.grow bytes).source.lastEnd = some bytes ∧
      position (source.grow bytes).source.primitive = bytes) := by
  refine ⟨⟨fun restored => ⟨fun kept => ?_, fun lost => ?_⟩, fun spared => ?_⟩,
    fun kept => (kept.leaves contract valid).2, fun lost => (lost.leaves contract valid).2⟩
  · have moved := (kept.leaves contract valid).2.2
    have aligned := roundUp_mod (position source.primitive)
    rw [← moved, restored.2] at aligned
    exact kept.uneven aligned
  · have recorded := (lost.leaves contract valid).2.1
    rw [restored.1, lost.first] at recorded
    cases recorded
  · exact restored_of_failed contract valid failed undone spared.1 spared.2

end

theorem moved_grow_restored :
    let source : BreakSource ProgramBreak := { primitive := { position := 100, limit := 1000 }, lastEnd := some 72 }
    (source.grow 32).answer = .error (.nonContiguous 72 100) ∧
      Restored ProgramBreak.position source (source.grow 32).source := by
  intro source
  have answer : (source.grow 32).answer = .error (.nonContiguous 72 100) := by decide +kernel
  have events : (source.grow 32).events = [.shifted 32, .shifted (-32)] := by decide +kernel
  have contract := ProgramBreak.contract (fun _ limit => limit < breakRefused) id
  refine ⟨answer, (failed_grow_restored_iff contract ?_ answer ?_).1.mpr ⟨?_, ?_⟩⟩
  · decide +kernel
  · simp [events]
  · exact fun kept => nomatch kept.first
  · exact fun lost => nomatch lost.first

theorem failed_grow_leaves_bytes :
    let uneven : BreakSource ProgramBreak := .fresh { position := 4, limit := 16 }
    let zero : BreakSource ProgramBreak := .fresh { position := 0, limit := 1000 }
    ((uneven.grow 64).answer = .error (.outOfMemory 64) ∧ (uneven.grow 64).events = [.shifted 0, .shifted 4, .shifted 64] ∧
      (uneven.grow 64).source.primitive.position = 8 ∧ ¬Restored ProgramBreak.position uneven (uneven.grow 64).source) ∧
    ((zero.grow 64).answer = .error (.outOfMemory 64) ∧ (zero.grow 64).events = [.shifted 0, .shifted 64] ∧
      (zero.grow 64).source.primitive.position = 64 ∧ (zero.grow 64).source.lastEnd = some 64 ∧
      ¬Restored ProgramBreak.position zero (zero.grow 64).source) := by
  decide +kernel

end BreakSource

end BoundaryTag
