import BoundaryTag.Proofs.Lawful
import BoundaryTag.Source.Break

namespace BoundaryTag

open BreakPrimitive (shift)

/-- A break that moves by the increment and answers where it was, or refuses and stays, wherever in the address space
    it is. -/
structure BreakContract {β : Type} [BreakPrimitive β] (position : β → Nat) (Valid : β → Prop) : Prop where
  below {b : β} : Valid b → position b < breakRefused
  valid {b : β} (increment : Int) : Valid b → Valid (shift b increment).2
  moved {b : β} {increment : Int} : Valid b → (shift b increment).1 ≠ breakRefused →
    (shift b increment).1 = position b ∧ (position (shift b increment).2 : Int) = position b + increment
  /-- where the break is can always be asked -/
  refused {b : β} {increment : Int} : Valid b → (shift b increment).1 = breakRefused →
    increment ≠ 0 ∧ position (shift b increment).2 = position b

namespace BreakContract

variable {β : Type} [BreakPrimitive β] {position : β → Nat} {Valid : β → Prop} {b : β} {bytes : Nat}

theorem asked (contract : BreakContract position Valid) (valid : Valid b) :
    (shift b 0).1 = position b ∧ position (shift b 0).2 = position b := by
  have accepted : (shift b 0).1 ≠ breakRefused := fun refused => (contract.refused valid refused).1 rfl
  obtain ⟨current, stays⟩ := contract.moved valid accepted
  exact ⟨current, by omega⟩

theorem position_shift (contract : BreakContract position Valid) (valid : Valid b)
    (accepted : (shift b bytes).1 ≠ breakRefused) : position (shift b bytes).2 = position b + bytes := by
  have moved := (contract.moved valid accepted).2
  omega

theorem position_back (contract : BreakContract position Valid) (valid : Valid b)
    (accepted : (shift b bytes).1 ≠ breakRefused) (back : (shift (shift b bytes).2 (-bytes)).1 ≠ breakRefused) :
    position (shift (shift b bytes).2 (-bytes)).2 = position b := by
  have up := contract.position_shift valid accepted
  have down := (contract.moved (contract.valid bytes valid) back).2
  omega

theorem position_stuck (contract : BreakContract position Valid) (valid : Valid b)
    (accepted : (shift b bytes).1 ≠ breakRefused) (stuck : (shift (shift b bytes).2 (-bytes)).1 = breakRefused) :
    position (shift (shift b bytes).2 (-bytes)).2 = position b + bytes := by
  rw [(contract.refused (contract.valid bytes valid) stuck).2, contract.position_shift valid accepted]

end BreakContract

/-- Such a break is never at zero, and rounding it up does not wrap around. -/
class LawfulBreak (β : Type) [BreakPrimitive β] where
  position : β → Nat
  Valid : β → Prop
  contract : BreakContract position Valid
  within {b : β} : Valid b → 0 < position b ∧ position b + unitSize ≤ addressLimit

namespace ProgramBreak

variable {b moved : ProgramBreak} {increment : Int}

theorem position_move (done : b.move? increment = some moved) (inside : b.floor ≤ b.position ∧ b.position ≤ b.limit) :
    (moved.position : Int) = b.position + increment ∧ moved.floor = b.floor ∧ moved.limit = b.limit ∧
      b.floor ≤ moved.position ∧ moved.position ≤ b.limit := by
  unfold move? at done
  split at done
  · cases done
    omega
  · split at done
    · rename_i permitted
      unfold Permits at permitted
      cases done
      simp only [Int.toNat_of_nonneg (show (0 : Int) ≤ b.position + increment by omega), true_and]
      omega
    · cases done

theorem contract (Limits : Nat → Nat → Prop) (below : ∀ {floor limit}, Limits floor limit → limit < breakRefused) :
    BreakContract ProgramBreak.position fun b =>
      Limits b.floor b.limit ∧ b.floor ≤ b.position ∧ b.position ≤ b.limit where
  below := by
    intro b ⟨limits, inside⟩
    exact Nat.lt_of_le_of_lt inside.2 (below limits)
  valid := by
    intro b increment ⟨limits, inside⟩
    simp only [shift]
    cases done : b.move? increment with
    | none => exact ⟨limits, inside⟩
    | some moved =>
      obtain ⟨-, floor, limit, above, below⟩ := position_move done inside
      rw [floor, limit]
      exact ⟨limits, above, below⟩
  moved := by
    intro b increment ⟨limits, inside⟩ accepted
    simp only [shift] at accepted ⊢
    cases done : b.move? increment with
    | none => simp [done] at accepted
    | some moved => exact ⟨rfl, (position_move done inside).1⟩
  refused := by
    intro b increment ⟨limits, inside⟩ refused
    have last := below limits
    simp only [shift] at refused ⊢
    cases done : b.move? increment with
    | none =>
      refine ⟨?_, rfl⟩
      rintro rfl
      simp [move?] at done
    | some moved =>
      simp only [done] at refused
      omega

instance : LawfulBreak ProgramBreak where
  position := ProgramBreak.position
  Valid b := (0 < b.floor ∧ b.limit + unitSize ≤ addressLimit) ∧ b.floor ≤ b.position ∧ b.position ≤ b.limit
  contract := contract (fun floor limit => 0 < floor ∧ limit + unitSize ≤ addressLimit) fun limits => by lia
  within := by
    intro b ⟨⟨low, high⟩, above, below⟩
    exact ⟨Nat.lt_of_lt_of_le low above, by omega⟩

theorem valid_at {position : Nat} (valid : LawfulBreak.Valid b) (above : b.floor ≤ position)
    (below : position ≤ b.limit) : LawfulBreak.Valid { b with position } :=
  ⟨valid.1, above, below⟩

end ProgramBreak

namespace BreakSource

variable {β : Type} [BreakPrimitive β]

section

variable {position : β → Nat} {Valid : β → Prop} {b : β} {source : BreakSource β} {bytes expected : Nat}

theorem claim_of_refused (refused : (shift source.primitive bytes).1 = breakRefused) :
    source.claim bytes =
      { answer := .error (.outOfMemory bytes)
        source := { source with primitive := (shift source.primitive bytes).2 }
        events := [.shifted bytes] } := by
  simp only [claim, refused, if_true]

theorem claim_of_follows (contract : BreakContract position Valid) (valid : Valid source.primitive)
    (accepted : (shift source.primitive bytes).1 ≠ breakRefused)
    (follows : ∀ stop ∈ source.lastEnd, position source.primitive = stop) :
    source.claim bytes =
      { answer := if position source.primitive = 0 then .error (.outOfMemory bytes) else .ok (position source.primitive)
        source :=
          { primitive := (shift source.primitive bytes).2
            lastEnd := endOf (position source.primitive) bytes
            named := endOf_ne_zero (position source.primitive) bytes }
        events := [.shifted bytes] } := by
  obtain ⟨start, -⟩ := contract.moved valid accepted
  have same : (source.lastEnd.filter fun stop => stop ≠ position source.primitive) = none := by
    rw [Option.filter_eq_none_iff]
    intro stop last
    simp [follows stop last]
  rw [start] at accepted
  simp only [claim, start, if_neg accepted, same]

theorem claim_of_displaced (contract : BreakContract position Valid) (valid : Valid source.primitive)
    (accepted : (shift source.primitive bytes).1 ≠ breakRefused) (last : source.lastEnd = some expected)
    (displaced : position source.primitive ≠ expected) :
    source.claim bytes =
      { answer := .error (.nonContiguous expected (position source.primitive))
        source := { source with primitive := (shift (shift source.primitive bytes).2 (-bytes)).2 }
        events := [.shifted bytes, .shifted (-bytes)] ++
          if (shift (shift source.primitive bytes).2 (-bytes)).1 = breakRefused then
            [.rollbackFailed bytes (position source.primitive)] else [] } := by
  obtain ⟨start, -⟩ := contract.moved valid accepted
  have another : (source.lastEnd.filter fun stop => stop ≠ position source.primitive) = some expected := by
    rw [last]
    exact Option.filter_some_pos (decide_eq_true displaced.symm)
  rw [start] at accepted
  simp only [claim, start, if_neg accepted, another]

theorem pad_spec (contract : BreakContract position Valid) (valid : Valid b) :
    Valid (pad b).2.1 ∧ (pad b).2.2.filterMap SourceEvent.log? = [] ∧
      position (pad b).2.1 = if (pad b).1 then roundUp (position b) else position b := by
  obtain ⟨current, stays⟩ := contract.asked valid
  have valid := contract.valid 0 valid
  have le := le_roundUp (position b)
  unfold pad
  simp only [current]
  split
  · rename_i whole
    refine ⟨valid, rfl, ?_⟩
    simp only [if_true]
    omega
  · refine ⟨contract.valid _ valid, rfl, ?_⟩
    by_cases refused : (shift (shift b 0).2 ↑(roundUp (position b) - position b)).1 = breakRefused
    · have still := (contract.refused valid refused).2
      simp only [refused, bne_self_eq_false, Bool.false_eq_true, if_false]
      omega
    · have up := (contract.moved valid refused).2
      simp only [bne_iff_ne, ne_eq, refused, not_false_eq_true, if_true]
      omega

end

def ShrinkRefused (source : BreakSource β) (bytes : Nat) : Prop :=
  (shift (shift source.primitive bytes).2 (-bytes)).1 = breakRefused

variable [LawfulBreak β]

open LawfulBreak (position Valid)

inductive Claiming (source : BreakSource β) (bytes : Nat) : Grant (BreakSource β) → Prop
  | refused (refused : (shift source.primitive bytes).1 = breakRefused) :
    Claiming source bytes
      { answer := .error (.outOfMemory bytes)
        source := { source with primitive := (shift source.primitive bytes).2 }
        events := [.shifted bytes] }
  | granted {after : BreakSource β} (accepted : (shift source.primitive bytes).1 ≠ breakRefused)
    (follows : ∀ stop ∈ source.lastEnd, position source.primitive = stop)
    (moved : after.primitive = (shift source.primitive bytes).2)
    (ends : after.lastEnd = some (position source.primitive + bytes)) :
    Claiming source bytes
      { answer := .ok (position source.primitive), source := after, events := [.shifted bytes] }
  | returned {expected : Nat} (accepted : (shift source.primitive bytes).1 ≠ breakRefused)
    (last : source.lastEnd = some expected) (displaced : position source.primitive ≠ expected)
    (back : ¬source.ShrinkRefused bytes) :
    Claiming source bytes
      { answer := .error (.nonContiguous expected (position source.primitive))
        source := { source with primitive := (shift (shift source.primitive bytes).2 (-bytes)).2 }
        events := [.shifted bytes, .shifted (-bytes)] }
  | stranded {expected : Nat} (accepted : (shift source.primitive bytes).1 ≠ breakRefused)
    (last : source.lastEnd = some expected) (displaced : position source.primitive ≠ expected)
    (stuck : source.ShrinkRefused bytes) :
    Claiming source bytes
      { answer := .error (.nonContiguous expected (position source.primitive))
        source := { source with primitive := (shift (shift source.primitive bytes).2 (-bytes)).2 }
        events := [.shifted bytes, .shifted (-bytes), .rollbackFailed bytes (position source.primitive)] }

inductive Growing (source : BreakSource β) (bytes : Nat) : Grant (BreakSource β) → Prop
  | huge (huge : addressLimit / 2 ≤ bytes) : Growing source bytes { answer := .error (.outOfMemory bytes), source }
  | unpadded {primitive : β} {moves : List SourceEvent} (first : source.lastEnd = none) (valid : Valid primitive)
    (stays : position primitive = position source.primitive) (quiet : moves.filterMap SourceEvent.log? = []) :
    Growing source bytes { answer := .error (.outOfMemory bytes), source := { source with primitive }, events := moves }
  | padded {primitive : β} {moves : List SourceEvent} {grant : Grant (BreakSource β)} (first : source.lastEnd = none)
    (valid : Valid primitive) (aligned : position primitive = roundUp (position source.primitive))
    (quiet : moves.filterMap SourceEvent.log? = []) (claiming : Claiming { source with primitive } bytes grant) :
    Growing source bytes { grant with events := moves ++ grant.events }
  | later {grant : Grant (BreakSource β)} (small : bytes < addressLimit / 2) (later : source.lastEnd.isSome)
    (claiming : source.Claiming bytes grant) : Growing source bytes grant

variable {source : BreakSource β} {bytes : Nat} {grant : Grant (BreakSource β)} {b : β}

theorem endOf_eq (valid : Valid b) (accepted : (shift b bytes).1 ≠ breakRefused) :
    endOf (position b) bytes = some (position b + bytes) := by
  obtain ⟨positive, -⟩ := LawfulBreak.within valid
  obtain ⟨-, room⟩ := LawfulBreak.within (LawfulBreak.contract.valid bytes valid)
  rw [LawfulBreak.contract.position_shift valid accepted] at room
  unfold endOf
  rw [Nat.mod_eq_of_lt (by lia), if_neg (by omega)]

theorem claiming (valid : Valid source.primitive) (bytes : Nat) : source.Claiming bytes (source.claim bytes) := by
  by_cases refused : (shift source.primitive bytes).1 = breakRefused
  · rw [claim_of_refused refused]
    exact .refused refused
  · by_cases follows : ∀ stop ∈ source.lastEnd, position source.primitive = stop
    · obtain ⟨positive, -⟩ := LawfulBreak.within valid
      rw [claim_of_follows LawfulBreak.contract valid refused follows, if_neg (by omega)]
      exact .granted refused follows rfl (endOf_eq valid refused)
    · obtain ⟨expected, last, displaced⟩ : ∃ expected, source.lastEnd = some expected ∧
          position source.primitive ≠ expected := by simpa using follows
      rw [claim_of_displaced LawfulBreak.contract valid refused last displaced]
      by_cases stuck : (shift (shift source.primitive bytes).2 (-bytes)).1 = breakRefused
      · rw [if_pos stuck]
        exact .stranded refused last displaced stuck
      · rw [if_neg stuck]
        exact .returned refused last displaced stuck

theorem growing (valid : Valid source.primitive) (bytes : Nat) : source.Growing bytes (source.grow bytes) := by
  unfold grow
  split
  · rename_i huge
    exact .huge huge
  · split
    · rename_i small later
      exact .later (by omega) later (claiming valid bytes)
    · rename_i small first
      obtain ⟨valid, quiet, stands⟩ := pad_spec LawfulBreak.contract valid
      have first : source.lastEnd = none := by simpa using first
      dsimp only
      split
      · rename_i aligned
        rw [if_pos aligned] at stands
        exact .padded first valid stands quiet (claiming valid bytes)
      · rename_i refused
        rw [if_neg refused] at stands
        exact .unpadded first valid stands quiet

theorem Claiming.valid (claiming : source.Claiming bytes grant) (valid : Valid source.primitive) :
    Valid grant.source.primitive := by
  have up := LawfulBreak.contract.valid bytes valid
  cases claiming with
  | refused => exact up
  | granted accepted follows moved ends =>
    rw [moved]
    exact up
  | returned => exact LawfulBreak.contract.valid _ up
  | stranded => exact LawfulBreak.contract.valid _ up

theorem Growing.valid (growing : source.Growing bytes grant) (valid : Valid source.primitive) :
    Valid grant.source.primitive := by
  cases growing with
  | huge => exact valid
  | unpadded first valid => exact valid
  | padded first valid aligned quiet claiming => exact claiming.valid valid
  | later small later claiming => exact claiming.valid valid

theorem Claiming.granted_at {start : Nat} (claiming : source.Claiming bytes grant) (valid : Valid source.primitive)
    (answer : grant.answer = .ok start) :
    start = position source.primitive ∧ (∀ stop ∈ source.lastEnd, start = stop) ∧
      grant.source.lastEnd = some (start + bytes) ∧ position grant.source.primitive = start + bytes := by
  cases claiming with
  | granted accepted follows moved ends =>
    cases answer
    refine ⟨rfl, follows, ends, ?_⟩
    rw [moved]
    exact LawfulBreak.contract.position_shift valid accepted
  | refused => cases answer
  | returned => cases answer
  | stranded => cases answer

theorem Growing.granted_at {start : Nat} (growing : source.Growing bytes grant) (valid : Valid source.primitive)
    (answer : grant.answer = .ok start) :
    (source.lastEnd = none → start = roundUp (position source.primitive)) ∧ (∀ stop ∈ source.lastEnd, start = stop) ∧
      grant.source.lastEnd = some (start + bytes) ∧ position grant.source.primitive = start + bytes := by
  cases growing with
  | huge => cases answer
  | unpadded => cases answer
  | padded first valid aligned quiet claiming =>
    obtain ⟨here, follows, last, ends⟩ := claiming.granted_at valid answer
    exact ⟨fun _ => here.trans aligned, follows, last, ends⟩
  | later small later claiming =>
    obtain ⟨here, follows, last, ends⟩ := claiming.granted_at valid answer
    refine ⟨fun first => ?_, follows, last, ends⟩
    rw [first] at later
    cases later

theorem Claiming.last_of_error {cause : AllocError} (claiming : source.Claiming bytes grant)
    (answer : grant.answer = .error cause) : grant.source.lastEnd = source.lastEnd := by
  cases claiming with
  | granted => cases answer
  | refused => rfl
  | returned => rfl
  | stranded => rfl

theorem Growing.last_of_error {cause : AllocError} (growing : source.Growing bytes grant)
    (answer : grant.answer = .error cause) : grant.source.lastEnd = source.lastEnd := by
  cases growing with
  | huge => rfl
  | unpadded => rfl
  | padded first valid aligned quiet claiming => exact claiming.last_of_error answer
  | later small later claiming => exact claiming.last_of_error answer

theorem Growing.claim {stop : Nat} (growing : source.Growing bytes grant) (last : source.lastEnd = some stop)
    (small : bytes < addressLimit / 2) : source.Claiming bytes grant := by
  cases growing with
  | huge huge => omega
  | unpadded first => simp [last] at first
  | padded first => simp [last] at first
  | later small later claiming => exact claiming

theorem Claiming.answer_eq {stop : Nat} (claiming : source.Claiming bytes grant) (last : source.lastEnd = some stop) :
    grant.answer =
      if (shift source.primitive bytes).1 = breakRefused then .error (.outOfMemory bytes)
      else if position source.primitive = stop then .ok stop
      else .error (.nonContiguous stop (position source.primitive)) := by
  cases claiming with
  | refused refused => rw [if_pos refused]
  | granted accepted follows =>
    have here := follows stop last
    rw [if_neg accepted, if_pos here, here]
  | returned accepted before displaced back =>
    cases last.symm.trans before
    rw [if_neg accepted, if_neg displaced]
  | stranded accepted before displaced stuck =>
    cases last.symm.trans before
    rw [if_neg accepted, if_neg displaced]

instance : LawfulSource (BreakSource β) where
  EndsAt source last := source.lastEnd = last ∧ Valid source.primitive
  granted {source last bytes start} := by
    rintro ⟨rfl, valid⟩ answer
    have growing := growing valid bytes
    obtain ⟨first, later, last, ends⟩ := growing.granted_at valid answer
    have after := growing.valid valid
    have room := (LawfulBreak.within after).2
    refine ⟨later, fun ungranted => ?_, ?_, last, after⟩
    · rw [first ungranted, roundUp_mod]
    · change position (source.grow bytes).source.primitive + unitSize ≤ addressLimit at room
      lia
  refused {source last bytes cause} := by
    rintro ⟨rfl, valid⟩ answer
    have growing := growing valid bytes
    exact ⟨growing.last_of_error answer, growing.valid valid⟩

end BreakSource

end BoundaryTag
