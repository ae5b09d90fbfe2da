import BoundaryTag.Size
import BoundaryTag.Source.Basic

namespace BoundaryTag

/-- The answer of a break that was not moved. -/
abbrev breakRefused : Nat := addressLimit - 1

class BreakPrimitive (β : Type) where
  /-- Moves the break by an increment and answers where it was before, or `breakRefused`. -/
  shift : β → Int → Nat × β

inductive BreakAction where
  | move (increment : Int)
  | refuse (grow shrink : Bool)
  deriving DecidableEq, Repr

structure ProgramBreak where
  position : Nat
  floor : Nat := 0
  limit : Nat := addressLimit - 2
  refuseGrow : Bool := false
  refuseShrink : Bool := false
  deriving DecidableEq, Repr

namespace ProgramBreak

def Permits (b : ProgramBreak) (increment : Int) : Prop :=
  ¬(0 < increment ∧ b.refuseGrow = true) ∧ ¬(increment < 0 ∧ b.refuseShrink = true) ∧
    (b.floor : Int) ≤ b.position + increment ∧ b.position + increment ≤ (b.limit : Int) ∧
    b.position + increment < (addressLimit : Int)

instance (b : ProgramBreak) : DecidablePred b.Permits := fun _ =>
  inferInstanceAs (Decidable (¬(_ ∧ _) ∧ ¬(_ ∧ _) ∧ _ ∧ _ ∧ _))

def move? (b : ProgramBreak) (increment : Int) : Option ProgramBreak :=
  if increment = 0 then some b
  else if b.Permits increment then some { b with position := (b.position + increment).toNat }
  else none

def act (b : ProgramBreak) : BreakAction → Option Bool × ProgramBreak
  | .move increment => (some (b.move? increment).isSome, (b.move? increment).getD b)
  | .refuse grow shrink => (none, { b with refuseGrow := grow, refuseShrink := shrink })

instance : BreakPrimitive ProgramBreak where
  shift b increment :=
    match b.move? increment with
    | some moved => (b.position, moved)
    | none => (breakRefused, b)

end ProgramBreak

structure BreakSource (β : Type) where
  primitive : β
  lastEnd : Option Nat := none
  named : lastEnd ≠ some 0 := by decide

namespace BreakSource

open BreakPrimitive (shift)

variable {β : Type} [BreakPrimitive β]

def fresh (primitive : β) : BreakSource β := { primitive }

/-- The end of a grant as an address; an end that wraps around to zero is none. -/
def endOf (start bytes : Nat) : Option Nat :=
  let stop := (start + bytes) % addressLimit
  if stop = 0 then none else some stop

theorem endOf_ne_zero (start bytes : Nat) : endOf start bytes ≠ some 0 := by
  unfold endOf
  dsimp only
  split
  · exact nofun
  · simpa

/-- Moves the break up to a multiple of `unitSize` and answers whether it is there. The sum is not checked: a break
    in the last seven bytes of the address space is asked to move out of it, which no break permits. -/
def pad (primitive : β) : Bool × β × List SourceEvent :=
  let (current, primitive) := shift primitive 0
  let gap := roundUp current - current
  if gap = 0 then (true, primitive, [.shifted 0])
  else
    let (answer, primitive) := shift primitive gap
    (answer != breakRefused, primitive, [.shifted 0, .shifted gap])

/-- Takes `bytes` from the break as it stands. Growth that does not follow the last grant is given
    back. -/
def claim (source : BreakSource β) (bytes : Nat) : Grant (BreakSource β) :=
  let (start, primitive) := shift source.primitive bytes
  if start = breakRefused then
    { answer := .error (.outOfMemory bytes), source := { source with primitive }, events := [.shifted bytes] }
  else
    match source.lastEnd.filter (· ≠ start) with
    | none =>
      { answer := if start = 0 then .error (.outOfMemory bytes) else .ok start
        source := { primitive, lastEnd := endOf start bytes, named := endOf_ne_zero start bytes }
        events := [.shifted bytes] }
    | some expected =>
      let (answer, primitive) := shift primitive (-bytes)
      { answer := .error (.nonContiguous expected start)
        source := { source with primitive }
        events := [.shifted bytes, .shifted (-bytes)] ++
          if answer = breakRefused then [.rollbackFailed bytes start] else [] }

/-- A byte count of 64 bits with the top one set is no increment and is refused outright. -/
def grow (source : BreakSource β) (bytes : Nat) : Grant (BreakSource β) :=
  if addressLimit / 2 ≤ bytes then { answer := .error (.outOfMemory bytes), source }
  else if source.lastEnd.isSome then source.claim bytes
  else
    let (aligned, primitive, moves) := pad source.primitive
    let padded := { source with primitive }
    if aligned then
      let grant := padded.claim bytes
      { grant with events := moves ++ grant.events }
    else { answer := .error (.outOfMemory bytes), source := padded, events := moves }

instance : Source (BreakSource β) := ⟨grow⟩

end BreakSource

end BoundaryTag
