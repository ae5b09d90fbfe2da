import BoundaryTag.Event

namespace BoundaryTag

structure Grant (σ : Type) where
  answer : Except AllocError Nat
  source : σ
  events : List SourceEvent := []

/-- Hands out memory that directly follows what it handed out before, from a multiple of `unitSize`
    on, and never takes any back. A refusal leaves the source as it is. -/
class Source (σ : Type) where
  grow : σ → Nat → Grant σ

structure Throttle (σ : Type) where
  source : σ
  refusing : Bool := false
  allowance : Option Nat := none

namespace Throttle

variable {σ : Type} [Source σ]

/-- Only a grant that succeeds uses up the allowance. -/
def grow (throttle : Throttle σ) (bytes : Nat) : Grant (Throttle σ) :=
  if throttle.refusing ∨ throttle.allowance = some 0 then
    { answer := .error (.outOfMemory bytes), source := throttle }
  else
    let grant := Source.grow throttle.source bytes
    let allowance := if grant.answer.isOk then throttle.allowance.map (· - 1) else throttle.allowance
    { grant with source := { throttle with source := grant.source, allowance } }

instance : Source (Throttle σ) := ⟨grow⟩

end Throttle

end BoundaryTag
