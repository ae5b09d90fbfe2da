import BoundaryTag.Session.Operation
import BoundaryTag.Session.Supply

namespace BoundaryTag

structure RegionReport where
  /-- the offset of the grant from the start of the region -/
  answer : Except AllocError Nat
  used : Nat
  remaining : Nat

namespace Region

def reports (region : Region) : List Nat → List RegionReport
  | [] => []
  | bytes :: rest =>
    let { answer, source, .. } := region.grow bytes
    { answer := answer.map (· - region.base), used := source.used, remaining := source.remaining } ::
      source.reports rest

end Region

inductive BreakOperation where
  | grow (bytes : Nat)
  | outside (action : BreakAction)
  | unknown
  deriving DecidableEq, Repr

inductive BreakReply where
  | granted (answer : Except AllocError Nat)
  | moved (accepted : Bool)
  | nothing
  | refused (refusal : Refusal)

structure BreakReport where
  reply : BreakReply
  shifts : List Int
  position : Nat
  log : List LogLine

namespace BreakSource

def step (source : BreakSource ProgramBreak) (operation : BreakOperation) :
    BreakReport × BreakSource ProgramBreak :=
  let finish (reply : BreakReply) (source : BreakSource ProgramBreak) (events : List SourceEvent) :=
    ({ reply
       shifts := events.filterMap SourceEvent.shift?
       position := source.primitive.position
       log := events.filterMap SourceEvent.log? }, source)
  match operation with
  | .grow bytes =>
    let { answer, source, events } := source.grow bytes
    finish (.granted answer) source events
  | .outside action =>
    let (accepted, primitive) := source.primitive.act action
    finish (accepted.elim .nothing .moved) { source with primitive } []
  | .unknown => finish (.refused .unknownOperation) source []

def reports (source : BreakSource ProgramBreak) : List BreakOperation → List BreakReport
  | [] => []
  | operation :: rest =>
    let (report, source) := source.step operation
    report :: source.reports rest

end BreakSource

end BoundaryTag
