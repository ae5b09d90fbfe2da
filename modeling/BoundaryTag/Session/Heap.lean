import BoundaryTag.Session.Client

namespace BoundaryTag

structure Session where
  clients : List Client
  memory : Memory := {}
  mode : Mode := .trusting

namespace Session

/-- Clients with heaps that are not set up yet, in arenas from `base` on. The first arena that cannot
    be had is the failure. -/
def clientsFrom (base : Nat) : List (Supply × Config) → Except AllocError (List Client)
  | [] => .ok []
  | (supply, config) :: rest => do
    let arena := supply.arena base
    let heap := { source := { source := ← supply.backing base }, config }
    return { heap, arena } :: (← clientsFrom arena.following rest)

def start (mode : Mode) (heaps : List (Supply × Config)) : Except AllocError Session :=
  return { clients := ← clientsFrom firstArena heaps, mode }

def report (outcome : Outcome) : Report :=
  let { reply, client, memory, events } := outcome
  let base := client.arena.base
  let events := events.map (·.relativeTo base)
  { reply
    initialized := client.heap.isInitialized
    heapSize := client.heap.size
    check := (client.heap.check memory).mapError (·.map (·.relativeTo base) (·.relativeTo base))
    blocks := (client.visibleBlocks memory).map client.block
    requests := events.filterMap Event.request?
    log := events.filterMap Event.log? }

def programBreak (session : Session) : ProgramBreak :=
  (session.clients.findSome? Client.break?).getD { position := 0, limit := 0 }

/-- The client with the given index takes a step. An action on the break needs no heap that uses it. -/
def step (session : Session) (index : Nat) (request : Request) : Except Refusal Report × Session :=
  match session.clients[index]? with
  | none => (.error .noSuchHeap, session)
  | some client =>
    match request with
    | .client operation =>
      let outcome := client.run session.memory session.mode operation
      (.ok (report outcome),
        { session with clients := session.clients.set index outcome.client, memory := outcome.memory })
    | .outside action =>
      let (accepted, moved) := session.programBreak.act action
      let reply := accepted.elim .nothing .moved
      (.ok (report { reply, client := client.withBreak moved, memory := session.memory }),
        { session with clients := session.clients.map (·.withBreak moved) })

def run (session : Session) : List (Nat × Request) → List (Except Refusal Report)
  | [] => []
  | (index, request) :: rest =>
    let (report, session) := session.step index request
    report :: session.run rest

end Session

end BoundaryTag
