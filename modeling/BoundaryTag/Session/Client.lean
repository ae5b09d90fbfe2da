import BoundaryTag.Heap.Allocate
import BoundaryTag.Session.Operation
import BoundaryTag.Session.Supply

namespace BoundaryTag

/-- The elements up to the first one with the property, that one included. -/
def throughFirst {α : Type} (p : α → Bool) : List α → List α
  | [] => []
  | a :: rest => if p a then [a] else a :: throughFirst p rest

structure Client where
  heap : Heap (Throttle Backing)
  arena : Arena
  slots : Nat → Option Nat := fun _ => none

structure Outcome where
  reply : Reply
  client : Client
  memory : Memory
  events : List Event := []

namespace Client

def visibleBlocks (client : Client) (m : Memory) : List Block :=
  let blocks := client.heap.blocks m
  match blocks with
  | [] => []
  | first :: _ => throughFirst (first.addr + client.heap.size < ·.stop + frameBytes) blocks

def damaged (client : Client) (m : Memory) : Bool := !(client.heap.check m).isOk

def isLive (client : Client) (m : Memory) (address : Nat) : Bool :=
  !client.damaged m && (client.visibleBlocks m).any fun block => block.allocated && block.addr == address

/-- Releasing the pointer would break the heap's promise to its callers. -/
def misuses (client : Client) (m : Memory) (mode : Mode) (pointer : Option Nat) : Bool :=
  mode == .trusting && client.heap.isInitialized && pointer.any (!client.isLive m ·)

def address (client : Client) : Pointer → Option Nat
  | .offset offset => client.arena.base + offset
  | .slot slot => client.slots slot

def offset (client : Client) (address : Nat) : Nat := address - client.arena.base

def store (client : Client) (slot : Nat) (pointer : Option Nat) : Client :=
  { client with slots := fun i => if i = slot then pointer else client.slots i }

def range? (client : Client) (pointer : Pointer) (length : Nat) : Option Nat :=
  (client.address pointer).filter (client.offset · + length ≤ client.arena.length)

def block (client : Client) (block : Block) : Block := { block with addr := client.offset block.addr }

def break? (client : Client) : Option ProgramBreak := client.heap.source.source.break?

def withBreak (client : Client) (moved : ProgramBreak) : Client :=
  let source := { client.heap.source with source := client.heap.source.source.withBreak moved }
  { client with heap := { client.heap with source } }

def perform {α : Type} (client : Client) (m : Memory) (operation : HeapM (Throttle Backing) α)
    (answer : Client → α → Reply × Client) (failed : Client → Client := id) : Outcome :=
  match operation { heap := client.heap, memory := m } with
  | .ok value s =>
    let (reply, client) := answer { client with heap := s.heap } value
    { reply, client, memory := s.memory, events := s.trace }
  | .error (.failed cause) s =>
    { reply := .failed (cause.relativeTo client.arena.base)
      client := failed { client with heap := s.heap }
      memory := s.memory
      events := s.trace }
  | .error (.fault fault) s =>
    { reply := .faulted (fault.relativeTo client.arena.base)
      client := { client with heap := s.heap }
      memory := s.memory
      events := s.trace }

def keep (slot : Nat) (client : Client) (pointer : Option Nat) : Reply × Client :=
  (.pointer (pointer.map client.offset), client.store slot pointer)

def run (client : Client) (m : Memory) (mode : Mode) (operation : Operation) : Outcome :=
  let answer (reply : Reply) : Outcome := { reply, client, memory := m }
  let access (pointer : Pointer) (length : Nat) (use : Nat → Outcome) : Outcome :=
    (client.range? pointer length).elim (answer (.refused .outOfRange)) use
  match operation with
  | .init => client.perform m HeapM.init fun client _ => (.done, client)
  | .tryAllocate slot size =>
    if client.damaged m then answer (.refused .damagedHeap)
    else client.perform m (HeapM.tryAllocate size) (keep slot) (·.store slot none)
  | .allocate slot size =>
    if client.damaged m then answer (.refused .damagedHeap)
    else client.perform m (HeapM.allocate size) (keep slot)
  | .free pointer =>
    let released := client.address pointer
    if client.misuses m mode released then answer (.refused .notLive)
    else client.perform m (HeapM.free mode released) fun client _ => (.done, client)
  | .reallocate pointer size slot =>
    let released := client.address pointer
    if client.misuses m mode released || released.isNone && client.damaged m then answer (.refused .notLive)
    else client.perform m (HeapM.reallocate mode released size) fun client moved =>
      if size = 0 ∨ moved.isSome then keep slot client moved else (.pointer none, client)
  | .usableSize pointer =>
    match (client.address pointer).filter (client.isLive m) with
    | none => answer (.refused .notLive)
    | some block =>
      match m.usableSize block with
      | .ok bytes => answer (.size bytes)
      | .error fault => answer (.faulted fault)
  | .fill pointer length seed =>
    access pointer length fun start => { answer .done with memory := m.fill start length seed }
  | .poke pointer value =>
    access pointer wordSize fun start => { answer .done with memory := m.setWord start (UInt32.ofNat value) }
  | .readBytes pointer length => access pointer length fun start => answer (.bytes (m.readBytes start length))
  | .readWords pointer count =>
    access pointer (wordSize * count) fun start => answer (.words (m.readWords start count))
  | .blocks => answer (.blocks ((client.visibleBlocks m).map client.block))
  | .config => answer (.config client.heap.config)
  | .source =>
    match client.heap.source.source with
    | .region region => answer (.room region.capacity region.used region.remaining)
    | .shared source => answer (.position (client.offset source.primitive.position))
  | .throttle refusing allowance =>
    let source := { client.heap.source with refusing, allowance }
    { answer .nothing with client := { client with heap := { client.heap with source } } }
  | .unknown => answer (.refused .unknownOperation)

end Client

end BoundaryTag
