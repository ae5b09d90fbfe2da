import BoundaryTag.Block
import BoundaryTag.Source.Basic

namespace BoundaryTag

abbrev defaultChunk : Nat := 4096

structure Config where
  initialSize : Nat := defaultChunk
  /-- least growth when no block fits -/
  chunkSize : Nat := defaultChunk
  deriving DecidableEq, Repr

namespace Config

def validate (config : Config) : Except AllocError Unit :=
  if ¬IsBlockSize config.initialSize then .error (.invalidConfig .initialSize config.initialSize)
  else if ¬IsBlockSize config.chunkSize then .error (.invalidConfig .chunkSize config.chunkSize)
  else .ok ()

theorem validate_eq_ok_iff (config : Config) :
    config.validate = .ok () ↔ IsBlockSize config.initialSize ∧ IsBlockSize config.chunkSize := by
  by_cases initial : IsBlockSize config.initialSize <;> by_cases chunk : IsBlockSize config.chunkSize <;>
    simp [validate, initial, chunk]

end Config

/-- Bytes of a heap without blocks: a padding word, the start sentinel and the end sentinel. -/
abbrev frameBytes : Nat := 16

/-- The stretch of memory that a heap was granted. Blocks lie between two sentinels: an allocated
    block of `unitSize` at the start, and at `stop` a header of size zero. -/
structure Extent where
  start : Nat
  size : Nat
  /-- where the next search starts -/
  cursor : Nat
  deriving DecidableEq, Repr

namespace Extent

def startSentinel (x : Extent) : Nat := x.start + unitSize

def stop (x : Extent) : Nat := x.start + x.size

def first (x : Extent) (m : Memory) : Nat := m.next x.startSentinel

def blocks (x : Extent) (m : Memory) : List Block := m.walk (x.first m)

end Extent

structure Heap (σ : Type) where
  source : σ
  config : Config := {}
  extent : Option Extent := none

namespace Heap

variable {σ : Type}

def isInitialized (heap : Heap σ) : Bool := heap.extent.isSome

def size (heap : Heap σ) : Nat := heap.extent.elim 0 Extent.size

def blocks (heap : Heap σ) (m : Memory) : List Block := heap.extent.elim [] fun x => x.blocks m

end Heap

/-- A heap with the memory it works on and the events of its work, oldest first. -/
structure Machine (σ : Type) where
  heap : Heap σ
  memory : Memory
  trace : List Event := []

/-- What an operation changed before it stopped stays changed. -/
abbrev HeapM (σ α : Type) := EStateM (Stop AllocError) (Machine σ) α

namespace HeapM

variable {σ α : Type}

def fail (cause : AllocError) : HeapM σ α := throw (.failed cause)

def ofAnswer (answer : Except AllocError α) : HeapM σ α :=
  match answer with
  | .ok value => pure value
  | .error cause => fail cause

def ofChecked (value : Except Fault α) : HeapM σ α :=
  match value with
  | .ok value => pure value
  | .error fault => throw (.fault fault)

def memory : HeapM σ Memory := return (← get).memory

def config : HeapM σ Config := return (← get).heap.config

def record (events : List Event) : HeapM σ Unit := modify fun s => { s with trace := s.trace ++ events }

def setMemory (m : Memory) : HeapM σ Unit := modify fun s => { s with memory := m }

def setExtent (x : Extent) : HeapM σ Unit := modify fun s => { s with heap := { s.heap with extent := x } }

/-- Turns a failure into a value. A fault still stops the operation. -/
def attempt (operation : HeapM σ α) : HeapM σ (Except AllocError α) := fun s =>
  match operation s with
  | .ok value s => .ok (.ok value) s
  | .error (.failed cause) s => .ok (.error cause) s
  | .error (.fault fault) s => .error (.fault fault) s

end HeapM

end BoundaryTag
