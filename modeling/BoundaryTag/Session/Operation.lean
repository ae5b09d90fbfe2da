import BoundaryTag.Heap.Check
import BoundaryTag.Source.Break

namespace BoundaryTag

inductive Pointer where
  | offset (offset : Nat)
  | slot (slot : Nat)
  deriving DecidableEq, Repr

inductive Operation where
  | init
  | tryAllocate (slot size : Nat)
  | allocate (slot size : Nat)
  | free (pointer : Pointer)
  /-- stores the payload in `slot` unless the request failed -/
  | reallocate (pointer : Pointer) (size slot : Nat)
  | usableSize (pointer : Pointer)
  | fill (pointer : Pointer) (length seed : Nat)
  | poke (pointer : Pointer) (value : Nat)
  | readBytes (pointer : Pointer) (length : Nat)
  | readWords (pointer : Pointer) (count : Nat)
  | blocks
  | config
  | source
  | throttle (refusing : Bool) (allowance : Option Nat)
  | unknown
  deriving DecidableEq, Repr

inductive Request where
  | client (operation : Operation)
  | outside (action : BreakAction)
  deriving DecidableEq, Repr

inductive Refusal where
  | damagedHeap
  | notLive
  | outOfRange
  | unknownOperation
  | unknownKind
  | noSuchHeap
  deriving DecidableEq, Repr

def Refusal.message : Refusal → String
  | damagedHeap => "damaged heap"
  | notLive => "not a live block"
  | outOfRange => "out of range"
  | unknownOperation => "unknown op"
  | unknownKind => "unknown kind"
  | noSuchHeap => "no such heap"

inductive Reply where
  | done
  | nothing
  | pointer (offset : Option Nat)
  | size (bytes : Nat)
  | bytes (content : List UInt8)
  | words (content : List UInt32)
  | blocks (list : List Block)
  | config (config : Config)
  | room (capacity used remaining : Nat)
  | position (offset : Nat)
  | moved (accepted : Bool)
  | refused (refusal : Refusal)
  | failed (cause : AllocError)
  | faulted (fault : Fault)

structure Report where
  reply : Reply
  initialized : Bool
  heapSize : Nat
  check : CheckM Stats
  blocks : List Block
  requests : List (Nat × Except AllocError Nat)
  log : List LogLine

end BoundaryTag
