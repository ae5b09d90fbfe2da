import BoundaryTag.Source.Break
import BoundaryTag.Source.Region

namespace BoundaryTag

structure Arena where
  base : Nat
  length : Nat
  deriving DecidableEq, Repr

abbrev firstArena : Nat := 0x10000

/-- There is no room for arenas of this size and more. -/
abbrev hugeCapacity : Nat := 0x4000000000000

def Region.reserve (base capacity : Nat) : Except AllocError Region :=
  Region.allocate capacity (if capacity < hugeCapacity then some base else none)

def Arena.following (arena : Arena) : Nat :=
  (arena.base + arena.length) / regionAlign * regionAlign + firstArena

inductive Backing where
  | region (source : Region)
  | shared (source : BreakSource ProgramBreak)

namespace Backing

def grow (backing : Backing) (bytes : Nat) : Grant Backing :=
  match backing with
  | .region source =>
    let grant := source.grow bytes
    { answer := grant.answer, source := .region grant.source, events := grant.events }
  | .shared source =>
    let grant := source.grow bytes
    { answer := grant.answer, source := .shared grant.source, events := grant.events }

instance : Source Backing := ⟨grow⟩

def break? : Backing → Option ProgramBreak
  | .region _ => none
  | .shared source => some source.primitive

def withBreak (backing : Backing) (moved : ProgramBreak) : Backing :=
  match backing with
  | .region source => .region source
  | .shared source => .shared { source with primitive := moved }

end Backing

inductive Supply where
  /-- a region whose first `shift` bytes go to someone else -/
  | region (capacity shift : Nat)
  | reserved (capacity : Nat)
  | programBreak (capacity start : Nat)
  deriving DecidableEq, Repr

namespace Supply

def arena (supply : Supply) (base : Nat) : Arena :=
  match supply with
  | region capacity _ | reserved capacity => { base, length := capacity }
  | programBreak capacity _ =>
    { base, length := regionAlign * ((capacity + (regionAlign - 1)) / regionAlign + 1) }

def backing (supply : Supply) (base : Nat) : Except AllocError Backing :=
  match supply with
  | region capacity shift => do
    let grant := (← Region.reserve base capacity).grow shift
    let _ ← grant.answer
    return .region grant.source
  | reserved capacity => .ok (.region (.fresh base capacity))
  | programBreak capacity start =>
    .ok (.shared (.fresh { position := base + start, floor := base, limit := base + capacity }))

end Supply

end BoundaryTag
