import BoundaryTag.Error

namespace BoundaryTag

inductive SourceEvent where
  | shifted (increment : Int)
  | rollbackFailed (bytes addr : Nat)
  deriving DecidableEq, Repr

inductive Event where
  | requested (bytes : Nat) (answer : Except AllocError Nat)
  | source (event : SourceEvent)
  | initialized (start : Nat)
  | grown (bytes total : Nat)
  | placed (payload size : Nat)
  | split (payload size rest : Nat)
  | merged (block size result : Nat)
  | allocationFailed (size : Nat) (cause : AllocError)
  | releaseFailed (addr : Nat) (cause : AllocError)

inductive LogLevel where
  | debug
  | trace
  | warn
  deriving DecidableEq, Repr

def LogLevel.name : LogLevel → String
  | debug => "DEBUG"
  | trace => "TRACE"
  | warn => "WARN"

structure LogLine where
  level : LogLevel
  text : String
  deriving DecidableEq, Repr

def LogLine.render (line : LogLine) : String := s!"{line.level.name} {line.text}"

namespace SourceEvent

def log? : SourceEvent → Option LogLine
  | shifted _ => none
  | rollbackFailed bytes addr =>
    some ⟨.warn, s!"could not roll back {bytes} bytes of non-contiguous growth at {Hex.ofAddress addr}"⟩

def shift? : SourceEvent → Option Int
  | shifted increment => some increment
  | rollbackFailed .. => none

def relativeTo (base : Nat) : SourceEvent → SourceEvent
  | shifted increment => shifted increment
  | rollbackFailed bytes addr => rollbackFailed bytes (addr - base)

end SourceEvent

namespace Event

def log? : Event → Option LogLine
  | requested .. => none
  | source event => event.log?
  | initialized start => some ⟨.debug, s!"heap initialized at {Hex.ofAddress start}"⟩
  | grown bytes total => some ⟨.debug, s!"heap grown by {bytes} bytes to {total} bytes"⟩
  | placed payload size => some ⟨.trace, s!"placed {size} bytes at {Hex.ofAddress payload}"⟩
  | split payload size rest =>
    some ⟨.trace, s!"placed {size} bytes at {Hex.ofAddress payload}, split off {rest} bytes"⟩
  | merged block size result =>
    some ⟨.trace, s!"coalesced {Hex.ofAddress block} into {size} bytes at {Hex.ofAddress result}"⟩
  | allocationFailed size cause => some ⟨.warn, s!"allocation of {size} bytes failed: {cause.message}"⟩
  | releaseFailed addr cause =>
    some ⟨.warn, s!"free of {Hex.ofAddress addr} on a heap that failed to initialize: {cause.message}"⟩

def request? : Event → Option (Nat × Except AllocError Nat)
  | requested bytes answer => some (bytes, answer)
  | _ => none

def relativeTo (base : Nat) : Event → Event
  | requested bytes (.ok start) => requested bytes (.ok (start - base))
  | requested bytes (.error cause) => requested bytes (.error (cause.relativeTo base))
  | source event => source (event.relativeTo base)
  | initialized start => initialized (start - base)
  | grown bytes total => grown bytes total
  | placed payload size => placed (payload - base) size
  | split payload size rest => split (payload - base) size rest
  | merged block size result => merged (block - base) size (result - base)
  | allocationFailed size cause => allocationFailed size (cause.relativeTo base)
  | releaseFailed addr cause => releaseFailed (addr - base) (cause.relativeTo base)

end Event

end BoundaryTag
