namespace BoundaryTag

namespace Hex

def ofAddress (address : Nat) : String := "0x" ++ String.ofList (Nat.toDigits 16 address)

def ofBytes (bytes : List UInt8) : String :=
  String.ofList (bytes.flatMap fun byte => [Nat.digitChar (byte.toNat / 16), Nat.digitChar (byte.toNat % 16)])

end Hex

inductive Parameter where
  | initialSize
  | chunkSize
  deriving DecidableEq, Repr

inductive AllocError where
  | outOfMemory (requested : Nat)
  | nonContiguous (expected actual : Nat)
  | requestTooLarge (size : Nat)
  | invalidConfig (parameter : Parameter) (value : Nat)
  | invalidCapacity (capacity : Nat)
  deriving DecidableEq, Repr

def Parameter.name : Parameter → String
  | initialSize => "initial_size"
  | chunkSize => "chunk_size"

namespace AllocError

def message : AllocError → String
  | outOfMemory requested => s!"out of memory (requested: {requested} bytes)"
  | nonContiguous expected actual =>
    s!"provider returned {Hex.ofAddress actual}, expected contiguous growth at {Hex.ofAddress expected}"
  | requestTooLarge size => s!"request of {size} bytes exceeds the largest encodable block"
  | invalidConfig parameter value =>
    s!"invalid {parameter.name}: {value} (must be a multiple of 8 and at least 16)"
  | invalidCapacity capacity => s!"invalid region capacity: {capacity}"

def relativeTo (base : Nat) : AllocError → AllocError
  | nonContiguous expected actual => nonContiguous (expected - base) (actual - base)
  | error => error

end AllocError

end BoundaryTag
