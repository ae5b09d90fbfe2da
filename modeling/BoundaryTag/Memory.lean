import Std.Data.TreeMap.Lemmas

namespace BoundaryTag

/-- Addresses that were never written hold zero. -/
structure Memory where
  bytes : Std.TreeMap Nat UInt8 := ∅

namespace Memory

variable {m : Memory} {start count address : Nat}

def byte (m : Memory) (address : Nat) : UInt8 := m.bytes.getD address 0

def set (m : Memory) (address : Nat) (value : UInt8) : Memory := ⟨m.bytes.insert address value⟩

def write (m : Memory) (start count : Nat) (value : Nat → UInt8) : Memory :=
  count.fold (fun i _ written => written.set (start + i) (value i)) m

def word (m : Memory) (address : Nat) : UInt32 :=
  UInt32.ofNat ((m.byte address).toNat + 256 * (m.byte (address + 1)).toNat +
    0x10000 * (m.byte (address + 2)).toNat + 0x1000000 * (m.byte (address + 3)).toNat)

def setWord (m : Memory) (address : Nat) (value : UInt32) : Memory :=
  m.write address 4 fun i => UInt8.ofNat (value.toNat >>> (8 * i))

/-- Reads all of the source before it writes. -/
def copy (m : Memory) (source target count : Nat) : Memory :=
  m.write target count fun i => m.byte (source + i)

def fill (m : Memory) (start count seed : Nat) : Memory :=
  m.write start count fun i => UInt8.ofNat (seed + i)

def readBytes (m : Memory) (start count : Nat) : List UInt8 :=
  (List.range count).map fun i => m.byte (start + i)

def readWords (m : Memory) (start count : Nat) : List UInt32 :=
  (List.range count).map fun i => m.word (start + 4 * i)

theorem byte_set (m : Memory) (target : Nat) (value : UInt8) (address : Nat) :
    (m.set target value).byte address = if address = target then value else m.byte address := by
  simp only [byte, set, Std.TreeMap.getD_insert, Nat.compare_eq_eq, eq_comm (a := target)]

theorem byte_write (m : Memory) (start count : Nat) (value : Nat → UInt8) (address : Nat) :
    (m.write start count value).byte address =
      if start ≤ address ∧ address < start + count then value (address - start) else m.byte address := by
  induction count with
  | zero => simp only [write, Nat.fold_zero, show ¬(start ≤ address ∧ address < start + 0) by omega, if_false]
  | succ count ih =>
    simp only [write, Nat.fold_succ] at ih ⊢
    rw [byte_set, ih]
    by_cases last : address = start + count
    · subst last
      rw [if_pos rfl, if_pos (by omega), Nat.add_sub_cancel_left]
    · simp only [last, if_false, show (start ≤ address ∧ address < start + (count + 1)) ↔
        (start ≤ address ∧ address < start + count) by omega]

theorem byte_write_of_outside {value : Nat → UInt8} (outside : address < start ∨ start + count ≤ address) :
    (m.write start count value).byte address = m.byte address := by
  rw [byte_write, if_neg (by omega)]

theorem byte_setWord_of_outside {target : Nat} {value : UInt32}
    (outside : address < target ∨ target + 4 ≤ address) :
    (m.setWord target value).byte address = m.byte address :=
  byte_write_of_outside outside

theorem word_congr {other : Memory} (same : ∀ i < 4, other.byte (address + i) = m.byte (address + i)) :
    other.word address = m.word address := by
  have first := same 0 (by omega)
  simp only [word, Nat.add_zero] at first ⊢
  rw [first, same 1 (by omega), same 2 (by omega), same 3 (by omega)]

theorem word_setWord (m : Memory) (address : Nat) (value : UInt32) :
    (m.setWord address value).word address = value := by
  have bound := value.toNat_lt
  have lanes : ∀ i < 4, (m.setWord address value).byte (address + i) = UInt8.ofNat (value.toNat >>> (8 * i)) := by
    intro i small
    rw [setWord, byte_write, if_pos (by omega), Nat.add_sub_cancel_left]
  have first := lanes 0 (by omega)
  simp only [Nat.add_zero] at first
  apply UInt32.toNat_inj.mp
  simp only [word, first, lanes 1 (by omega), lanes 2 (by omega), lanes 3 (by omega), UInt32.toNat_ofNat',
    UInt8.toNat_ofNat']
  omega

theorem word_setWord_of_disjoint {target : Nat} {value : UInt32}
    (apart : address + 4 ≤ target ∨ target + 4 ≤ address) :
    (m.setWord target value).word address = m.word address :=
  word_congr fun _ small => byte_setWord_of_outside (by omega)

theorem byte_copy (m : Memory) (source target count address : Nat) :
    (m.copy source target count).byte address =
      if target ≤ address ∧ address < target + count then m.byte (source + (address - target))
      else m.byte address :=
  byte_write ..

end Memory

end BoundaryTag
