import BoundaryTag.Proofs.Balance
import Mathlib.Order.Bounds.Basic

namespace BoundaryTag

/-- The multiples of `unitSize` with room for a header, a footer, and as many bytes as requested. -/
def carriers (request : Nat) : Set Nat := {size | size % unitSize = 0 ∧ minBlock ≤ size ∧ request + tagBytes ≤ size}

section

variable {bytes size request larger least : Nat}

theorem roundUp_le (whole : size % unitSize = 0) (covers : bytes ≤ size) : roundUp bytes ≤ size := by
  have slack := roundUp_lt bytes
  have aligned := roundUp_mod bytes
  lia

theorem isLeast_carriers (request : Nat) : IsLeast (carriers request) (max minBlock (roundUp (request + tagBytes))) := by
  have aligned := roundUp_mod (request + tagBytes)
  have covers := le_roundUp (request + tagBytes)
  refine ⟨⟨by lia, le_max_left .., covers.trans (le_max_right ..)⟩, ?_⟩
  rintro size ⟨whole, enough, carries⟩
  exact max_le enough (roundUp_le whole carries)

theorem blockSizeFor?_eq (isLeast : IsLeast (carriers request) least) :
    blockSizeFor? request = if least ≤ maxBlock then some least else none := by
  rw [isLeast.unique (isLeast_carriers request)]
  rfl

theorem carriers_subset (le : request ≤ larger) : carriers larger ⊆ carriers request := by
  rintro size ⟨whole, enough, carries⟩
  exact ⟨whole, enough, by omega⟩

theorem blockSizeFor?_mono (le : request ≤ larger) (adjusted : blockSizeFor? larger = some size) :
    ∃ less ≤ size, blockSizeFor? request = some less := by
  have below := (isLeast_carriers larger).mono (isLeast_carriers request) (carriers_subset le)
  rw [blockSizeFor?_eq (isLeast_carriers larger)] at adjusted
  rw [blockSizeFor?_eq (isLeast_carriers request)]
  split at adjusted
  · rename_i fits
    cases adjusted
    exact ⟨_, below, if_pos (below.trans fits)⟩
  · cases adjusted

end

namespace Word

def add? (a b : UInt64) : Option UInt64 := if a.toNat + b.toNat < addressLimit then some (a + b) else none

def mul? (a b : UInt64) : Option UInt64 := if a.toNat * b.toNat < addressLimit then some (a * b) else none

def blockSizeFor? (request : UInt64) : Option UInt64 :=
  if request ≤ .ofNat unitSize then some (.ofNat minBlock)
  else do
    let size := (← add? request (.ofNat (2 * unitSize - 1))) / .ofNat unitSize * .ofNat unitSize
    if size ≤ .ofNat maxBlock then some size else none

def bytesOfWords? (words : UInt64) : Option UInt64 := do
  mul? (← add? words (words % 2)) (.ofNat wordSize)

variable {a b : UInt64}

theorem add?_eq (fits : a.toNat + b.toNat < addressLimit) :
    ∃ sum, add? a b = some sum ∧ sum.toNat = a.toNat + b.toNat := by
  refine ⟨a + b, if_pos fits, ?_⟩
  rw [UInt64.toNat_add]
  exact Nat.mod_eq_of_lt fits

theorem mul?_eq (fits : a.toNat * b.toNat < addressLimit) :
    ∃ product, mul? a b = some product ∧ product.toNat = a.toNat * b.toNat := by
  refine ⟨a * b, if_pos fits, ?_⟩
  rw [UInt64.toNat_mul]
  exact Nat.mod_eq_of_lt fits

theorem blockSizeFor?_toNat (request : UInt64) :
    (blockSizeFor? request).map UInt64.toNat = BoundaryTag.blockSizeFor? request.toNat := by
  have unit : (UInt64.ofNat unitSize).toNat = unitSize := rfl
  have most : (UInt64.ofNat maxBlock).toNat = maxBlock := rfl
  have slack : (UInt64.ofNat (2 * unitSize - 1)).toNat = 2 * unitSize - 1 := rfl
  simp only [blockSizeFor?, UInt64.le_iff_toNat_le, unit]
  by_cases small : request.toNat ≤ unitSize
  · have least : IsLeast (carriers request.toNat) minBlock := ⟨⟨rfl, le_rfl, by lia⟩, fun _ carrier => carrier.2.1⟩
    rw [if_pos small, blockSizeFor?_eq least]
    rfl
  · have least : IsLeast (carriers request.toNat) ((request.toNat + (2 * unitSize - 1)) / unitSize * unitSize) := by
      refine ⟨⟨by lia, by lia, by lia⟩, ?_⟩
      rintro size ⟨whole, -, carries⟩
      lia
    rw [if_neg small, blockSizeFor?_eq least]
    by_cases fits : request.toNat + (2 * unitSize - 1) < addressLimit
    · obtain ⟨sum, added, exact⟩ := add?_eq (a := request) (b := .ofNat (2 * unitSize - 1)) fits
      have size : (sum / .ofNat unitSize * .ofNat unitSize).toNat =
          (request.toNat + (2 * unitSize - 1)) / unitSize * unitSize := by
        rw [UInt64.toNat_mul, UInt64.toNat_div, unit, exact, slack]
        exact Nat.mod_eq_of_lt (by lia)
      simp only [added, Option.bind_eq_bind, Option.bind_some, size, most]
      split
      · rw [Option.map_some, size]
      · rfl
    · have wraps : add? request (.ofNat (2 * unitSize - 1)) = none := if_neg fits
      simp only [wraps, Option.bind_eq_bind, Option.bind_none, Option.map_none]
      rw [if_neg (by lia)]

example : blockSizeFor? 4294967280 = some 4294967288 ∧ blockSizeFor? 4294967281 = none := by decide

theorem bytesOfWords?_toNat (words : UInt64) :
    (bytesOfWords? words).map UInt64.toNat = BoundaryTag.bytesOfWords? words.toNat := by
  have odd : (words % 2).toNat = words.toNat % 2 := UInt64.toNat_mod ..
  have even : roundUp (words.toNat * wordSize) = (words.toNat + words.toNat % 2) * wordSize := by
    simp only [roundUp]
    lia
  have rounded : BoundaryTag.bytesOfWords? words.toNat =
      if roundUp (words.toNat * wordSize) < addressLimit then some (roundUp (words.toNat * wordSize)) else none := rfl
  rw [rounded, even]
  by_cases fits : words.toNat + words.toNat % 2 < addressLimit
  · rw [← odd] at fits ⊢
    obtain ⟨sum, added, exact⟩ := add?_eq fits
    simp only [bytesOfWords?, added, Option.bind_eq_bind, Option.bind_some, ← exact]
    by_cases small : sum.toNat * wordSize < addressLimit
    · obtain ⟨product, multiplied, bytes⟩ := mul?_eq (a := sum) (b := .ofNat wordSize) small
      rw [multiplied, if_pos small, Option.map_some, bytes]
      rfl
    · have wraps : mul? sum (.ofNat wordSize) = none := if_neg small
      rw [wraps, if_neg small, Option.map_none]
  · have wraps : add? words (words % 2) = none := if_neg (by rwa [odd])
    simp only [bytesOfWords?, wraps, Option.bind_eq_bind, Option.bind_none, Option.map_none]
    rw [if_neg (by lia)]

end Word

namespace Machine

variable {σ : Type} [Source σ] [LawfulSource σ] {s t : Machine σ} {x y : Extent} {blocks : List Block}
  {bytes block : Nat}

theorem Ready.extend_holds (ready : s.Ready x blocks) (size : IsBlockSize bytes)
    (run : HeapM.extend x (bytes / wordSize) s = .ok (block, y) t) : bytes ≤ (t.memory.header block).size := by
  by_cases room : x.size - frameBytes + bytes ≤ maxBlock
  · cases answer : (Source.grow s.heap.source bytes).answer with
    | error cause =>
      rw [ready.extend_refused size room answer] at run
      cases run
    | ok start =>
      obtain ⟨left, before, rfl, free, closed⟩ := ready.sound.separated.cut_last
      obtain ⟨done, grown⟩ := ready.extend_grown ⟨free, by simp, closed, by simp⟩ size room answer
      rw [done] at run
      cases run
      rw [grown.tiled.size_eq (by simp)]
      exact Nat.le_add_right ..
  · rw [ready.extend_full size (Nat.lt_of_not_le room)] at run
    cases run

end Machine

/-- A request is rounded to the least size that carries it, whether it is computed on numbers or on words, and to none
    where a tag cannot hold that. What growth for it asks for survives the conversion to tag words and back, so the
    block that growth answers holds the request. -/
theorem request_rounding (size : UInt64) :
    (Word.blockSizeFor? size).map UInt64.toNat = blockSizeFor? size.toNat ∧
      (∃ least, IsLeast (carriers size.toNat) least ∧
        blockSizeFor? size.toNat = if least ≤ maxBlock then some least else none) ∧
      (∀ larger ≥ size, ∀ need, blockSizeFor? larger.toNat = some need →
        ∃ less ≤ need, blockSizeFor? size.toNat = some less) ∧
      ∀ need, blockSizeFor? size.toNat = some need →
        (∀ chunk, IsBlockSize chunk →
          bytesOfWords? (max need chunk / wordSize) = some (max need chunk) ∧
          (Word.bytesOfWords? (.ofNat (max need chunk / wordSize))).map UInt64.toNat = some (max need chunk)) ∧
        ∀ {σ : Type} [Source σ] [LawfulSource σ] {mode : Mode} {w : World σ} {x y : Extent} {t : Machine σ} {block : Nat},
          w.Reachable mode → w.machine.heap.extent = some x →
          HeapM.extend x (w.machine.growthFor need / wordSize) w.machine = .ok (block, y) t →
          need ≤ (t.memory.header block).size := by
  refine ⟨Word.blockSizeFor?_toNat size, ⟨_, isLeast_carriers _, rfl⟩, ?_, ?_⟩
  · intro larger le need adjusted
    exact blockSizeFor?_mono (UInt64.le_iff_toNat_le.mp le) adjusted
  · intro need adjusted
    obtain ⟨needed, -⟩ := isBlockSize_of_blockSizeFor? adjusted
    refine ⟨fun chunk valid => ?_, fun reachable extent run => ?_⟩
    · have bytes := bytesOfWords?_eq (needed.max valid)
      have word : (UInt64.ofNat (max need chunk / wordSize)).toNat = max need chunk / wordSize := by
        have small := (needed.max valid).2.2
        exact UInt64.toNat_ofNat_of_lt' (by lia)
      exact ⟨bytes, by rw [Word.bytesOfWords?_toNat, word, bytes]⟩
    · have ready := reachable.balanced.consistent.ready_of_extent extent
      exact (Nat.le_max_left ..).trans (ready.extend_holds (ready.growth_size adjusted) run)

end BoundaryTag
