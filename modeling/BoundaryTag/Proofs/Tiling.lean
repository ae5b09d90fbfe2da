import BoundaryTag.Block
import Mathlib.Algebra.GroupWithZero.Nat
import Mathlib.Data.List.Nodup

namespace BoundaryTag

/-- The blocks lie side by side from `start` to `stop`. -/
def Tiles : Nat → List Block → Nat → Prop
  | start, [], stop => start = stop
  | start, block :: rest, stop =>
    block.addr = start ∧ block.size % unitSize = 0 ∧ minBlock ≤ block.size ∧ Tiles block.stop rest stop

namespace Tiles

variable {start middle stop : Nat} {blocks front back : List Block} {block other : Block}

theorem append_iff : Tiles start
    (front ++ back) stop ↔ ∃ middle, Tiles start front middle ∧ Tiles middle back stop := by
  induction front generalizing start with
  | nil => simp [Tiles]
  | cons block front ih =>
    simp only [List.cons_append, Tiles, ih]
    constructor
    · rintro ⟨begins, whole, least, middle, left, right⟩
      exact ⟨middle, ⟨begins, whole, least, left⟩, right⟩
    · rintro ⟨middle, ⟨begins, whole, least, left⟩, right⟩
      exact ⟨begins, whole, least, middle, left, right⟩

theorem append (left : Tiles start front middle) (right : Tiles middle back stop) :
    Tiles start (front ++ back) stop := append_iff.mpr ⟨middle, left, right⟩

theorem stop_eq (tiles : Tiles start blocks stop) : stop = start + (blocks.map Block.size).sum := by
  induction blocks generalizing start with
  | nil => simpa [Tiles] using tiles.symm
  | cons block rest ih =>
    obtain ⟨begins, -, -, tail⟩ := tiles
    have sum := ih tail
    simp only [Block.stop, List.map_cons, List.sum_cons] at sum ⊢
    omega

theorem start_le (tiles : Tiles start blocks stop) : start ≤ stop := by
  have sum := tiles.stop_eq
  omega

theorem eq_nil (tiles : Tiles start blocks start) : blocks = [] := by
  cases blocks with
  | nil => rfl
  | cons block rest =>
    obtain ⟨begins, -, least, tail⟩ := tiles
    have beyond := tail.start_le
    simp only [Block.stop, minBlock] at *
    omega

theorem stop_mod (tiles : Tiles start blocks stop) (aligned : start % unitSize = 0) : stop % unitSize = 0 := by
  induction blocks generalizing start with
  | nil => rw [← show start = stop from tiles]; exact aligned
  | cons block rest ih =>
    obtain ⟨begins, whole, -, tail⟩ := tiles
    refine ih tail ?_
    simp only [Block.stop, unitSize] at *
    omega

theorem around (tiles : Tiles start (front ++ block :: back) stop) :
    Tiles start front block.addr ∧ block.size % unitSize = 0 ∧ minBlock ≤ block.size ∧
      Tiles block.stop back stop := by
  obtain ⟨middle, left, begins, whole, least, right⟩ := append_iff.mp tiles
  exact ⟨begins ▸ left, whole, least, right⟩

theorem split {run : List Block} (tiles : Tiles start (front ++ run ++ back) stop) :
    ∃ lower upper, Tiles start front lower ∧ Tiles lower run upper ∧ Tiles upper back stop := by
  obtain ⟨upper, left, right⟩ := append_iff.mp tiles
  obtain ⟨lower, left, hole⟩ := append_iff.mp left
  exact ⟨lower, upper, left, hole, right⟩

theorem within (tiles : Tiles start blocks stop) (member : block ∈ blocks) :
    start ≤ block.addr ∧ block.stop ≤ stop ∧ block.size % unitSize = 0 ∧ minBlock ≤ block.size := by
  obtain ⟨front, back, rfl⟩ := List.append_of_mem member
  obtain ⟨left, whole, least, right⟩ := tiles.around
  exact ⟨left.start_le, right.start_le, whole, least⟩

theorem addr_mod (tiles : Tiles start blocks stop) (aligned : start % unitSize = 0) (member : block ∈ blocks) :
    block.addr % unitSize = 0 := by
  obtain ⟨front, back, rfl⟩ := List.append_of_mem member
  exact tiles.around.1.stop_mod aligned

theorem ordered (tiles : Tiles start blocks stop) : blocks.Pairwise fun a b => a.stop ≤ b.addr := by
  induction blocks generalizing start with
  | nil => exact .nil
  | cons block rest ih =>
    obtain ⟨-, -, -, tail⟩ := tiles
    exact .cons (fun other member => (tail.within member).1) (ih tail)

theorem apart (tiles : Tiles start blocks stop) (first : block ∈ blocks) (second : other ∈ blocks)
    (distinct : block ≠ other) : block.stop ≤ other.addr ∨ other.stop ≤ block.addr := by
  obtain ⟨front, back, rfl⟩ := List.append_of_mem first
  obtain ⟨left, -, -, right⟩ := tiles.around
  rcases List.mem_append.mp second with before | after
  · exact .inr (left.within before).2.1
  · rcases List.mem_cons.mp after with same | after
    · exact absurd same.symm distinct
    · exact .inl (right.within after).1

theorem eq_of_addr (tiles : Tiles start blocks stop) (first : block ∈ blocks) (second : other ∈ blocks)
    (same : block.addr = other.addr) : block = other := by
  by_contra distinct
  have positive := (tiles.within first).2.2.2
  have positive' := (tiles.within second).2.2.2
  have separate := tiles.apart first second distinct
  simp only [Block.stop, minBlock] at *
  omega

theorem nodup (tiles : Tiles start blocks stop) : (blocks.map Block.addr).Nodup := by
  rw [List.nodup_map_iff_inj_on]
  · exact fun a first b second same => tiles.eq_of_addr first second same
  · apply tiles.ordered.imp_of_mem
    intro a b first _ before equal
    have positive := (tiles.within first).2.2.2
    subst equal
    simp only [Block.stop, minBlock] at *
    omega

theorem cut (tiles : Tiles start (front ++ block :: back) stop) :
    (front ++ block :: back).takeWhile (·.addr < block.addr) = front ∧
      (front ++ block :: back).dropWhile (·.addr < block.addr) = block :: back := by
  have before : ∀ other ∈ front, decide (other.addr < block.addr) = true := by
    intro other member
    have bounds := tiles.around.1.within member
    simp only [Block.stop, minBlock, decide_eq_true_eq] at *
    omega
  rw [List.takeWhile_append_of_pos before, List.dropWhile_append_of_pos before]
  simp

theorem cut_low {addr : Nat} (tiles : Tiles start blocks stop) (low : addr ≤ start) :
    blocks.takeWhile (·.addr < addr) = [] ∧ blocks.dropWhile (·.addr < addr) = blocks := by
  cases blocks with
  | nil => exact ⟨rfl, rfl⟩
  | cons first rest =>
    have begins := tiles.1
    have above : ¬decide (first.addr < addr) = true := by simpa using by omega
    exact ⟨List.takeWhile_cons_of_neg above, List.dropWhile_cons_of_neg above⟩

theorem exchange (tiles : Tiles start (front ++ [block] ++ back) stop) (run : List Block) :
    ((front ++ [block] ++ back).flatMap fun other => if other = block then run else [other]) =
      front ++ run ++ back := by
  have nodup := tiles.nodup.of_map
  rw [List.append_assoc, List.singleton_append, List.nodup_middle, List.nodup_cons, List.mem_append, not_or] at nodup
  have apart : ∀ others : List Block, block ∉ others →
      (others.flatMap fun other => if other = block then run else [other]) = others := by
    intro others absent
    calc (others.flatMap fun other => if other = block then run else [other])
        = others.flatMap fun other => [other] := by
          refine List.flatMap_congr fun other member => if_neg ?_
          rintro rfl
          exact absent member
      _ = others := List.flatMap_singleton' others
  simp only [List.flatMap_append, apart front nodup.1.1, apart back nodup.1.2, List.flatMap_cons, if_true,
    List.flatMap_nil, List.append_nil]

end Tiles

end BoundaryTag
