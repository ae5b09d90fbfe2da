import BoundaryTag.Proofs.Readiness

namespace BoundaryTag.Machine

open scoped List

variable {σ : Type} [Source σ] [LawfulSource σ]

/-- The machine `t` comes after `s`, with the blocks `taken` and without the blocks `released`. -/
structure Reallots (s t : Machine σ) (taken released : List Block) : Prop where
  consistent : t.Consistent
  blocks : released ++ t.allocated ~ taken ++ s.allocated
  payload : ∀ block ∈ s.allocated, block ∉ released → ∀ address, block.PayloadByte address →
    t.memory.byte address = s.memory.byte address

variable {s t u : Machine σ} {x y : Extent} {blocks others taken released : List Block} {block : Block}

theorem Unset.reallots (unset : s.Unset) (consistent : t.Consistent) (none : t.allocated = []) :
    s.Reallots t [] [] where
  consistent := consistent
  blocks := by rw [unset.allocated_eq, none]
  payload block member := by
    rw [unset.allocated_eq] at member
    cases member

theorem Ready.reallots (ready : s.Ready x blocks) (after : t.Ready y others)
    (parts : released ++ others.filter (·.allocated) ~ taken ++ blocks.filter (·.allocated))
    (frame : ∀ address, ¬x.TagByte blocks address → ¬y.TagByte others address →
      t.memory.byte address = s.memory.byte address) :
    s.Reallots t taken released where
  consistent := after.consistent
  blocks := by rwa [ready.allocated_eq, after.allocated_eq]
  payload block member kept address inside := by
    have old := (ready.mem_allocated.mp member).1
    rw [ready.allocated_eq] at member
    have both := parts.mem_iff.mpr (List.mem_append_right taken member)
    have new := (List.mem_filter.mp ((List.mem_append.mp both).resolve_left kept)).1
    exact frame address (ready.tiled.payload_not_tag old inside) (after.tiled.payload_not_tag new inside)

theorem Ready.overwritten {m : Memory} (ready : s.Ready x blocks) (member : block ∈ blocks)
    (same : ∀ address, ¬block.PayloadByte address → m.byte address = s.memory.byte address) :
    s.Reallots { s with memory := m } [block] [block] := by
  have after := ready.congr fun address tag =>
    same address fun inside => ready.tiled.payload_not_tag member inside tag
  refine ⟨after.consistent, by rw [ready.allocated_eq, after.allocated_eq], ?_⟩
  intro other otherMember kept address inside
  have old := (ready.mem_allocated.mp otherMember).1
  refine same address (ready.tiled.payload_apart old member (fun equal => ?_) inside)
  exact kept (by simp [equal])

theorem Ready.unaffected {m : Memory} (ready : s.Ready x blocks)
    (same : ∀ address, x.start ≤ address → address < x.stop → m.byte address = s.memory.byte address) :
    s.Reallots { s with memory := m } [] [] := by
  have tiled := ready.tiled
  have after := ready.congr fun address tag => same address (tiled.tag_inside tag).1 (tiled.tag_inside tag).2
  refine ⟨after.consistent, by rw [ready.allocated_eq, after.allocated_eq], ?_⟩
  intro block member _ address inside
  have bounds := tiled.payload_inside (ready.mem_allocated.mp member).1 inside
  exact same address (by omega) bounds.2

namespace Reallots

theorem refl (consistent : s.Consistent) : s.Reallots s [] [] := ⟨consistent, .refl _, fun _ _ _ _ _ => rfl⟩

theorem kept (step : s.Reallots t taken released) (member : block ∈ s.allocated) (kept : block ∉ released) :
    block ∈ t.allocated := by
  have both := step.blocks.mem_iff.mpr (List.mem_append_right taken member)
  exact (List.mem_append.mp both).resolve_left kept

theorem mem_taken (step : s.Reallots t taken released) (member : block ∈ taken) (kept : block ∉ released) :
    block ∈ t.allocated := by
  have both := step.blocks.mem_iff.mpr (List.mem_append_left s.allocated member)
  exact (List.mem_append.mp both).resolve_left kept

theorem fresh (step : s.Reallots t [block] []) : block.addr ∉ s.allocated.map Block.addr := by
  have nodup := ((step.blocks.map Block.addr).nodup_iff).mp step.consistent.nodup
  exact (List.nodup_cons.mp nodup).1

theorem trans {taken' released' : List Block} (step : s.Reallots t taken released)
    (next : t.Reallots u taken' released') : s.Reallots u (taken' ++ taken) (released ++ released') where
  consistent := next.consistent
  blocks := by
    calc released ++ released' ++ u.allocated
        = released ++ (released' ++ u.allocated) := List.append_assoc ..
      _ ~ released ++ (taken' ++ t.allocated) := next.blocks.append_left released
      _ ~ taken' ++ (released ++ t.allocated) := List.perm_append_comm_assoc ..
      _ ~ taken' ++ (taken ++ s.allocated) := step.blocks.append_left taken'
      _ = taken' ++ taken ++ s.allocated := (List.append_assoc ..).symm
  payload block member kept address inside := by
    rw [List.mem_append, not_or] at kept
    rw [next.payload block (step.kept member kept.1) kept.2 address inside,
      step.payload block member kept.1 address inside]

theorem cancel (step : s.Reallots t (block :: taken) (block :: released)) (fresh : block ∉ s.allocated) :
    s.Reallots t taken released where
  consistent := step.consistent
  blocks := (List.perm_cons block).mp step.blocks
  payload other member kept address inside := by
    refine step.payload other member ?_ address inside
    rw [List.mem_cons, not_or]
    exact ⟨fun same => fresh (same ▸ member), kept⟩

end Reallots

end BoundaryTag.Machine
