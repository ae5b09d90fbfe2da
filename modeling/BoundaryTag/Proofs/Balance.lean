import BoundaryTag.Proofs.World

namespace BoundaryTag.World

open scoped List

variable {σ : Type} [Source σ] [LawfulSource σ]

/-- The loans are the allocated blocks, and each serves its request. -/
structure Balanced (w : World σ) : Prop where
  consistent : w.machine.Consistent
  blocks : w.loans.map Loan.block ~ w.machine.allocated
  serves : ∀ loan ∈ w.loans, loan.block.Serves loan.request

variable {mode : Mode} {w : World σ} {t : Machine σ} {command : Command} {answer : Option Nat} {action : Action σ}

namespace Balanced

theorem fresh {source : σ} (config : Config) (memory : Memory) (stands : LawfulSource.EndsAt source none) :
    (World.fresh source config memory).Balanced := by
  have unset : (World.fresh source config memory).machine.Unset := ⟨rfl, stands⟩
  refine ⟨.inl unset, ?_, by simp [World.fresh]⟩
  rw [unset.allocated_eq]
  exact .nil

theorem addrs (balanced : w.Balanced) : w.loans.map Loan.addr ~ w.machine.allocated.map Block.addr := by
  have addrs := balanced.blocks.map Block.addr
  rwa [List.map_map] at addrs

theorem kept (balanced : w.Balanced) {released : Option Block}
    (held : ∀ block ∈ released, block ∈ w.machine.allocated) :
    released.toList ++ (w.kept (released.map Block.addr)).map Loan.block ~ w.machine.allocated := by
  cases released with
  | none => simpa [World.kept] using balanced.blocks
  | some block =>
    have left : (w.kept (some block.addr)).map Loan.block =
        (w.loans.map Loan.block).filter fun other => some block.addr ≠ some other.addr := by
      rw [List.filter_map]
      rfl
    obtain ⟨front, back, parts⟩ := List.append_of_mem (held block rfl)
    have nodup := balanced.consistent.nodup
    rw [parts, List.map_append, List.map_cons, List.nodup_middle, List.nodup_cons, ← List.map_append] at nodup
    have others : (w.machine.allocated.filter fun other => some block.addr ≠ some other.addr) = front ++ back := by
      rw [parts, List.filter_append, List.filter_cons_of_neg (by simp), ← List.filter_append, List.filter_eq_self]
      intro other member
      have distinct : block.addr ≠ other.addr := fun same => nodup.1 (same ▸ List.mem_map_of_mem member)
      simpa using distinct
    calc [block] ++ (w.kept (some block.addr)).map Loan.block
        ~ [block] ++ (front ++ back) := by
          rw [left, ← others]
          exact (balanced.blocks.filter _).append_left _
      _ ~ front ++ block :: back := List.Perm.symm List.perm_middle
      _ = w.machine.allocated := parts.symm

theorem lend_block {block : Block} (consistent : t.Consistent) (member : block ∈ t.allocated) (request : Nat) :
    (lend t request block.addr).block = block := by
  obtain ⟨x, blocks, ready⟩ := consistent.ready member
  obtain ⟨member, busy⟩ := ready.mem_allocated.mp member
  have tiled := ready.tiled
  obtain ⟨-, least, -⟩ := tiled.isBlockSize member
  have size := tiled.size_eq member
  have restored : block.size - tagBytes + tagBytes = block.size := by lia
  simp only [lend, Loan.block, size, restored, ← busy]

theorem lent {s : Machine σ} {taken released : Option Block} (effect : command.Effect s answer t taken released) :
    (answer.map (lend t command.request)).map Loan.block = taken := by
  rw [← effect.handed]
  cases taken with
  | none => rfl
  | some block =>
    exact congrArg some (lend_block effect.step.consistent (effect.mem_taken rfl) command.request)

theorem settle_blocks {taken released : Option Block} (balanced : w.Balanced)
    (effect : command.Effect w.machine answer t taken released) :
    (w.settle command answer t).loans.map Loan.block ~ t.allocated := by
  -- the released block is put back on both sides, so that the old books can be used
  apply (List.perm_append_left_iff released.toList).mp
  calc released.toList ++ (w.settle command answer t).loans.map Loan.block
      = released.toList ++ (taken.toList ++ (w.kept (released.map Block.addr)).map Loan.block) := by
        rw [World.settle, List.map_append, ← Option.toList_map, lent effect, effect.returned]
    _ ~ taken.toList ++ (released.toList ++ (w.kept (released.map Block.addr)).map Loan.block) :=
        List.perm_append_comm_assoc ..
    _ ~ taken.toList ++ w.machine.allocated := (balanced.kept effect.held).append_left _
    _ ~ released.toList ++ t.allocated := effect.step.blocks.symm

theorem settle_serves {taken released : Option Block} (balanced : w.Balanced)
    (effect : command.Effect w.machine answer t taken released) {loan : Loan}
    (held : loan ∈ (w.settle command answer t).loans) : loan.block.Serves loan.request := by
  rcases List.mem_append.mp held with new | old
  · have new := Option.mem_toList.mp new
    have block : loan.block ∈ taken := by
      rw [← lent effect]
      exact Option.mem_map_of_mem _ new
    obtain ⟨pointer, -, rfl⟩ := Option.map_eq_some_iff.mp new
    exact effect.serves _ block
  · exact balanced.serves loan (List.mem_filter.mp old).1

theorem settle {taken released : Option Block} (balanced : w.Balanced)
    (effect : command.Effect w.machine answer t taken released) : (w.settle command answer t).Balanced :=
  ⟨effect.step.consistent, balanced.settle_blocks effect, fun _ held => balanced.settle_serves effect held⟩

theorem unsettled {changed : List Block} (balanced : w.Balanced) (step : w.machine.Reallots t changed changed) :
    ({ w with machine := t } : World σ).Balanced :=
  have same := (List.perm_append_left_iff changed).mp step.blocks
  ⟨step.consistent, balanced.blocks.trans same.symm, balanced.serves⟩

theorem mem_allocated (balanced : w.Balanced) {loan : Loan} (held : loan ∈ w.loans) :
    loan.block ∈ w.machine.allocated :=
  balanced.blocks.mem_iff.mp (List.mem_map_of_mem held)

theorem eq_of_addr (balanced : w.Balanced) {loan other : Loan} (held : loan ∈ w.loans)
    (otherHeld : other ∈ w.loans) (same : loan.addr = other.addr) : loan = other :=
  List.inj_on_of_nodup_map (balanced.addrs.nodup_iff.mpr balanced.consistent.nodup) held otherHeld same

theorem write_step (balanced : w.Balanced) (mode : Mode) {address : Nat} {value : UInt8}
    (permitted : w.Permits (.write address value)) :
    ∃ changed, w.machine.Reallots (w.after mode (.write address value)).machine changed changed ∧
      ∀ loan ∈ w.loans, ¬loan.Byte address → loan.block ∉ changed := by
  rcases permitted with ⟨loan, held, byte⟩ | outside
  · obtain ⟨x, blocks, ready⟩ := balanced.consistent.ready (balanced.mem_allocated held)
    have member := (ready.mem_allocated.mp (balanced.mem_allocated held)).1
    refine ⟨[loan.block], ready.overwritten member fun other apart => ?_, fun other otherHeld apart same => ?_⟩
    · rw [Memory.byte_set, if_neg]
      rintro rfl
      exact apart (Loan.byte_iff.mpr byte)
    · have same := List.mem_singleton.mp same
      rw [← Loan.byte_iff, same, Loan.byte_iff] at apart
      exact apart byte
  · refine ⟨[], ?_, by simp⟩
    rcases balanced.consistent with unset | ⟨x, blocks, ready⟩
    · have after : (w.after mode (.write address value)).machine.Unset := ⟨unset.extent, unset.stands⟩
      exact unset.reallots (.inl after) after.allocated_eq
    · apply ready.unaffected
      intro other above below
      rw [Memory.byte_set, if_neg]
      rintro rfl
      exact outside x ready.extent ⟨above, below⟩

theorem drift_step (balanced : w.Balanced) (mode : Mode) {source : σ} (permitted : w.Permits (.drift source)) :
    w.machine.Reallots (w.after mode (.drift source)).machine [] [] := by
  rcases balanced.consistent with unset | ⟨x, blocks, ready⟩
  · have after : (w.after mode (.drift source)).machine.Unset := ⟨unset.extent, permitted none unset.stands⟩
    exact unset.reallots (.inl after) after.allocated_eq
  · have after : (w.after mode (.drift source)).machine.Ready x blocks :=
      ⟨ready.extent, ready.valid, permitted _ ready.stands, ready.sound⟩
    exact ready.reallots after (.refl _) fun _ _ _ => rfl

theorem idle_ready {x : Extent} {blocks : List Block} (balanced : w.Balanced) (mode : Mode)
    (permitted : w.Permits action) (idle : ∀ command, action ≠ .command command) (ready : w.machine.Ready x blocks) :
    (w.after mode action).machine.Ready x blocks := by
  cases action with
  | command command => exact absurd rfl (idle command)
  | write address value =>
    refine ready.congr fun other tag => ?_
    rw [Memory.byte_set, if_neg]
    rintro rfl
    rcases permitted with ⟨loan, held, byte⟩ | outside
    · have member := (ready.mem_allocated.mp (balanced.mem_allocated held)).1
      exact ready.tiled.payload_not_tag member (Loan.byte_iff.mpr byte) tag
    · exact outside x ready.extent (ready.tiled.tag_inside tag)
  | drift source => exact ⟨ready.extent, ready.valid, permitted _ ready.stands, ready.sound⟩

theorem live (balanced : w.Balanced) (permitted : w.Permits (.command command)) :
    ∀ p ∈ command.pointer?, p ∈ w.machine.allocated.map Block.addr :=
  fun p passed => balanced.addrs.mem_iff.mp (permitted p passed)

theorem course (balanced : w.Balanced) (mode : Mode) (permitted : w.Permits (.command command)) :
    ∃ result, w.machine.Course command result (w.after mode (.command command)).machine ∧
      w.answer? mode command = result.toOption := by
  obtain ⟨result, t, course⟩ := balanced.consistent.exists_course command (balanced.live permitted)
  have run := course.run mode
  refine ⟨result, ?_, ?_⟩ <;> cases result <;> simp only [World.after, answer?, run, HeapM.ends]
  · exact course
  · exact course
  · rfl
  · rfl

theorem answers (balanced : w.Balanced) (mode : Mode) (permitted : w.Permits (.command command)) (fault : Fault)
    (t : Machine σ) : command.perform mode w.machine ≠ .error (.fault fault) t := by
  obtain ⟨result, u, course⟩ := balanced.consistent.exists_course command (balanced.live permitted)
  rw [course.run mode]
  cases result <;> simp [HeapM.ends]

theorem after (balanced : w.Balanced) (permitted : w.Permits action) : (w.after mode action).Balanced := by
  cases action with
  | command command =>
    rcases balanced.consistent.perform command (balanced.live permitted) mode with
      ⟨cause, t, run, step⟩ | ⟨answer, t, run, taken, released, effect⟩
    · simp only [World.after, run]
      exact balanced.unsettled step
    · simp only [World.after, run]
      exact balanced.settle effect
  | write address value =>
    obtain ⟨changed, step, -⟩ := balanced.write_step mode permitted
    exact balanced.unsettled step
  | drift source => exact balanced.unsettled (balanced.drift_step mode permitted)

end Balanced

theorem Reachable.balanced (reachable : w.Reachable mode) : w.Balanced := by
  induction reachable with
  | fresh source config memory stands => exact .fresh config memory stands
  | after reachable permitted balanced => exact balanced.after permitted

end BoundaryTag.World
