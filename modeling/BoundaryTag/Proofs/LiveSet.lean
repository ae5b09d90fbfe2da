import BoundaryTag.Proofs.Balance

namespace BoundaryTag.World

open scoped List

variable {σ : Type} [Source σ] [LawfulSource σ] {mode : Mode} {w : World σ} {loan : Loan} {action : Action σ}

/-- What a client can count on while it holds a pointer. -/
structure Honours (w : World σ) (loan : Loan) : Prop where
  aligned : loan.addr % unitSize = 0
  usable : w.machine.memory.usableSize loan.addr = .ok loan.usable
  size : ∃ need, blockSizeFor? loan.request = some need ∧ (loan.usable = need - tagBytes ∨ loan.usable = need)
  enough : loan.request ≤ loan.usable
  inside : ∃ x, w.machine.heap.extent = some x ∧ ∀ address, loan.Byte address →
    x.start ≤ address ∧ address < x.stop ∧ ¬x.TagByte (x.blocks w.machine.memory) address

namespace Balanced

theorem honours (balanced : w.Balanced) (held : loan ∈ w.loans) : w.Honours loan := by
  have member := balanced.mem_allocated held
  obtain ⟨x, blocks, ready⟩ := balanced.consistent.ready member
  have usable := balanced.consistent.usableSize member
  obtain ⟨member, -⟩ := ready.mem_allocated.mp member
  have tiled := ready.tiled
  obtain ⟨need, adjusted, size⟩ := balanced.serves loan held
  obtain ⟨-, covers⟩ := isBlockSize_of_blockSizeFor? adjusted
  simp only [Loan.block] at size
  refine ⟨tiled.addr_mod member, usable, ⟨need, adjusted, by omega⟩, by omega, x, ready.extent, ?_⟩
  intro address byte
  have payload := Loan.byte_iff.mpr byte
  have bounds := tiled.payload_inside member payload
  rw [tiled.blocks_eq]
  exact ⟨by omega, bounds.2, tiled.payload_not_tag member payload⟩

theorem apart (balanced : w.Balanced) (held : loan ∈ w.loans) {other : Loan} (otherHeld : other ∈ w.loans)
    (distinct : loan ≠ other) {address : Nat} (byte : loan.Byte address) : ¬other.Byte address := by
  obtain ⟨x, blocks, ready⟩ := balanced.consistent.ready (balanced.mem_allocated held)
  have member := (ready.mem_allocated.mp (balanced.mem_allocated held)).1
  have otherMember := (ready.mem_allocated.mp (balanced.mem_allocated otherHeld)).1
  rw [← Loan.byte_iff] at byte ⊢
  refine ready.tiled.payload_apart member otherMember (fun same => distinct ?_) byte
  exact balanced.eq_of_addr held otherHeld (congrArg Block.addr same)

theorem answer_fresh (balanced : w.Balanced) {command : Command} (permitted : w.Permits (.command command))
    {pointer : Nat} (answered : w.answer? mode command = some (some pointer)) : pointer ∉ w.loans.map Loan.addr := by
  rcases balanced.consistent.perform command (balanced.live permitted) mode with
    ⟨cause, t, run, step⟩ | ⟨answer, t, run, taken, released, effect⟩
  · simp [answer?, run] at answered
  · obtain rfl : answer = some pointer := by simpa [answer?, run] using answered
    obtain ⟨block, rfl, same⟩ := Option.map_eq_some_iff.mp effect.handed
    rw [balanced.addrs.mem_iff, ← same]
    exact effect.fresh block rfl

theorem payload_after (balanced : w.Balanced) (permitted : w.Permits action) (held : loan ∈ w.loans)
    (spared : ¬w.Disturbs mode loan action) {address : Nat} (byte : loan.Byte address) :
    (w.after mode action).machine.memory.byte address = w.machine.memory.byte address := by
  have member := balanced.mem_allocated held
  have payload := Loan.byte_iff.mpr byte
  cases action with
  | command command =>
    rcases balanced.consistent.perform command (balanced.live permitted) mode with
      ⟨cause, t, run, step⟩ | ⟨answer, t, run, taken, released, effect⟩
    · simp only [World.after, run]
      exact step.payload loan.block member (by simp) address payload
    · simp only [World.after, run]
      refine effect.step.payload loan.block member (fun gone => spared ?_) address payload
      refine ⟨answer, by simp [answer?, run], ?_⟩
      rw [← effect.returned, Option.mem_toList.mp gone]
      rfl
  | write target value =>
    obtain ⟨changed, step, kept⟩ := balanced.write_step mode permitted
    exact step.payload loan.block member (kept loan held spared) address payload
  | drift source => exact (balanced.drift_step mode permitted).payload loan.block member (by simp) address payload

end Balanced

/-- The pointers on loan are the payloads of the allocated blocks, each once. What a pointer gives access to is
    aligned, large enough, of constant size, free of tags and of other payloads. No pointer is handed out while it
    is on loan. -/
theorem Reachable.live_set (reachable : w.Reachable mode) :
    w.machine.allocated.map Block.addr ~ w.loans.map Loan.addr ∧ (w.loans.map Loan.addr).Nodup ∧
      (∀ loan ∈ w.loans, w.Honours loan) ∧
      (∀ loan ∈ w.loans, ∀ other ∈ w.loans, loan ≠ other → ∀ address, loan.Byte address → ¬other.Byte address) ∧
      (∀ action, ∀ loan ∈ w.loans, ¬w.Ends mode loan action → loan ∈ (w.after mode action).loans) ∧
      ∀ command, w.Permits (.command command) → ∀ pointer, w.answer? mode command = some (some pointer) →
        pointer ∉ w.loans.map Loan.addr ∧
          ∃ loan ∈ (w.after mode (.command command)).loans,
            loan.addr = pointer ∧ loan.request = command.request := by
  have balanced := reachable.balanced
  refine ⟨balanced.addrs.symm, balanced.addrs.nodup_iff.mpr balanced.consistent.nodup, ?_, ?_, ?_, ?_⟩
  · exact fun loan held => balanced.honours held
  · exact fun loan held other otherHeld distinct address byte => balanced.apart held otherHeld distinct byte
  · exact fun action loan held stays => mem_after held stays
  · exact fun command permitted pointer answered =>
      ⟨balanced.answer_fresh permitted answered, mem_after_answer answered⟩

theorem trial_live_set :
    trial.machine.allocated.map Block.addr ~ trial.loans.map Loan.addr ∧ (trial.loans.map Loan.addr).Nodup ∧
      (∀ loan ∈ trial.loans, trial.Honours loan) ∧
      (∀ loan ∈ trial.loans, ∀ other ∈ trial.loans, loan ≠ other →
        ∀ address, loan.Byte address → ¬other.Byte address) ∧
      (∀ action, ∀ loan ∈ trial.loans, ¬trial.Ends .vetting loan action →
        loan ∈ (trial.after .vetting action).loans) ∧
      ∀ command, trial.Permits (.command command) →
        ∀ pointer, trial.answer? .vetting command = some (some pointer) →
          pointer ∉ trial.loans.map Loan.addr ∧
            ∃ loan ∈ (trial.after .vetting (.command command)).loans,
              loan.addr = pointer ∧ loan.request = command.request :=
  Reachable.live_set trial_reachable

/-- Nothing but a write into it or the end of the loan changes a payload, in one action or in many. -/
theorem Reachable.payload_preserved (reachable : w.Reachable mode) {actions : List (Action σ)}
    (permitted : w.PermitsAll mode actions) (held : loan ∈ w.loans) (spared : w.Spares mode loan actions) :
    w.machine.memory.usableSize loan.addr = .ok loan.usable ∧ ∀ address, loan.addr ≤ address →
      address < loan.addr + loan.usable →
        (w.run mode actions).machine.memory.byte address = w.machine.memory.byte address := by
  refine ⟨(reachable.balanced.honours held).usable, ?_⟩
  intro address above below
  -- the loan stays on the books, so the next world preserves its payload again
  induction actions generalizing w with
  | nil => rfl
  | cons action rest ih =>
    have stays : ¬w.Ends mode loan action := by
      cases action with
      | write target value => exact id
      | command command => exact spared.1
      | drift source => exact spared.1
    calc ((w.after mode action).run mode rest).machine.memory.byte address
        = (w.after mode action).machine.memory.byte address :=
          ih (reachable.after permitted.1) permitted.2 (mem_after held stays) spared.2
      _ = w.machine.memory.byte address := reachable.balanced.payload_after permitted.1 held spared.1 ⟨above, below⟩

theorem trial_payload_preserved :
    trial.machine.memory.usableSize trialLoan.addr = .ok trialLoan.usable ∧ ∀ address, trialLoan.addr ≤ address →
      address < trialLoan.addr + trialLoan.usable →
        (trial.run .vetting [.write 65584 1, .command (.reallocate (some 65584) 4)]).machine.memory.byte address =
          trial.machine.memory.byte address := by
  have held : trialLoan ∈ trial.loans := by decide +kernel
  have permitted : trial.PermitsAll .vetting [.write 65584 1, .command (.reallocate (some 65584) 4)] := by
    refine ⟨?_, ?_, trivial⟩
    · decide +kernel
    · decide +kernel
  have spared : trial.Spares .vetting trialLoan [.write 65584 1, .command (.reallocate (some 65584) 4)] := by
    refine ⟨?_, ?_, trivial⟩
    · decide +kernel
    · decide +kernel
  exact Reachable.payload_preserved trial_reachable permitted held spared

end BoundaryTag.World
