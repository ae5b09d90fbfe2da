import BoundaryTag.Proofs.Allocation

namespace BoundaryTag

namespace Command

/-- The blocks that a command took and released where it did not fail. -/
structure Effect {σ : Type} [Source σ] [LawfulSource σ] (command : Command) (s : Machine σ) (answer : Option Nat)
    (t : Machine σ) (taken released : Option Block) : Prop where
  step : s.Reallots t taken.toList released.toList
  handed : taken.map Block.addr = answer
  serves : ∀ block ∈ taken, block.Serves command.request
  fresh : ∀ block ∈ taken, block.addr ∉ s.allocated.map Block.addr
  returned : released.map Block.addr = command.released? answer
  held : ∀ block ∈ released, block ∈ s.allocated

theorem Effect.mem_taken {σ : Type} [Source σ] [LawfulSource σ] {command : Command} {s t : Machine σ}
    {answer : Option Nat} {taken released : Option Block} {block : Block}
    (effect : command.Effect s answer t taken released) (member : block ∈ taken) : block ∈ t.allocated := by
  apply effect.step.mem_taken (Option.mem_toList.mpr member)
  intro old
  exact effect.fresh block member (List.mem_map_of_mem (effect.held block (Option.mem_toList.mp old)))

end Command

namespace Machine

variable {σ : Type} [Source σ] [LawfulSource σ] {s t : Machine σ} {command : Command} {answer : Option Nat}

theorem Reallots.effect (step : s.Reallots t [] []) (keeps : command.released? none = none) :
    ∃ taken released, command.Effect s none t taken released :=
  ⟨none, none, step, rfl, by simp, by simp, keeps.symm, by simp⟩

theorem Served.effect (served : s.Served command.request answer t) (keeps : command.released? answer = none) :
    ∃ taken released, command.Effect s answer t taken released := by
  cases served with
  | null step => exact step.effect keeps
  | @block _ block serves step =>
    refine ⟨some block, none, step, rfl, ?_, ?_, keeps.symm, by simp⟩
    · rintro _ ⟨⟩
      exact serves
    · rintro _ ⟨⟩
      exact step.fresh

/-- A reallocation takes the new block before it releases the old one. -/
theorem Serving.moved {u : Machine σ} {x y z : Extent} {blocks others rest : List Block} {block : Block}
    {size target : Nat} (serving : s.Serving x blocks size (.ok (some target)) t y others) (ready : s.Ready x blocks)
    (busy : block.allocated = true)
    (releasing : (t.copied block.addr target (min size (block.size - tagBytes))).Releasing y others block u z rest) :
    ∃ new : Block, new.addr = target ∧ new.Serves size ∧ new.addr ∉ s.allocated.map Block.addr ∧
      s.Reallots u [new] [block] := by
  obtain ⟨new, rfl, serves, step⟩ := (serving.served ready).answered
  have taken : new ∈ others := ((serving.ready ready).mem_allocated.mp (step.mem_taken (by simp) (by simp))).1
  have payload := serves.payload
  have room : new.addr + min size (block.size - tagBytes) ≤ new.stop - tagBytes := by omega
  have copying := (serving.ready ready).copied_reallots taken block.addr room
  have releasing := releasing.reallots (serving.copied ready block) busy
  refine ⟨new, rfl, serves, step.fresh, ((step.trans copying).trans releasing).cancel fun old => ?_⟩
  exact step.fresh (List.mem_map_of_mem old)

theorem Course.effect {result : Except AllocError (Option Nat)} (course : s.Course command result t) :
    match result with
    | .ok answer => ∃ taken released, command.Effect s answer t taken released
    | .error _ => s.Reallots t [] [] := by
  induction course with
  | @init answer t requesting =>
    cases answer with
    | error cause => exact requesting.served.unanswered
    | ok pointer => exact requesting.served.effect rfl
  | @tryAllocate size answer t requesting =>
    cases answer with
    | error cause => exact requesting.served.unanswered
    | ok pointer => exact requesting.served.effect rfl
  | allocate requesting => exact requesting.served.noting.effect rfl
  | freeNull consistent => exact (Reallots.refl consistent).effect rfl
  | free ready busy releasing =>
    refine ⟨none, some _, releasing.reallots ready busy, rfl, by simp, by simp, rfl, ?_⟩
    rintro _ ⟨⟩
    exact ready.mem_allocated.mpr ⟨releasing.member, busy⟩
  | reallocateEmpty freeing ih =>
    cases freeing with
    | freeNull consistent => exact (Reallots.refl consistent).effect rfl
    | free =>
      obtain ⟨taken, released, effect⟩ := ih
      exact ⟨taken, released, effect.step, effect.handed, effect.serves, effect.fresh, effect.returned, effect.held⟩
  | reallocateNull positive allocating ih =>
    cases allocating with
    | allocate requesting => exact requesting.served.noting.effect (by simp [Command.released?])
  | stay ready member busy positive serving =>
    exact ((serving.served ready).noting).unanswered.effect (by simp [Command.released?, positive])
  | move ready member busy positive serving releasing =>
    obtain ⟨new, rfl, serves, fresh, step⟩ := serving.moved ready busy releasing
    have held := ready.mem_allocated.mpr ⟨member, busy⟩
    refine ⟨some new, some _, step, rfl, ?_, ?_, ?_, ?_⟩
    · rintro _ ⟨⟩
      exact serves
    · rintro _ ⟨⟩
      exact fresh
    · simp only [Option.map_some, Command.released?, Option.isSome_some, or_true, if_true]
    · rintro _ ⟨⟩
      exact held

theorem Consistent.perform (consistent : s.Consistent) (command : Command)
    (live : ∀ p ∈ command.pointer?, p ∈ s.allocated.map Block.addr) (mode : Mode) :
    (∃ cause t, command.perform mode s = .error (.failed cause) t ∧ s.Reallots t [] []) ∨
      ∃ answer t, command.perform mode s = .ok answer t ∧
        ∃ taken released, command.Effect s answer t taken released := by
  obtain ⟨result, t, course⟩ := consistent.exists_course command live
  have run := course.run mode
  have effect := course.effect
  cases result with
  | error cause => exact .inl ⟨cause, t, run, effect⟩
  | ok answer => exact .inr ⟨answer, t, run, effect⟩

end Machine

end BoundaryTag
