import BoundaryTag.Proofs.Footprint
import BoundaryTag.Proofs.Holdings

namespace BoundaryTag

open scoped List

theorem Block.allocated_placed (left right : List Block) {block : Block} (free : block.allocated = false)
    (need : Nat) :
    (left ++ block.placed need ++ right).filter (·.allocated) ~
      [block.granted need] ++ (left ++ [block] ++ right).filter (·.allocated) := by
  have spare : (block.spare need).filter (·.allocated) = [] := by
    simpa using fun other member => spare_free member
  have granted : (block.granted need).allocated = true := rfl
  simp only [List.filter_append, placed, List.filter_cons, granted, spare, free, if_true, Bool.false_eq_true,
    if_false, List.filter_nil, List.append_nil]
  simp

theorem FreeNeighbours.allocated_joined {left right : List Block} {before after : Option Block} {block : Block}
    (neighbours : FreeNeighbours left before after right) (busy : block.allocated = true) :
    block :: (left ++ [block.join before after] ++ right).filter (·.allocated) ~
      (left ++ (before.toList ++ block :: after.toList) ++ right).filter (·.allocated) := by
  have none : before.toList.filter (·.allocated) = [] := by simpa using neighbours.before
  have none' : after.toList.filter (·.allocated) = [] := by simpa using neighbours.after
  have joined : (block.join before after).allocated = false := rfl
  simpa [none, none', joined, busy] using List.perm_middle.symm

namespace Machine

variable {σ : Type} [Source σ] [LawfulSource σ] {s t u : Machine σ} {x y : Extent} {blocks others : List Block}
  {block : Block} {size : Nat}

inductive Served (s : Machine σ) (size : Nat) : Option Nat → Machine σ → Prop
  | null {t : Machine σ} (step : s.Reallots t [] []) : Served s size none t
  | block {t : Machine σ} {block : Block} (serves : block.Serves size) (step : s.Reallots t [block] []) :
    Served s size (some block.addr) t

theorem Served.unanswered (served : s.Served size none t) : s.Reallots t [] [] := by
  cases served with
  | null step => exact step

theorem Served.answered {pointer : Nat} (served : s.Served size (some pointer) t) :
    ∃ block, block.addr = pointer ∧ block.Serves size ∧ s.Reallots t [block] [] := by
  cases served with
  | block serves step => exact ⟨_, rfl, serves, step⟩

theorem Served.after {answer : Option Nat} (served : t.Served size answer u) (step : s.Reallots t [] []) :
    s.Served size answer u := by
  cases served with
  | null next => exact .null (step.trans next)
  | block serves next => exact .block serves (step.trans next)

theorem Ready.copied_reallots {count : Nat} (ready : s.Ready x blocks) (member : block ∈ blocks) (source : Nat)
    (room : block.addr + count ≤ block.stop - tagBytes) :
    s.Reallots (s.copied source block.addr count) [block] [block] := by
  apply ready.overwritten member
  intro address outside
  rw [Memory.byte_copy, if_neg]
  exact fun inside => outside ⟨inside.1, by omega⟩

theorem Unset.setup_reallots {answer : Except AllocError Extent} (unset : s.Unset) (setup : s.Setup answer t) :
    s.Reallots t [] [] := by
  cases answer with
  | error cause =>
    rcases unset.failed setup with after | ⟨start, ready⟩
    · exact unset.reallots (.inl after) after.allocated_eq
    · exact unset.reallots ready.consistent ready.allocated_eq
  | ok x =>
    obtain ⟨block, free, ready⟩ := unset.ready setup
    exact unset.reallots ready.consistent (by simp [ready.allocated_eq, free])

variable {answer : Except AllocError (Option Nat)}

theorem Serving.reallots (serving : s.Serving x blocks size answer t y others) (ready : s.Ready x blocks)
    (taken : List Block)
    (parts : others.filter (·.allocated) ~ taken ++ blocks.filter (·.allocated)) : s.Reallots t taken [] :=
  ready.reallots (serving.ready ready) parts fun _ old new => serving.byte ready old new

theorem Serving.served (serving : s.Serving x blocks size answer t y others) (ready : s.Ready x blocks) :
    s.Served size answer.toOption.join t := by
  have step := serving.reallots ready
  cases serving with
  | empty => exact .null (step [] (.refl _))
  | huge => exact .null (step [] (.refl _))
  | @found need left right block positive adjusted parts found =>
    subst parts
    obtain ⟨sought, free, enough⟩ := ready.found found
    have served : s.Served size (some (block.granted need).addr) _ :=
      .block (.granted adjusted enough (sought.tiled.isBlockSize (by simp)).1)
        (step _ (Block.allocated_placed _ _ free need))
    exact served
  | full => exact .null (step [] (.refl _))
  | refused => exact .null (step [] (.refl _))
  | @grown need start left before positive adjusted unfound room granted parts neighbours =>
    subst parts
    obtain ⟨-, grown, enough⟩ := ready.grown_tail adjusted neighbours room granted
    have busy : before.toList.filter (·.allocated) = [] := by simpa using neighbours.before
    have tail : (x.tail (s.growthFor need) before).allocated = false := rfl
    have served : s.Served size (some ((x.tail (s.growthFor need) before).granted need).addr) _ :=
      .block (.granted adjusted enough (grown.tiled.isBlockSize (by simp)).1) (step _ ?_)
    · exact served
    · simpa [busy, tail] using Block.allocated_placed left [] tail need

theorem Requesting.served (requesting : s.Requesting size answer t) : s.Served size answer.toOption.join t := by
  cases requesting with
  | unready unset setup => exact .null (unset.setup_reallots setup)
  | started unset setup ready serving => exact (serving.served ready).after (unset.setup_reallots setup)
  | ready ready serving => exact serving.served ready

theorem Releasing.reallots (releasing : s.Releasing x blocks block t y others) (ready : s.Ready x blocks)
    (busy : block.allocated = true) : s.Reallots t [] [block] := by
  refine ready.reallots (releasing.ready ready) ?_ fun _ old new => releasing.byte old new
  cases releasing with
  | joined parts neighbours =>
    subst parts
    exact neighbours.allocated_joined busy

theorem Reallots.recorded (step : s.Reallots t [] []) (events : List Event) :
    s.Reallots { t with trace := t.trace ++ events } [] [] where
  consistent := step.consistent.imp (fun unset => ⟨unset.extent, unset.stands⟩)
    fun ⟨x, blocks, ready⟩ => ⟨x, blocks, ready.extent, ready.valid, ready.stands, ready.sound⟩
  blocks := step.blocks
  payload := step.payload

theorem Served.noting (served : s.Served size answer.toOption.join t) :
    s.Served size answer.toOption.join (t.noting size answer) := by
  cases answer with
  | ok pointer => exact served
  | error cause => exact .null (served.unanswered.recorded _)

end Machine

end BoundaryTag
