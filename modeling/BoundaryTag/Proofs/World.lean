import BoundaryTag.Proofs.Command

namespace BoundaryTag

/-- A live pointer, with the request it was handed out for and the payload bytes it had then. -/
structure Loan where
  addr : Nat
  request : Nat
  usable : Nat
  deriving DecidableEq, Repr

namespace Loan

def block (loan : Loan) : Block := ⟨loan.addr, loan.usable + tagBytes, true⟩

def Byte (loan : Loan) (address : Nat) : Prop := loan.addr ≤ address ∧ address < loan.addr + loan.usable

instance (loan : Loan) : DecidablePred loan.Byte := fun address =>
  inferInstanceAs (Decidable (loan.addr ≤ address ∧ address < loan.addr + loan.usable))

theorem byte_iff {loan : Loan} {address : Nat} : loan.block.PayloadByte address ↔ loan.Byte address := by
  simp only [Block.PayloadByte, Byte, block, Block.stop]
  omega

end Loan

structure World (σ : Type) where
  machine : Machine σ
  loans : List Loan := []

inductive Action (σ : Type) where
  | command (command : Command)
  | write (address : Nat) (value : UInt8)
  /-- the source changes between commands -/
  | drift (source : σ)

namespace World

variable {σ : Type}

def fresh (source : σ) (config : Config) (memory : Memory) : World σ :=
    { machine := { heap := { source, config }, memory } }

def lend (t : Machine σ) (request pointer : Nat) : Loan :=
    ⟨pointer, request, (t.memory.header pointer).size - tagBytes⟩

def kept (w : World σ) (released : Option Nat) : List Loan := w.loans.filter fun loan => released ≠ some loan.addr

def settle (w : World σ) (command : Command) (answer : Option Nat) (t : Machine σ) : World σ where
  machine := t
  loans := (answer.map (lend t command.request)).toList ++ w.kept (command.released? answer)

variable [Source σ]

def after (mode : Mode) (w : World σ) : Action σ → World σ
  | .command command =>
    match command.perform mode w.machine with
    | .ok answer t => w.settle command answer t
    | .error _ t => { w with machine := t }
  | .write address value => { w with machine := { w.machine with memory := w.machine.memory.set address value } }
  | .drift source => { w with machine := { w.machine with heap := { w.machine.heap with source } } }

def answer? (mode : Mode) (w : World σ) (command : Command) : Option (Option Nat) :=
  match command.perform mode w.machine with
  | .ok answer _ => some answer
  | .error .. => none

def Ends (mode : Mode) (w : World σ) (loan : Loan) : Action σ → Prop
  | .command command => ∃ answer ∈ w.answer? mode command, command.released? answer = some loan.addr
  | _ => False

def Disturbs (mode : Mode) (w : World σ) (loan : Loan) : Action σ → Prop
  | .write address _ => loan.Byte address
  | action => w.Ends mode loan action

def run (mode : Mode) (w : World σ) (actions : List (Action σ)) : World σ := actions.foldl (after mode) w

def Spares (mode : Mode) (w : World σ) (loan : Loan) : List (Action σ) → Prop
  | [] => True
  | action :: rest => ¬w.Disturbs mode loan action ∧ (w.after mode action).Spares mode loan rest

instance (mode : Mode) (w : World σ) (loan : Loan) : DecidablePred (w.Disturbs mode loan)
  | .command command =>
    inferInstanceAs (Decidable (∃ answer ∈ w.answer? mode command, command.released? answer = some loan.addr))
  | .write address _ => inferInstanceAs (Decidable (loan.Byte address))
  | .drift _ => .isFalse id

section

variable {mode : Mode} {w : World σ}

theorem mem_after {loan : Loan} {action : Action σ} (held : loan ∈ w.loans) (stays : ¬w.Ends mode loan action) :
    loan ∈ (w.after mode action).loans := by
  cases action with
  | command command =>
    cases run : command.perform mode w.machine with
    | ok answer t =>
      have kept : command.released? answer ≠ some loan.addr := by
        intro gone
        exact stays ⟨answer, by simp [answer?, run], gone⟩
      simp only [after, run, settle]
      exact List.mem_append_right _ (List.mem_filter.mpr ⟨held, by simpa using kept⟩)
    | error stop t =>
      simp only [after, run]
      exact held
  | write target value => exact held
  | drift source => exact held

theorem mem_after_answer {command : Command} {pointer : Nat}
    (answered : w.answer? mode command = some (some pointer)) :
    ∃ loan ∈ (w.after mode (.command command)).loans, loan.addr = pointer ∧ loan.request = command.request := by
  cases run : command.perform mode w.machine with
  | ok answer t =>
    obtain rfl : answer = some pointer := by simpa [answer?, run] using answered
    refine ⟨lend t command.request pointer, ?_, rfl, rfl⟩
    simp [after, run, settle]
  | error stop t => simp [answer?, run] at answered

end

variable [LawfulSource σ]

/-- Clients pass null or live pointers and write into their payloads. Nobody else writes into the heap. -/
def Permits (w : World σ) : Action σ → Prop
  | .command command => ∀ p ∈ command.pointer?, p ∈ w.loans.map Loan.addr
  | .write address _ =>
    (∃ loan ∈ w.loans, loan.Byte address) ∨
      ∀ x ∈ w.machine.heap.extent, ¬(x.start ≤ address ∧ address < x.stop)
  | .drift source => ∀ last, LawfulSource.EndsAt w.machine.heap.source last → LawfulSource.EndsAt source last

instance (w : World σ) (command : Command) : Decidable (w.Permits (.command command)) :=
  inferInstanceAs (Decidable (∀ p ∈ command.pointer?, p ∈ w.loans.map Loan.addr))

instance (w : World σ) (address : Nat) (value : UInt8) : Decidable (w.Permits (.write address value)) :=
  inferInstanceAs (Decidable ((∃ loan ∈ w.loans, loan.Byte address) ∨
    ∀ x ∈ w.machine.heap.extent, ¬(x.start ≤ address ∧ address < x.stop)))

def PermitsAll (mode : Mode) (w : World σ) : List (Action σ) → Prop
  | [] => True
  | action :: rest => w.Permits action ∧ (w.after mode action).PermitsAll mode rest

/-- The worlds that permitted actions lead to, whatever the memory holds at first. -/
inductive Reachable (mode : Mode) : World σ → Prop
  | fresh (source : σ) (config : Config) (memory : Memory) (stands : LawfulSource.EndsAt source none) :
    Reachable mode (.fresh source config memory)
  | after {w : World σ} {action : Action σ} (reachable : Reachable mode w) (permitted : w.Permits action) :
    Reachable mode (w.after mode action)

theorem Reachable.run {mode : Mode} {w : World σ} (reachable : w.Reachable mode) {actions : List (Action σ)}
    (permitted : w.PermitsAll mode actions) : (w.run mode actions).Reachable mode := by
  induction actions generalizing w with
  | nil => exact reachable
  | cons action rest ih => exact ih (reachable.after permitted.1) permitted.2

def trial : World Region :=
  (World.fresh (.fresh 65536 512) { initialSize := 64, chunkSize := 64 } {}).run .vetting
    [.command (.tryAllocate 24), .command (.allocate 100), .write 65552 7]

def trialLoan : Loan := ⟨65552, 24, 24⟩

def trialExtent : Extent := ⟨65536, 192, 65552⟩

theorem trial_extent : trial.machine.heap.extent = some trialExtent := by decide +kernel

theorem trial_reachable : trial.Reachable .vetting := by
  have stands : LawfulSource.EndsAt (Region.fresh 65536 512) none := by constructor <;> decide
  refine (Reachable.fresh _ _ _ stands).run ⟨?_, ?_, ?_, trivial⟩
  · decide +kernel
  · decide +kernel
  · decide +kernel

end World

end BoundaryTag
