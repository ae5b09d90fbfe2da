import BoundaryTag.Proofs.Independence
import Mathlib.Data.Fintype.Basic
import Mathlib.Logic.Function.Basic

namespace BoundaryTag

def Ask.Apart (ask other : Ask) : Prop :=
  match ask, other with
  | (bytes, .ok start), (more, .ok begin) => start + bytes ≤ begin ∨ begin + more ≤ start
  | _, _ => True

instance (ask other : Ask) : Decidable (ask.Apart other) :=
  match ask, other with
  | (bytes, .ok start), (more, .ok begin) => inferInstanceAs (Decidable (start + bytes ≤ begin ∨ begin + more ≤ start))
  | (_, .ok _), (_, .error _) => .isTrue trivial
  | (_, .error _), (_, _) => .isTrue trivial

structure Tenant (σ : Type) where
  heap : Heap σ
  trace : List Event := []
  loans : List Loan := []

structure Estate {ι : Type} (σ : ι → Type) where
  memory : Memory
  tenants : ∀ i, Tenant (σ i)

namespace Estate

variable {ι : Type} {σ : ι → Type}

def fresh (memory : Memory) (source : ∀ i, σ i) (config : ι → Config) : Estate σ where
  memory := memory
  tenants i := { heap := { source := source i, config := config i } }

def world (e : Estate σ) (i : ι) : World (σ i) where
  machine := { heap := (e.tenants i).heap, memory := e.memory, trace := (e.tenants i).trace }
  loans := (e.tenants i).loans

variable [DecidableEq ι]

def settle (e : Estate σ) (i : ι) (w : World (σ i)) : Estate σ where
  memory := w.machine.memory
  tenants := Function.update e.tenants i ⟨w.machine.heap, w.machine.trace, w.loans⟩

theorem world_settle (e : Estate σ) (i : ι) (w : World (σ i)) : (e.settle i w).world i = w := by
  simp only [world, settle, Function.update_self]

theorem world_settle_of_ne (e : Estate σ) {i j : ι} (other : j ≠ i) (w : World (σ i)) :
    (e.settle i w).world j =
      { e.world j with machine := { (e.world j).machine with memory := w.machine.memory } } := by
  simp only [world, settle, Function.update_of_ne other]

variable [∀ i, Source (σ i)]

def after (mode : Mode) (e : Estate σ) (i : ι) (action : Action (σ i)) : Estate σ :=
  e.settle i ((e.world i).after mode action)

def Apart (e : Estate σ) : Prop :=
  ∀ i j, i ≠ j → ∀ ask ∈ (e.world i).machine.requests, ∀ other ∈ (e.world j).machine.requests, ask.Apart other

instance [Fintype ι] (e : Estate σ) : Decidable e.Apart :=
  inferInstanceAs (Decidable (∀ i j, i ≠ j → ∀ ask ∈ (e.world i).machine.requests,
    ∀ other ∈ (e.world j).machine.requests, ask.Apart other))

variable [∀ i, LawfulSource (σ i)]

/-- Clients pass null or pointers of the heap and write into their payloads. Nobody else writes into a heap. -/
def Permits (e : Estate σ) (i : ι) (action : Action (σ i)) : Prop :=
  (e.world i).Permits action ∧ ∀ address value, action = .write address value →
    (∃ loan ∈ (e.world i).loans, loan.Byte address) ∨
      ∀ j, ∀ x ∈ (e.world j).machine.heap.extent, ¬(x.start ≤ address ∧ address < x.stop)

/-- The estates that permitted actions lead to while the sources grant memory that does not overlap. -/
inductive Reachable (mode : Mode) : Estate σ → Prop
  | fresh (memory : Memory) (source : ∀ i, σ i) (config : ι → Config)
    (stands : ∀ i, LawfulSource.EndsAt (source i) none) : Reachable mode (.fresh memory source config)
  | after {e : Estate σ} {i : ι} {action : Action (σ i)} (reachable : Reachable mode e)
    (permitted : e.Permits i action) (apart : (e.after mode i action).Apart) : Reachable mode (e.after mode i action)

structure Keeps {τ : Type} (w v : World τ) : Prop where
  heap : v.machine.heap = w.machine.heap
  loans : v.loans = w.loans
  contents : ∀ x, w.machine.heap.extent = some x → ∀ address, x.start ≤ address → address < x.stop →
    v.machine.memory.byte address = w.machine.memory.byte address
  blocks : v.machine.heap.blocks v.machine.memory = w.machine.heap.blocks w.machine.memory
  check : v.machine.heap.check v.machine.memory = w.machine.heap.check w.machine.memory

end Estate

theorem Machine.Spanned.covers {σ : Type} {s : Machine σ} (spanned : s.Spanned) {x : Extent}
    (extent : s.heap.extent = some x) {address : Nat} (above : x.start ≤ address) (below : address < x.stop) :
    ∃ bytes start, (bytes, .ok start) ∈ s.requests ∧ start ≤ address ∧ address < start + bytes := by
  rw [Machine.Spanned, extent] at spanned
  exact Spans.covers spanned above below

namespace World.Balanced

variable {σ : Type} [Source σ] [LawfulSource σ] {mode : Mode} {w : World σ} {action : Action σ} {address : Nat}

theorem spanned_after (balanced : w.Balanced) (mode : Mode) (permitted : w.Permits action)
    (spanned : w.machine.Spanned) : (w.after mode action).machine.Spanned := by
  cases action with
  | command command =>
    obtain ⟨answer, course, -⟩ := balanced.course mode permitted
    obtain ⟨asks, requests, exchange⟩ := course.exchange
    exact exchange.spanned requests spanned
  | write address value => exact spanned
  | drift source => exact spanned

/-- An action writes into the heap as it leaves it, unless it is a write of somebody else. -/
theorem changed_inside (balanced : w.Balanced) (permitted : w.Permits action)
    (changed : (w.after mode action).machine.memory.byte address ≠ w.machine.memory.byte address)
    (own : ∀ value, action = .write address value → ∃ loan ∈ w.loans, loan.Byte address) :
    ∃ y, (w.after mode action).machine.heap.extent = some y ∧ y.start ≤ address ∧ address < y.stop := by
  cases action with
  | command command =>
    obtain ⟨answer, course, -⟩ := balanced.course mode permitted
    obtain ⟨y, extent, above, below, -⟩ := course.touches changed
    exact ⟨y, extent, above, below⟩
  | write target value =>
    obtain rfl : address = target := by
      by_contra apart
      exact changed ((Memory.byte_set ..).trans (if_neg apart))
    obtain ⟨loan, held, byte⟩ := own value rfl
    obtain ⟨x, blocks, ready⟩ := balanced.consistent.ready (balanced.mem_allocated held)
    have member := (ready.mem_allocated.mp (balanced.mem_allocated held)).1
    have inside := ready.tiled.payload_inside member (Loan.byte_iff.mpr byte)
    exact ⟨x, ready.extent, by omega, inside.2⟩
  | drift source => exact absurd rfl changed

theorem elsewhere {m : Memory} (balanced : w.Balanced)
    (same : ∀ x, w.machine.heap.extent = some x → ∀ address, x.start ≤ address → address < x.stop →
      m.byte address = w.machine.memory.byte address) :
    ({ w with machine := { w.machine with memory := m } } : World σ).Balanced ∧
      Estate.Keeps w { w with machine := { w.machine with memory := m } } := by
  let t : Machine σ := { w.machine with memory := m }
  have step : w.machine.Reallots t [] [] ∧ t.outline = w.machine.outline := by
    rcases balanced.consistent with unset | ⟨x, blocks, ready⟩
    · have after : t.Unset := ⟨unset.extent, unset.stands⟩
      exact ⟨unset.reallots (.inl after) after.allocated_eq, after.outline_eq.trans unset.outline_eq.symm⟩
    · have kept := same x ready.extent
      have after : t.Ready x blocks := ready.congr fun address tag =>
        have inside := ready.tiled.tag_inside tag
        kept address inside.1 inside.2
      exact ⟨ready.unaffected kept, after.outline_eq.trans ready.outline_eq.symm⟩
  have after := balanced.unsettled step.1
  obtain ⟨-, blocks, check⟩ := after.consistent.seen balanced.consistent step.2
  exact ⟨after, rfl, rfl, same, blocks, check⟩

end World.Balanced

namespace Estate

variable {ι : Type} {σ : ι → Type} [DecidableEq ι] [∀ i, Source (σ i)] [∀ i, LawfulSource (σ i)] {mode : Mode}
  {e : Estate σ} {i j : ι} {action : Action (σ i)}

structure Ordered (e : Estate σ) : Prop where
  balanced : ∀ i, (e.world i).Balanced
  spanned : ∀ i, (e.world i).machine.Spanned

namespace Ordered

omit [DecidableEq ι] in
theorem fresh {memory : Memory} {source : ∀ i, σ i} {config : ι → Config}
    (stands : ∀ i, LawfulSource.EndsAt (source i) none) : (Estate.fresh memory source config).Ordered where
  balanced i := .fresh (config i) memory (stands i)
  spanned _ _ := rfl

theorem spanned_after (ordered : e.Ordered) (mode : Mode) (permitted : e.Permits i action) (j : ι) :
    ((e.after mode i action).world j).machine.Spanned := by
  by_cases other : j = i
  · subst other
    rw [Estate.after, world_settle]
    exact (ordered.balanced j).spanned_after mode permitted.1 (ordered.spanned j)
  · rw [Estate.after, world_settle_of_ne e other]
    exact ordered.spanned j

theorem untouched (ordered : e.Ordered) (permitted : e.Permits i action) (apart : (e.after mode i action).Apart)
    (other : j ≠ i) {x : Extent} (extent : (e.world j).machine.heap.extent = some x) {address : Nat}
    (above : x.start ≤ address) (below : address < x.stop) :
    ((e.world i).after mode action).machine.memory.byte address = (e.world j).machine.memory.byte address := by
  by_contra changed
  have own : ∀ value, action = .write address value → ∃ loan ∈ (e.world i).loans, loan.Byte address := by
    intro value write
    exact (permitted.2 address value write).resolve_right fun outside => outside j x extent ⟨above, below⟩
  obtain ⟨y, grown, inside⟩ := (ordered.balanced i).changed_inside permitted.1 changed own
  -- the byte would be in a grant of both
  have mine := ordered.spanned_after mode permitted i
  have theirs := ordered.spanned_after mode permitted j
  have settled : (e.after mode i action).world i = (e.world i).after mode action := world_settle ..
  have still : ((e.after mode i action).world j).machine.heap = (e.world j).machine.heap := by
    rw [Estate.after, world_settle_of_ne e other]
  obtain ⟨bytes, start, ask, low, high⟩ := mine.covers (by rw [settled]; exact grown) inside.1 inside.2
  obtain ⟨more, begins, granted, bottom, top⟩ := theirs.covers (by rw [still]; exact extent) above below
  have disjoint : start + bytes ≤ begins ∨ begins + more ≤ start := apart i j other.symm _ ask _ granted
  omega

theorem isolated (ordered : e.Ordered) (permitted : e.Permits i action) (apart : (e.after mode i action).Apart)
    (other : j ≠ i) :
    ((e.after mode i action).world j).Balanced ∧ Keeps (e.world j) ((e.after mode i action).world j) := by
  rw [Estate.after, world_settle_of_ne e other]
  exact (ordered.balanced j).elsewhere fun x extent address above below =>
    ordered.untouched permitted apart other extent above below

theorem after (ordered : e.Ordered) (permitted : e.Permits i action) (apart : (e.after mode i action).Apart) :
    (e.after mode i action).Ordered where
  balanced j := by
    by_cases other : j = i
    · subst other
      rw [Estate.after, world_settle]
      exact (ordered.balanced j).after permitted.1
    · exact (ordered.isolated permitted apart other).1
  spanned := ordered.spanned_after mode permitted

end Ordered

theorem Reachable.ordered (reachable : e.Reachable mode) : e.Ordered := by
  induction reachable with
  | fresh memory source config stands => exact .fresh stands
  | after reachable permitted apart ordered => exact ordered.after permitted apart

/-- A command writes into its own heap only: tags before or after it, and what a reallocation moves. Of several
    heaps whose sources grant memory that does not overlap, an action on one leaves the others as they are. -/
theorem writes_stay_within (mode : Mode) :
    (∀ {τ : Type} [Source τ] [LawfulSource τ] (w : World τ), w.Reachable mode →
      ∀ command, w.Permits (.command command) → ∀ address,
        (w.after mode (.command command)).machine.memory.byte address ≠ w.machine.memory.byte address →
          w.machine.Touches (w.after mode (.command command)).machine command (w.answer? mode command).join address) ∧
    ∀ e : Estate σ, e.Reachable mode → ∀ i action, e.Permits i action → (e.after mode i action).Apart →
      ∀ j, j ≠ i → Keeps (e.world j) ((e.after mode i action).world j) := by
  refine ⟨fun w reachable command permitted address changed => ?_,
    fun e reachable i action permitted apart j other => ?_⟩
  · obtain ⟨result, course, answer⟩ := reachable.balanced.course mode permitted
    rw [answer]
    exact course.touches changed
  · exact (reachable.ordered.isolated permitted apart other).2

def pair : Estate fun _ : Bool => Region :=
  let config : Config := { initialSize := 64, chunkSize := 64 }
  ((fresh {} (fun i => .fresh (if i then 65536 else 131072) 512) fun _ => config).after .vetting true
    (.command (.tryAllocate 24))).after .vetting false (.command (.allocate 40))

theorem pair_reachable : pair.Reachable .vetting := by
  have stands : ∀ i : Bool, LawfulSource.EndsAt (Region.fresh (if i then 65536 else 131072) 512) none := by
    intro i
    constructor <;> cases i <;> decide
  refine .after (.after (.fresh _ _ _ stands) ⟨?_, nofun⟩ ?_) ⟨?_, nofun⟩ ?_
  · decide +kernel
  · decide +kernel
  · decide +kernel
  · decide +kernel

theorem pair_writes_stay_within :
    (∀ address, (World.trial.after .vetting (.command (.reallocate (some 65552) 100))).machine.memory.byte address ≠
        World.trial.machine.memory.byte address →
      World.trial.machine.Touches (World.trial.after .vetting (.command (.reallocate (some 65552) 100))).machine
        (.reallocate (some 65552) 100)
        (World.trial.answer? .vetting (.reallocate (some 65552) 100)).join address) ∧
    Keeps (pair.world false) ((pair.after .vetting true (.command (.reallocate (some 65552) 100))).world false) := by
  obtain ⟨within, apart⟩ := @writes_stay_within Bool (fun _ => Region) _ _ _ .vetting
  refine ⟨within World.trial World.trial_reachable _ ?_,
    apart pair pair_reachable true (.command _) ⟨?_, nofun⟩ ?_ false Bool.false_ne_true⟩
  · decide +kernel
  · decide +kernel
  · decide +kernel

end Estate

end BoundaryTag
