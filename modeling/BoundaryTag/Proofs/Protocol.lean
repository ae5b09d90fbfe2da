import BoundaryTag.Proofs.Exchange
import BoundaryTag.Proofs.Integrity

namespace BoundaryTag

structure Call where
  command : Command
  asks : List Ask

namespace Call

/-- The heap asked for nothing, or for its frame in vain. -/
inductive Waits : Call → Prop
  | silent {command : Command} : Waits ⟨command, []⟩
  | refused {command : Command} {cause : AllocError} : Waits ⟨command, [(frameBytes, .error cause)]⟩

/-- The heap was granted its frame, and asked for its initial size next. -/
inductive Starts (config : Config) : Call → Prop
  | bare {command : Command} {start : Nat} {cause : AllocError} :
    Starts config ⟨command, [(frameBytes, .ok start), (config.initialSize, .error cause)]⟩
  | started {command : Command} {start stop : Nat} {growths : List Ask}
    (grows : Growths config command.request growths) :
    Starts config ⟨command, (frameBytes, .ok start) :: (config.initialSize, .ok stop) :: growths⟩

def Grows (config : Config) (call : Call) : Prop := Growths config call.command.request call.asks

end Call

/-- The calls of a heap that is set up are those that wait, one that starts, and those that grow. -/
inductive Protocol (config : Config) : List Call → Option Extent → Prop
  | unset {calls : List Call} (waits : ∀ call ∈ calls, call.Waits) : Protocol config calls none
  | set {idle later : List Call} {first : Call} {x : Extent} (waits : ∀ call ∈ idle, call.Waits)
    (starts : first.Starts config) (grows : ∀ call ∈ later, call.Grows config) :
    Protocol config (idle ++ first :: later) (some x)

theorem Protocol.extend {σ : Type} {s t : Machine σ} {config : Config} {calls : List Call} {command : Command}
    {asks : List Ask} (protocol : Protocol config calls s.heap.extent) (configured : s.heap.config = config)
    (exchange : s.Exchange t command.request asks) : Protocol config (calls ++ [⟨command, asks⟩]) t.heap.extent := by
  subst configured
  generalize before : s.heap.extent = extent at protocol
  cases protocol with
  | unset waits =>
    have alone : ∀ call : Call, call.Waits → Protocol s.heap.config (calls ++ [call]) none := by
      intro call also
      refine .unset fun other member => ?_
      rcases List.mem_append.mp member with old | new
      · exact waits other old
      · rwa [List.mem_singleton.mp new]
    cases exchange with
    | silent unset heap => rw [heap, before]; exact alone _ .silent
    | unframed valid unset still => rw [still]; exact alone _ .refused
    | bare valid unset extent => rw [extent]; exact .set waits .bare (by simp)
    | started valid unset extent grows => rw [extent]; exact .set waits (.started grows) (by simp)
    | set extent => simp [before] at extent
  | set waits starts grows =>
    cases exchange with
    | silent unset => simp [before] at unset
    | unframed valid unset => simp [before] at unset
    | bare valid unset => simp [before] at unset
    | started valid unset => simp [before] at unset
    | set extent after growths =>
      rw [after, List.append_assoc, List.cons_append]
      refine .set waits starts fun call member => ?_
      rcases List.mem_append.mp member with old | new
      · exact grows call old
      · rw [List.mem_singleton.mp new]
        exact growths

theorem Machine.Consistent.bare {σ : Type} [Source σ] [LawfulSource σ] {s : Machine σ} {start : Nat}
    (consistent : s.Consistent) (extent : s.heap.extent = some (.bare start)) :
    s.heap.blocks s.memory = [] ∧ s.heap.check s.memory = .ok { heapSize := frameBytes } := by
  have empty : (Extent.bare start).blocks s.memory = [] := Tiles.eq_nil (consistent.heap_sound _ extent).tiles
  have stats : s.heap.stats s.memory = { heapSize := frameBytes } := by
    rw [Heap.stats, extent, Option.elim, empty]
    rfl
  refine ⟨?_, by rw [consistent.check, stats]⟩
  rw [Heap.blocks, extent, Option.elim, empty]

namespace World

variable {σ : Type} [Source σ]

def asks (mode : Mode) (w : World σ) (command : Command) : List Ask :=
  (w.after mode (.command command)).machine.requests.drop w.machine.requests.length

def calls (mode : Mode) (w : World σ) : List (Action σ) → List Call
  | [] => []
  | .command command :: rest => ⟨command, w.asks mode command⟩ :: (w.after mode (.command command)).calls mode rest
  | action :: rest => (w.after mode action).calls mode rest

variable [LawfulSource σ]

structure Accounts (w : World σ) (config : Config) (calls : List Call) : Prop where
  configured : w.machine.heap.config = config
  requests : w.machine.requests = calls.flatMap Call.asks
  spanned : w.machine.Spanned
  silent : config.validate ≠ .ok () → w.machine.requests = [] ∧ w.machine.heap.extent = none
  protocol : Protocol config calls w.machine.heap.extent

variable {mode : Mode} {w : World σ} {config : Config} {calls : List Call} {command : Command}

theorem Balanced.exchange (balanced : w.Balanced) (mode : Mode) (permitted : w.Permits (.command command)) :
    (w.after mode (.command command)).machine.requests = w.machine.requests ++ w.asks mode command ∧
      w.machine.Exchange (w.after mode (.command command)).machine command.request (w.asks mode command) := by
  obtain ⟨result, course, -⟩ := balanced.course mode permitted
  obtain ⟨asks, requests, exchange⟩ := course.exchange
  have asked : w.asks mode command = asks := by rw [World.asks, requests, List.drop_left]
  rw [asked]
  exact ⟨requests, exchange⟩

namespace Accounts

omit [Source σ] [LawfulSource σ] in
theorem fresh (source : σ) (config : Config) (memory : Memory) :
    (World.fresh source config memory).Accounts config [] :=
  ⟨rfl, rfl, fun _ => rfl, fun _ => ⟨rfl, rfl⟩, .unset (by simp)⟩

theorem rejected (accounts : w.Accounts config calls) (mode : Mode) (balanced : w.Balanced)
    (invalid : config.validate ≠ .ok ()) (permitted : w.Permits (.command command)) :
    w.asks mode command = [] ∧ (w.after mode (.command command)).machine.heap = w.machine.heap ∧
      (w.after mode (.command command)).machine.memory = w.machine.memory := by
  obtain ⟨-, exchange⟩ := balanced.exchange mode permitted
  have unset := (accounts.silent invalid).2
  rw [← accounts.configured] at invalid
  generalize w.asks mode command = asks at exchange
  cases exchange with
  | silent unset heap memory => exact ⟨rfl, heap, memory⟩
  | unframed valid => exact absurd valid invalid
  | bare valid => exact absurd valid invalid
  | started valid => exact absurd valid invalid
  | set extent => simp [unset] at extent

theorem step (accounts : w.Accounts config calls) (balanced : w.Balanced) (permitted : w.Permits (.command command)) :
    (w.after mode (.command command)).Accounts config (calls ++ [⟨command, w.asks mode command⟩]) := by
  obtain ⟨result, course, -⟩ := balanced.course mode permitted
  obtain ⟨requests, exchange⟩ := balanced.exchange mode permitted
  refine ⟨course.config.trans accounts.configured, ?_, exchange.spanned requests accounts.spanned,
    fun invalid => ?_, ?_⟩
  · rw [requests, accounts.requests, List.flatMap_append]
    simp
  · obtain ⟨silent, heap, -⟩ := accounts.rejected mode balanced invalid permitted
    rw [requests, silent, List.append_nil, heap]
    exact accounts.silent invalid
  · exact accounts.protocol.extend accounts.configured exchange

theorem run {actions : List (Action σ)} (accounts : w.Accounts config calls) (balanced : w.Balanced)
    (permitted : w.PermitsAll mode actions) :
    (w.run mode actions).Accounts config (calls ++ w.calls mode actions) := by
  induction actions generalizing w calls with
  | nil => rwa [World.calls, List.append_nil]
  | cons action rest ih =>
    have next : (w.after mode action).Balanced := balanced.after permitted.1
    cases action with
    | command command =>
      have kept := ih (accounts.step balanced permitted.1) next permitted.2
      rwa [List.append_assoc] at kept
    | write address value => exact ih ⟨accounts.1, accounts.2, accounts.3, accounts.4, accounts.5⟩ next permitted.2
    | drift source => exact ih ⟨accounts.1, accounts.2, accounts.3, accounts.4, accounts.5⟩ next permitted.2

end Accounts

structure Leaves (mode : Mode) (w : World σ) (config : Config) (command : Command) (t : Machine σ) : Prop where
  rejected : config.validate ≠ .ok () →
    w.asks mode command = [] ∧ t.heap = w.machine.heap ∧ t.memory = w.machine.memory
  unframed : w.machine.heap.extent = none → ∀ cause, w.asks mode command = [(frameBytes, .error cause)] →
    t.heap.extent = none ∧ t.memory = w.machine.memory
  bare : w.machine.heap.extent = none → ∀ start cause,
    w.asks mode command = [(frameBytes, .ok start), (config.initialSize, .error cause)] →
      ∃ x, t.heap.extent = some x ∧ x.cursor = x.startSentinel ∧ t.heap.blocks t.memory = [] ∧
        t.heap.check t.memory = .ok { heapSize := frameBytes }

theorem Accounts.leaves (accounts : w.Accounts config calls) (balanced : w.Balanced)
    (permitted : w.Permits (.command command)) :
    w.Leaves mode config command (w.after mode (.command command)).machine := by
  obtain ⟨-, exchange⟩ := balanced.exchange mode permitted
  have next : (w.after mode (.command command)).machine.Consistent := (balanced.after permitted).consistent
  refine ⟨fun invalid => accounts.rejected mode balanced invalid permitted, fun unset cause asked => ?_,
    fun unset start cause asked => ?_⟩
  · rw [asked] at exchange
    cases exchange with
    | unframed valid _ still memory => exact ⟨still, memory⟩
    | set extent => simp [unset] at extent
  · rw [asked] at exchange
    generalize config.initialSize = bytes at exchange
    cases exchange with
    | bare valid _ extent => exact ⟨_, extent, rfl, next.bare extent⟩
    | set extent => simp [unset] at extent

/-- Whatever the source grants or refuses, a heap asks it for nothing if its configuration is invalid, and keeps
    to the protocol otherwise. It has as many bytes as it was granted. -/
theorem growth_protocol {source : σ} (stands : LawfulSource.EndsAt source none) {memory : Memory}
    {actions : List (Action σ)} (permitted : (fresh source config memory).PermitsAll mode actions) :
    let w := (fresh source config memory).run mode actions
    let calls := (fresh source config memory).calls mode actions
    w.machine.requests = calls.flatMap Call.asks ∧ w.machine.heap.size = granted w.machine.requests ∧
      (config.validate ≠ .ok () → w.machine.requests = [] ∧ w.machine.heap.extent = none) ∧
      Protocol config calls w.machine.heap.extent ∧
      ∀ command, w.Permits (.command command) →
        w.Leaves mode config command (w.after mode (.command command)).machine := by
  have start : (fresh source config memory).Balanced := .fresh config memory stands
  have accounts := (Accounts.fresh source config memory).run start permitted
  have reachable := (Reachable.fresh source config memory stands).run permitted
  exact ⟨accounts.requests, accounts.spanned.size_eq, accounts.silent, accounts.protocol,
    fun command allowed => accounts.leaves reachable.balanced allowed⟩

def throttled : World (Throttle Region) :=
  .fresh { source := .fresh 65536 512, allowance := some 1 } { initialSize := 64, chunkSize := 64 } {}

theorem throttled_growth_protocol :
    let actions : List (Action (Throttle Region)) := [.command .init, .command (.allocate 24), .command (.free none)]
    let w := throttled.run .vetting actions
    let calls := throttled.calls .vetting actions
    w.machine.requests = calls.flatMap Call.asks ∧ w.machine.heap.size = granted w.machine.requests ∧
      (throttled.machine.heap.config.validate ≠ .ok () → w.machine.requests = [] ∧ w.machine.heap.extent = none) ∧
      Protocol throttled.machine.heap.config calls w.machine.heap.extent ∧
      ∀ command, w.Permits (.command command) → w.Leaves .vetting throttled.machine.heap.config command
        (w.after .vetting (.command command)).machine := by
  have stands : LawfulSource.EndsAt throttled.machine.heap.source none := by constructor <;> decide
  refine growth_protocol stands ⟨?_, ?_, ?_, trivial⟩
  · decide +kernel
  · decide +kernel
  · decide +kernel

end World

end BoundaryTag
