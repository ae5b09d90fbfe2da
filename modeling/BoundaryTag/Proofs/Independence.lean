import BoundaryTag.Proofs.Integrity
import BoundaryTag.Proofs.Outline

namespace BoundaryTag

abbrev Response := Except (Stop AllocError) (Option Nat)

def Machine.response {σ : Type} [Source σ] (mode : Mode) (s : Machine σ) (command : Command) : Response :=
  match command.perform mode s with
  | .ok answer _ => .ok answer
  | .error stop _ => .error stop

def pointerOf (responses : List Response) (call : Nat) : Option Nat :=
  match responses[call]? with
  | some (.ok pointer) => pointer
  | _ => none

def Command.resolve (responses : List Response) : Command → Command
  | free pointer => free (pointer.bind (pointerOf responses))
  | reallocate pointer size => reallocate (pointer.bind (pointerOf responses)) size
  | command => command

structure Play (σ : Type) where
  world : World σ
  responses : List Response := []

def script {σ : Type} (actions : List (Action σ)) : List Command :=
  actions.filterMap fun
    | .command command => some command
    | _ => none

namespace Play

variable {σ : Type}

def resolve (p : Play σ) : Action σ → Action σ
  | .command command => .command (command.resolve p.responses)
  | action => action

variable [Source σ]

def after (mode : Mode) (p : Play σ) (action : Action σ) : Play σ where
  world := p.world.after mode (p.resolve action)
  responses :=
    match action with
    | .command command => p.responses ++ [p.world.machine.response mode (command.resolve p.responses)]
    | _ => p.responses

def run (mode : Mode) (p : Play σ) (actions : List (Action σ)) : Play σ := actions.foldl (after mode) p

variable [LawfulSource σ]

def PermitsAll (mode : Mode) : Play σ → List (Action σ) → Prop
  | _, [] => True
  | p, action :: rest => p.world.Permits (p.resolve action) ∧ (p.after mode action).PermitsAll mode rest

instance (p : Play σ) (command : Command) : Decidable (p.world.Permits (p.resolve (.command command))) :=
  inferInstanceAs (Decidable (p.world.Permits (.command (command.resolve p.responses))))

instance (p : Play σ) (address : Nat) (value : UInt8) :
    Decidable (p.world.Permits (p.resolve (.write address value))) :=
  inferInstanceAs (Decidable (p.world.Permits (.write address value)))

end Play

/-- What a script can see of a play. -/
structure Sketch where
  outline : Outline
  responses : List Response := []

def Sketch.after (oracle : Oracle) (k : Sketch) (command : Command) : Sketch :=
  match (command.resolve k.responses).redraw oracle k.outline with
  | .ok answer outline => ⟨outline, k.responses ++ [.ok answer]⟩
  | .error cause outline => ⟨outline, k.responses ++ [.error (.failed cause)]⟩

def Play.sketch {σ : Type} (p : Play σ) : Sketch := ⟨p.world.machine.outline, p.responses⟩

/-- Sources that were asked gave the same answers as far as both were asked. -/
def AnsweredAlike (asks others : List Ask) : Prop := ∀ pair ∈ asks.zip others, pair.1.2 = pair.2.2

instance (asks others : List Ask) : Decidable (AnsweredAlike asks others) :=
  inferInstanceAs (Decidable (∀ pair ∈ asks.zip others, pair.1.2 = pair.2.2))

theorem AnsweredAlike.oracle {asks others : List Ask} (alike : AnsweredAlike asks others) :
    ∃ oracle : Oracle, oracle.Fits asks ∧ oracle.Fits others := by
  refine ⟨fun i => ((asks[i]?.or others[i]?).elim (.ok 0) Prod.snd), fun i ask here => ?_, fun i ask here => ?_⟩
  · simp [here]
  · cases other : asks[i]? with
    | none => simp [here, other]
    | some first =>
      have pair : (asks.zip others)[i]? = some (first, ask) := List.getElem?_zip_eq_some.mpr ⟨other, here⟩
      simpa [other] using alike _ (List.mem_of_getElem? pair)

variable {σ τ : Type} [Source σ] [LawfulSource σ] {mode : Mode} {oracle : Oracle}

theorem Machine.Course.response {s t : Machine σ} {command : Command} {answer : Except AllocError (Option Nat)}
    (course : s.Course command answer t) (mode : Mode) : s.response mode command = answer.mapError .failed := by
  rw [Machine.response, course.run mode]
  cases answer <;> rfl

theorem World.Balanced.idle_outline {w : World σ} {action : Action σ} (balanced : w.Balanced)
    (permitted : w.Permits action) (idle : ∀ command, action ≠ .command command) :
    (w.after mode action).machine.outline = w.machine.outline := by
  rcases balanced.consistent with unset | ⟨x, blocks, ready⟩
  · cases action with
    | command command => exact absurd rfl (idle command)
    | write address value => simp only [Machine.outline, World.after, unset.extent]; rfl
    | drift source => rfl
  · have after := balanced.idle_ready mode permitted idle ready
    rw [ready.outline_eq, after.outline_eq]
    cases action with
    | command command => exact absurd rfl (idle command)
    | write address value => rfl
    | drift source => rfl

theorem Machine.Consistent.seen [Source τ] [LawfulSource τ] {s : Machine σ} {t : Machine τ} (left : s.Consistent)
    (right : t.Consistent) (same : s.outline = t.outline) :
    s.heap.extent = t.heap.extent ∧ s.heap.blocks s.memory = t.heap.blocks t.memory ∧
      s.heap.check s.memory = t.heap.check t.memory := by
  have layout := congrArg Outline.layout same
  rw [left.check, right.check]
  cases extent : s.heap.extent <;> cases other : t.heap.extent <;>
    simp only [outline, extent, other, Option.map_none, Option.map_some, reduceCtorEq, Option.some.injEq,
      Layout.mk.injEq] at layout
  · simp only [Heap.blocks, Heap.stats, extent, other, Option.elim, and_self]
  · obtain ⟨rfl, blocks⟩ := layout
    simp only [Heap.blocks, Heap.stats, extent, other, Option.elim, blocks, and_self]

omit [Source σ] [LawfulSource σ] in
theorem script_cons (action : Action σ) (rest : List (Action σ)) :
    script (action :: rest) = script [action] ++ script rest := by
  rw [script, script, script, ← List.filterMap_append, List.singleton_append]

namespace Play

variable {p : Play σ} {actions : List (Action σ)} {action : Action σ}

theorem idle_sketch (mode : Mode) (balanced : p.world.Balanced) (permitted : p.world.Permits (p.resolve action))
    (idle : ∀ command, action ≠ .command command) : (p.after mode action).sketch = p.sketch := by
  cases action with
  | command command => exact absurd rfl (idle command)
  | write address value => exact congrArg (Sketch.mk · _) (balanced.idle_outline permitted nofun)
  | drift source => exact congrArg (Sketch.mk · _) (balanced.idle_outline permitted nofun)

/-- A step of a play is a step of its sketch, and asks for more or for nothing. -/
theorem sketch_after (balanced : p.world.Balanced) (permitted : p.world.Permits (p.resolve action)) :
    ∃ more, (p.after mode action).world.machine.requests = p.world.machine.requests ++ more ∧
      ∀ oracle : Oracle, oracle.Fits (p.after mode action).world.machine.requests →
        (p.after mode action).sketch = (script [action]).foldl (Sketch.after oracle) p.sketch := by
  cases action with
  | command command =>
    obtain ⟨answer, course, -⟩ := balanced.course mode permitted
    obtain ⟨more, requests, -⟩ := course.exchange
    refine ⟨more, requests, fun oracle fits => ?_⟩
    have drawn := course.redraw fits
    have response := course.response mode
    calc (p.after mode (.command command)).sketch
        = ⟨_, p.responses ++ [answer.mapError .failed]⟩ := by rw [← response]; rfl
      _ = p.sketch.after oracle command := by
        simp only [Sketch.after, sketch, drawn]
        cases answer <;> rfl
  | write address value =>
    have same := idle_sketch mode balanced permitted nofun
    exact ⟨[], (congrArg (·.outline.requests) same).trans (List.append_nil _).symm, fun oracle _ => same⟩
  | drift source =>
    have same := idle_sketch mode balanced permitted nofun
    exact ⟨[], (congrArg (·.outline.requests) same).trans (List.append_nil _).symm, fun oracle _ => same⟩

theorem sketch_run (balanced : p.world.Balanced) (permitted : p.PermitsAll mode actions) :
    ∃ more, (p.run mode actions).world.machine.requests = p.world.machine.requests ++ more ∧
      ∀ oracle : Oracle, oracle.Fits (p.run mode actions).world.machine.requests →
        (p.run mode actions).sketch = (script actions).foldl (Sketch.after oracle) p.sketch := by
  induction actions generalizing p with
  | nil => exact ⟨[], (List.append_nil _).symm, fun _ _ => rfl⟩
  | cons action rest ih =>
    obtain ⟨more, requests, step⟩ := sketch_after balanced permitted.1
    obtain ⟨later, further, steps⟩ := ih (balanced.after permitted.1) permitted.2
    refine ⟨more ++ later, by rw [← List.append_assoc, ← requests]; exact further, fun oracle fits => ?_⟩
    have early := fits
    rw [show (p.run mode (action :: rest)).world.machine.requests = _ from further] at early
    calc (p.run mode (action :: rest)).sketch
        = (script rest).foldl (Sketch.after oracle) (p.after mode action).sketch := steps oracle fits
      _ = (script (action :: rest)).foldl (Sketch.after oracle) p.sketch := by
        rw [step oracle early.left, script_cons action rest, List.foldl_append]

theorem balanced_run (balanced : p.world.Balanced) (permitted : p.PermitsAll mode actions) :
    (p.run mode actions).world.Balanced := by
  induction actions generalizing p with
  | nil => exact balanced
  | cons action rest ih => exact ih (balanced.after permitted.1) permitted.2

theorem PermitsAll.split {done rest : List (Action σ)} (permitted : p.PermitsAll mode (done ++ rest)) :
    p.PermitsAll mode done ∧ (p.run mode done).PermitsAll mode rest := by
  induction done generalizing p with
  | nil => exact ⟨trivial, permitted⟩
  | cons action done ih =>
    obtain ⟨first, later⟩ := ih permitted.2
    exact ⟨⟨permitted.1, first⟩, later⟩

theorem sketch_prefix {done : List (Action σ)} (balanced : p.world.Balanced) (permitted : p.PermitsAll mode actions)
    (part : done <+: actions) (fits : oracle.Fits (p.run mode actions).world.machine.requests) :
    (p.run mode done).world.Balanced ∧
      (p.run mode done).sketch = (script done).foldl (Sketch.after oracle) p.sketch := by
  obtain ⟨rest, rfl⟩ := part
  obtain ⟨first, later⟩ := permitted.split
  have middle := balanced_run balanced first
  obtain ⟨more, requests, -⟩ := sketch_run middle later
  obtain ⟨-, -, drawn⟩ := sketch_run balanced first
  rw [run, List.foldl_append] at fits
  rw [← run, ← run, requests] at fits
  exact ⟨middle, drawn oracle fits.left⟩

def fresh (source : σ) (config : Config) (memory : Memory) : Play σ := { world := .fresh source config memory }

/-- Two plays with one configuration, on sources that answer alike, stand alike whenever they are equally far in
    the same script, whatever their memories held at first and whatever their clients write. -/
theorem contents_irrelevant [Source τ] [LawfulSource τ] {left : σ} {right : τ}
    (leftStands : LawfulSource.EndsAt left none) (rightStands : LawfulSource.EndsAt right none)
    {config : Config} {leftMemory rightMemory : Memory} {leftActions : List (Action σ)} {rightActions : List (Action τ)}
    (leftPermitted : (fresh left config leftMemory).PermitsAll mode leftActions)
    (rightPermitted : (fresh right config rightMemory).PermitsAll mode rightActions)
    (alike : AnsweredAlike ((fresh left config leftMemory).run mode leftActions).world.machine.requests
      ((fresh right config rightMemory).run mode rightActions).world.machine.requests) :
    ∀ leftDone rightDone, leftDone <+: leftActions → rightDone <+: rightActions → script leftDone = script rightDone →
      let p := (fresh left config leftMemory).run mode leftDone
      let q := (fresh right config rightMemory).run mode rightDone
      p.responses = q.responses ∧ p.world.machine.requests = q.world.machine.requests ∧
        p.world.machine.heap.extent = q.world.machine.heap.extent ∧
        p.world.machine.heap.blocks p.world.machine.memory = q.world.machine.heap.blocks q.world.machine.memory ∧
        p.world.machine.heap.check p.world.machine.memory = q.world.machine.heap.check q.world.machine.memory := by
  intro leftDone rightDone leftPart rightPart same p q
  obtain ⟨oracle, leftFits, rightFits⟩ := alike.oracle
  have leftBalanced : (fresh left config leftMemory).world.Balanced := .fresh config leftMemory leftStands
  have rightBalanced : (fresh right config rightMemory).world.Balanced := .fresh config rightMemory rightStands
  obtain ⟨leftNow, leftDrawn⟩ := sketch_prefix leftBalanced leftPermitted leftPart leftFits
  obtain ⟨rightNow, rightDrawn⟩ := sketch_prefix rightBalanced rightPermitted rightPart rightFits
  have sketch : p.sketch = q.sketch := by
    rw [leftDrawn, rightDrawn, same]
    rfl
  have outline : p.world.machine.outline = q.world.machine.outline := congrArg Sketch.outline sketch
  exact ⟨congrArg Sketch.responses sketch, congrArg Outline.requests outline,
    leftNow.consistent.seen rightNow.consistent outline⟩

def plain : Play Region := fresh (.fresh 65536 512) { initialSize := 64, chunkSize := 64 } {}

def writesEarly : List (Action Region) :=
  [.command (.tryAllocate 24), .write 65552 7, .command (.reallocate (some 0) 100), .command (.allocate 8)]

def throttled : Play (Throttle Region) :=
  fresh { source := .fresh 65536 512 } { initialSize := 64, chunkSize := 64 } (Memory.fill {} 65552 24 3)

def writesLate : List (Action (Throttle Region)) :=
  [.command (.tryAllocate 24), .command (.reallocate (some 0) 100), .write 65632 9, .command (.allocate 8)]

theorem contents_irrelevant_trial :
    let p := plain.run .vetting writesEarly
    let q := throttled.run .vetting writesLate
    p.responses = q.responses ∧ p.world.machine.requests = q.world.machine.requests ∧
      p.world.machine.heap.extent = q.world.machine.heap.extent ∧
      p.world.machine.heap.blocks p.world.machine.memory = q.world.machine.heap.blocks q.world.machine.memory ∧
      p.world.machine.heap.check p.world.machine.memory = q.world.machine.heap.check q.world.machine.memory := by
  have leftStands : LawfulSource.EndsAt plain.world.machine.heap.source none := by constructor <;> decide
  have rightStands : LawfulSource.EndsAt throttled.world.machine.heap.source none := by constructor <;> decide
  have leftPermitted : plain.PermitsAll .vetting writesEarly := by
    refine ⟨?_, ?_, ?_, ?_, trivial⟩ <;> decide +kernel
  have rightPermitted : throttled.PermitsAll .vetting writesLate := by
    refine ⟨?_, ?_, ?_, ?_, trivial⟩ <;> decide +kernel
  have alike : AnsweredAlike (plain.run .vetting writesEarly).world.machine.requests
      (throttled.run .vetting writesLate).world.machine.requests := by decide +kernel
  exact contents_irrelevant leftStands rightStands leftPermitted rightPermitted alike _ _ List.prefix_rfl
    List.prefix_rfl rfl

end Play

end BoundaryTag
