import BoundaryTag.Proofs.Readiness

namespace BoundaryTag

def Extent.started (start bytes : Nat) : Extent :=
  { (bare start).grown bytes none with cursor := ((bare start).tail bytes none).addr }

@[simp] theorem Extent.start_started (start bytes : Nat) : (started start bytes).start = start := rfl

@[simp] theorem Extent.stop_started (start bytes : Nat) : (started start bytes).stop = start + frameBytes + bytes := by
  simp only [started, grown, longer, bare, stop, Nat.add_assoc]

namespace Machine

variable {σ : Type} [Source σ]

def started (s : Machine σ) (start bytes : Nat) : Machine σ :=
  ((s.framed start).grown (.bare start) bytes none).seek ((Extent.bare start).grown bytes none)
    ((Extent.bare start).tail bytes none).addr

theorem started_memory (s : Machine σ) (start bytes : Nat) :
    (s.started start bytes).memory = ((Extent.bare start).growth (HeapM.frame s.memory start) bytes none).memory := rfl

/-- How setting up ends: the configuration is invalid, or no frame is granted, or a frame and no more,
    or a frame and one free block. -/
inductive Setup (s : Machine σ) : Except AllocError Extent → Machine σ → Prop
  | invalid {cause : AllocError} (invalid : s.heap.config.validate = .error cause) : Setup s (.error cause) s
  | unframed {cause : AllocError} (valid : s.heap.config.validate = .ok ())
    (refused : (Source.grow s.heap.source frameBytes).answer = .error cause) :
    Setup s (.error cause) (s.asked frameBytes)
  | bare {start : Nat} {cause : AllocError} (valid : s.heap.config.validate = .ok ())
    (granted : (Source.grow s.heap.source frameBytes).answer = .ok start)
    (refused : (Source.grow (s.framed start).heap.source s.heap.config.initialSize).answer = .error cause) :
    Setup s (.error cause) ((s.framed start).asked s.heap.config.initialSize)
  | started {start stop : Nat} (valid : s.heap.config.validate = .ok ())
    (granted : (Source.grow s.heap.source frameBytes).answer = .ok start)
    (grown : (Source.grow (s.framed start).heap.source s.heap.config.initialSize).answer = .ok stop) :
    Setup s (.ok (.started start s.heap.config.initialSize)) (s.started start s.heap.config.initialSize)

theorem exists_setup (s : Machine σ) : ∃ answer t, s.Setup answer t := by
  cases valid : s.heap.config.validate with
  | error cause => exact ⟨_, _, .invalid valid⟩
  | ok done =>
    cases granted : (Source.grow s.heap.source frameBytes).answer with
    | error cause => exact ⟨_, _, .unframed valid granted⟩
    | ok start =>
      cases grown : (Source.grow (s.framed start).heap.source s.heap.config.initialSize).answer with
      | error cause => exact ⟨_, _, .bare valid granted grown⟩
      | ok stop => exact ⟨_, _, .started valid granted grown⟩

theorem Setup.config {s t : Machine σ} {answer : Except AllocError Extent} (setup : s.Setup answer t) :
    t.heap.config = s.heap.config := by cases setup <;> rfl

end Machine

namespace HeapM

variable {σ : Type} [Source σ] {s : Machine σ} {start : Nat} {cause : AllocError}

theorem init_invalid (extent : s.heap.extent = none) (invalid : s.heap.config.validate = .error cause) :
    init s = .error (.failed cause) s := by
  simp only [init, Bind.bind, EStateM.bind, get_run, extent, config_run, invalid, ofAnswer_error]
  rfl

theorem init_unframed (extent : s.heap.extent = none) (valid : s.heap.config.validate = .ok ())
    (refused : (Source.grow s.heap.source frameBytes).answer = .error cause) :
    init s = .error (.failed cause) (s.asked frameBytes) := by
  simp only [init, Bind.bind, EStateM.bind, get_run, extent, config_run, valid, ofAnswer_ok, pure_run, request_run,
    refused, ofAnswer_error]
  rfl

theorem init_framed (extent : s.heap.extent = none) (valid : s.heap.config.validate = .ok ())
    (granted : (Source.grow s.heap.source frameBytes).answer = .ok start) :
    init s = (do
      let (_, x) ← extend (.bare start) (s.heap.config.initialSize / wordSize)
      let x := { x with cursor := x.first (← memory) }
      setExtent x
      return x : HeapM σ Extent) (s.framed start) := by
  simp only [init, Bind.bind, EStateM.bind, get_run, extent, config_run, valid, ofAnswer_ok, pure_run, request_run,
    granted, memory_run, setMemory_run, setExtent_run, record_run, Machine.framed, Machine.asked]
  rfl

end HeapM

namespace Machine.Unset

variable {σ : Type} [Source σ] [LawfulSource σ] {s t : Machine σ} {start stop : Nat} {x : Extent} {cause : AllocError}
  {answer : Except AllocError Extent}

theorem room (start : Nat) {bytes : Nat} (size : IsBlockSize bytes) :
    (Extent.bare start).size - frameBytes + bytes ≤ maxBlock := by
  have small := size.2.2
  simp only [Extent.bare]
  omega

theorem started (unset : s.Unset) (valid : s.heap.config.validate = .ok ())
    (granted : (Source.grow s.heap.source frameBytes).answer = .ok start)
    (grown : (Source.grow (s.framed start).heap.source s.heap.config.initialSize).answer = .ok stop) :
    HeapM.init s = .ok (.started start s.heap.config.initialSize) (s.started start s.heap.config.initialSize) ∧
      (s.started start s.heap.config.initialSize).Ready (.started start s.heap.config.initialSize)
        [(Extent.bare start).tail s.heap.config.initialSize none] := by
  obtain ⟨initial, -⟩ := (Config.validate_eq_ok_iff _).mp valid
  have framed : (s.framed start).Ready (.bare start) ([] ++ (none : Option Block).toList) :=
    unset.framed valid granted
  have neighbours : FreeNeighbours [] none none [] := ⟨by simp, by simp, by simp, by simp⟩
  obtain ⟨run, ready⟩ := framed.extend_grown neighbours initial (room start initial) grown
  have first := ready.tiled.first_eq
  refine ⟨?_, ready.seek (by simp)⟩
  rw [HeapM.init_framed unset.extent valid granted, HeapM.bind_ok run]
  exact congrArg (fun cursor => EStateM.Result.ok _ (Machine.seek _ _ cursor)) first

theorem init_run (unset : s.Unset) (setup : s.Setup answer t) : HeapM.init s = HeapM.ends answer t := by
  cases setup with
  | invalid invalid => exact HeapM.init_invalid unset.extent invalid
  | unframed valid refused => exact HeapM.init_unframed unset.extent valid refused
  | bare valid granted refused =>
    obtain ⟨initial, -⟩ := (Config.validate_eq_ok_iff _).mp valid
    have stopped := (unset.framed valid granted).extend_refused initial (room _ initial) refused
    exact (HeapM.init_framed unset.extent valid granted).trans (HeapM.bind_error stopped)
  | started valid granted grown => exact (unset.started valid granted grown).1

theorem failed (unset : s.Unset) (setup : s.Setup (.error cause) t) : t.Unset ∨ ∃ start, t.Ready (.bare start) [] := by
  cases setup with
  | invalid => exact .inl unset
  | unframed valid refused => exact .inl (unset.refused refused)
  | bare valid granted refused => exact .inr ⟨_, (unset.framed valid granted).refused refused⟩

theorem ready (unset : s.Unset) (setup : s.Setup (.ok x) t) : ∃ block, block.allocated = false ∧ t.Ready x [block] := by
  cases setup with
  | started valid granted grown => exact ⟨_, rfl, (unset.started valid granted grown).2⟩

end Machine.Unset

end BoundaryTag
