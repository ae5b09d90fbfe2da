import BoundaryTag.Heap.Allocate

namespace BoundaryTag

def Machine.asked {σ : Type} [Source σ] (s : Machine σ) (bytes : Nat) : Machine σ :=
  let grant := Source.grow s.heap.source bytes
  { s with
    heap := { s.heap with source := grant.source }
    trace := s.trace ++ (grant.events.map .source ++ [.requested bytes grant.answer]) }

namespace HeapM

variable {σ α β : Type} {s t : Machine σ}

/-- The result of an operation that ran into no fault: it answers, or it fails. -/
def ends (answer : Except AllocError α) (t : Machine σ) : EStateM.Result (Stop AllocError) (Machine σ) α :=
  match answer with
  | .ok a => .ok a t
  | .error cause => .error (.failed cause) t

theorem bind_ok {first : HeapM σ α} {next : α → HeapM σ β} {a : α} (done : first s = .ok a t) :
    (first >>= next) s = next a t := by
  simp only [Bind.bind, EStateM.bind, done]

theorem bind_error {first : HeapM σ α} {next : α → HeapM σ β} {stop : Stop AllocError}
    (stopped : first s = .error stop t) : (first >>= next) s = .error stop t := by
  simp only [Bind.bind, EStateM.bind, stopped]

@[simp] theorem pure_run (a : α) : (pure a : HeapM σ α) s = .ok a s := rfl

@[simp] theorem memory_run : HeapM.memory s = .ok s.memory s := rfl

@[simp] theorem config_run : HeapM.config s = .ok s.heap.config s := rfl

@[simp] theorem get_run : (get : HeapM σ (Machine σ)) s = .ok s s := rfl

@[simp] theorem modify_run (f : Machine σ → Machine σ) : (modify f : HeapM σ Unit) s = .ok () (f s) := rfl

@[simp] theorem setMemory_run (m : Memory) : (setMemory m : HeapM σ Unit) s = .ok () { s with memory := m } := rfl

@[simp] theorem setExtent_run (x : Extent) :
    (setExtent x : HeapM σ Unit) s = .ok () { s with heap := { s.heap with extent := some x } } := rfl

@[simp] theorem record_run (events : List Event) :
    (record events : HeapM σ Unit) s = .ok () { s with trace := s.trace ++ events } := rfl

@[simp] theorem fail_run (cause : AllocError) : (fail cause : HeapM σ α) s = .error (.failed cause) s := rfl

@[simp] theorem ofChecked_ok (a : α) : (ofChecked (.ok a) : HeapM σ α) = pure a := rfl

@[simp] theorem ofAnswer_ok (a : α) : (ofAnswer (.ok a) : HeapM σ α) = pure a := rfl

@[simp] theorem ofAnswer_error (cause : AllocError) : (ofAnswer (.error cause) : HeapM σ α) = fail cause := rfl

theorem attempt_ends {operation : HeapM σ α} {answer : Except AllocError α} (ended : operation s = ends answer t) :
    attempt operation s = .ok answer t := by
  cases answer <;> simp only [attempt, ended, ends]

theorem merge_run {x : Extent} {block : Nat} {merged : Merged} (answer : x.merge s.memory block = .ok merged) :
    HeapM.merge x block s = .ok (merged.block, { x with cursor := merged.cursor })
      { heap := { s.heap with extent := some { x with cursor := merged.cursor } }
        memory := merged.memory
        trace := s.trace ++ merged.events } := by
  simp only [HeapM.merge, Bind.bind, EStateM.bind, memory_run, answer, ofChecked_ok]
  rfl

variable [Source σ]

theorem request_run (bytes : Nat) :
    request bytes s = (ofAnswer (Source.grow s.heap.source bytes).answer : HeapM σ Nat) (s.asked bytes) := by
  simp only [request, Bind.bind, EStateM.bind, get_run, modify_run, record_run]
  rfl

theorem extend_full {x : Extent} {words bytes : Nat} (whole : bytesOfWords? words = some bytes)
    (framed : frameBytes ≤ x.size) (full : maxBlock < x.size - frameBytes + bytes) :
    extend x words s = .error (.failed (.outOfMemory bytes)) s := by
  simp only [extend, whole, checkedSub, if_pos framed, if_pos full, Bind.bind, EStateM.bind, ofChecked_ok, pure_run]
  rfl

theorem extend_refused {x : Extent} {words bytes : Nat} {cause : AllocError}
    (whole : bytesOfWords? words = some bytes)
    (framed : frameBytes ≤ x.size) (room : x.size - frameBytes + bytes ≤ maxBlock)
    (refused : (Source.grow s.heap.source bytes).answer = .error cause) :
    extend x words s = .error (.failed cause) (s.asked bytes) := by
  simp only [extend, whole, checkedSub, if_pos framed, if_neg (Nat.not_lt.mpr room), Bind.bind, EStateM.bind,
    ofChecked_ok, pure_run, request_run, refused, ofAnswer_error, fail_run]

end HeapM

end BoundaryTag
