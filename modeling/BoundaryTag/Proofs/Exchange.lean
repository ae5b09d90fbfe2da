import BoundaryTag.Proofs.Course

namespace BoundaryTag

abbrev Ask := Nat × Except AllocError Nat

def granted (asks : List Ask) : Nat := (asks.map fun ask => if ask.2.isOk then ask.1 else 0).sum

inductive Growths (config : Config) (request : Nat) : List Ask → Prop
  | none : Growths config request []
  | one {need : Nat} {answer : Except AllocError Nat} (positive : request ≠ 0)
    (adjusted : blockSizeFor? request = some need) : Growths config request [(max need config.chunkSize, answer)]

@[simp] theorem granted_ok (bytes start : Nat) (asks : List Ask) :
    granted ((bytes, .ok start) :: asks) = bytes + granted asks := rfl

@[simp] theorem granted_error (bytes : Nat) (cause : AllocError) (asks : List Ask) :
    granted ((bytes, .error cause) :: asks) = granted asks := Nat.zero_add _

/-- The grants lie side by side from `start` to `stop`. -/
def Spans : Nat → List Ask → Nat → Prop
  | start, [], stop => start = stop
  | start, (bytes, .ok addr) :: rest, stop => addr = start ∧ Spans (start + bytes) rest stop
  | start, (_, .error _) :: rest, stop => Spans start rest stop

namespace Spans

variable {start middle stop : Nat} {asks more : List Ask}

theorem append (spans : Spans start asks middle) (next : Spans middle more stop) : Spans start (asks ++ more) stop := by
  induction asks generalizing start with
  | nil =>
    obtain rfl : start = middle := spans
    exact next
  | cons ask rest ih =>
    obtain ⟨bytes, answer⟩ := ask
    cases answer with
    | ok addr => exact ⟨spans.1, ih spans.2⟩
    | error cause => exact ih spans

theorem stop_eq (spans : Spans start asks stop) : stop = start + granted asks := by
  induction asks generalizing start with
  | nil => exact Eq.symm spans
  | cons ask rest ih =>
    obtain ⟨bytes, answer⟩ := ask
    cases answer with
    | ok addr =>
      have sum := ih spans.2
      rw [granted_ok]
      omega
    | error cause => rw [granted_error, ← ih spans]

theorem covers (spans : Spans start asks stop) {address : Nat} (above : start ≤ address) (below : address < stop) :
    ∃ bytes addr, (bytes, .ok addr) ∈ asks ∧ addr ≤ address ∧ address < addr + bytes := by
  induction asks generalizing start with
  | nil =>
    obtain rfl : start = stop := spans
    omega
  | cons ask rest ih =>
    obtain ⟨bytes, answer⟩ := ask
    cases answer with
    | ok addr =>
      obtain ⟨rfl, next⟩ := spans
      by_cases here : address < addr + bytes
      · exact ⟨bytes, addr, List.mem_cons_self, above, here⟩
      · obtain ⟨bytes, addr, member, within⟩ := ih next (by omega)
        exact ⟨bytes, addr, List.mem_cons_of_mem _ member, within⟩
    | error cause =>
      obtain ⟨bytes, addr, member, within⟩ := ih spans above
      exact ⟨bytes, addr, List.mem_cons_of_mem _ member, within⟩

end Spans

namespace Machine

variable {σ : Type}

def requests (s : Machine σ) : List Ask := s.trace.filterMap Event.request?

@[simp] theorem noting_requests {α : Type} (s : Machine σ) (size : Nat) (answer : Except AllocError α) :
    (s.noting size answer).requests = s.requests := by
  cases answer with
  | ok a => rfl
  | error cause => simp [noting, requests, Event.request?]

theorem joined_requests (x : Extent) (m : Memory) (block : Block) (before after : Option Block) :
    (x.joined m block before after).events.filterMap Event.request? = [] := by
  simp only [Extent.joined]
  split <;> rfl

theorem released_requests (s : Machine σ) (x : Extent) (block : Block) (before after : Option Block) :
    (s.released x block before after).requests = s.requests := by
  simp only [released, requests, releasing, List.filterMap_append, joined_requests, List.append_nil]

theorem place_requests (s : Machine σ) (block : Block) (need : Nat) : (s.place block need).requests = s.requests := by
  simp only [place, requests, Block.placement]
  split <;> simp [Event.request?]

/-- What an operation for `request` bytes asks, and how the heap grows by what is granted. -/
inductive Exchange (s t : Machine σ) (request : Nat) : List Ask → Prop
  | silent (unset : s.heap.extent = none) (heap : t.heap = s.heap) (memory : t.memory = s.memory) :
    Exchange s t request []
  | unframed {cause : AllocError} (valid : s.heap.config.validate = .ok ()) (unset : s.heap.extent = none)
    (still : t.heap.extent = none) (memory : t.memory = s.memory) :
    Exchange s t request [(frameBytes, .error cause)]
  | bare {start : Nat} {cause : AllocError} (valid : s.heap.config.validate = .ok ()) (unset : s.heap.extent = none)
    (extent : t.heap.extent = some (.bare start)) :
    Exchange s t request [(frameBytes, .ok start), (s.heap.config.initialSize, .error cause)]
  | started {start stop : Nat} {x : Extent} {growths : List Ask} (valid : s.heap.config.validate = .ok ())
    (unset : s.heap.extent = none) (extent : t.heap.extent = some x)
    (grows : Growths s.heap.config request growths)
    (spans : Spans x.start ((frameBytes, .ok start) :: (s.heap.config.initialSize, .ok stop) :: growths) x.stop) :
    Exchange s t request ((frameBytes, .ok start) :: (s.heap.config.initialSize, .ok stop) :: growths)
  | set {x y : Extent} {growths : List Ask} (extent : s.heap.extent = some x) (after : t.heap.extent = some y)
    (grows : Growths s.heap.config request growths) (start : y.start = x.start)
    (spans : Spans x.stop growths y.stop) : Exchange s t request growths

variable {s t u : Machine σ} {x y : Extent} {blocks others : List Block} {block : Block} {size : Nat}

theorem Releasing.requests (releasing : s.Releasing x blocks block t y others) : t.requests = s.requests := by
  cases releasing with
  | joined => exact released_requests ..

theorem Exchange.congr {asks : List Ask} (exchange : s.Exchange t size asks) (heap : u.heap = t.heap)
    (memory : u.memory = t.memory) : s.Exchange u size asks := by
  cases exchange with
  | silent unset same kept => exact .silent unset (heap.trans same) (memory.trans kept)
  | unframed valid unset still kept => exact .unframed valid unset (heap ▸ still) (memory.trans kept)
  | bare valid unset extent => exact .bare valid unset (heap ▸ extent)
  | started valid unset extent grows spans => exact .started valid unset (heap ▸ extent) grows spans
  | set extent after grows start spans => exact .set extent (heap ▸ after) grows start spans

def Spanned (s : Machine σ) : Prop :=
  match s.heap.extent with
  | none => ∀ start, Spans start s.requests start
  | some x => Spans x.start s.requests x.stop

theorem Spanned.size_eq (spanned : s.Spanned) : s.heap.size = granted s.requests := by
  cases extent : s.heap.extent with
  | none =>
    simp only [Spanned, extent] at spanned
    have sum := (spanned 0).stop_eq
    simp only [Heap.size, extent, Option.elim]
    omega
  | some x =>
    simp only [Spanned, extent] at spanned
    have sum := spanned.stop_eq
    simp only [Heap.size, extent, Option.elim, Extent.stop] at sum ⊢
    omega

theorem Exchange.spanned {asks : List Ask} (exchange : s.Exchange t size asks)
    (requests : t.requests = s.requests ++ asks) (spanned : s.Spanned) : t.Spanned := by
  cases exchange with
  | silent unset heap memory =>
    simp only [Spanned, heap, unset, requests, List.append_nil] at spanned ⊢
    exact spanned
  | unframed valid unset still memory =>
    simp only [Spanned, still, unset, requests] at spanned ⊢
    exact fun start => (spanned start).append rfl
  | @bare start cause valid unset extent =>
    simp only [Spanned, extent, unset, requests] at spanned ⊢
    exact (spanned start).append ⟨rfl, rfl⟩
  | started valid unset extent grows spans =>
    simp only [Spanned, extent, unset, requests] at spanned ⊢
    exact (spanned _).append spans
  | set extent after grows start spans =>
    simp only [Spanned, extent, after, requests, start] at spanned ⊢
    exact spanned.append spans

variable [Source σ]

theorem asked_requests (s : Machine σ) (bytes : Nat) :
    (s.asked bytes).requests = s.requests ++ [(bytes, (Source.grow s.heap.source bytes).answer)] := by
  have moves : ((Source.grow s.heap.source bytes).events.map Event.source).filterMap Event.request? = [] := by
    simp [Event.request?]
  simp only [asked, requests, List.filterMap_append, moves, List.nil_append, List.filterMap_cons, Event.request?,
    List.filterMap_nil]

theorem framed_requests (s : Machine σ) (start : Nat) : (s.framed start).requests = (s.asked frameBytes).requests := by
  simp [framed, requests, Event.request?]

theorem grown_requests (s : Machine σ) (x : Extent) (bytes : Nat) (before : Option Block) :
    (s.grown x bytes before).requests = (s.asked bytes).requests := by
  simp only [grown, opened, requests, Extent.growth, List.filterMap_append, joined_requests, List.append_nil]
  exact List.append_nil _

theorem started_requests (s : Machine σ) (start bytes : Nat) :
    (s.started start bytes).requests = ((s.framed start).asked bytes).requests := grown_requests ..

variable [LawfulSource σ]

theorem Serving.exchange {answer : Except AllocError (Option Nat)}
    (serving : s.Serving x blocks size answer t y others) (ready : s.Ready x blocks) :
    ∃ growths, t.requests = s.requests ++ growths ∧ Growths s.heap.config size growths ∧ y.start = x.start ∧
      Spans x.stop growths y.stop := by
  cases serving with
  | empty => exact ⟨[], by simp, .none, rfl, rfl⟩
  | huge => exact ⟨[], by simp, .none, rfl, rfl⟩
  | found => exact ⟨[], by rw [place_requests, List.append_nil]; rfl, .none, rfl, rfl⟩
  | full => exact ⟨[], by simp, .none, rfl, rfl⟩
  | @refused need cause positive adjusted unfound room refused =>
    refine ⟨[(max need s.heap.config.chunkSize, .error cause)], ?_, .one positive adjusted, rfl, rfl⟩
    rw [asked_requests, refused]
    rfl
  | @grown need start left before positive adjusted unfound room granted =>
    obtain ⟨follows, -⟩ := LawfulSource.granted ready.stands granted
    refine ⟨[(max need s.heap.config.chunkSize, .ok start)], ?_, .one positive adjusted, rfl, follows _ rfl,
      Eq.symm Extent.stop_grown⟩
    rw [place_requests, grown_requests, asked_requests, granted]
    rfl

theorem Requesting.exchange {answer : Except AllocError (Option Nat)} (requesting : s.Requesting size answer t) :
    ∃ asks, t.requests = s.requests ++ asks ∧ s.Exchange t size asks := by
  cases requesting with
  | @unready cause t unset setup =>
    cases setup with
    | invalid => exact ⟨[], by simp, .silent unset.extent rfl rfl⟩
    | unframed valid refused =>
      exact ⟨_, by rw [asked_requests, refused], .unframed valid unset.extent unset.extent rfl⟩
    | @bare start _ valid granted refused =>
      refine ⟨[(frameBytes, .ok start), (s.heap.config.initialSize, .error cause)], ?_, .bare valid unset.extent rfl⟩
      rw [asked_requests, refused, framed_requests, asked_requests, granted, List.append_assoc]
      rfl
  | @started x y _ _ _ _ _ unset setup ready serving =>
    obtain ⟨growths, requests, grows, begins, spans⟩ := serving.exchange ready
    cases setup with
    | started valid granted grown =>
      rw [started_requests, asked_requests, grown, framed_requests, asked_requests, granted, List.append_assoc,
        List.append_assoc] at requests
      obtain ⟨follows, -⟩ := LawfulSource.granted (unset.framed valid granted).stands grown
      rw [Extent.stop_started] at spans
      refine ⟨_, requests, .started valid unset.extent (serving.ready ready).extent grows ?_⟩
      rw [begins]
      exact ⟨rfl, follows _ rfl, spans⟩
  | ready ready serving =>
    obtain ⟨growths, requests, grows, begins, spans⟩ := serving.exchange ready
    exact ⟨growths, requests, .set ready.extent (serving.ready ready).extent grows begins spans⟩

theorem Course.exchange {command : Command} {answer : Except AllocError (Option Nat)}
    (course : s.Course command answer t) :
    ∃ asks, t.requests = s.requests ++ asks ∧ s.Exchange t command.request asks := by
  induction course with
  | init requesting => exact requesting.exchange
  | tryAllocate requesting => exact requesting.exchange
  | allocate requesting =>
    obtain ⟨asks, requests, exchange⟩ := requesting.exchange
    exact ⟨asks, by rw [noting_requests, requests], exchange.congr (noting_heap ..) (noting_memory ..)⟩
  | freeNull consistent =>
    refine ⟨[], (List.append_nil _).symm, ?_⟩
    rcases consistent with unset | ⟨x, blocks, ready⟩
    · exact .silent unset.extent rfl rfl
    · exact .set ready.extent ready.extent .none rfl rfl
  | free ready busy releasing =>
    obtain ⟨begins, ends⟩ := releasing.grows
    refine ⟨[], by rw [releasing.requests, List.append_nil], ?_⟩
    exact .set ready.extent (releasing.ready ready).extent .none begins ends.symm
  | reallocateEmpty freeing ih => exact ih
  | reallocateNull positive allocating ih => exact ih
  | stay ready member busy positive serving =>
    obtain ⟨growths, requests, grows, begins, spans⟩ := serving.exchange ready
    refine ⟨growths, by rw [noting_requests, requests], .congr ?_ (noting_heap ..) (noting_memory ..)⟩
    exact .set ready.extent (serving.ready ready).extent grows begins spans
  | move ready member busy positive serving releasing =>
    obtain ⟨growths, requests, grows, begins, spans⟩ := serving.exchange ready
    obtain ⟨still, ends⟩ := releasing.grows
    have after := releasing.ready (serving.copied ready _)
    refine ⟨growths, releasing.requests.trans requests, .set ready.extent after.extent grows (still.trans begins) ?_⟩
    rwa [ends]

end Machine

end BoundaryTag
