import BoundaryTag.Proofs.Exchange

/-!
Heaps without their memory: an outline has the extent and the blocks of a heap, and what it asked for.
Operations on outlines are functions of the answers alone, and every course of a heap in memory is one of
its outline.
-/

namespace BoundaryTag

/-- The answers of a source, by the number of requests before. -/
abbrev Oracle := Nat → Except AllocError Nat

def Oracle.Fits (oracle : Oracle) (asks : List Ask) : Prop := ∀ i ask, asks[i]? = some ask → oracle i = ask.2

namespace Oracle.Fits

variable {oracle : Oracle} {asks more : List Ask} {ask : Ask}

theorem left (fits : oracle.Fits (asks ++ more)) : oracle.Fits asks := by
  intro i ask here
  exact fits i ask (by rw [List.getElem?_append_left (List.getElem?_eq_some_iff.mp here).1, here])

theorem answer (fits : oracle.Fits (asks ++ ask :: more)) : oracle asks.length = ask.2 :=
  fits _ _ (by simp)

end Oracle.Fits

structure Layout where
  extent : Extent
  blocks : List Block

structure Outline where
  config : Config
  layout : Option Layout := none
  requests : List Ask := []

def Outline.framed (k : Outline) (start : Nat) : Outline :=
  { k with layout := some ⟨.bare start, []⟩, requests := k.requests ++ [(frameBytes, .ok start)] }

abbrev OutlineM := EStateM AllocError Outline

def cutLast (blocks : List Block) : List Block × Option Block :=
  match blocks.getLast? with
  | some last => if last.allocated then (blocks, none) else (blocks.dropLast, some last)
  | none => ([], none)

def cutHead (blocks : List Block) : Option Block × List Block :=
  match blocks with
  | first :: rest => if first.allocated then (none, blocks) else (some first, rest)
  | [] => (none, [])

namespace Layout

def seek (l : Layout) (cursor : Nat) : Layout := { l with extent := { l.extent with cursor } }

def findFit? (l : Layout) (need : Nat) : Option Block :=
  (l.blocks.dropWhile (·.addr < l.extent.cursor) ++ l.blocks.takeWhile (·.addr < l.extent.cursor)).find? (·.fits need)

def place (l : Layout) (block : Block) (need : Nat) : Layout :=
  { l with blocks := l.blocks.flatMap fun other => if other = block then block.placed need else [other] }

def grow (l : Layout) (bytes : Nat) : Block × Layout :=
  let (left, before) := cutLast l.blocks
  let tail := l.extent.tail bytes before
  (tail, ⟨l.extent.grown bytes before, left ++ [tail]⟩)

def release (l : Layout) (addr : Nat) : Layout :=
  let (left, before) := cutLast (l.blocks.takeWhile (·.addr < addr))
  match l.blocks.dropWhile (·.addr < addr) with
  | [] => l
  | block :: behind =>
    let (after, right) := cutHead behind
    let result := block.join before after
    { l.seek (result.relocate l.extent.cursor) with blocks := left ++ [result] ++ right }

end Layout

namespace OutlineM

def ends {α : Type} (answer : Except AllocError α) (k : Outline) : EStateM.Result AllocError Outline α :=
  match answer with
  | .ok a => .ok a k
  | .error cause => .error cause k

def ask (oracle : Oracle) (bytes : Nat) : OutlineM Nat := fun k =>
  let answer := oracle k.requests.length
  ends answer { k with requests := k.requests ++ [(bytes, answer)] }

def setLayout (l : Layout) : OutlineM Unit := modify fun k => { k with layout := some l }

def grow (oracle : Oracle) (l : Layout) (bytes : Nat) : OutlineM (Block × Layout) := do
  if maxBlock < l.extent.size - frameBytes + bytes then throw (.outOfMemory bytes)
  let _ ← ask oracle bytes
  setLayout (l.grow bytes).2
  return l.grow bytes

def start (oracle : Oracle) (initial : Nat) : OutlineM Layout := do
  let bare : Layout := ⟨.bare (← ask oracle frameBytes), []⟩
  setLayout bare
  let (tail, l) ← grow oracle bare initial
  setLayout (l.seek tail.addr)
  return l.seek tail.addr

def init (oracle : Oracle) : OutlineM Layout := fun k =>
  match k.layout, k.config.validate with
  | some l, _ => .ok l k
  | none, .error cause => .error cause k
  | none, .ok () => start oracle k.config.initialSize k

def serve (oracle : Oracle) (l : Layout) (size : Nat) : OutlineM (Option Nat) := do
  if size = 0 then return none
  let some need := blockSizeFor? size | throw (.requestTooLarge size)
  let (block, l) ← match l.findFit? need with
    | some block => pure (block, l.seek block.addr)
    | none => grow oracle l (max need (← get).config.chunkSize)
  setLayout (l.place block need)
  return block.addr

def tryAllocate (oracle : Oracle) (size : Nat) : OutlineM (Option Nat) := do
  serve oracle (← init oracle) size

def allocate (oracle : Oracle) (size : Nat) : OutlineM (Option Nat) := fun k =>
  match tryAllocate oracle size k with
  | .ok pointer k => .ok pointer k
  | .error _ k => .ok none k

def free (pointer : Option Nat) : OutlineM Unit := modify fun k =>
  match pointer with
  | some addr => { k with layout := k.layout.map (·.release addr) }
  | none => k

def reallocate (oracle : Oracle) (pointer : Option Nat) (size : Nat) : OutlineM (Option Nat) := do
  if size = 0 then
    free pointer
    return none
  let answer ← allocate oracle size
  if answer.isSome then free pointer
  return answer

end OutlineM

def Command.redraw (oracle : Oracle) : Command → OutlineM (Option Nat)
  | init => do
    let _ ← OutlineM.init oracle
    return none
  | tryAllocate size => OutlineM.tryAllocate oracle size
  | allocate size => OutlineM.allocate oracle size
  | free pointer => do
    OutlineM.free pointer
    return none
  | reallocate pointer size => OutlineM.reallocate oracle pointer size

theorem cutLast_eq {left : List Block} {before : Option Block} (free : ∀ b ∈ before, b.allocated = false)
    (closed : ∀ b ∈ left.getLast?, b.allocated = true) : cutLast (left ++ before.toList) = (left, before) := by
  cases before with
  | some last => simp [cutLast, free last rfl]
  | none =>
    rcases List.eq_nil_or_concat' left with rfl | ⟨rest, last, rfl⟩
    · rfl
    · simp [cutLast, closed last (by simp)]

theorem cutHead_eq {right : List Block} {after : Option Block} (free : ∀ b ∈ after, b.allocated = false)
    (closed : ∀ b ∈ right.head?, b.allocated = true) : cutHead (after.toList ++ right) = (after, right) := by
  cases after with
  | some first => simp [cutHead, free first rfl]
  | none =>
    cases right with
    | nil => rfl
    | cons first rest => simp [cutHead, closed first rfl]

namespace OutlineM

variable {oracle : Oracle} {k : Outline} {l : Layout} {bytes : Nat} {answer : Except AllocError Nat} {more : List Ask}

theorem ask_run (fits : oracle.Fits (k.requests ++ (bytes, answer) :: more)) :
    ask oracle bytes k = ends answer { k with requests := k.requests ++ [(bytes, answer)] } := by
  simp only [ask, fits.answer]

theorem grow_full (full : maxBlock < l.extent.size - frameBytes + bytes) :
    grow oracle l bytes k = .error (.outOfMemory bytes) k := by
  simp only [grow, if_pos full]
  rfl

theorem grow_refused {cause : AllocError} (room : l.extent.size - frameBytes + bytes ≤ maxBlock)
    (fits : oracle.Fits (k.requests ++ (bytes, .error cause) :: more)) :
    grow oracle l bytes k = .error cause { k with requests := k.requests ++ [(bytes, .error cause)] } := by
  simp only [grow, if_neg (Nat.not_lt.mpr room), Bind.bind, EStateM.bind, ask_run fits]
  rfl

theorem grow_granted {start : Nat} (room : l.extent.size - frameBytes + bytes ≤ maxBlock)
    (fits : oracle.Fits (k.requests ++ (bytes, .ok start) :: more)) :
    grow oracle l bytes k =
      .ok (l.grow bytes)
        { k with layout := some (l.grow bytes).2, requests := k.requests ++ [(bytes, .ok start)] } := by
  simp only [grow, if_neg (Nat.not_lt.mpr room), Bind.bind, EStateM.bind, ask_run fits]
  rfl

theorem start_unframed {cause : AllocError} (fits : oracle.Fits (k.requests ++ (frameBytes, .error cause) :: more)) :
    start oracle bytes k = .error cause { k with requests := k.requests ++ [(frameBytes, .error cause)] } := by
  simp only [start, Bind.bind, EStateM.bind, ask_run fits]
  rfl

theorem start_framed {start : Nat} (fits : oracle.Fits (k.requests ++ (frameBytes, .ok start) :: more)) :
    OutlineM.start oracle bytes k = (do
      let (tail, l) ← grow oracle ⟨.bare start, []⟩ bytes
      setLayout (l.seek tail.addr)
      return l.seek tail.addr : OutlineM Layout) (k.framed start) := by
  simp only [OutlineM.start, Bind.bind, EStateM.bind, ask_run fits]
  rfl

variable {size need : Nat} {block : Block}

theorem serve_found (positive : size ≠ 0) (adjusted : blockSizeFor? size = some need)
    (found : l.findFit? need = some block) :
    serve oracle l size k = .ok (some block.addr) { k with layout := some ((l.seek block.addr).place block need) } := by
  simp only [serve, if_neg positive, adjusted, found, Bind.bind, EStateM.bind]
  rfl

theorem serve_unfound (positive : size ≠ 0) (adjusted : blockSizeFor? size = some need)
    (unfound : l.findFit? need = none) :
    serve oracle l size k = (do
      let (tail, l) ← grow oracle l (max need k.config.chunkSize)
      setLayout (l.place tail need)
      return some tail.addr : OutlineM (Option Nat)) k := by
  simp only [serve, if_neg positive, adjusted, unfound, Bind.bind, EStateM.bind]
  rfl

theorem serve_full (positive : size ≠ 0) (adjusted : blockSizeFor? size = some need) (unfound : l.findFit? need = none)
    (full : maxBlock < l.extent.size - frameBytes + max need k.config.chunkSize) :
    serve oracle l size k = .error (.outOfMemory (max need k.config.chunkSize)) k := by
  rw [serve_unfound positive adjusted unfound]
  simp only [Bind.bind, EStateM.bind, grow_full full]

theorem serve_refused {cause : AllocError} (positive : size ≠ 0) (adjusted : blockSizeFor? size = some need)
    (unfound : l.findFit? need = none) (room : l.extent.size - frameBytes + max need k.config.chunkSize ≤ maxBlock)
    (fits : oracle.Fits (k.requests ++ (max need k.config.chunkSize, .error cause) :: more)) :
    serve oracle l size k =
      .error cause { k with requests := k.requests ++ [(max need k.config.chunkSize, .error cause)] } := by
  rw [serve_unfound positive adjusted unfound]
  simp only [Bind.bind, EStateM.bind, grow_refused room fits]

theorem serve_grown {start : Nat} {tail : Block} {grown : Layout} (positive : size ≠ 0)
    (adjusted : blockSizeFor? size = some need)
    (unfound : l.findFit? need = none) (room : l.extent.size - frameBytes + max need k.config.chunkSize ≤ maxBlock)
    (fits : oracle.Fits (k.requests ++ (max need k.config.chunkSize, .ok start) :: more))
    (growth : l.grow (max need k.config.chunkSize) = (tail, grown)) :
    serve oracle l size k = .ok (some tail.addr) { k with
      layout := some (grown.place tail need)
      requests := k.requests ++ [(max need k.config.chunkSize, .ok start)] } := by
  rw [serve_unfound positive adjusted unfound]
  simp only [Bind.bind, EStateM.bind, grow_granted room fits, growth]
  rfl

end OutlineM

theorem Extent.Sound.findFit?_eq {x : Extent} {m : Memory} {blocks : List Block} (sound : x.Sound m blocks)
    (need : Nat) : x.findFit? m need = (Layout.mk x blocks).findFit? need := by
  rcases sound.searchOrder_cases with ⟨points, order⟩ | ⟨front, block, back, rfl, points, order⟩
  · have low : x.cursor ≤ x.start + frameBytes := by
      simp only [points, startSentinel]
      lia
    obtain ⟨none, all⟩ := sound.tiles.cut_low low
    rw [findFit?, Layout.findFit?, order, none, all, List.append_nil]
    exact List.find?_cons_of_neg (by simp [Block.fits, sentinel])
  · obtain ⟨before, rest⟩ := sound.tiles.cut
    rw [findFit?, Layout.findFit?, order, points, before, rest]

namespace Layout

variable {x : Extent} {m : Memory} {left right : List Block} {before after : Option Block} {block : Block}

theorem place_eq (tiled : x.Tiled m (left ++ [block] ++ right)) (need : Nat) :
    (Layout.mk x (left ++ [block] ++ right)).place block need = ⟨x, left ++ block.placed need ++ right⟩ :=
  congrArg (Layout.mk x) (tiled.tiles.exchange _)

theorem grow_eq {bytes : Nat} (neighbours : FreeNeighbours left before none []) :
    (Layout.mk x (left ++ before.toList)).grow bytes =
      (x.tail bytes before, ⟨x.grown bytes before, left ++ [x.tail bytes before]⟩) := by
  simp only [grow, cutLast_eq neighbours.before neighbours.left]

theorem release_eq (tiled : x.Tiled m (left ++ (before.toList ++ block :: after.toList) ++ right))
    (neighbours : FreeNeighbours left before after right) :
    (Layout.mk x (left ++ (before.toList ++ block :: after.toList) ++ right)).release block.addr =
      ⟨{ x with cursor := (block.join before after).relocate x.cursor },
        left ++ [block.join before after] ++ right⟩ := by
  have parts : left ++ (before.toList ++ block :: after.toList) ++ right =
      (left ++ before.toList) ++ block :: (after.toList ++ right) := by simp
  rw [parts] at tiled ⊢
  obtain ⟨ahead, behind⟩ := tiled.tiles.cut
  simp only [release, ahead, behind, cutLast_eq neighbours.before neighbours.left,
    cutHead_eq neighbours.after neighbours.right, seek]

end Layout

namespace Machine

variable {σ : Type}

def outline (s : Machine σ) : Outline where
  config := s.heap.config
  layout := s.heap.extent.map fun x => ⟨x, x.blocks s.memory⟩
  requests := s.requests

variable [Source σ] [LawfulSource σ] {s t u : Machine σ} {x y : Extent} {blocks others : List Block} {block : Block}
  {size : Nat} {oracle : Oracle} {answer : Except AllocError (Option Nat)}

theorem Unset.outline_eq (unset : s.Unset) : s.outline = ⟨s.heap.config, none, s.requests⟩ := by
  simp only [outline, unset.extent, Option.map_none]

theorem Ready.outline_eq (ready : s.Ready x blocks) : s.outline = ⟨s.heap.config, some ⟨x, blocks⟩, s.requests⟩ := by
  simp only [outline, ready.extent, Option.map_some, ready.tiled.blocks_eq]

theorem Serving.redraw (serving : s.Serving x blocks size answer t y others) (ready : s.Ready x blocks)
    (fits : oracle.Fits t.requests) :
    OutlineM.serve oracle ⟨x, blocks⟩ size s.outline = OutlineM.ends answer t.outline := by
  have search := ready.sound.findFit?_eq
  have after := (serving.ready ready).outline_eq
  rw [ready.outline_eq]
  cases serving with
  | empty zero =>
    rw [after, zero]
    rfl
  | huge positive huge =>
    rw [after]
    simp only [OutlineM.serve, if_neg positive, huge]
    rfl
  | found positive adjusted parts found =>
    subst parts
    rw [OutlineM.serve_found positive adjusted ((search _).symm.trans found), Layout.seek,
      Layout.place_eq (ready.tiled.withCursor _) _, after, place_requests]
    rfl
  | full positive adjusted unfound full =>
    rw [after]
    exact OutlineM.serve_full positive adjusted ((search _).symm.trans unfound) full
  | refused positive adjusted unfound room refused =>
    rw [asked_requests, refused] at after fits
    rw [after]
    exact OutlineM.serve_refused positive adjusted ((search _).symm.trans unfound) room fits
  | @grown need start left before positive adjusted unfound room granted parts neighbours =>
    subst parts
    rw [place_requests, grown_requests, asked_requests, granted] at after fits
    have grown := (ready.grown_tail adjusted neighbours room granted).2.1
    have placed := Layout.place_eq grown.tiled need
    rw [List.append_nil, List.append_nil] at placed
    rw [after, ← placed]
    exact OutlineM.serve_grown positive adjusted ((search _).symm.trans unfound) room fits (Layout.grow_eq neighbours)

theorem Unset.redraw {answer : Except AllocError Extent} (unset : s.Unset) (setup : s.Setup answer t)
    (fits : oracle.Fits t.requests) :
    OutlineM.init oracle s.outline = OutlineM.ends (answer.map fun x => ⟨x, x.blocks t.memory⟩) t.outline := by
  have before := unset.outline_eq
  cases setup with
  | invalid invalid =>
    rw [before]
    simp only [OutlineM.init, invalid]
    rfl
  | unframed valid refused =>
    rw [(unset.refused refused).outline_eq, before]
    rw [asked_requests, refused] at fits ⊢
    simp only [OutlineM.init, valid]
    exact OutlineM.start_unframed fits
  | @bare start cause valid granted refused =>
    obtain ⟨initial, -⟩ := (Config.validate_eq_ok_iff _).mp valid
    have after := ((unset.framed valid granted).refused refused).outline_eq
    rw [asked_requests, refused, framed_requests, asked_requests, granted] at after fits
    have stopped : OutlineM.grow oracle ⟨.bare start, []⟩ s.heap.config.initialSize (s.outline.framed start) = _ :=
      OutlineM.grow_refused (Unset.room start initial) (by rwa [before])
    rw [List.append_assoc] at fits
    rw [after, before]
    rw [before] at stopped
    simp only [OutlineM.init, valid]
    refine (OutlineM.start_framed fits).trans ?_
    simp only [Bind.bind, EStateM.bind, stopped]
    rfl
  | @started start stop valid granted grown =>
    obtain ⟨initial, -⟩ := (Config.validate_eq_ok_iff _).mp valid
    have ready := (unset.started valid granted grown).2
    have after := ready.outline_eq
    rw [started_requests, asked_requests, grown, framed_requests, asked_requests, granted] at after fits
    have done : OutlineM.grow oracle ⟨.bare start, []⟩ s.heap.config.initialSize (s.outline.framed start) = _ :=
      OutlineM.grow_granted (Unset.room start initial) (by rwa [before])
    rw [List.append_assoc] at fits
    rw [after, before, Except.map, ready.tiled.blocks_eq]
    rw [before] at done
    simp only [OutlineM.init, valid]
    refine (OutlineM.start_framed fits).trans ?_
    simp only [Bind.bind, EStateM.bind, done]
    rfl

theorem Ready.redraw_init (ready : s.Ready x blocks) : OutlineM.init oracle s.outline = .ok ⟨x, blocks⟩ s.outline := by
  rw [ready.outline_eq]
  rfl

theorem Requesting.redraw (requesting : s.Requesting size answer t) (fits : oracle.Fits t.requests) :
    OutlineM.tryAllocate oracle size s.outline = OutlineM.ends answer t.outline := by
  cases requesting with
  | unready unset setup =>
    simp only [OutlineM.tryAllocate, Bind.bind, EStateM.bind, unset.redraw setup fits]
    rfl
  | @started x y blocks others t _ _ unset setup ready serving =>
    obtain ⟨growths, requests, -⟩ := serving.exchange ready
    rw [requests] at fits
    have drawn := unset.redraw setup fits.left
    rw [Except.map, ready.tiled.blocks_eq] at drawn
    simp only [OutlineM.tryAllocate, Bind.bind, EStateM.bind, drawn]
    rw [← requests] at fits
    exact serving.redraw ready fits
  | ready ready serving =>
    simp only [OutlineM.tryAllocate, Bind.bind, EStateM.bind, ready.redraw_init]
    exact serving.redraw ready fits

theorem Requesting.redraw_allocate (requesting : s.Requesting size answer t) (fits : oracle.Fits t.requests) :
    OutlineM.allocate oracle size s.outline = .ok answer.toOption.join (t.noting size answer).outline := by
  have same : (t.noting size answer).outline = t.outline := by
    simp only [outline, noting_heap, noting_memory, noting_requests]
  simp only [OutlineM.allocate, requesting.redraw fits, same]
  cases answer <;> rfl

theorem Releasing.redraw (releasing : s.Releasing x blocks block t y others) (ready : s.Ready x blocks) :
    OutlineM.free (some block.addr) s.outline = .ok () t.outline := by
  have redrawn := (releasing.ready ready).outline_eq
  have requests := releasing.requests
  have config := releasing.config
  cases releasing with
  | @joined left right before after parts neighbours =>
    subst parts
    have drawn := Layout.release_eq ready.tiled neighbours
    rw [ready.releasing_cursor, requests, config] at redrawn
    rw [redrawn, ← drawn, ready.outline_eq]
    rfl

/-- Every course in memory is one of outlines, which the answers of the source determine. -/
theorem Course.redraw {command : Command} (course : s.Course command answer t) (fits : oracle.Fits t.requests) :
    command.redraw oracle s.outline = OutlineM.ends answer t.outline := by
  induction course with
  | init requesting => exact requesting.redraw fits
  | tryAllocate requesting => exact requesting.redraw fits
  | allocate requesting => exact requesting.redraw_allocate (by rwa [noting_requests] at fits)
  | freeNull => rfl
  | free ready busy releasing =>
    simp only [Command.redraw, Bind.bind, EStateM.bind, releasing.redraw ready]
    rfl
  | reallocateEmpty freeing ih => exact ih fits
  | reallocateNull positive allocating ih =>
    cases allocating with
    | @allocate _ answer _ requesting =>
      have drawn := requesting.redraw_allocate (by rwa [noting_requests] at fits)
      simp only [Command.redraw, OutlineM.reallocate, if_neg positive, Bind.bind, EStateM.bind, drawn]
      cases answer.toOption.join <;> rfl
  | stay ready member busy positive serving =>
    have drawn := (Requesting.ready ready serving).redraw_allocate (by rwa [noting_requests] at fits)
    simp only [Command.redraw, OutlineM.reallocate, if_neg positive, Bind.bind, EStateM.bind, drawn]
    rfl
  | @move x y z blocks others rest block size target t u ready member busy positive serving releasing =>
    have copied := serving.copied ready block
    have same : (t.copied block.addr target (min size (block.size - tagBytes))).outline = t.outline :=
      copied.outline_eq.trans (serving.ready ready).outline_eq.symm
    have freed := releasing.redraw copied
    rw [releasing.requests] at fits
    have drawn : OutlineM.allocate oracle size s.outline = .ok (some target) t.outline :=
      (Requesting.ready ready serving).redraw_allocate fits
    rw [same] at freed
    simp only [Command.redraw, OutlineM.reallocate, if_neg positive, Bind.bind, EStateM.bind, drawn, Option.isSome_some,
      if_true, freed]
    rfl

end Machine

end BoundaryTag
