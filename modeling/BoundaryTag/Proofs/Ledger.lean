import BoundaryTag.Proofs.Exchange
import BoundaryTag.Proofs.Shifting

namespace BoundaryTag

open LawfulBreak (position Valid)

namespace Ask

def stop? : Ask → Option Nat
  | (bytes, .ok start) => some (start + bytes)
  | (_, .error _) => none

def Covers : Ask → Nat → Prop
  | (bytes, .ok start), address => start ≤ address ∧ address < start + bytes
  | (_, .error _), _ => False

end Ask

def lastStop (asks : List Ask) : Option Nat := (asks.filterMap Ask.stop?).getLast?

theorem lastStop_ok (asks : List Ask) (bytes start : Nat) :
    lastStop (asks ++ [(bytes, .ok start)]) = some (start + bytes) := by
  simp [lastStop, Ask.stop?]

theorem lastStop_error (asks : List Ask) (bytes : Nat) (cause : AllocError) :
    lastStop (asks ++ [(bytes, .error cause)]) = lastStop asks := by
  simp [lastStop, Ask.stop?]

namespace Spans

variable {start stop : Nat} {asks : List Ask}

theorem of_ungranted (start : Nat) (ungranted : lastStop asks = none) : Spans start asks start := by
  induction asks with
  | nil => rfl
  | cons ask rest ih =>
    obtain ⟨bytes, answer⟩ := ask
    cases answer with
    | ok addr => simp [lastStop, Ask.stop?] at ungranted
    | error cause => exact ih ungranted

theorem inside (spans : Spans start asks stop) {ask : Ask} (member : ask ∈ asks) {address : Nat}
    (covers : ask.Covers address) : start ≤ address ∧ address < stop := by
  induction asks generalizing start with
  | nil => cases member
  | cons head rest ih =>
    obtain ⟨bytes, answer⟩ := head
    cases answer with
    | ok addr =>
      obtain ⟨rfl, next⟩ := spans
      have length := next.stop_eq
      rcases List.mem_cons.mp member with rfl | member
      · simp only [Ask.Covers] at covers
        omega
      · have above := ih next member
        omega
    | error cause =>
      rcases List.mem_cons.mp member with rfl | member
      · exact covers.elim
      · exact ih spans member

theorem apart (spans : Spans start asks stop) :
    asks.Pairwise fun ask other => ∀ address, ask.Covers address → ¬other.Covers address := by
  induction asks generalizing start with
  | nil => exact .nil
  | cons head rest ih =>
    obtain ⟨bytes, answer⟩ := head
    cases answer with
    | ok addr =>
      obtain ⟨rfl, next⟩ := spans
      refine .cons ?_ (ih next)
      intro other member address covers covered
      have above := next.inside member covered
      simp only [Ask.Covers] at covers
      omega
    | error cause => exact .cons (fun _ _ _ covers => covers.elim) (ih spans)

theorem union (spans : Spans start asks stop) (address : Nat) :
    (∃ ask ∈ asks, ask.Covers address) ↔ start ≤ address ∧ address < stop := by
  constructor
  · rintro ⟨ask, member, covers⟩
    exact spans.inside member covers
  · rintro ⟨above, below⟩
    obtain ⟨bytes, addr, member, within⟩ := spans.covers above below
    exact ⟨_, member, within⟩

end Spans

namespace BreakSource

variable {β : Type} [BreakPrimitive β] [LawfulBreak β] {source : BreakSource β} {bytes expected actual : Nat}
  {grant : Grant (BreakSource β)}

/-- What a call leaves behind that found the break away from the end of the last grant. -/
structure Displaced (source : BreakSource β) (bytes expected actual : Nat) (grant : Grant (BreakSource β)) :
    Prop where
  last : source.lastEnd = some expected
  found : actual = position source.primitive
  differs : actual ≠ expected
  unchanged : grant.source.lastEnd = source.lastEnd
  returned : ¬source.ShrinkRefused bytes →
    position grant.source.primitive = actual ∧ grant.events.filterMap SourceEvent.log? = []
  stranded : source.ShrinkRefused bytes → position grant.source.primitive = actual + bytes ∧
    ∃ line, line.level = .warn ∧ grant.events.filterMap SourceEvent.log? = [line]

theorem Claiming.displaced (claiming : source.Claiming bytes grant) (valid : Valid source.primitive)
    (answer : grant.answer = .error (.nonContiguous expected actual)) :
    source.Displaced bytes expected actual grant := by
  cases claiming with
  | refused => cases answer
  | granted => cases answer
  | returned accepted last displaced back =>
    cases answer
    refine ⟨last, rfl, displaced, rfl, fun _ => ?_, fun stuck => absurd stuck back⟩
    exact ⟨LawfulBreak.contract.position_back valid accepted back, rfl⟩
  | stranded accepted last displaced stuck =>
    cases answer
    refine ⟨last, rfl, displaced, rfl, fun back => absurd stuck back, fun _ => ?_⟩
    exact ⟨LawfulBreak.contract.position_stuck valid accepted stuck, _, rfl, rfl⟩

theorem Growing.displaced (growing : source.Growing bytes grant) (valid : Valid source.primitive)
    (answer : grant.answer = .error (.nonContiguous expected actual)) :
    source.Displaced bytes expected actual grant := by
  cases growing with
  | huge => cases answer
  | unpadded => cases answer
  | padded first valid aligned quiet claiming =>
    have last := (claiming.displaced valid answer).last
    rw [first] at last
    cases last
  | later small later claiming => exact claiming.displaced valid answer

theorem Claiming.quiet (claiming : source.Claiming bytes grant)
    (other : ∀ expected actual, grant.answer ≠ .error (.nonContiguous expected actual)) :
    grant.events.filterMap SourceEvent.log? = [] := by
  cases claiming with
  | refused => rfl
  | granted => rfl
  | returned => exact absurd rfl (other _ _)
  | stranded => exact absurd rfl (other _ _)

theorem Growing.quiet (growing : source.Growing bytes grant)
    (other : ∀ expected actual, grant.answer ≠ .error (.nonContiguous expected actual)) :
    grant.events.filterMap SourceEvent.log? = [] := by
  cases growing with
  | huge => rfl
  | unpadded first valid stays quiet => exact quiet
  | padded first valid aligned quiet claiming => rw [List.filterMap_append, quiet, claiming.quiet other]; rfl
  | later small later claiming => exact claiming.quiet other

end BreakSource

structure Ledger (β : Type) where
  source : BreakSource β
  asks : List Ask := []

namespace Ledger

variable {β : Type} [BreakPrimitive β]

def grow (l : Ledger β) (bytes : Nat) : Ledger β where
  source := (l.source.grow bytes).source
  asks := l.asks ++ [(bytes, (l.source.grow bytes).answer)]

theorem asks_grow {l : Ledger β} {bytes : Nat} {answer : Except AllocError Nat}
    (same : (l.source.grow bytes).answer = answer) : (l.grow bytes).asks = l.asks ++ [(bytes, answer)] := by
  rw [← same]
  rfl

/-- Others have moved the break or its limits. -/
def moved (l : Ledger β) (primitive : β) : Ledger β := { l with source := { l.source with primitive } }

variable [LawfulBreak β]

inductive Reachable : Ledger β → Prop
  | fresh {primitive : β} (valid : Valid primitive) : Reachable { source := .fresh primitive }
  | grow {l : Ledger β} (reachable : Reachable l) (bytes : Nat) : Reachable (l.grow bytes)
  | moved {l : Ledger β} {primitive : β} (reachable : Reachable l) (valid : Valid primitive) :
    Reachable (l.moved primitive)

structure Kept (l : Ledger β) : Prop where
  valid : Valid l.source.primitive
  last : l.source.lastEnd = lastStop l.asks
  spans : ∃ first, first % unitSize = 0 ∧ Spans first l.asks ((lastStop l.asks).getD first)

structure Continues (l : Ledger β) (bytes : Nat) (grant : Grant (BreakSource β)) : Prop where
  first : lastStop l.asks = none → ∀ start, grant.answer = .ok start →
    start = roundUp (position l.source.primitive) ∧ start % unitSize = 0
  later : ∀ stop, lastStop l.asks = some stop → ∀ start, grant.answer = .ok start → start = stop
  ends : ∀ start, grant.answer = .ok start → position grant.source.primitive = start + bytes
  displaced : ∀ expected actual, grant.answer = .error (.nonContiguous expected actual) →
    lastStop l.asks = some expected ∧ l.source.Displaced bytes expected actual grant
  quiet : (∀ expected actual, grant.answer ≠ .error (.nonContiguous expected actual)) →
    grant.events.filterMap SourceEvent.log? = []

variable {l : Ledger β}

namespace Kept

theorem continues (kept : l.Kept) (bytes : Nat) : l.Continues bytes (l.source.grow bytes) := by
  have growing := BreakSource.growing kept.valid bytes
  have last := kept.last
  refine ⟨?_, ?_, ?_, ?_, growing.quiet⟩
  · intro ungranted start answer
    obtain ⟨here, -⟩ := growing.granted_at kept.valid answer
    rw [here (last.trans ungranted)]
    exact ⟨rfl, roundUp_mod _⟩
  · intro stop before start answer
    obtain ⟨-, follows, -⟩ := growing.granted_at kept.valid answer
    exact follows stop (last.trans before)
  · intro start answer
    exact (growing.granted_at kept.valid answer).2.2.2
  · intro expected actual answer
    have displaced := growing.displaced kept.valid answer
    exact ⟨last.symm.trans displaced.last, displaced⟩

theorem grow (kept : l.Kept) (bytes : Nat) : (l.grow bytes).Kept := by
  have growing := BreakSource.growing kept.valid bytes
  have valid := growing.valid kept.valid
  obtain ⟨first, aligned, spans⟩ := kept.spans
  cases answer : (l.source.grow bytes).answer with
  | error cause =>
    have asks := asks_grow answer
    have same : lastStop (l.grow bytes).asks = lastStop l.asks := by rw [asks, lastStop_error]
    refine ⟨valid, ?_, first, aligned, ?_⟩
    · rw [same, ← kept.last]
      exact growing.last_of_error answer
    · rw [same, asks]
      exact spans.append rfl
  | ok start =>
    have asks := asks_grow answer
    have stop : lastStop (l.grow bytes).asks = some (start + bytes) := by rw [asks, lastStop_ok]
    obtain ⟨-, follows, last, -⟩ := growing.granted_at kept.valid answer
    -- the range starts with the first grant
    have begins : ∃ first, first % unitSize = 0 ∧ Spans first l.asks start := by
      cases before : lastStop l.asks with
      | none =>
        have aligned := ((kept.continues bytes).first before start answer).2
        exact ⟨start, aligned, .of_ungranted start before⟩
      | some stop =>
        rw [before] at spans
        rw [follows stop (kept.last.trans before)]
        exact ⟨first, aligned, spans⟩
    obtain ⟨first, aligned, spans⟩ := begins
    refine ⟨valid, last.trans stop.symm, first, aligned, ?_⟩
    rw [stop, asks]
    exact spans.append ⟨rfl, rfl⟩

end Kept

theorem Reachable.kept (reachable : l.Reachable) : l.Kept := by
  induction reachable with
  | fresh valid => exact ⟨valid, rfl, 0, rfl, rfl⟩
  | grow reachable bytes kept => exact kept.grow bytes
  | moved reachable valid kept => exact ⟨valid, kept.last, kept.spans⟩

/-- All grants are disjoint and make up one range from a multiple of `unitSize` on, and the next call adds to its end
    or to nothing. -/
theorem Reachable.one_range (reachable : l.Reachable) :
    (l.asks.Pairwise fun ask other => ∀ address, ask.Covers address → ¬other.Covers address) ∧
      (∃ first stop, first % unitSize = 0 ∧
        ∀ address, (∃ ask ∈ l.asks, ask.Covers address) ↔ first ≤ address ∧ address < stop) ∧
      ∀ bytes, l.Continues bytes (l.source.grow bytes) := by
  have kept := reachable.kept
  obtain ⟨first, aligned, spans⟩ := kept.spans
  exact ⟨spans.apart, ⟨first, _, aligned, spans.union⟩, kept.continues⟩

theorem one_range_shared :
    let b : ProgramBreak := { position := 65541, floor := 65536, limit := 131072 }
    let l : Ledger ProgramBreak :=
      ((({ source := .fresh b } : Ledger ProgramBreak).grow 100).grow 3).moved { b with position := 65700 }
    ((l.grow 32).asks.Pairwise fun ask other => ∀ address, ask.Covers address → ¬other.Covers address) ∧
      (∃ first stop, first % unitSize = 0 ∧
        ∀ address, (∃ ask ∈ (l.grow 32).asks, ask.Covers address) ↔ first ≤ address ∧ address < stop) ∧
      ∀ bytes, (l.grow 32).Continues bytes ((l.grow 32).source.grow bytes) := by
  intro b l
  have valid : Valid b := ⟨⟨by decide, by decide⟩, by decide, by decide⟩
  have elsewhere : Valid { b with position := 65700 } := ProgramBreak.valid_at valid (by decide) (by decide)
  exact Reachable.one_range (.grow (.moved (.grow (.grow (.fresh valid) 100) 3) elsewhere) 32)

example :
    let b : ProgramBreak := { position := 65541, floor := 65536, limit := 131072 }
    let l : Ledger ProgramBreak :=
      ((({ source := .fresh b } : Ledger ProgramBreak).grow 100).grow 3).moved { b with position := 65700 }
    (l.grow 32).asks = [(100, .ok 65544), (3, .ok 65644), (32, .error (.nonContiguous 65647 65700))] := by
  decide +kernel

end Ledger

end BoundaryTag
