import BoundaryTag.Size
import BoundaryTag.Source.Region

namespace BoundaryTag

class LawfulSource (σ : Type) [Source σ] where
  /-- The last grant ended at the address; `none` before the first one. -/
  EndsAt : σ → Option Nat → Prop
  granted {source : σ} {last : Option Nat} {bytes start : Nat} : EndsAt source last →
    (Source.grow source bytes).answer = .ok start →
      (∀ stop ∈ last, start = stop) ∧ (last = none → start % unitSize = 0) ∧ start + bytes < addressLimit ∧
        EndsAt (Source.grow source bytes).source (some (start + bytes))
  refused {source : σ} {last : Option Nat} {bytes : Nat} {cause : AllocError} : EndsAt source last →
    (Source.grow source bytes).answer = .error cause → EndsAt (Source.grow source bytes).source last

instance : LawfulSource Region where
  EndsAt region last := region.base + region.capacity < addressLimit ∧
    match last with
    | none => (region.base + region.used) % unitSize = 0
    | some stop => region.base + region.used = stop
  granted {region last bytes start} := by
    rintro ⟨bounded, stands⟩ answer
    by_cases fits : bytes ≤ region.remaining
    · simp only [Source.grow, Region.grow, dif_pos fits, Except.ok.injEq] at answer ⊢
      have room := region.used_le
      simp only [Region.remaining] at fits
      cases last with
      | none => exact ⟨by simp, fun _ => answer ▸ stands, by omega, bounded, by omega⟩
      | some stop => exact ⟨by rintro _ ⟨⟩; omega, by simp, by omega, bounded, by omega⟩
    · simp [Source.grow, Region.grow, dif_neg fits] at answer
  refused {region last bytes cause} := by
    intro stands answer
    by_cases fits : bytes ≤ region.remaining
    · simp [Source.grow, Region.grow, dif_pos fits] at answer
    · simpa only [Source.grow, Region.grow, dif_neg fits] using stands

instance {σ : Type} [Source σ] [LawfulSource σ] : LawfulSource (Throttle σ) where
  EndsAt throttle last := LawfulSource.EndsAt throttle.source last
  granted {throttle last bytes start} := by
    intro stands answer
    by_cases refuses : throttle.refusing = true ∨ throttle.allowance = some 0
    · simp [Source.grow, Throttle.grow, if_pos refuses] at answer
    · simp only [Source.grow, Throttle.grow, if_neg refuses] at answer ⊢
      exact LawfulSource.granted stands answer
  refused {throttle last bytes cause} := by
    intro stands answer
    by_cases refuses : throttle.refusing = true ∨ throttle.allowance = some 0
    · simpa only [Source.grow, Throttle.grow, if_pos refuses] using stands
    · simp only [Source.grow, Throttle.grow, if_neg refuses] at answer ⊢
      exact LawfulSource.refused stands answer

end BoundaryTag
