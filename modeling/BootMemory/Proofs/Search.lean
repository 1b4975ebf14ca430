import BootMemory.Frames.Bitmap
import Mathlib

/-!
# Searching for free frames

The search walks upwards and counts the free frames just behind it.  What it has passed without
an answer holds no free run of the wanted length, so its answer is the lowest one, and no answer
means that there is none.
-/

namespace BootMemory

def FreeRun (taken : Nat → Bool) (start count : Nat) : Prop :=
  ∀ i, start ≤ i → i < start + count → taken i = false

/-- The outcome of a search for the lowest free run from `low` on that ends at or below
`limit`. -/
def LowestRun (taken : Nat → Bool) (count low limit : Nat) : Option Nat → Prop
  | some start =>
      low ≤ start ∧ start + count ≤ limit ∧ FreeRun taken start count ∧
        ∀ other, low ≤ other → other < start → ¬FreeRun taken other count
  | none => ∀ other, low ≤ other → other + count ≤ limit → ¬FreeRun taken other count

theorem lowestRun_searchRun {taken : Nat → Bool} {count low : Nat}
    (remaining next run : Nat) (hrun : run < count) (hlow : low + run ≤ next)
    (hfree : FreeRun taken (next - run) run)
    (hpassed : ∀ other, low ≤ other → other < next - run → ¬FreeRun taken other count) :
    LowestRun taken count low (next + remaining) (searchRun taken count remaining next run) := by
  induction remaining generalizing next run with
  | zero =>
      intro other hother hfits
      exact hpassed other hother (by omega)
  | succ remaining ih =>
      rw [searchRun]
      cases htaken : taken next with
      | true =>
          rw [if_pos rfl, show next + (remaining + 1) = next + 1 + remaining by omega]
          apply ih (next + 1) 0 (by omega) (by omega)
          · intro i hi hlt
            omega
          -- no run goes through a taken frame, so all starts up to it are ruled out
          · intro other hother hlt hrunOther
            by_cases hbefore : other < next - run
            · exact hpassed other hother hbefore hrunOther
            · have hnext := hrunOther next (by omega) (by omega)
              rw [htaken] at hnext
              contradiction
      | false =>
          rw [if_neg Bool.false_ne_true]
          have hlonger : FreeRun taken (next - run) (run + 1) := by
            intro i hi hlt
            by_cases heq : i = next
            · rw [heq, htaken]
            · exact hfree i hi (by omega)
          split
          next hcount =>
            refine ⟨by omega, by omega, ?_, hpassed⟩
            rw [← hcount]
            exact hlonger
          next hcount =>
            rw [show next + (remaining + 1) = next + 1 + remaining by omega]
            have hstart : next + 1 - (run + 1) = next - run := by omega
            apply ih (next + 1) (run + 1) (by omega) (by omega)
            · rw [hstart]
              exact hlonger
            · rw [hstart]
              exact hpassed

theorem lowestRun_firstRun {taken : Nat → Bool} {count low limit : Nat} (hcount : 0 < count) :
    LowestRun taken count low limit (firstRun taken count low limit) := by
  by_cases hle : low ≤ limit
  · have hsearch :
        LowestRun taken count low (low + (limit - low)) (firstRun taken count low limit) :=
      lowestRun_searchRun (limit - low) low 0 hcount (Nat.le_refl low)
        (fun i hi hlt => by omega) (fun other hother hlt => by omega)
    rwa [show low + (limit - low) = limit by omega] at hsearch
  · have hnone : firstRun taken count low limit = none := by
      rw [firstRun, show limit - low = 0 by omega]
      rfl
    rw [hnone]
    intro other hother hfits
    omega

/-- A search looks at the frames below its limit alone. -/
theorem searchRun_congr {taken other : Nat → Bool} {count remaining next run : Nat}
    (hsame : ∀ i < next + remaining, other i = taken i) :
    searchRun other count remaining next run = searchRun taken count remaining next run := by
  induction remaining generalizing next run with
  | zero => rfl
  | succ remaining ih =>
      have hrest : ∀ i < next + 1 + remaining, other i = taken i :=
        fun i hi => hsame i (by omega)
      rw [searchRun, searchRun, hsame next (by omega), ih hrest, ih hrest]

theorem firstRun_congr {taken other : Nat → Bool} {count low limit : Nat}
    (hsame : ∀ i < limit, other i = taken i) :
    firstRun other count low limit = firstRun taken count low limit := by
  by_cases hle : low ≤ limit
  · exact searchRun_congr fun i hi => hsame i (by omega)
  · have hnone : ∀ t, firstRun t count low limit = none := by
      intro t
      rw [firstRun, show limit - low = 0 by omega]
      rfl
    rw [hnone, hnone]

theorem freeRun_of_firstRun {taken : Nat → Bool} {count low limit start : Nat}
    (hcount : 0 < count) (hfirst : firstRun taken count low limit = some start) :
    start + count ≤ limit ∧ FreeRun taken start count := by
  have hlowest : LowestRun taken count low limit (firstRun taken count low limit) :=
    lowestRun_firstRun hcount
  rw [hfirst] at hlowest
  exact ⟨hlowest.2.1, hlowest.2.2.1⟩

end BootMemory
