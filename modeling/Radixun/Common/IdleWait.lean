import Radixun.Common.IOManagerWakeup
import Radixun.Common.TimerCalls

/-! How long `idle` waits in `epoll_wait`, at first and after each interruption by a signal. -/
namespace Radixun.Common.Wakeup
open Foundation.CommandRuns
open Timers (Call Ledger)

/-- `next_timeout` behind the test against `MAX_TIMEOUT`. -/
def clamp (timeout : Nat) : Nat := if timeout ≠ 2^64 - 1 then (if toInt timeout > 3000 then 3000 else timeout) else 3000

/-- `interrupted` is a negative result with `EINTR`, which is the only one to go on after. -/
inductive WaitResult where
  | interrupted
  | returned (rt : Int)
  deriving DecidableEq, Repr

/-- The timeouts that the loop passes to `epoll_wait`, by the results of its waits so far. -/
def idleWaits : Nat → List WaitResult → List Int
  | timeout, [] => [toInt (clamp timeout)]
  | timeout, .interrupted :: results => toInt (clamp timeout) :: idleWaits (clamp timeout) results
  | timeout, .returned _ :: _ => [toInt (clamp timeout)]

/-- A wait that ends, within the maximum and before the next timer is due. -/
structure Bounded (delay : Nat) (timeout : Int) : Prop where
  nonneg : 0 ≤ timeout
  capped : timeout ≤ 3000
  early : timeout ≤ delay

/-- The earliest deadline is past, or the time until it as an `int` is not negative (all ones is for no timer). -/
def NextWithin {κ : Type} (now : Nat) (m : Timers.Manager κ) : Prop :=
  ∀ p, m.timers.head? = some p → m.next p ≤ now ∨ m.next p - now = 2^64 - 1 ∨ (m.next p - now) % 2^32 < 2^31

theorem toInt_low {d : Nat} (h : d % 2^32 < 2^31) : toInt d = (d % 2^32 : Nat) := by
  unfold toInt Int.bmod
  dsimp only
  split <;> omega

theorem toInt_high {d : Nat} (h : ¬ d % 2^32 < 2^31) : toInt d < 0 := by
  unfold toInt Int.bmod
  dsimp only
  split <;> omega

theorem clamp_over {d : Nat} (h : toInt d > 3000) : clamp d = 3000 := by
  rw [clamp, if_pos h, ite_self]

theorem clamp_within {d : Nat} (hd : d ≠ 2^64 - 1) (h : ¬ toInt d > 3000) : clamp d = d := by
  rw [clamp, if_pos hd, if_neg h]

theorem clamp_forever : clamp (2^64 - 1) = 3000 := if_neg fun h => h rfl

/-- Clamping once is enough. -/
theorem clamp_clamp (d : Nat) : clamp (clamp d) = clamp d := by
  have hmax : clamp 3000 = 3000 := rfl
  by_cases hd : d = 2^64 - 1
  · rw [hd, clamp_forever, hmax]
  · by_cases h : toInt d > 3000
    · rw [clamp_over h, hmax]
    · rw [clamp_within hd h, clamp_within hd h]

/-- Every retry passes the timeout of the first wait. -/
theorem idleWaits_same (results : List WaitResult) (timeout : Nat) : ∀ x ∈ idleWaits timeout results, x = toInt (clamp timeout) := by
  induction results generalizing timeout with
  | nil =>
    intro x hx
    exact List.mem_singleton.mp hx
  | cons r results ih =>
    intro x hx
    cases r with
    | returned rt => exact List.mem_singleton.mp hx
    | interrupted =>
      have hfirst : x = toInt (clamp timeout) ∨ x ∈ idleWaits (clamp timeout) results := List.mem_cons.mp hx
      obtain hx | hx := hfirst
      · exact hx
      · rw [ih (clamp timeout) x hx, clamp_clamp]

theorem first_mem_idleWaits (timeout : Nat) (results : List WaitResult) : toInt (clamp timeout) ∈ idleWaits timeout results := by
  cases results with
  | nil => exact List.mem_cons_self
  | cons r results => cases r <;> exact List.mem_cons_self

/-- The clamp does what it is there for unless the delay is negative as an `int`. -/
theorem clamped_iff (delay : Nat) : Bounded delay (toInt (clamp delay)) ↔ delay = 2^64 - 1 ∨ delay % 2^32 < 2^31 := by
  have hmax : toInt 3000 = 3000 := rfl
  constructor
  · intro h
    by_cases hd : delay = 2^64 - 1
    · exact .inl hd
    · refine .inr ?_
      by_contra hhigh
      have hneg := toInt_high hhigh
      have hnonneg := h.nonneg
      rw [clamp_within hd (by omega)] at hnonneg
      omega
  · rintro (rfl | hlow)
    · rw [clamp_forever, hmax]
      exact ⟨by decide,le_rfl,by decide⟩
    · have hint := toInt_low hlow
      have hle := Nat.mod_le delay (2^32)
      by_cases hover : toInt delay > 3000
      · rw [clamp_over hover, hmax]
        exact ⟨by decide,le_rfl,by omega⟩
      · have hd : delay ≠ 2^64 - 1 := by
          rintro rfl
          omega
        rw [clamp_within hd hover]
        exact ⟨by omega,by omega,by omega⟩

theorem nextWithin_iff {κ : Type} (now : Nat) (m : Timers.Manager κ) :
    (m.getNextTimer now).1 = 2^64 - 1 ∨ (m.getNextTimer now).1 % 2^32 < 2^31 ↔ NextWithin now m := by
  rw [Timers.Manager.getNextTimer, NextWithin]
  cases m.timers with
  | nil => exact iff_of_true (.inl rfl) (fun p hp => (by cases hp))
  | cons p ps =>
    dsimp only [List.head?_cons]
    have hall : ∀ C : Nat → Prop, (∀ q, some p = some q → C q) ↔ C p := fun C => ⟨fun h => h p rfl,fun h q hq => Option.some.inj hq ▸ h⟩
    rw [hall]
    split <;> omega

/-- After every run of calls on the timers and at every time, all the waits for the delay until the next timer are
bounded, exactly if the earliest deadline is within what an `int` holds. -/
theorem idle_bounded_iff {κ : Type} (calls : List (Call κ)) : ∃ rs s, runAll Ledger.step calls Ledger.start = .ok (rs,s) ∧
    ∀ now delay s', Ledger.step (.getNextTimer now) s = .ok (.delay delay,s') → ∀ results,
      (∀ x ∈ idleWaits delay results, Bounded delay x) ↔ NextWithin now s.manager := by
  obtain ⟨rs,s,hr,-⟩ := Ledger.run_completes calls
  refine ⟨rs,s,hr,?_⟩
  intro now delay s' hstep results
  have hdelay : (s.manager.getNextTimer now).1 = delay := by
    cases hstep
    rfl
  rw [← nextWithin_iff, hdelay, ← clamped_iff]
  constructor
  · intro h
    exact h _ (first_mem_idleWaits delay results)
  · intro h x hx
    rw [idleWaits_same results delay x hx]
    exact h

/-- With one timer, due in 2^31 milliseconds, the first wait has a negative timeout. -/
theorem waits_forever : ∃ s s' : Ledger Unit,
    runAll Ledger.step [.addTimer 1 1000 (2^31) (some ()) false] Ledger.start = .ok ([.made 0],s) ∧
    Ledger.step (.getNextTimer 1000) s = .ok (.delay (2^31),s') ∧ idleWaits (2^31) [] = [-2^31] ∧
    ¬ ∀ x ∈ idleWaits (2^31) [], Bounded (2^31) x := by
  refine ⟨_,_,rfl,rfl,by decide,?_⟩
  intro h
  have hneg := (h (-2^31) (by decide)).nonneg
  omega

end Radixun.Common.Wakeup
