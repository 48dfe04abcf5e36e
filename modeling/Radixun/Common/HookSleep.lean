import Mathlib.Algebra.Group.Int.Defs
import Radixun.Common.TimerDeadlines

/-! The hooked `sleep`, `usleep` and `nanosleep`: a timer schedules the fiber again. -/
namespace Radixun.Common.Hook
open Foundation.CommandRuns
open Timers (Call Reply Ledger uint64)

/-- A valid `timespec` that is not negative. -/
structure Timespec where
  sec : Nat
  nsec : Nat
  sec_lt : sec < 2^63
  nsec_lt : nsec < 10^9

/-- A call of one of the three functions with hooks enabled. -/
inductive SleepCall where
  | sleep (seconds : UInt32)
  | usleep (usec : UInt32)
  | nanosleep (req : Timespec)

/-- `timeout_ms` of `nanosleep`, an `int`. -/
def timeoutMs (req : Timespec) : Int := ((req.sec * 1000 + req.nsec / 1000 / 1000 : Nat) : Int).bmod (2^32)

namespace SleepCall

/-- What is passed to `addTimer` as a `uint64_t`. -/
def period : SleepCall → UInt64
  | sleep seconds => (seconds * 1000).toUInt64
  | usleep usec => (usec / 1000).toUInt64
  | nanosleep req => UInt64.ofNat (timeoutMs req % 2^64).toNat

/-- The timer that the call adds for the fiber. -/
def timer {φ : Type} (c : SleepCall) (p now : Nat) (fiber : φ) : Call φ := .addTimer p now c.period.toNat (some fiber) false

/-- The duration that is asked for, in nanoseconds. -/
def requested : SleepCall → Nat
  | sleep seconds => seconds.toNat * 10^9
  | usleep usec => usec.toNat * 10^3
  | nanosleep req => req.sec * 10^9 + req.nsec

/-- The first number of milliseconds in which the duration has elapsed. -/
def duration (c : SleepCall) : Nat := (c.requested + 999999) / 10^6

/-- The conversion to milliseconds loses nothing: no product leaves 32 bits and no part of a millisecond is cut off. A count that
is negative as an `int` becomes a period of nearly `2^64`. -/
def Kept : SleepCall → Prop
  | sleep seconds => seconds.toNat * 1000 < 2^32
  | usleep usec => 1000 ∣ usec.toNat
  | nanosleep req =>
    let ms := req.sec * 1000 + req.nsec / 10^6
    (10^6 ∣ req.nsec ∧ ms < 2^31) ∨ (2^31 ≤ ms % 2^32 ∧ (ms + 2^32 < 2^64 ∨ ms < 2^64 ∧ 10^6 ∣ req.nsec))

end SleepCall

theorem timeoutMs_eq (req : Timespec) : timeoutMs req = ((req.sec * 1000 + req.nsec / 10^6 : Nat) : Int).bmod (2^32) := by
  have hdiv : req.nsec / 1000 / 1000 = req.nsec / 10^6 := by omega
  unfold timeoutMs
  rw [hdiv]

theorem nanosleep_period (req : Timespec) : (SleepCall.nanosleep req).period.toNat =
    if (req.sec * 1000 + req.nsec / 10^6) % 2^32 < 2^31 then (req.sec * 1000 + req.nsec / 10^6) % 2^32
    else 2^64 - 2^32 + (req.sec * 1000 + req.nsec / 10^6) % 2^32 := by
  rw [SleepCall.period, timeoutMs_eq]
  generalize req.sec * 1000 + req.nsec / 10^6 = ms
  rw [UInt64.toNat_ofNat', Int.bmod_def]
  split <;> split <;> omega

/-- The period is no shorter than the duration exactly where the conversion loses nothing. -/
theorem duration_le_period_iff (c : SleepCall) : c.duration ≤ c.period.toNat ↔ c.Kept := by
  cases c with
  | sleep seconds =>
    have hperiod : (SleepCall.sleep seconds).period.toNat = seconds.toNat * 1000 % 2^32 := by
      rw [SleepCall.period, UInt32.toNat_toUInt64, UInt32.toNat_mul]
      rfl
    rw [hperiod, SleepCall.duration, SleepCall.requested, SleepCall.Kept]
    omega
  | usleep usec =>
    have hperiod : (SleepCall.usleep usec).period.toNat = usec.toNat / 1000 := by
      rw [SleepCall.period, UInt32.toNat_toUInt64, UInt32.toNat_div]
      rfl
    rw [hperiod, SleepCall.duration, SleepCall.requested, SleepCall.Kept]
    omega
  | nanosleep req =>
    rw [nanosleep_period, SleepCall.duration, SleepCall.requested, SleepCall.Kept]
    have := req.nsec_lt
    split <;> omega

end Radixun.Common.Hook

namespace Radixun.Common.Timers.Ledger
open Foundation.CommandRuns
variable {κ : Type} {s : Ledger κ} {i p m n : Nat} {d : κ}

/-- A timer that is to be returned at `n` is not returned before any time up to that, and before no other. -/
theorem neverEarly_le_iff (h : s.Good) (hh : s.Holds i p d) (hn : s.manager.next p = uint64 n) (hlt : n < 2^64) :
    s.NeverEarly i m ↔ m ≤ n := by
  constructor
  · intro hnever
    have hin : i ∈ (Reply.due (s.manager.listExpiredCb n 0).1).numbers :=
      (mem_numbers h).mpr ⟨p,d,hh,by rw [hn, uint64, Nat.mod_eq_of_lt hlt]⟩
    exact hnever [] [] s rfl trivial n 0 _ _ rfl hin
  · intro hle calls rs t hr ha now tmp r t' he hin
    exact hle.trans ((neverEarly_iff h hh hn).mpr hlt calls rs t hr ha now tmp r t' he hin)

end Radixun.Common.Timers.Ledger

namespace Radixun.Common.Hook
open Foundation.CommandRuns
open Timers (Call Reply Ledger)

/-- After every run of calls on the timers, the timer of a sleep whose sum of clock and period fits 64 bits does not schedule the
fiber before the duration has elapsed, in whatever run follows, exactly if the conversion loses nothing. -/
theorem sleep_never_early_iff {φ : Type} (before : List (Call φ)) : ∃ rs s, runAll Ledger.step before Ledger.start = .ok (rs,s) ∧
    ∀ (c : SleepCall) p t0 fiber i s', Ledger.step (c.timer p t0 fiber) s = .ok (.made i,s') → t0 + c.period.toNat < 2^64 →
      (s'.NeverEarly i (t0 + c.duration) ↔ c.Kept) := by
  obtain ⟨rs,s,hr,h⟩ := Ledger.run_completes before
  refine ⟨rs,s,hr,?_⟩
  intro c p t0 fiber i s' he hlt
  obtain ⟨q,d,hh,hn⟩ := (Ledger.Arms.addTimer p fiber false : s.Arms i t0 c.period.toNat (c.timer p t0 fiber) (.made i)).armed h he
  rw [Ledger.neverEarly_le_iff ((Ledger.step_effect h he).good h) hh hn hlt, Nat.add_le_add_iff_left, duration_le_period_iff]

/-- A sleep of one and a half milliseconds at 1000 is over at 1001. -/
theorem sleep_early : ∃ s' : Ledger Unit, Ledger.step ((SleepCall.usleep 1500).timer 1 1000 ()) Ledger.start = .ok (.made 0,s') ∧
    1000 + (SleepCall.usleep 1500).period.toNat < 2^64 ∧ (s'.manager.listExpiredCb 1001 0).1 = [some (0,())] ∧
    ¬ s'.NeverEarly 0 (1000 + (SleepCall.usleep 1500).duration) := by
  refine ⟨_,rfl,by decide,by decide +kernel,?_⟩
  intro hnever
  have hin : 0 ∈ (Reply.due (Timers.Manager.listExpiredCb
      ((Ledger.start : Ledger Unit).manager.addTimer 1 1000 (SleepCall.usleep 1500).period.toNat
        (some (0,())) false).2 1001 0).1).numbers := by
    decide +kernel
  exact absurd (hnever [] [] _ rfl trivial 1001 0 _ _ rfl hin) (by decide)

end Radixun.Common.Hook
