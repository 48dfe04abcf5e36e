import Mathlib.Data.Fintype.Basic
import Radixun.Common.SchedulerRun
import Radixun.Foundation.CommandRuns
import Radixun.Foundation.TableSum

/-! The count of active threads, and what `Scheduler::stopping` says about the tasks of a scheduler. -/
namespace Radixun.Common.Run
open Foundation.CommandRuns Scheduler
variable {n : Nat}

namespace System

/-- The thread has lowered the count for a `READY` fiber that it has not put back yet. -/
def putsBack (s : System n) (w : Fin n) : Bool :=
  match (s.workers w).phase with
  | .settling x => s.states x.fiber = .ready
  | .requeuing _ => true
  | _ => false

/-- No task is queued, and no thread has one that it has not finished. -/
def Quiescent (s : System n) : Prop :=
  s.queue = [] ∧ ∀ w, (s.workers w).phase.counted = false ∧ s.putsBack w = false

/-- All is as for a scheduler that may stop, but for a fiber that is still to be put back. -/
def Gap (s : System n) : Prop :=
  s.autoStop = true ∧ s.stopping = true ∧ s.queue = [] ∧ (∀ w, (s.workers w).phase.counted = false) ∧
    ∃ w, s.putsBack w = true

instance (s : System n) : Decidable s.Quiescent := inferInstanceAs (Decidable (_ ∧ _))

/-- `m_activeThreadCount` counts the threads from the search that takes a task to the decrement. -/
def Counts (s : System n) : Prop := s.active = ∑ w, (s.workers w).phase.weight

theorem init_counts : Counts (init n) := by
  refine (Finset.sum_eq_zero fun w _ => ?_).symm
  rfl

private theorem counts_update {s s' : System n} (h : Counts s) {w : Fin n} {x : Worker n}
    (hw : s'.workers = Function.update s.workers w x)
    (ha : s'.active + (s.workers w).phase.weight = s.active + x.phase.weight) : Counts s' := by
  unfold Counts at h ⊢
  have hsum := Foundation.TableSum.sum_update Finset.univ s.workers (fun v : Worker n => v.phase.weight) (Finset.mem_univ w) x
  rw [hw]
  omega

theorem step_counts {s s' : System n} {a : Act n} (h : Counts s) (hs : step a s = .ok ((),s')) : Counts s' := by
  cases step_effect hs with
  | stays hw hq ha => rw [Counts, hw, ha, h]
  | submits task thread hw hq ha => rw [Counts, hw, ha, h]
  | takes w e rest hp hd hw hq ha =>
    refine counts_update h hw ?_
    rw [hp, ha]
    rfl
  | moves w x hw hj hq ha => exact counts_update h hw ha
  | requeues w x y hact hp hy hw hq ha =>
    refine counts_update h hw ?_
    rw [hp, hy, ha]
    rfl

theorem Counts.zero_iff {s : System n} (h : Counts s) : s.active = 0 ↔ ∀ w, (s.workers w).phase.counted = false := by
  rw [h, Finset.sum_eq_zero_iff]
  simp [Phase.weight]

/-- A thread that counts keeps the count above 0. -/
theorem Counts.pos {s : System n} (h : Counts s) {w : Fin n} (hc : (s.workers w).phase.counted = true) : 0 < s.active := by
  apply Nat.pos_of_ne_zero
  intro hz
  rw [h.zero_iff.mp hz w] at hc
  cases hc

theorem step_no_underflow {s : System n} {a : Act n} {e : Failure} (h : Counts s) (hs : step a s = .error e) : e ≠ .underflow := by
  rintro rfl
  cases a with
  | choose w =>
    simp only [step] at hs
    split at hs
    · rename_i job hp
      have hpos := h.pos (w := w) (by rw [hp]; rfl)
      have he := map_error hs
      unfold choose at he
      split at he
      · split at he
        · cases he
        · exact absurd (lower_error (map_error he)) hpos.ne'
      · split at he
        · split at he <;> cases he
        · cases he
    · cases hs
  | decrement w =>
    simp only [step] at hs
    split at hs
    · rename_i hp
      have hpos := h.pos (w := w) (by rw [hp]; rfl)
      exact absurd (lower_error (map_error hs)) hpos.ne'
    · cases hs
  | newFiber | schedule | start | autoStop | stop | test => cases hs
  | take w | swapIn w | yield w y | exit w e | settle w | requeue w | idle w =>
    simp only [step] at hs
    split at hs
    · first | cases hs | (split at hs <;> cases hs)
    · cases hs

theorem Counts.isStopping_iff {s : System n} (h : Counts s) :
    s.isStopping = true ↔ s.autoStop = true ∧ s.stopping = true ∧ s.queue = [] ∧ ∀ w, (s.workers w).phase.counted = false := by
  simp only [isStopping, Bool.and_eq_true, List.isEmpty_iff, beq_iff_eq, h.zero_iff, and_assoc]

/-- Where the count is right, `stopping` misses exactly the fibers that are still to be put back. -/
theorem Counts.sound_iff {s : System n} (h : Counts s) : (s.isStopping = true → s.Quiescent) ↔ ¬ s.Gap := by
  rw [h.isStopping_iff]
  constructor
  · rintro hq ⟨hauto,hstop,hempty,hcount,w,hw⟩
    have hnot := ((hq ⟨hauto,hstop,hempty,hcount⟩).2 w).2
    rw [hw] at hnot
    cases hnot
  · rintro hgap ⟨hauto,hstop,hempty,hcount⟩
    refine ⟨hempty,fun w => ⟨hcount w,?_⟩⟩
    rw [Bool.eq_false_iff]
    intro hw
    exact hgap ⟨hauto,hstop,hempty,hcount,w,hw⟩

/-- In every run the count of active threads does not underflow, and `stopping` answers true only where the scheduler
is quiescent exactly if it is never called in the gap between a decrement and the re-queuing that follows. -/
theorem quiescence_iff (acts : List (Act n)) :
    (∀ e, runAll step acts (init n) = .error e → e ≠ .underflow) ∧
    (Along (fun a s => s.tests a = true → s.isStopping = true → s.Quiescent) step acts (init n) ↔
      Along (fun a s => s.tests a = true → ¬ s.Gap) step acts (init n)) := by
  constructor
  · intro e he
    exact runAll_error (I := Counts) (fun _ _ _ _ h hs => step_counts h hs) (fun _ _ _ h hs => step_no_underflow h hs)
      acts init_counts he
  · refine along_congr (I := Counts) (fun a s h => ?_) (fun _ _ _ _ h _ hs => step_counts h hs) acts init_counts
    exact imp_congr_right fun _ => h.sound_iff

/-- One thread runs a callback that yields to `READY` and lowers the count. The idle fiber of another thread tests
`stopping` before the first puts the fiber back, and gets the answer true. -/
theorem stopping_in_gap : ∃ rs s,
    runAll step [.schedule .cb none,.autoStop,.stop,.take 0,.choose 0,.swapIn 0,.yield 0 .toReady,.take 1,.decrement 0,.settle 0]
      (init 2) = .ok (rs,s) ∧ s.tests (.idle 1) = true ∧ s.isStopping = true ∧ ¬ s.Quiescent :=
  ⟨List.replicate 10 (),_,rfl,by decide,by decide,by decide⟩

end System
end Radixun.Common.Run
