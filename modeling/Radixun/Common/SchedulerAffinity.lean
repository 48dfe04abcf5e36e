import Mathlib.Data.Fintype.Basic
import Radixun.Common.SchedulerRun
import Radixun.Foundation.CommandRuns

/-! On which thread a task that was submitted for one thread is executed, after `run` has put it back. -/
namespace Radixun.Common.Run
open Foundation.CommandRuns Scheduler
variable {n : Nat}

namespace System

/-- The job of the slice that starts with an act, and its thread. -/
def starts (s : System n) : Act n → Option (Fin n × Job n)
  | .swapIn w =>
    match (s.workers w).phase with
    | .entering x => some (w,x.job)
    | _ => none
  | _ => none

/-- The job that an act puts back into the queue. -/
def putsBackJob (s : System n) : Act n → Option (Job n)
  | .requeue w =>
    match (s.workers w).phase with
    | .requeuing x => some x.job
    | _ => none
  | _ => none

/-- A slice of a task that `run` has put back starts on the thread that the task was submitted for. -/
def Affine (a : Act n) (s : System n) : Prop :=
  ∀ y ∈ s.starts a, y.2.again = true → y.2.pin = none ∨ y.2.pin = some y.1

/-- No task that was submitted for a thread is put back, if there is another thread to take it. -/
def Unpinned (a : Act n) (s : System n) : Prop := ∀ job ∈ s.putsBackJob a, job.pin = none ∨ n = 1

instance (a : Act n) (s : System n) : Decidable (Affine a s) :=
  inferInstanceAs (Decidable (∀ y ∈ s.starts a, y.2.again = true → y.2.pin = none ∨ y.2.pin = some y.1))

instance (a : Act n) (s : System n) : Decidable (Unpinned a s) :=
  inferInstanceAs (Decidable (∀ job ∈ s.putsBackJob a, job.pin = none ∨ n = 1))

/-- A job that was put back is for no thread, or there is only one. -/
def Free (job : Job n) : Prop := job.again = true → job.pin = none ∨ n = 1

structure AllFree (s : System n) : Prop where
  held : ∀ w, ∀ job ∈ (s.workers w).phase.job?, Free job
  queued : ∀ e ∈ s.queue, Free e.task

theorem init_free : AllFree (init n) := ⟨fun _ _ hj => (by cases hj),fun _ he => absurd he List.not_mem_nil⟩

private theorem held_update {s s' : System n} (h : AllFree s) {w : Fin n} {x : Worker n}
    (hw : s'.workers = Function.update s.workers w x) (hx : ∀ job ∈ x.phase.job?, Free job) :
    ∀ v, ∀ job ∈ (s'.workers v).phase.job?, Free job := by
  intro v job hj
  rw [hw, Function.update_apply] at hj
  split at hj
  · exact hx job hj
  · exact h.held v job hj

private theorem queued_append {s s' : System n} (h : AllFree s) {e : Entry (Job n) (Fin n)} (hq : s'.queue = s.queue ++ [e])
    (he : Free e.task) : ∀ x ∈ s'.queue, Free x.task := by
  intro x hx
  rw [hq, List.mem_append, List.mem_singleton] at hx
  rcases hx with hx | rfl
  · exact h.queued x hx
  · exact he

theorem step_free {s s' : System n} {a : Act n} (h : AllFree s) (ha : Unpinned a s) (hs : step a s = .ok ((),s')) : AllFree s' := by
  cases step_effect hs with
  | stays hw hq _ => exact ⟨hw ▸ h.held,hq ▸ h.queued⟩
  | submits task thread hw hq _ => exact ⟨hw ▸ h.held,queued_append h hq fun hagain => by cases hagain⟩
  | takes w e rest _ hd hw hq _ =>
    obtain ⟨-,before,behind,hqueue,hrest⟩ := dequeue_some hd
    have hsub : ∀ x ∈ e :: rest, x ∈ s.queue := by
      intro x hx
      rw [hqueue, List.mem_append, List.mem_cons]
      rw [hrest, List.mem_cons, List.mem_append] at hx
      tauto
    refine ⟨held_update h hw fun job hj => ?_,fun x hx => h.queued x (hsub x (List.mem_cons_of_mem e (hq ▸ hx)))⟩
    cases hj
    exact h.queued e (hsub e List.mem_cons_self)
  | moves w x hw hj hq _ => exact ⟨held_update h hw fun job hjob => h.held w job (hj job hjob),hq ▸ h.queued⟩
  | requeues w x y hact hp hy hw hq _ =>
    refine ⟨held_update h hw fun job hj => ?_,queued_append h hq fun _ => ?_⟩
    · rw [hy] at hj
      cases hj
    · subst hact
      exact ha x.job (by simp [putsBackJob, hp])

theorem AllFree.affine {s : System n} (h : AllFree s) (a : Act n) : Affine a s := by
  rintro ⟨w,job⟩ hy hagain
  cases a with
  | swapIn v =>
    simp only [starts] at hy
    split at hy
    · rename_i x hp
      cases hy
      rcases h.held w x.job (by rw [hp]; rfl) hagain with hnone | rfl
      · exact .inl hnone
      · cases x.job.pin with
        | none => exact .inl rfl
        | some t => exact .inr (congrArg some (Subsingleton.elim t w))
    · cases hy
  | _ => cases hy

/-- A thread that found nothing finds what is put back for any thread. -/
theorem dequeue_put_back {τ θ : Type} [DecidableEq θ] {busy : τ → Bool} {me : θ} {queue : List (Entry τ θ)} {e : Entry τ θ}
    (h : dequeue busy me queue = none) (he : e.takeable busy me = true) : dequeue busy me (queue ++ [e]) = some (e,queue) := by
  induction queue with
  | nil => rw [List.nil_append, dequeue, if_pos he]
  | cons x xs ih =>
    have hx := dequeue_none h x List.mem_cons_self
    rw [dequeue, if_neg (by simp [hx])] at h
    rw [List.cons_append, dequeue, if_neg (by simp [hx]), ih (Option.map_eq_none_iff.mp h)]
    rfl

/-- Where a task for `t` is put back and another thread finds nothing else, that thread executes the next slice. -/
theorem put_back_strays {s : System n} {w v t : Fin n} {x : Slice n} (hw : (s.workers w).phase = .requeuing x)
    (hpin : x.job.pin = some t) (hv : (s.workers v).phase = .search) (hvt : v ≠ t) (hready : s.states x.fiber = .ready)
    (hnone : dequeue s.busy v s.queue = none) : ¬ Along Affine step [.requeue w,.take v,.choose v,.swapIn v] s := by
  have hvw : v ≠ w := by
    rintro rfl
    rw [hw] at hv
    cases hv
  let job : Job n := ⟨.fiber x.fiber,x.job.pin,true⟩
  have hrequeue : step (.requeue w) s = .ok ((),s.requeue w x) := by simp only [step, hw]
  have hv₁ : ((s.requeue w x).workers v).phase = .search := by
    rw [← hv]
    exact congrArg Worker.phase (Function.update_of_ne hvw _ _)
  have hfound : dequeue (s.requeue w x).busy v (s.requeue w x).queue = some (⟨job,none⟩,s.queue) := by
    have hstate : (s.requeue w x).states x.fiber = .ready := hready
    refine dequeue_put_back (show dequeue s.busy v s.queue = none from hnone) ?_
    simp [Entry.takeable, Entry.foreign, busy, hstate]
  let s₂ := { s.requeue w x with queue := s.queue, active := (s.requeue w x).active + 1 }.setPhase v (.taken job)
  have htake : step (.take v) (s.requeue w x) = .ok ((),s₂) := by simp only [step, hv₁, take, hfound, s₂]
  have hv₂ : (s₂.workers v).phase = .taken job := by simp only [s₂, setPhase, setWorker, Function.update_self]
  have hstate : s₂.states x.fiber = .ready := hready
  let s₃ := s₂.setPhase v (.entering ⟨x.fiber,.fiber,job⟩)
  have hchoose : step (.choose v) s₂ = .ok ((),s₃) := by
    simp only [step, hv₂]
    simp [choose, job, hstate, s₃, Except.map]
  have hstarts : s₃.starts (.swapIn v) = some (v,job) := by
    simp only [starts, s₃, setPhase, setWorker, Function.update_self]
  intro h
  have h₁ := ((along_cons hrequeue).mp h).2
  have h₂ := ((along_cons htake).mp h₁).2
  have h₃ := ((along_cons hchoose).mp h₂).2
  have hstray := h₃.1 (v,job) hstarts rfl
  rcases hstray with hp | hp
  · rw [hpin] at hp
    cases hp
  · rw [hpin] at hp
    exact hvt (Option.some.inj hp).symm

/-- In every run in which no task with a thread id is put back while there are other threads, each slice that
follows a re-queuing is executed by the thread the task was submitted for. -/
theorem affinity_kept (acts : List (Act n)) (h : Along Unpinned step acts (init n)) : Along Affine step acts (init n) :=
  along_imp (I := fun s => AllFree s) (fun a _ hs _ => hs.affine a) (fun _ _ _ _ hs ha he => step_free hs ha he) acts init_free h

/-- A callback for one of two threads holds there, and one for any thread goes from one to the other. -/
theorem affinity_kept_two : Along Affine step
    [.schedule .cb (some 1),.take 1,.choose 1,.swapIn 1,.yield 1 .toHold,.decrement 1,.settle 1,
      .schedule .cb none,.take 0,.choose 0,.swapIn 0,.yield 0 .toReady,.decrement 0,.settle 0,.requeue 0,
      .take 1,.choose 1,.swapIn 1] (init 2) :=
  affinity_kept _ (by decide)

/-- A callback submitted for thread 1 yields to `READY` there, and thread 0 executes the rest of it. -/
theorem pin_lost : ¬ Along Affine step
    [.schedule .cb (some 1),.take 1,.choose 1,.swapIn 1,.yield 1 .toReady,.decrement 1,.settle 1,.requeue 1,
      .take 0,.choose 0,.swapIn 0] (init 2) := by
  decide

end System
end Radixun.Common.Run
