import Mathlib.Data.List.Basic
import Mathlib.Data.List.Count

/-! The task queue of the scheduler and the search of `run` in it. -/
namespace Radixun.Common.Scheduler

/-- `FiberAndThread`; `none` for the thread id -1. -/
structure Entry (τ θ : Type) where
  task : τ
  thread : Option θ
  deriving DecidableEq

variable {τ θ : Type} [DecidableEq θ]

/-- The entry is for another thread. -/
def Entry.foreign (e : Entry τ θ) (me : θ) : Bool := e.thread ≠ none ∧ e.thread ≠ some me

/-- What the search does not pass over: `busy` is the test for a fiber in state `EXEC`. -/
def Entry.takeable (busy : τ → Bool) (me : θ) (e : Entry τ θ) : Bool := !e.foreign me && !busy e.task

/-- The first entry the thread may take, and the queue without it. -/
def dequeue (busy : τ → Bool) (me : θ) : List (Entry τ θ) → Option (Entry τ θ × List (Entry τ θ))
  | [] => none
  | e :: es =>
    if e.takeable busy me then some (e,es)
    else (dequeue busy me es).map fun r => (r.1,e :: r.2)

/-- `tickle_me`: the search passes over an entry for another thread. -/
def passesForeign (busy : τ → Bool) (me : θ) : List (Entry τ θ) → Bool
  | [] => false
  | e :: es => if e.takeable busy me then false else e.foreign me || passesForeign busy me es

/-- The entry taken is the first that may be, and nothing else leaves the queue. -/
theorem dequeue_first {busy : τ → Bool} {me : θ} {queue rest : List (Entry τ θ)} {e : Entry τ θ}
    (h : dequeue busy me queue = some (e,rest)) :
    e.takeable busy me = true ∧ ∃ before behind, queue = before ++ e :: behind ∧ rest = before ++ behind ∧
      ∀ x ∈ before, x.takeable busy me = false := by
  induction queue generalizing rest with
  | nil => cases h
  | cons x xs ih =>
    rw [dequeue] at h
    split at h
    · rename_i hx
      cases h
      exact ⟨hx,[],xs,rfl,rfl,fun _ hy => absurd hy List.not_mem_nil⟩
    · rename_i hx
      obtain ⟨⟨y,ys⟩,hy,he⟩ := Option.map_eq_some_iff.mp h
      cases he
      obtain ⟨ht,before,behind,rfl,rfl,hskip⟩ := ih hy
      refine ⟨ht,x :: before,behind,rfl,rfl,?_⟩
      intro z hz
      rcases List.mem_cons.mp hz with rfl | hz
      · exact Bool.eq_false_iff.mpr hx
      · exact hskip z hz

theorem dequeue_some {busy : τ → Bool} {me : θ} {queue rest : List (Entry τ θ)} {e : Entry τ θ}
    (h : dequeue busy me queue = some (e,rest)) :
    e.takeable busy me = true ∧ ∃ before behind, queue = before ++ e :: behind ∧ rest = before ++ behind := by
  obtain ⟨ht,before,behind,hq,hr,-⟩ := dequeue_first h
  exact ⟨ht,before,behind,hq,hr⟩

theorem dequeue_none {busy : τ → Bool} {me : θ} {queue : List (Entry τ θ)} (h : dequeue busy me queue = none) :
    ∀ e ∈ queue, e.takeable busy me = false := by
  induction queue with
  | nil => exact fun _ he => absurd he List.not_mem_nil
  | cons x xs ih =>
    rw [dequeue] at h
    split at h
    · cases h
    · rename_i hx
      intro e he
      rcases List.mem_cons.mp he with rfl | he
      · exact Bool.eq_false_iff.mpr hx
      · exact ih (Option.map_eq_none_iff.mp h) e he

/-- Where nothing is taken and nothing is for others, all tasks are busy. -/
theorem busy_of_none {busy : τ → Bool} {me : θ} {queue : List (Entry τ θ)} (h : dequeue busy me queue = none)
    (hp : passesForeign busy me queue = false) : ∀ e ∈ queue, busy e.task = true := by
  induction queue with
  | nil => exact fun _ he => absurd he List.not_mem_nil
  | cons x xs ih =>
    have hx := dequeue_none h x List.mem_cons_self
    rw [dequeue, if_neg (by simp [hx])] at h
    rw [passesForeign, if_neg (by simp [hx]), Bool.or_eq_false_iff] at hp
    intro e he
    rcases List.mem_cons.mp he with rfl | he
    · simpa [Entry.takeable, hp.1] using hx
    · exact ih (Option.map_eq_none_iff.mp h) hp.2 e he

end Radixun.Common.Scheduler
