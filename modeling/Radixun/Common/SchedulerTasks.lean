import Mathlib.Data.List.Perm.Basic
import Mathlib.Logic.Function.Basic
import Radixun.Common.FiberModel
import Radixun.Common.SchedulerQueue
import Radixun.Foundation.CommandRuns

/-! Tasks on their way into the queue of a scheduler and out of it. Callers schedule single tasks
and containers of tasks, and any number of threads search the queue, each under the lock. -/
namespace Radixun.Common.Placement
open Foundation.CommandRuns Scheduler

/-- Callbacks are told apart as far as `κ` does. -/
inductive Task (κ : Type) where
  | fiber (i : Nat)
  | cb (c : κ)
  deriving DecidableEq

variable {κ θ : Type}

/-- `scheduleNoLock`: what it tells the caller, and the queue. `none` for a null fiber and for an
empty callback. -/
def scheduleNoLock (queue : List (Entry (Task κ) θ)) (fc : Option (Task κ)) (thread : Option θ) :
    Bool × List (Entry (Task κ) θ) :=
  (queue.isEmpty,match fc with
    | some task => queue ++ [⟨task,thread⟩]
    | none => queue)

/-- The loop of the batch form of `schedule`. -/
def scheduleEach (needTickle : Bool) (queue : List (Entry (Task κ) θ)) :
    List (Option (Task κ)) → Bool × List (Entry (Task κ) θ)
  | [] => (needTickle,queue)
  | fc :: fcs =>
    let (need,queue') := scheduleNoLock queue fc none
    scheduleEach (need || needTickle) queue' fcs

/-- `containers` are the variables of callers. -/
structure System (κ θ : Type) where
  states : Nat → FiberState
  containers : Nat → List (Option (Task κ))
  queue : List (Entry (Task κ) θ)

inductive Act (κ θ : Type) where
  | setState (i : Nat) (state : FiberState)
  | fill (v : Nat) (fcs : List (Option (Task κ)))
  | schedule (fc : Option (Task κ)) (thread : Option θ)
  | scheduleAt (v k : Nat) (thread : Option θ)
  | scheduleBatch (v : Nat)
  | search (me : θ)

/-- Whether `tickle` is called, and what a search found. -/
structure Reply (κ θ : Type) where
  tickle : Bool
  found : Option (Entry (Task κ) θ)

namespace System

def init (states : Nat → FiberState) : System κ θ := ⟨states,fun _ => [],[]⟩

/-- The test `getState() == EXEC`. -/
def busy (s : System κ θ) : Task κ → Bool
  | .fiber i => s.states i = .exec
  | .cb _ => false

def entries (thread : Option θ) (fcs : List (Option (Task κ))) : List (Entry (Task κ) θ) :=
  fcs.filterMap fun fc => fc.map fun task => ⟨task,thread⟩

theorem scheduleNoLock_queue (queue : List (Entry (Task κ) θ)) (fc : Option (Task κ)) (thread : Option θ) :
    (scheduleNoLock queue fc thread).2 = queue ++ entries thread [fc] := by
  cases fc <;> simp [scheduleNoLock, entries]

/-- A batch is appended in the order of its container. -/
theorem scheduleEach_queue (need : Bool) (queue : List (Entry (Task κ) θ)) (fcs : List (Option (Task κ))) :
    (scheduleEach need queue fcs).2 = queue ++ entries none fcs := by
  induction fcs generalizing need queue with
  | nil => simp [scheduleEach, entries]
  | cons fc fcs ih =>
    rw [scheduleEach, ih, scheduleNoLock_queue, List.append_assoc]
    cases fc <;> rfl

/-- What callers have in their variables after a call: a task given by its address is gone. -/
def left (vars : Nat → List (Option (Task κ))) : Act κ θ → Nat → List (Option (Task κ))
  | .fill v fcs => Function.update vars v fcs
  | .scheduleAt v k _ => Function.update vars v ((vars v).set k none)
  | .scheduleBatch v => Function.update vars v ((vars v).map fun _ => none)
  | _ => vars

/-- The tasks that a call is given. -/
def passed (vars : Nat → List (Option (Task κ))) : Act κ θ → List (Entry (Task κ) θ)
  | .schedule fc thread => entries thread [fc]
  | .scheduleAt v k thread => entries thread [(vars v)[k]?.join]
  | .scheduleBatch v => entries none (vars v)
  | _ => []

/-- The tasks that callers submit in the course of a run, in order. -/
def submitted (vars : Nat → List (Option (Task κ))) : List (Act κ θ) → List (Entry (Task κ) θ)
  | [] => []
  | a :: acts => passed vars a ++ submitted (left vars a) acts

/-- The entries that searches came back with, in order. -/
def taken (replies : List (Reply κ θ)) : List (Entry (Task κ) θ) := replies.filterMap Reply.found

variable [DecidableEq θ]

/-- One call of `schedule`, or one search by a thread. A task given by its address, as in the batch
form, is moved out of its variable: `fiber.swap(*f)` and `cb.swap(*f)`. -/
def step (a : Act κ θ) (s : System κ θ) : Reply κ θ × System κ θ :=
  match a with
  | .setState i state => (⟨false,none⟩,{ s with states := Function.update s.states i state })
  | .fill v fcs => (⟨false,none⟩,{ s with containers := Function.update s.containers v fcs })
  | .schedule fc thread =>
    let (need,queue) := scheduleNoLock s.queue fc thread
    (⟨need,none⟩,{ s with queue := queue })
  | .scheduleAt v k thread =>
    let fc := (s.containers v)[k]?.join
    let (need,queue) := scheduleNoLock s.queue fc thread
    (⟨need,none⟩,{ s with
      queue := queue
      containers := Function.update s.containers v ((s.containers v).set k none) })
  | .scheduleBatch v =>
    let fcs := s.containers v
    let (need,queue) := scheduleEach false s.queue fcs
    (⟨need,none⟩,{ s with
      queue := queue
      containers := Function.update s.containers v (fcs.map fun _ => none) })
  | .search me =>
    let tickle := passesForeign s.busy me s.queue
    match dequeue s.busy me s.queue with
    | none => (⟨tickle,none⟩,s)
    | some (e,rest) => (⟨tickle,some e⟩,{ s with queue := rest })

/-- An entry for any thread with a callback. -/
def freeCb (e : Entry (Task κ) θ) : Bool :=
  match e with
  | ⟨.cb _,none⟩ => true
  | _ => false

theorem freeCb_takeable {s : System κ θ} {e : Entry (Task κ) θ} (h : freeCb e = true) (me : θ) :
    e.takeable s.busy me = true := by
  obtain ⟨task,thread⟩ := e
  cases task <;> cases thread <;> simp_all [freeCb, Entry.takeable, Entry.foreign, busy]

/-- Nothing is lost and nothing is taken twice, and callbacks for any thread leave in the order they came: `new` was passed
since the queue was `queue`, and `out` taken. -/
structure Conserves (queue new queue' out : List (Entry (Task κ) θ)) : Prop where
  conserved : (queue ++ new).Perm (queue' ++ out)
  ordered : out.filter freeCb ++ queue'.filter freeCb = (queue ++ new).filter freeCb

omit [DecidableEq θ] in
theorem Conserves.refl (queue : List (Entry (Task κ) θ)) : Conserves queue [] queue [] := ⟨List.Perm.refl _,by rw [List.append_nil]; rfl⟩

omit [DecidableEq θ] in
theorem Conserves.append {queue new queue' : List (Entry (Task κ) θ)} (h : queue' = queue ++ new) : Conserves queue new queue' [] := by
  subst h
  exact ⟨by rw [List.append_nil],rfl⟩

omit [DecidableEq θ] in
theorem Conserves.trans {queue new queue' out new' queue'' out' : List (Entry (Task κ) θ)} (h : Conserves queue new queue' out)
    (h' : Conserves queue' new' queue'' out') : Conserves queue (new ++ new') queue'' (out ++ out') := by
  constructor
  · calc (queue ++ (new ++ new')).Perm ((queue ++ new) ++ new') := by rw [List.append_assoc]
      List.Perm _ ((queue' ++ out) ++ new') := h.conserved.append_right new'
      _ = queue' ++ (out ++ new') := List.append_assoc _ _ _
      List.Perm _ (queue' ++ (new' ++ out)) := List.perm_append_comm.append_left queue'
      _ = (queue' ++ new') ++ out := (List.append_assoc _ _ _).symm
      List.Perm _ ((queue'' ++ out') ++ out) := h'.conserved.append_right out
      _ = queue'' ++ (out' ++ out) := List.append_assoc _ _ _
      List.Perm _ (queue'' ++ (out ++ out')) := List.perm_append_comm.append_left queue''
  · calc (out ++ out').filter freeCb ++ queue''.filter freeCb
        = out.filter freeCb ++ (out'.filter freeCb ++ queue''.filter freeCb) := by rw [List.filter_append, List.append_assoc]
      _ = (out.filter freeCb ++ queue'.filter freeCb) ++ new'.filter freeCb := by
        rw [h'.ordered, List.filter_append, List.append_assoc]
      _ = (queue ++ (new ++ new')).filter freeCb := by
        rw [h.ordered, ← List.filter_append, List.append_assoc]

/-- A search takes one entry out of the queue, the first that the thread may take. -/
theorem search_conserves (s : System κ θ) (me : θ) :
    Conserves s.queue [] (step (.search me) s).2.queue (step (.search me) s).1.found.toList := by
  cases hd : dequeue s.busy me s.queue with
  | none =>
    simp only [step, hd]
    exact .refl s.queue
  | some out =>
    obtain ⟨e,rest⟩ := out
    obtain ⟨-,before,behind,hq,rfl,hskip⟩ := dequeue_first hd
    have hnone : before.filter freeCb = [] := by
      refine List.filter_eq_nil_iff.mpr fun x hx hfree => ?_
      have hfirst := hskip x hx
      rw [freeCb_takeable hfree me] at hfirst
      cases hfirst
    simp only [step, hd, Option.toList_some]
    rw [hq]
    constructor
    · rw [List.append_nil, List.append_assoc]
      exact (List.perm_append_singleton e behind).symm.append_left before
    · rw [List.append_nil, List.filter_append, List.filter_append, hnone, List.nil_append, List.nil_append, ← List.filter_append,
        List.singleton_append]

theorem step_conserves (s : System κ θ) (a : Act κ θ) :
    Conserves s.queue (passed s.containers a) (step a s).2.queue (step a s).1.found.toList := by
  cases a with
  | setState i state => exact .refl s.queue
  | fill v fcs => exact .refl s.queue
  | schedule fc thread => exact .append (scheduleNoLock_queue s.queue fc thread)
  | scheduleAt v k thread => exact .append (scheduleNoLock_queue s.queue _ thread)
  | scheduleBatch v => exact .append (scheduleEach_queue false s.queue (s.containers v))
  | search me => exact search_conserves s me

theorem step_containers (s : System κ θ) (a : Act κ θ) : (step a s).2.containers = left s.containers a := by
  cases a with
  | search me =>
    cases hd : dequeue s.busy me s.queue with
    | none => simp only [step, hd, left]
    | some out => simp only [step, hd, left]
  | _ => rfl

omit [DecidableEq θ] in
theorem taken_cons (r : Reply κ θ) (replies : List (Reply κ θ)) : taken (r :: replies) = r.found.toList ++ taken replies := by
  rw [taken, List.filterMap_cons]
  cases r.found <;> rfl

theorem run_conserves (s : System κ θ) (acts : List (Act κ θ)) :
    Conserves s.queue (submitted s.containers acts) (runTotal step acts s).2.queue (taken (runTotal step acts s).1) := by
  induction acts generalizing s with
  | nil => exact .refl s.queue
  | cons a acts ih =>
    have hrest := ih (step a s).2
    rw [step_containers] at hrest
    rw [submitted, runTotal, taken_cons]
    exact (step_conserves s a).trans hrest

theorem run_containers (s : System κ θ) (acts : List (Act κ θ)) : (runTotal step acts s).2.containers = acts.foldl left s.containers := by
  induction acts generalizing s with
  | nil => rfl
  | cons a acts ih => rw [runTotal, ih, step_containers, List.foldl_cons]

/-- Thread `me` may take the entry: it is for any thread or for `me`, and its fiber does not execute. -/
def May (s : System κ θ) (me : θ) (e : Entry (Task κ) θ) : Prop :=
  (e.thread = none ∨ e.thread = some me) ∧ ∀ i, e.task = .fiber i → s.states i ≠ .exec

theorem takeable_iff (s : System κ θ) (me : θ) (e : Entry (Task κ) θ) : e.takeable s.busy me = true ↔ s.May me e := by
  obtain ⟨task,thread⟩ := e
  cases task <;> cases thread <;> simp [Entry.takeable, Entry.foreign, busy, May]

/-- What a search leaves in the queue `queue`: it takes the first entry that the thread may take. -/
def Finds (s : System κ θ) (me : θ) : Option (Entry (Task κ) θ) → List (Entry (Task κ) θ) → Prop
  | none, queue => queue = s.queue ∧ ∀ x ∈ s.queue, ¬ s.May me x
  | some e, queue => s.May me e ∧ ∃ before behind, s.queue = before ++ e :: behind ∧ queue = before ++ behind ∧
      ∀ x ∈ before, ¬ s.May me x

theorem search_finds (s : System κ θ) (me : θ) :
    s.Finds me (step (.search me) s).1.found (step (.search me) s).2.queue := by
  cases hd : dequeue s.busy me s.queue with
  | none =>
    simp only [step, hd]
    refine ⟨rfl,fun x hx hmay => ?_⟩
    exact absurd ((takeable_iff s me x).mpr hmay) (by simp [dequeue_none hd x hx])
  | some out =>
    obtain ⟨e,rest⟩ := out
    simp only [step, hd]
    obtain ⟨ht,before,behind,hq,hr,hskip⟩ := dequeue_first hd
    refine ⟨(takeable_iff s me e).mp ht,before,behind,hq,hr,fun x hx hmay => ?_⟩
    exact absurd ((takeable_iff s me x).mpr hmay) (by simp [hskip x hx])

/-- In every run the tasks passed to the scheduler are those in the queue and those that searches came back with, each
once, tasks given by address are out of the callers' variables, and callbacks for any thread are taken in the order they
were submitted. In every state a batch is appended in order, and a search finds the first entry it may take. -/
theorem conserved_and_placed (states : Nat → FiberState) (acts : List (Act κ θ)) :
    let r := runTotal step acts (init states : System κ θ)
    ((submitted (fun _ => []) acts).Perm (r.2.queue ++ taken r.1) ∧
      r.2.containers = acts.foldl left (fun _ => []) ∧
      (taken r.1).filter freeCb ++ r.2.queue.filter freeCb = (submitted (fun _ => []) acts).filter freeCb) ∧
    (∀ (s : System κ θ) v, (step (.scheduleBatch v) s).2.queue = s.queue ++ entries none (s.containers v)) ∧
    ∀ (s : System κ θ) me, s.Finds me (step (.search me) s).1.found (step (.search me) s).2.queue := by
  refine ⟨?_,?_,?_⟩
  · have h := run_conserves (init states : System κ θ) acts
    exact ⟨h.conserved,run_containers _ acts,h.ordered⟩
  · intro s v
    exact scheduleEach_queue false _ _
  · intro s me
    exact search_finds s me

/-- A container with an empty callback is scheduled twice, and thread 0 searches before thread 1. -/
private def batch : List (Act Nat Nat) :=
  [.schedule (some (.cb 0)) (some 1),.fill 0 [some (.cb 1),none,some (.cb 2)],.scheduleBatch 0,.scheduleBatch 0,.search 0,.search 1]

theorem conserved_and_placed_batch :
    (submitted (fun _ => []) batch).Perm
      ((runTotal step batch (init fun _ => .init)).2.queue ++ taken (runTotal step batch (init fun _ => .init)).1) ∧
    submitted (fun _ => []) batch = [⟨.cb 0,some 1⟩,⟨.cb 1,none⟩,⟨.cb 2,none⟩] ∧
    taken (runTotal step batch (init fun _ => .init)).1 = [⟨.cb 1,none⟩,⟨.cb 0,some 1⟩] :=
  ⟨(conserved_and_placed (fun _ => .init) batch).1.1,by decide,by decide⟩

end System
end Radixun.Common.Placement
