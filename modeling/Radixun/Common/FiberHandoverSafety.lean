import Radixun.Common.FiberHandover
import Radixun.Foundation.CommandRuns

/-! When no two threads execute one fiber. -/
namespace Radixun.Common.Handover
open Scheduler Foundation.CommandRuns

/-- The fiber whose code the thread is in, up to the save of its context. -/
def Phase.on : Phase → Option Nat
  | .running f _ | .leaving f _ => some f
  | _ => none

/-- The fiber that runs between the state write of `swapIn` and its own last state write. -/
def Phase.executes : Phase → Option Nat
  | .running f _ => some f
  | _ => none

/-- The fiber whose last state write is done and whose context is not saved yet. -/
def Phase.leaves : Phase → Option Nat
  | .leaving f _ => some f
  | _ => none

/-- The fiber the thread has taken from the queue or is about to leave behind. -/
def Phase.fiber? : Phase → Option Nat
  | .taken task => match task with
    | .fiber f => some f
    | .cb => none
  | .entering f _ | .running f _ | .leaving f _ | .returned f _ => some f
  | .search | .exited => none

namespace System
variable {n : Nat}

@[simp] theorem setFiber_fibers (s : System n) (f g : Nat) (x : Shared) :
    (s.setFiber f x).fibers g = if g = f then x else s.fibers g := Function.update_apply _ _ _ _
@[simp] theorem setFiber_workers (s : System n) (f : Nat) (x : Shared) (w : Fin n) :
    (s.setFiber f x).workers w = s.workers w := rfl
@[simp] theorem setState_fibers (s : System n) (f g : Nat) (state : FiberState) :
    (s.setState f state).fibers g = if g = f then ⟨state,(s.fibers f).saved⟩ else s.fibers g := Function.update_apply _ _ _ _
@[simp] theorem setState_workers (s : System n) (f : Nat) (state : FiberState) (w : Fin n) :
    (s.setState f state).workers w = s.workers w := rfl
@[simp] theorem setWorker_workers (s : System n) (w v : Fin n) (x : Worker) :
    (s.setWorker w x).workers v = if v = w then x else s.workers v := Function.update_apply _ _ _ _
@[simp] theorem setWorker_fibers (s : System n) (w : Fin n) (x : Worker) (f : Nat) :
    (s.setWorker w x).fibers f = s.fibers f := rfl
@[simp] theorem setPhase_workers (s : System n) (w v : Fin n) (phase : Phase) :
    (s.setPhase w phase).workers v = if v = w then { s.workers w with phase := phase } else s.workers v :=
  Function.update_apply _ _ _ _
@[simp] theorem setPhase_fibers (s : System n) (w : Fin n) (phase : Phase) (f : Nat) :
    (s.setPhase w phase).fibers f = s.fibers f := rfl
@[simp] theorem enqueue_workers (s : System n) (task : Task) (thread : Option (Fin n)) (w : Fin n) :
    (s.enqueue task thread).workers w = s.workers w := rfl
@[simp] theorem enqueue_fibers (s : System n) (task : Task) (thread : Option (Fin n)) (f : Nat) :
    (s.enqueue task thread).fibers f = s.fibers f := rfl

end System

variable {n : Nat} {s : System n}

/-- The locals of a thread at the top of the loop again. -/
def Worker.Back (x y : Worker) : Prop := y.idleFiber = x.idleFiber ∧ y.phase = .search ∧ (y.cbFiber = x.cbFiber ∨ y.cbFiber = none)

/-- What a step that succeeds can do. -/
inductive Effect (s : System n) : Act n → List Resumed → System n → Prop where
  | same (a : Act n) : Effect s a [] s
  | create : Effect s .newFiber [] ({ s with next := s.next + 1 }.setFiber s.next ⟨.init,true⟩)
  | schedule {task : Task} (thread : Option (Fin n)) (ht : ∀ f, task = .fiber f → f < s.next) :
      Effect s (.schedule task thread) [] (s.enqueue task thread)
  | register {a : Act n} {w : Fin n} {f : Nat} {role : Role} (hp : (s.workers w).phase = .running f role) :
      Effect s a [] { s with registered := f :: s.registered }
  | trigger {f : Nat} (hf : f ∈ s.registered) :
      Effect s (.trigger f) [] ({ s with registered := s.registered.erase f }.enqueue (.fiber f) none)
  | take {w : Fin n} {e : Entry Task (Fin n)} {rest : List (Entry Task (Fin n))} (hp : (s.workers w).phase = .search)
      (hd : dequeue s.busy w s.queue = some (e,rest)) : Effect s (.take w) [] ({ s with queue := rest }.setPhase w (.taken e.task))
  | idle {w : Fin n} (hp : (s.workers w).phase = .search) :
      Effect s (.take w) [] (s.setPhase w (.entering (s.workers w).idleFiber .idle))
  | stop {w : Fin n} (hp : (s.workers w).phase = .search) : Effect s (.take w) [] (s.setPhase w .exited)
  | pass {w : Fin n} {task : Task} (hp : (s.workers w).phase = .taken task) : Effect s (.choose w) [] (s.setPhase w .search)
  | resume {w : Fin n} {f : Nat} (hp : (s.workers w).phase = .taken (.fiber f)) :
      Effect s (.choose w) [] (s.setPhase w (.entering f .fiber))
  | reuse {w : Fin n} {f : Nat} (hp : (s.workers w).phase = .taken .cb) (hc : (s.workers w).cbFiber = some f)
      (hs : (s.fibers f).state.disposable = true) :
      Effect s (.choose w) [] ((s.setFiber f ⟨.init,true⟩).setPhase w (.entering f .cb))
  | fresh {w : Fin n} (hp : (s.workers w).phase = .taken .cb) :
      Effect s (.choose w) [] (({ s with next := s.next + 1 }.setFiber s.next ⟨.init,true⟩).setWorker w
        ⟨(s.workers w).idleFiber,some s.next,.entering s.next .cb⟩)
  | swapIn {w : Fin n} {f : Nat} {role : Role} (hp : (s.workers w).phase = .entering f role) (hs : (s.fibers f).state ≠ .exec) :
      Effect s (.swapIn w) [⟨f,(s.fibers f).saved⟩] ((s.setFiber f ⟨.exec,false⟩).setPhase w (.running f role))
  | leave {a : Act n} {w : Fin n} {f : Nat} {role : Role} (state : FiberState) (hp : (s.workers w).phase = .running f role) :
      Effect s a [] ((s.setState f state).setPhase w (.leaving f role))
  | save {w : Fin n} {f : Nat} {role : Role} (hp : (s.workers w).phase = .leaving f role) :
      Effect s (.save w) [] ((s.setFiber f ⟨(s.fibers f).state,true⟩).setPhase w (.returned f role))
  | requeue {w : Fin n} {f : Nat} {role : Role} {x : Worker} (hp : (s.workers w).phase = .returned f role)
      (hx : (s.workers w).Back x) (hs : (s.fibers f).state = .ready) :
      Effect s (.settle w) [] ((s.setWorker w x).enqueue (.fiber f) none)
  | hold {w : Fin n} {f : Nat} {role : Role} {x : Worker} (hp : (s.workers w).phase = .returned f role)
      (hx : (s.workers w).Back x) : Effect s (.settle w) [] ((s.setWorker w x).setState f .hold)
  | reset {w : Fin n} {f : Nat} {role : Role} {x : Worker} (hp : (s.workers w).phase = .returned f role)
      (hx : (s.workers w).Back x) (hs : (s.fibers f).state.disposable = true) :
      Effect s (.settle w) [] ((s.setWorker w x).setFiber f ⟨.init,true⟩)
  | done {w : Fin n} {f : Nat} {role : Role} {x : Worker} (hp : (s.workers w).phase = .returned f role)
      (hx : (s.workers w).Back x) (hs : (s.fibers f).state = .term ∨ (s.fibers f).state = .except) :
      Effect s (.settle w) [] (s.setWorker w x)

theorem map_ok {x : Except Failure (System n)} {r : List Resumed} {s' : System n}
    (h : (x.map fun s' => (([] : List Resumed),s')) = .ok (r,s')) : r = [] ∧ x = .ok s' := by
  cases x with
  | error e => cases h
  | ok s => cases h; exact ⟨rfl,rfl⟩

private theorem take_effect {w : Fin n} (hp : (s.workers w).phase = .search) : Effect s (.take w) [] (s.take w) := by
  unfold System.take
  cases hd : dequeue s.busy w s.queue with
  | some out => exact .take hp hd
  | none =>
    dsimp only
    split
    · exact .stop hp
    · exact .idle hp

private theorem choose_effect {w : Fin n} {task : Task} (hp : (s.workers w).phase = .taken task) {s' : System n}
    (he : s.choose w task = .ok s') : Effect s (.choose w) [] s' := by
  cases task with
  | fiber f =>
    cases he
    split
    · exact .resume hp
    · exact .pass hp
  | cb =>
    unfold System.choose at he
    cases hc : (s.workers w).cbFiber with
    | some f =>
      simp only [hc] at he
      split at he
      · rename_i hs
        cases he
        exact .reuse hp hc hs
      · cases he
    | none =>
      simp only [hc] at he
      cases he
      exact .fresh hp

private theorem settle_effect {w : Fin n} {f : Nat} {role : Role} (hp : (s.workers w).phase = .returned f role) {s' : System n}
    (he : s.settle w f role = .ok s') : Effect s (.settle w) [] s' := by
  have hkeep : (s.workers w).Back { s.workers w with phase := .search } := ⟨rfl,rfl,.inl rfl⟩
  have hdrop : (s.workers w).Back ⟨(s.workers w).idleFiber,none,.search⟩ := ⟨rfl,rfl,.inr rfl⟩
  cases role with
  | fiber =>
    simp only [System.settle] at he
    split at he
    · rename_i hs
      cases he
      exact .requeue hp hkeep hs
    split at he
    · cases he
      exact .hold hp hkeep
    · rename_i hs
      cases he
      exact .done hp hkeep ((not_and_or.mp hs).imp not_not.mp not_not.mp)
  | cb =>
    simp only [System.settle] at he
    split at he
    · rename_i hs
      cases he
      exact .requeue hp hdrop hs
    split at he
    · split at he
      · rename_i hs
        cases he
        exact .reset hp hkeep hs
      · cases he
    · cases he
      exact .hold hp hdrop
  | idle =>
    simp only [System.settle] at he
    split at he
    · cases he
      exact .hold hp hkeep
    · rename_i hs
      cases he
      exact .done hp hkeep ((not_and_or.mp hs).imp not_not.mp not_not.mp)

theorem step_effect {a : Act n} {r : List Resumed} {s' : System n} (he : System.step a s = .ok (r,s')) : Effect s a r s' := by
  cases a with
  | newFiber =>
    cases he
    exact .create
  | schedule task thread =>
    cases task with
    | fiber f =>
      cases he
      split
      · rename_i hf
        exact .schedule thread fun g hg => by cases hg; exact hf
      · exact .same _
    | cb =>
      cases he
      exact .schedule thread fun g hg => by cases hg
  | addEvent w =>
    simp only [System.step] at he
    split at he
    · rename_i hp
      split at he
      · cases he
        exact .register hp
      · cases he
    · cases he
      exact .same _
  | addTimer w =>
    simp only [System.step] at he
    split at he
    · rename_i hp
      cases he
      exact .register hp
    · cases he
      exact .same _
  | trigger f =>
    cases he
    split
    · rename_i hf
      exact .trigger hf
    · exact .same _
  | take w =>
    simp only [System.step] at he
    split at he
    · rename_i hp
      cases he
      exact take_effect hp
    · cases he
      exact .same _
  | choose w =>
    simp only [System.step] at he
    split at he
    · rename_i hp
      obtain ⟨rfl,hs⟩ := map_ok he
      exact choose_effect hp hs
    · cases he
      exact .same _
  | swapIn w =>
    simp only [System.step] at he
    split at he
    · rename_i hp
      split at he
      · cases he
      · rename_i hs
        cases he
        exact .swapIn hp hs
    · cases he
      exact .same _
  | yield w y =>
    simp only [System.step] at he
    split at he
    · rename_i hp
      split at he
      · cases he
        exact .leave _ hp
      · cases he
    · cases he
      exact .same _
  | exit w e =>
    simp only [System.step] at he
    split at he
    · rename_i hp
      cases he
      exact .leave _ hp
    · cases he
      exact .same _
  | swapOut w =>
    simp only [System.step] at he
    split at he
    · rename_i f hp
      cases he
      have hsame : s.setState f (s.fibers f).state = s := by
        rw [System.setState, System.setFiber, Function.update_eq_self]
      have heffect : Effect s (.swapOut w) [] _ := .leave (s.fibers f).state hp
      rwa [hsame] at heffect
    · cases he
      exact .same _
  | save w =>
    simp only [System.step] at he
    split at he
    · rename_i hp
      cases he
      exact .save hp
    · cases he
      exact .same _
  | settle w =>
    simp only [System.step] at he
    split at he
    · rename_i hp
      obtain ⟨rfl,hs⟩ := map_ok he
      exact settle_effect hp hs
    · cases he
      exact .same _

/-- Every reference is to a fiber that exists. -/
structure Known (s : System n) : Prop where
  idle : ∀ w, (s.workers w).idleFiber < s.next
  cb : ∀ w f, (s.workers w).cbFiber = some f → f < s.next
  phase : ∀ w f, (s.workers w).phase.fiber? = some f → f < s.next
  queue : ∀ e ∈ s.queue, ∀ f, e.task = .fiber f → f < s.next
  registered : ∀ f ∈ s.registered, f < s.next

theorem known_init : Known (System.init n) where
  idle := fun w => w.isLt
  cb := fun w f h => by cases h
  phase := fun w f h => by cases h
  queue := fun e he => absurd he List.not_mem_nil
  registered := fun f hf => absurd hf List.not_mem_nil

namespace Known

theorem setFiber (h : Known s) (f : Nat) (x : Shared) : Known (s.setFiber f x) := ⟨h.idle,h.cb,h.phase,h.queue,h.registered⟩

theorem setState (h : Known s) (f : Nat) (state : FiberState) : Known (s.setState f state) := h.setFiber f _

theorem setWorker (h : Known s) (w : Fin n) {x : Worker} (hi : x.idleFiber = (s.workers w).idleFiber)
    (hc : ∀ f, x.cbFiber = some f → f < s.next) (hp : ∀ f, x.phase.fiber? = some f → f < s.next) :
    Known (s.setWorker w x) := by
  have heach : ∀ P : Worker → Prop, P x → (∀ v, P (s.workers v)) → ∀ v, P ((s.setWorker w x).workers v) := by
    intro P hx hs v
    rw [System.setWorker_workers]
    split
    · exact hx
    · exact hs v
  refine ⟨heach (fun y => y.idleFiber < s.next) ?_ h.idle,heach (fun y => ∀ f, y.cbFiber = some f → f < s.next) hc h.cb,
    heach (fun y => ∀ f, y.phase.fiber? = some f → f < s.next) hp h.phase,h.queue,h.registered⟩
  rw [hi]
  exact h.idle w

theorem setPhase (h : Known s) (w : Fin n) {phase : Phase} (hp : ∀ f, phase.fiber? = some f → f < s.next) :
    Known (s.setPhase w phase) := h.setWorker w rfl (h.cb w) hp

theorem back (h : Known s) (w : Fin n) {x : Worker} (hx : (s.workers w).Back x) : Known (s.setWorker w x) := by
  obtain ⟨hi,hp,hc⟩ := hx
  refine h.setWorker w hi ?_ fun f hf => by rw [hp] at hf; cases hf
  rcases hc with hc | hc
  · rw [hc]
    exact h.cb w
  · intro f hf
    rw [hc] at hf
    cases hf

theorem extend (h : Known s) : Known { s with next := s.next + 1 } where
  idle := fun w => Nat.lt_succ_of_lt (h.idle w)
  cb := fun w f hf => Nat.lt_succ_of_lt (h.cb w f hf)
  phase := fun w f hf => Nat.lt_succ_of_lt (h.phase w f hf)
  queue := fun e he f hf => Nat.lt_succ_of_lt (h.queue e he f hf)
  registered := fun f hf => Nat.lt_succ_of_lt (h.registered f hf)

theorem enqueue (h : Known s) {task : Task} (ht : ∀ f, task = .fiber f → f < s.next) (thread : Option (Fin n)) :
    Known (s.enqueue task thread) := by
  refine ⟨h.idle,h.cb,h.phase,?_,h.registered⟩
  intro e he f hf
  rcases List.mem_append.mp he with he | he
  · exact h.queue e he f hf
  · rw [List.mem_singleton.mp he] at hf
    exact ht f hf

theorem enqueueFiber (h : Known s) {f : Nat} (hf : f < s.next) (thread : Option (Fin n)) : Known (s.enqueue (.fiber f) thread) :=
  h.enqueue (fun g hg => by cases hg; exact hf) thread

/-- Fewer tasks and registrations. -/
theorem shrink (h : Known s) {queue : List (Entry Task (Fin n))} {registered : List Nat} (hq : queue ⊆ s.queue)
    (hr : registered ⊆ s.registered) : Known { s with queue := queue, registered := registered } :=
  ⟨h.idle,h.cb,h.phase,fun e he => h.queue e (hq he),fun f hf => h.registered f (hr hf)⟩

theorem register (h : Known s) {f : Nat} (hf : f < s.next) : Known { s with registered := f :: s.registered } :=
  ⟨h.idle,h.cb,h.phase,h.queue,List.forall_mem_cons.mpr ⟨hf,h.registered⟩⟩

end Known

theorem Phase.fiber?_taken {task : Task} {f : Nat} (h : (Phase.taken task).fiber? = some f) : task = .fiber f := by
  cases task with
  | fiber g => cases h; rfl
  | cb => cases h

theorem known_step (h : Known s) {a : Act n} {r : List Resumed} {s' : System n} (he : Effect s a r s') : Known s' := by
  -- the fiber a thread is on stays the same over its phases
  have hsame : ∀ {w : Fin n} {p : Phase} {f : Nat}, (s.workers w).phase = p → p.fiber? = some f → f < s.next :=
    fun hp hf => h.phase _ _ (by rw [hp]; exact hf)
  have hthis : ∀ {f : Nat}, f < s.next → ∀ g, some f = some g → g < s.next := fun hf g hg => by cases hg; exact hf
  cases he with
  | same => exact h
  | create => exact h.extend.setFiber s.next _
  | schedule thread ht => exact h.enqueue ht thread
  | register hp => exact h.register (hsame hp rfl)
  | trigger hf => exact (h.shrink (List.Subset.refl _) List.erase_subset).enqueueFiber (h.registered _ hf) none
  | take hp hd =>
    rename_i w e rest
    obtain ⟨-,before,behind,hq,rfl⟩ := dequeue_some hd
    have hsub : before ++ behind ⊆ s.queue := by
      rw [hq]
      exact List.append_subset.mpr ⟨List.subset_append_left _ _,fun x hx => List.mem_append_right _ (List.mem_cons_of_mem e hx)⟩
    have hin : e ∈ s.queue := by rw [hq]; exact List.mem_append_right _ List.mem_cons_self
    exact (h.shrink hsub (List.Subset.refl s.registered)).setPhase w fun f hf => h.queue e hin f (Phase.fiber?_taken hf)
  | idle hp => exact h.setPhase _ (hthis (h.idle _))
  | stop hp => exact h.setPhase _ fun _ hf => by cases hf
  | pass hp => exact h.setPhase _ fun _ hf => by cases hf
  | resume hp => exact h.setPhase _ (hthis (hsame hp rfl))
  | reuse hp hc hs => exact (h.setFiber _ _).setPhase _ (hthis (h.cb _ _ hc))
  | fresh hp =>
    have hnext : ∀ g, some s.next = some g → g < s.next + 1 := fun g hg => by cases hg; exact Nat.lt_succ_self _
    exact (h.extend.setFiber s.next _).setWorker _ rfl hnext hnext
  | swapIn hp hs => exact (h.setFiber _ _).setPhase _ (hthis (hsame hp rfl))
  | leave state hp => exact (h.setState _ state).setPhase _ (hthis (hsame hp rfl))
  | save hp => exact (h.setFiber _ _).setPhase _ (hthis (hsame hp rfl))
  | requeue hp hx hs => exact (h.back _ hx).enqueueFiber (hsame hp rfl) none
  | hold hp hx => exact (h.back _ hx).setState _ .hold
  | reset hp hx hs => exact (h.back _ hx).setFiber _ _
  | done hp hx hs => exact h.back _ hx

/-- No fiber is on two threads, and a fiber that is executed is in state `EXEC`. -/
structure Exclusive (s : System n) : Prop where
  single : ∀ f w v, (s.workers w).phase.on = some f → (s.workers v).phase.on = some f → w = v
  exec : ∀ f w, (s.workers w).phase.executes = some f → (s.fibers f).state = .exec

structure Inv (s : System n) : Prop extends Exclusive s, Known s where
  saved : ∀ f, (∀ w, (s.workers w).phase.on ≠ some f) → (s.fibers f).saved = true

theorem inv_init : Inv (System.init n) where
  toKnown := known_init
  single := fun f w v h => by cases h
  exec := fun f w h => by cases h
  saved := fun _ _ => rfl

/-- The step resumes only saved contexts, and brings no fiber onto two threads. -/
def Act.Safe (a : Act n) (s : System n) : Prop :=
  ∀ r s', System.step a s = .ok (r,s') → (∀ x ∈ r, x.saved = true) ∧ Exclusive s'

/-- Where `swapIn` writes, no other thread has yet to save the context; where `run` writes, no other
thread executes the fiber. -/
def Act.Clear : Act n → System n → Prop
  | .swapIn w, s => ∀ f role, (s.workers w).phase = .entering f role → (s.fibers f).state ≠ .exec →
      ∀ v, (s.workers v).phase.leaves ≠ some f
  | .settle w, s => ∀ f role, (s.workers w).phase = .returned f role → ∀ v, (s.workers v).phase.executes ≠ some f
  | _, _ => True

/-- A thread that is on a fiber executes it or leaves it. -/
theorem Phase.on_cases {p : Phase} {f : Nat} : p.on = some f ↔ p.executes = some f ∨ p.leaves = some f := by
  cases p <;> simp [Phase.on, Phase.executes, Phase.leaves]

theorem Phase.on_known {p : Phase} {f : Nat} (h : p.on = some f) : p.fiber? = some f := by
  cases p <;> simp_all [Phase.on, Phase.fiber?]

theorem Phase.executes_on {p : Phase} {f : Nat} (h : p.executes = some f) : p.on = some f := on_cases.mpr (.inl h)

/-- No thread enters or leaves a fiber. -/
def Still (s s' : System n) : Prop :=
  ∀ v, (s'.workers v).phase.on = (s.workers v).phase.on ∧ (s'.workers v).phase.executes = (s.workers v).phase.executes

theorem still_set {s' : System n} {w : Fin n} {x : Worker} (hw : s'.workers = Function.update s.workers w x)
    (hfrom : (s.workers w).phase.on = none) (hto : x.phase.on = none) : Still s s' := by
  have hexec : ∀ {p : Phase}, p.on = none → p.executes = none := by
    intro p hp
    cases he : p.executes with
    | none => rfl
    | some f => rw [Phase.executes_on he] at hp; cases hp
  intro v
  rw [hw, Function.update_apply]
  split
  · rename_i hv
    rw [hv, hfrom, hto, hexec hfrom, hexec hto]
    exact ⟨rfl,rfl⟩
  · exact ⟨rfl,rfl⟩

/-- A step that takes no thread into a fiber or out of one. -/
theorem Inv.quiet (h : Inv s) {s' : System n} (hk : Known s') (hstill : Still s s')
    (hstate : ∀ f, (s'.fibers f).state = (s.fibers f).state ∨ ∀ v, (s.workers v).phase.executes ≠ some f)
    (hsaved : ∀ f, (s.fibers f).saved = true → (s'.fibers f).saved = true) : Inv s' where
  toKnown := hk
  single := by
    intro f w v
    rw [(hstill w).1, (hstill v).1]
    exact h.single f w v
  exec := by
    intro f w hw
    rw [(hstill w).2] at hw
    rcases hstate f with hf | hf
    · rw [hf]
      exact h.exec f w hw
    · exact absurd hw (hf w)
  saved := fun f hf => hsaved f (h.saved f fun w => by rw [← (hstill w).1]; exact hf w)

theorem Inv.untouched (h : Inv s) {s' : System n} (hk : Known s') (hstill : Still s s') (hf : s'.fibers = s.fibers) : Inv s' :=
  h.quiet hk hstill (fun f => .inl (by rw [hf])) fun f hs => by rwa [hf]

/-- A fiber that nobody executes is rewritten. -/
theorem Inv.touched (h : Inv s) {s' : System n} (hk : Known s') (hstill : Still s s') {f : Nat} {x : Shared}
    (hf : s'.fibers = Function.update s.fibers f x) (hx : (s.fibers f).saved = true → x.saved = true)
    (hnone : ∀ v, (s.workers v).phase.executes ≠ some f) : Inv s' := by
  refine h.quiet hk hstill ?_ ?_
  · intro g
    rw [hf, Function.update_apply]
    split
    · rename_i hg
      rw [hg]
      exact .inr hnone
    · exact .inl rfl
  · intro g hs
    rw [hf, Function.update_apply]
    split
    · rename_i hg
      rw [hg] at hs
      exact hx hs
    · exact hs

/-- A thread that is on no fiber but `f` goes on, with a write to `f`, on which no other thread is. -/
theorem Inv.turn (h : Inv s) {w : Fin n} {f : Nat} {q : Phase} {x : Shared} (hbefore : ∀ g, (s.workers w).phase.on = some g → g = f)
    (hafter : ∀ g, q.on = some g → g = f) (hother : ∀ v, v ≠ w → (s.workers v).phase.on ≠ some f)
    (hexec : q.executes = some f → x.state = .exec) (hsaved : q.on ≠ some f → x.saved = true)
    (hk : Known ((s.setFiber f x).setPhase w q)) : Inv ((s.setFiber f x).setPhase w q) := by
  have hself : (((s.setFiber f x).setPhase w q).workers w).phase = q := by rw [System.setPhase_workers, if_pos rfl]
  have hrest : ∀ v, v ≠ w → (((s.setFiber f x).setPhase w q).workers v).phase = (s.workers v).phase := by
    intro v hv
    rw [System.setPhase_workers, if_neg hv, System.setFiber_workers]
  have hfiber : ∀ g, ((s.setFiber f x).setPhase w q).fibers g = if g = f then x else s.fibers g := by
    intro g
    rw [System.setPhase_fibers, System.setFiber_fibers]
  refine ⟨⟨fun g v v' hv hv' => ?_,fun g v hv => ?_⟩,hk,fun g hg => ?_⟩
  · by_cases hvw : v = w <;> by_cases hvw' : v' = w
    · rw [hvw, hvw']
    · rw [hvw, hself] at hv
      rw [hrest v' hvw', hafter g hv] at hv'
      exact absurd hv' (hother v' hvw')
    · rw [hvw', hself] at hv'
      rw [hrest v hvw, hafter g hv'] at hv
      exact absurd hv (hother v hvw)
    · rw [hrest v hvw] at hv
      rw [hrest v' hvw'] at hv'
      exact h.single g v v' hv hv'
  · rw [hfiber]
    by_cases hvw : v = w
    · rw [hvw, hself] at hv
      have hg := hafter g (Phase.executes_on hv)
      rw [if_pos hg]
      exact hexec (hg ▸ hv)
    · rw [hrest v hvw] at hv
      have hg : g ≠ f := fun hg => hother v hvw (hg ▸ Phase.executes_on hv)
      rw [if_neg hg]
      exact h.exec g v hv
  · rw [hfiber]
    have hw := hg w
    rw [hself] at hw
    by_cases hgf : g = f
    · rw [if_pos hgf]
      exact hsaved (hgf ▸ hw)
    · rw [if_neg hgf]
      refine h.saved g fun v hv => ?_
      by_cases hvw : v = w
      · exact hgf (hbefore g (hvw ▸ hv))
      · exact hg v (by rw [hrest v hvw]; exact hv)

/-- Where a thread is on a fiber no other is. -/
theorem Inv.alone (h : Inv s) {w : Fin n} {f : Nat} (hp : (s.workers w).phase.on = some f) (v : Fin n) (hv : v ≠ w) :
    (s.workers v).phase.on ≠ some f := fun hon => hv (h.single f v w hon hp)

/-- The write of `swapIn` to a fiber that no thread is on. -/
theorem Inv.swapIn (h : Inv s) {w : Fin n} {f : Nat} {role : Role} (hp : (s.workers w).phase = .entering f role)
    (hfree : ∀ v, (s.workers v).phase.on ≠ some f) (hk : Known ((s.setFiber f ⟨.exec,false⟩).setPhase w (.running f role))) :
    Inv ((s.setFiber f ⟨.exec,false⟩).setPhase w (.running f role)) :=
  h.turn (fun g hg => by rw [hp] at hg; cases hg) (fun g hg => (Option.some.inj hg).symm) (fun v _ => hfree v) (fun _ => rfl)
    (fun hne => absurd rfl hne) hk

/-- The last state write of a fiber. -/
theorem Inv.leave (h : Inv s) {w : Fin n} {f : Nat} {role : Role} (hp : (s.workers w).phase = .running f role) (state : FiberState)
    (hk : Known ((s.setState f state).setPhase w (.leaving f role))) : Inv ((s.setState f state).setPhase w (.leaving f role)) :=
  h.turn (fun g hg => by rw [hp] at hg; exact (Option.some.inj hg).symm) (fun g hg => (Option.some.inj hg).symm)
    (h.alone (by rw [hp]; rfl)) (fun he => (by cases he)) (fun hne => absurd rfl hne) hk

/-- The save of a context. -/
theorem Inv.save (h : Inv s) {w : Fin n} {f : Nat} {role : Role} (hp : (s.workers w).phase = .leaving f role)
    (hk : Known ((s.setFiber f ⟨(s.fibers f).state,true⟩).setPhase w (.returned f role))) :
    Inv ((s.setFiber f ⟨(s.fibers f).state,true⟩).setPhase w (.returned f role)) :=
  h.turn (fun g hg => by rw [hp] at hg; exact (Option.some.inj hg).symm) (fun g hg => (by cases hg))
    (h.alone (by rw [hp]; rfl)) (fun he => (by cases he)) (fun _ => rfl) hk

/-- A fiber that may be reset is not executed. -/
theorem Inv.idle_of_disposable (h : Inv s) {f : Nat} (hs : (s.fibers f).state.disposable = true) (v : Fin n) :
    (s.workers v).phase.executes ≠ some f := by
  intro hv
  rw [h.exec f v hv] at hs
  cases hs

theorem inv_step (h : Inv s) {a : Act n} (hc : a.Clear s) {r : List Resumed} {s' : System n} (he : Effect s a r s') :
    (∀ x ∈ r, x.saved = true) ∧ Inv s' := by
  have hk := known_step h.toKnown he
  have hnone : ∀ x ∈ ([] : List Resumed), x.saved = true := List.forall_mem_nil _
  have hfresh : ∀ w, (s.workers w).phase.executes ≠ some s.next := by
    intro w hw
    exact Nat.lt_irrefl _ (h.phase w s.next (Phase.on_known (Phase.executes_on hw)))
  have hstay : ∀ {t : System n}, t.workers = s.workers → Still s t := fun ht v => by rw [ht]; exact ⟨rfl,rfl⟩
  have hoff : ∀ {w : Fin n} {p : Phase}, (s.workers w).phase = p → p.on = none → (s.workers w).phase.on = none :=
    fun hp hn => by rw [hp]; exact hn
  have hback : ∀ {w : Fin n} {x : Worker}, (s.workers w).Back x → x.phase.on = none := fun hx => by rw [hx.2.1]; rfl
  cases he with
  | same => exact ⟨hnone,h⟩
  | create => exact ⟨hnone,h.touched hk (hstay rfl) rfl (fun _ => rfl) hfresh⟩
  | schedule thread ht => exact ⟨hnone,h.untouched hk (hstay rfl) rfl⟩
  | register hp => exact ⟨hnone,h.untouched hk (hstay rfl) rfl⟩
  | trigger hf => exact ⟨hnone,h.untouched hk (hstay rfl) rfl⟩
  | take hp hd => exact ⟨hnone,h.untouched hk (still_set rfl (hoff hp rfl) rfl) rfl⟩
  | idle hp => exact ⟨hnone,h.untouched hk (still_set rfl (hoff hp rfl) rfl) rfl⟩
  | stop hp => exact ⟨hnone,h.untouched hk (still_set rfl (hoff hp rfl) rfl) rfl⟩
  | pass hp => exact ⟨hnone,h.untouched hk (still_set rfl (hoff hp rfl) rfl) rfl⟩
  | resume hp => exact ⟨hnone,h.untouched hk (still_set rfl (hoff hp rfl) rfl) rfl⟩
  | reuse hp hc hs =>
    exact ⟨hnone,h.touched hk (still_set rfl (hoff hp rfl) rfl) rfl (fun _ => rfl) (h.idle_of_disposable hs)⟩
  | fresh hp => exact ⟨hnone,h.touched hk (still_set rfl (hoff hp rfl) rfl) rfl (fun _ => rfl) hfresh⟩
  | swapIn hp hs =>
    rename_i w f role
    have hfree : ∀ v, (s.workers v).phase.on ≠ some f := by
      intro v hv
      rcases Phase.on_cases.mp hv with hv | hv
      · exact hs (h.exec f v hv)
      · exact hc f role hp hs v hv
    refine ⟨?_,h.swapIn hp hfree hk⟩
    rw [List.forall_mem_singleton]
    exact h.saved f hfree
  | leave state hp => exact ⟨hnone,h.leave hp state hk⟩
  | save hp => exact ⟨hnone,h.save hp hk⟩
  | requeue hp hx hs => exact ⟨hnone,h.untouched hk (still_set rfl (hoff hp rfl) (hback hx)) rfl⟩
  | hold hp hx => exact ⟨hnone,h.touched hk (still_set rfl (hoff hp rfl) (hback hx)) rfl id (hc _ _ hp)⟩
  | reset hp hx hs =>
    exact ⟨hnone,h.touched hk (still_set rfl (hoff hp rfl) (hback hx)) rfl (fun _ => rfl) (h.idle_of_disposable hs)⟩
  | done hp hx hs => exact ⟨hnone,h.untouched hk (still_set rfl (hoff hp rfl) (hback hx)) rfl⟩

/-- A step that is not clear brings a fiber onto two threads, or takes `EXEC` from one that is executed. -/
theorem unsafe_step (h : Inv s) {a : Act n} (hc : ¬ a.Clear s) : ∃ r s', System.step a s = .ok (r,s') ∧ ¬ Exclusive s' := by
  cases a with
  | swapIn w =>
    simp only [Act.Clear, not_forall, not_not] at hc
    obtain ⟨f,role,hp,hs,v,hv⟩ := hc
    refine ⟨_,_,by simp only [System.step, hp, if_neg hs]; rfl,fun hx => ?_⟩
    have hne : v ≠ w := by
      rintro rfl
      rw [hp] at hv
      cases hv
    refine hne (hx.single f v w ?_ ?_)
    · rw [System.setPhase_workers, if_neg hne, System.setFiber_workers]
      exact Phase.on_cases.mpr (.inr hv)
    · rw [System.setPhase_workers, if_pos rfl]
      rfl
  | settle w =>
    simp only [Act.Clear, not_forall, not_not] at hc
    obtain ⟨f,role,hp,v,hv⟩ := hc
    have hne : v ≠ w := by
      rintro rfl
      rw [hp] at hv
      cases hv
    have hs := h.exec f v hv
    have hhold : ∃ s', s.settle w f role = .ok s' ∧ s'.workers v = s.workers v ∧ (s'.fibers f).state = .hold := by
      cases role <;> exact ⟨_,by simp only [System.settle, hs]; rfl,by simp [hne],by simp⟩
    obtain ⟨s',he,hw,hf⟩ := hhold
    refine ⟨[],s',by simp only [System.step, hp, he]; rfl,fun hx => ?_⟩
    have hexec := hx.exec f v (by rw [hw]; exact hv)
    rw [hf] at hexec
    cases hexec
  | _ => exact absurd trivial hc

theorem safe_iff (h : Inv s) (a : Act n) : a.Safe s ↔ a.Clear s := by
  constructor
  · intro hsafe
    by_contra hc
    obtain ⟨r,s',he,hx⟩ := unsafe_step h hc
    exact hx (hsafe r s' he).2
  · intro hc r s' he
    obtain ⟨hr,hinv⟩ := inv_step h hc (step_effect he)
    exact ⟨hr,hinv.toExclusive⟩

/-- In a run of any number of threads and fibers, only saved contexts are resumed, no fiber is on two
threads and every executed fiber is in state `EXEC`, after every step, exactly if every state write of
`swapIn` and of `run` is clear. -/
theorem exclusive_iff (n : Nat) (acts : List (Act n)) :
    Along Act.Safe System.step acts (System.init n) ↔ Along Act.Clear System.step acts (System.init n) :=
  along_congr (fun a _ h => safe_iff h a) (fun _ _ _ _ h hc he => (inv_step h hc (step_effect he)).2) acts inv_init

/-- A fiber that waits for an event is resumed before it has saved its context, or loses `EXEC` to the
late state write of the thread it has left. -/
theorem early_trigger_breaks_exclusion :
    let upToYield : List (Act 2) := [.schedule .cb none,.take 0,.choose 0,.swapIn 0,.addEvent 0,.trigger 2,.yield 0 .toHold]
    let early := upToYield ++ [.take 1,.choose 1]
    let late := upToYield ++ [.save 0,.take 1,.choose 1,.swapIn 1]
    ¬ Along Act.Safe System.step (early ++ [.swapIn 1]) (System.init 2) ∧
      ¬ Along Act.Safe System.step (late ++ [.settle 0]) (System.init 2) ∧
      ((runAll System.step (late ++ [.settle 0,.yield 1 .toHold]) (System.init 2)).map fun r => r.1) = .error .yield := by
  intro upToYield early late
  refine ⟨fun h => ?_,fun h => ?_,by decide +kernel⟩
  · have hsafe := along_last h rfl _ _ rfl
    exact absurd (hsafe.1 ⟨2,false⟩ List.mem_cons_self) Bool.false_ne_true
  · have hsafe := along_last h rfl _ _ rfl
    exact absurd (hsafe.2.exec 2 1 rfl) (by decide)

/-- The thread refers to the fiber in a local of `run`. -/
def Worker.Holds (x : Worker) (f : Nat) : Prop := x.idleFiber = f ∨ x.cbFiber = some f ∨ x.phase.fiber? = some f

structure Sole (s : System n) : Prop extends Known s where
  sole : ∀ f w v, (s.workers w).Holds f → (s.workers v).Holds f → w = v

theorem sole_init : Sole (System.init n) where
  toKnown := known_init
  sole := by
    intro f w v hw hv
    simp only [Worker.Holds, System.init, Phase.fiber?, reduceCtorEq, or_false] at hw hv
    exact Fin.ext (hw.trans hv.symm)

/-- A fiber is taken from the queue only when no other thread holds it. -/
def Act.Free : Act n → System n → Prop
  | .take w, s => ∀ e rest f, dequeue s.busy w s.queue = some (e,rest) → e.task = .fiber f → ∀ v, (s.workers v).Holds f → v = w
  | _, _ => True

theorem holds_setPhase {s : System n} {w v : Fin n} {p : Phase} {f : Nat} (h : ((s.setPhase w p).workers v).Holds f) :
    (s.workers v).Holds f ∨ v = w ∧ p.fiber? = some f := by
  rw [System.setPhase_workers] at h
  split at h
  · rename_i hv
    rw [hv]
    obtain h | h | h := h
    · exact .inl (.inl h)
    · exact .inl (.inr (.inl h))
    · exact .inr ⟨rfl,h⟩
  · exact .inl h

theorem holds_back {w v : Fin n} {x : Worker} {f : Nat} (hx : (s.workers w).Back x) (h : ((s.setWorker w x).workers v).Holds f) :
    (s.workers v).Holds f := by
  rw [System.setWorker_workers] at h
  split at h
  · rename_i hv
    rw [hv]
    obtain ⟨hidle,hphase,hcb⟩ := hx
    obtain h | h | h := h
    · exact .inl (hidle.symm.trans h)
    · obtain hcb | hcb := hcb
      · exact .inr (.inl (hcb.symm.trans h))
      · rw [hcb] at h
        cases h
    · rw [hphase] at h
      cases h
  · exact h

/-- What a thread holds after a step it held before, or no other thread did. -/
def Obtains (s s' : System n) (w : Fin n) : Prop :=
  ∀ v f, (s'.workers v).Holds f → (s.workers v).Holds f ∨ v = w ∧ ∀ u, (s.workers u).Holds f → u = w

theorem Obtains.sole {s' : System n} {w : Fin n} (ho : Obtains s s' w)
    (h : ∀ f u v, (s.workers u).Holds f → (s.workers v).Holds f → u = v) (f : Nat) (u v : Fin n) (hu : (s'.workers u).Holds f)
    (hv : (s'.workers v).Holds f) : u = v := by
  obtain hu | ⟨rfl,hnew⟩ := ho u f hu
  · obtain hv | ⟨rfl,hnew⟩ := ho v f hv
    · exact h f u v hu hv
    · exact hnew u hu
  · obtain hv | ⟨rfl,-⟩ := ho v f hv
    · exact (hnew v hv).symm
    · rfl

theorem sole_step (h : Sole s) {a : Act n} (hf : a.Free s) {r : List Resumed} {s' : System n} (he : Effect s a r s') : Sole s' := by
  refine ⟨known_step h.toKnown he,?_⟩
  have hfresh : ∀ w, ¬ (s.workers w).Holds s.next := by
    rintro w (hw | hw | hw)
    · exact absurd (h.idle w) (by omega)
    · exact absurd (h.cb w _ hw) (by omega)
    · exact absurd (h.phase w _ hw) (by omega)
  -- a phase with a fiber that the thread held before
  have hheld : ∀ (w : Fin n) (p : Phase), (∀ f, p.fiber? = some f → (s.workers w).Holds f) → ∀ t : System n, t.workers = s.workers →
      Obtains s (t.setPhase w p) w := by
    intro w p hp t ht v f hv
    have hv := holds_setPhase hv
    rw [ht] at hv
    refine .inl (hv.elim id ?_)
    rintro ⟨rfl,hfiber⟩
    exact hp f hfiber
  cases he with
  | same | create | schedule | register | trigger => exact h.sole
  | take hp hd =>
    rename_i w e rest
    refine Obtains.sole (w := w) (fun v f hv => (holds_setPhase hv).imp_right ?_) h.sole
    rintro ⟨rfl,hfiber⟩
    refine ⟨rfl,?_⟩
    cases ht : e.task with
    | fiber g =>
      rw [ht] at hfiber
      cases hfiber
      exact hf e rest f hd ht
    | cb => rw [ht] at hfiber; cases hfiber
  | @idle w hp => exact (hheld w (.entering (s.workers w).idleFiber .idle) (fun f hf => .inl (Option.some.inj hf)) s rfl).sole h.sole
  | @stop w hp => exact (hheld w _ (fun f hf => (by cases hf)) s rfl).sole h.sole
  | @pass w task hp => exact (hheld w _ (fun f hf => (by cases hf)) s rfl).sole h.sole
  | @resume w f hp => exact (hheld w _ (fun g hg => .inr (.inr (by rw [hp]; exact hg))) s rfl).sole h.sole
  | @reuse w f hp hc hs => exact (hheld w (.entering f .cb) (fun g hg => .inr (.inl (hc.trans hg))) _ rfl).sole h.sole
  | @fresh w hp =>
    refine Obtains.sole (w := w) (fun v f hv => ?_) h.sole
    rw [System.setWorker_workers] at hv
    split at hv
    · rename_i hvw
      have hnew : f = s.next → ∀ u, (s.workers u).Holds f → u = w := fun hn u hu => absurd (hn ▸ hu) (hfresh u)
      obtain hv | hv | hv := hv
      · exact .inl (hvw ▸ .inl hv)
      · exact .inr ⟨hvw,hnew (Option.some.inj hv).symm⟩
      · exact .inr ⟨hvw,hnew (Option.some.inj hv).symm⟩
    · exact .inl hv
  | @swapIn w f role hp hs => exact (hheld w _ (fun g hg => .inr (.inr (by rw [hp]; exact hg))) _ rfl).sole h.sole
  | @leave a w f role state hp => exact (hheld w _ (fun g hg => .inr (.inr (by rw [hp]; exact hg))) _ rfl).sole h.sole
  | @save w f role hp => exact (hheld w _ (fun g hg => .inr (.inr (by rw [hp]; exact hg))) _ rfl).sole h.sole
  | @requeue w f role x hp hx hs => exact Obtains.sole (w := w) (fun v g hv => .inl (holds_back hx hv)) h.sole
  | @hold w f role x hp hx => exact Obtains.sole (w := w) (fun v g hv => .inl (holds_back hx hv)) h.sole
  | @reset w f role x hp hx hs => exact Obtains.sole (w := w) (fun v g hv => .inl (holds_back hx hv)) h.sole
  | @done w f role x hp hx hs => exact Obtains.sole (w := w) (fun v g hv => .inl (holds_back hx hv)) h.sole

theorem Sole.clear (h : Sole s) (a : Act n) : a.Clear s := by
  have hother : ∀ w v f, (s.workers w).phase.fiber? = some f → (s.workers v).phase.on = some f → v = w :=
    fun w v f hw hv => h.sole f v w (.inr (.inr (Phase.on_known hv))) (.inr (.inr hw))
  cases a with
  | swapIn w =>
    intro f role hp _ v hv
    cases hother w v f (by rw [hp]; rfl) (Phase.on_cases.mpr (.inr hv))
    rw [hp] at hv
    cases hv
  | settle w =>
    intro f role hp v hv
    cases hother w v f (by rw [hp]; rfl) (Phase.on_cases.mpr (.inl hv))
    rw [hp] at hv
    cases hv
  | _ => trivial

/-- It is enough that the search passes over the fibers that other threads hold. -/
theorem free_clear (n : Nat) (acts : List (Act n)) (h : Along Act.Free System.step acts (System.init n)) :
    Along Act.Clear System.step acts (System.init n) :=
  along_imp (fun a _ hs _ => hs.clear a) (fun _ _ _ _ hs hf he => sole_step hs hf (step_effect he)) acts sole_init h

end Radixun.Common.Handover
