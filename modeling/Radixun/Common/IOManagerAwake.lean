import Radixun.Common.IOManagerWakeup
import Radixun.Common.TimerOrder
import Radixun.Foundation.CommandRuns

/-! When the threads of an IO manager do not sleep over work. Each kind of work is watched: by a thread
that will look for it before it blocks, or, for a timer, by one that waits no longer than for it. -/
namespace Radixun.Common.Wakeup
open Foundation.CommandRuns
open Scheduler (Entry dequeue dequeue_some passesForeign busy_of_none)
open Handover (Task)
open Timers (Manager)

/-- A wait with this end, seen at `clock`, is over by time `t` or already is. -/
def endsBy (deadline : Option Nat) (clock t : Nat) : Bool := deadline.any (· ≤ max t clock)

/-- The wait that a thread is in, or is about to begin if no time passes, is over by time `t`. -/
def Phase.waitsUntil (p : Phase) (clock t : Nat) : Bool :=
  match p with
  | .asked delay now => delay ≠ 2^64 - 1 && endsBy (deadlineOf (epollTimeout delay) now) now t
  | .timed timeout now => endsBy (deadlineOf timeout now) now t
  | .blocked deadline => endsBy deadline clock t
  | _ => false

/-- A wait that began now would go on beyond time `t`. -/
def Phase.waitsBeyond (p : Phase) (clock t : Nat) : Bool :=
  match p with
  | .timed timeout _ => !endsBy (deadlineOf timeout clock) clock t
  | _ => false

/-- The wait that the thread is in is over. -/
def Phase.over (p : Phase) (clock : Nat) : Bool :=
  match p with
  | .blocked deadline => deadline.any (· ≤ clock)
  | _ => false

namespace Worker

/-- The thread will search the queue before it blocks. -/
def seeksTask (x : Worker) (clock : Nat) : Bool :=
  match x.phase with
  | .search | .taken _ | .executing _ | .settling _ | .woken _ | .handing .. | .draining _ | .leaving => true
  | p => p.over clock

/-- The thread will ask for the next timer before it blocks. -/
def seeksTimer (x : Worker) (clock : Nat) : Bool :=
  match x.phase with
  | .search | .taken _ | .executing _ | .settling _ | .leaving => !x.idleDone
  | .toIdle | .asking | .woken _ | .handing .. | .draining _ => true
  | p => p.over clock

/-- The thread will test for the end before it blocks. -/
def seeksStop (x : Worker) (clock : Nat) : Bool :=
  match x.phase with
  | .asked .. => true
  | _ => x.seeksTimer clock

/-- The thread will ask before it sleeps beyond time `t`, or is not to wait so long. -/
def watchesTime (x : Worker) (clock t : Nat) : Bool := x.seeksTimer clock || x.phase.waitsUntil clock t

def live (x : Worker) : Bool := x.phase ≠ .absent ∧ x.phase ≠ .exited

/-- Blocked in `epoll_wait`, and the timeout is not over. -/
def asleep (x : Worker) (clock : Nat) : Bool :=
  match x.phase with
  | .blocked deadline => !deadline.any (· ≤ clock)
  | _ => false

/-- Blocked beyond time `t`. -/
def oversleeps (x : Worker) (t : Nat) : Bool :=
  match x.phase with
  | .blocked deadline => !deadline.any (· ≤ t)
  | _ => false

end Worker

/-- In the loop of `run`, outside the idle fiber. -/
def Phase.inRun : Phase → Bool
  | .search | .taken _ | .executing _ | .settling _ | .leaving => true
  | _ => false

/-- Between `++m_idleThreadCount` and the switch back to `run`, or about to be there. -/
def Phase.inIdle : Phase → Bool
  | .toIdle | .asking | .asked .. | .timed .. | .blocked _ | .woken _ | .handing .. | .draining _ => true
  | _ => false

namespace System
variable {n : Nat}

/-- All threads that there are sleep, there is nothing in the pipe and no `tickle` is due. -/
def Asleep (s : System n) : Prop :=
  (∃ w, (s.workers w).live = true) ∧ (∀ w, (s.workers w).live = true → (s.workers w).asleep s.clock = true) ∧
    s.bytes = 0 ∧ s.tickles = 0

/-- They sleep over a task, over a timer that is earlier than all their timeouts, or over `stop`. -/
def Lost (s : System n) : Prop :=
  s.Asleep ∧ (s.queue ≠ [] ∨
    (∃ p ∈ s.timers.timers, ∀ w, (s.workers w).live = true → (s.workers w).oversleeps (s.timers.next p) = true) ∨
    s.unseen = true)

instance (s : System n) : Decidable s.Asleep := inferInstanceAs (Decidable (_ ∧ _))
instance (s : System n) : Decidable s.Lost := inferInstanceAs (Decidable (_ ∧ _))

/-- Some thread will look for each kind of work there is. -/
structure Watched (s : System n) : Prop where
  queue : s.queue ≠ [] → ∃ w, (s.workers w).seeksTask s.clock = true
  timers : ∀ p ∈ s.timers.timers, ∃ w, (s.workers w).watchesTime s.clock (s.timers.next p) = true
  flag : s.timers.tickled = true → ∃ w, (s.workers w).seeksTimer s.clock = true
  stop : s.unseen = true → ∃ w, (s.workers w).seeksStop s.clock = true

instance (s : System n) : Decidable s.Watched :=
  decidable_of_iff (_ ∧ _ ∧ _ ∧ _) ⟨fun ⟨a,b,c,d⟩ => ⟨a,b,c,d⟩,fun h => ⟨h.queue,h.timers,h.flag,h.stop⟩⟩

end System

/-- Where `tickle` writes nothing although it is the last call due and the pipe is empty, all work is
watched. Where a thread is about to wait without a timeout, or begins a wait so late that it goes on beyond a
timer, others watch the timers. -/
def Act.Covered {n : Nat} : Act n → System n → Prop
  | .tickle, s => 0 < s.idle → s.tickles = 1 → s.bytes = 0 → s.Watched
  | .nextTimer w, s => (s.workers w).phase = .asking → epollTimeout (s.timers.getNextTimer s.clock).1 < 0 →
      s.tickles = 0 → s.bytes = 0 →
      ∀ p ∈ s.timers.timers, ∃ v, v ≠ w ∧ (s.workers v).watchesTime s.clock (s.timers.next p) = true
  | .wait w, s => s.tickles = 0 → s.bytes = 0 →
      ∀ p ∈ s.timers.timers, (s.workers w).phase.waitsBeyond s.clock (s.timers.next p) = true →
        ∃ v, v ≠ w ∧ (s.workers v).watchesTime s.clock (s.timers.next p) = true
  | _, _ => True

instance {n : Nat} : (a : Act n) → (s : System n) → Decidable (a.Covered s)
  | .tickle, s => inferInstanceAs (Decidable (0 < s.idle → s.tickles = 1 → s.bytes = 0 → s.Watched))
  | .nextTimer w, s => inferInstanceAs (Decidable ((s.workers w).phase = .asking →
      epollTimeout (s.timers.getNextTimer s.clock).1 < 0 → s.tickles = 0 → s.bytes = 0 →
      ∀ p ∈ s.timers.timers, ∃ v, v ≠ w ∧ (s.workers v).watchesTime s.clock (s.timers.next p) = true))
  | .wait w, s => inferInstanceAs (Decidable (s.tickles = 0 → s.bytes = 0 →
      ∀ p ∈ s.timers.timers, (s.workers w).phase.waitsBeyond s.clock (s.timers.next p) = true →
        ∃ v, v ≠ w ∧ (s.workers v).watchesTime s.clock (s.timers.next p) = true))
  | .start _, _ | .search _, _ | .begin .., _ | .pass _, _ | .switchBack .., _ | .settle _, _ | .enterIdle _, _
  | .testStop _, _ | .wake .., _ | .expire .., _ | .hand _, _ | .drain _, _ | .back _, _ | .schedule .., _
  | .scheduleAll _, _ | .addTimer .., _ | .reset .., _ | .cancel _, _ | .autoStop, _ | .stop, _ | .setEvents _, _
  | .passTime _, _ => isTrue trivial

variable {n : Nat} {s : System n}

theorem asleep_seeks {x : Worker} {clock : Nat} (h : x.asleep clock = true) :
    x.seeksTask clock = false ∧ x.seeksTimer clock = false ∧ x.seeksStop clock = false := by
  obtain ⟨phase,idleDone⟩ := x
  cases phase <;>
    simp_all [Worker.asleep, Worker.seeksTask, Worker.seeksTimer, Worker.seeksStop, Phase.over]

/-- A thread asleep beyond time `t` does not watch it. -/
theorem oversleeps_watches {x : Worker} {clock t : Nat} (h : x.asleep clock = true) (ht : x.oversleeps t = true) :
    x.watchesTime clock t = false := by
  rw [Worker.watchesTime, (asleep_seeks h).2.1, Bool.false_or]
  obtain ⟨phase,idleDone⟩ := x
  cases phase with
  | blocked deadline =>
    cases deadline with
    | none => rfl
    | some d =>
      simp only [Worker.asleep, Worker.oversleeps, Option.any_some, Bool.not_eq_true', decide_eq_false_iff_not] at h ht
      simp only [Phase.waitsUntil, endsBy, Option.any_some, decide_eq_false_iff_not]
      omega
  | _ => cases h

theorem live_of_seeks {x : Worker} {clock t : Nat}
    (h : x.seeksTask clock = true ∨ x.seeksStop clock = true ∨ x.watchesTime clock t = true) :
    x.live = true := by
  obtain ⟨phase,idleDone⟩ := x
  cases phase <;>
    simp_all [Worker.live, Worker.seeksTask, Worker.seeksTimer, Worker.seeksStop, Worker.watchesTime, Phase.over, Phase.waitsUntil]

theorem not_lost (h : s.Watched) : ¬ s.Lost := by
  rintro ⟨⟨-,hall,-,-⟩,hq | ⟨p,hp,hover⟩ | hstop⟩
  · obtain ⟨w,hw⟩ := h.queue hq
    have hseeks := asleep_seeks (hall w (live_of_seeks (t := 0) (.inl hw)))
    rw [hseeks.1] at hw
    cases hw
  · obtain ⟨w,hw⟩ := h.timers p hp
    have hlive := live_of_seeks (.inr (.inr hw))
    rw [oversleeps_watches (hall w hlive) (hover w hlive)] at hw
    cases hw
  · obtain ⟨w,hw⟩ := h.stop hstop
    have hseeks := asleep_seeks (hall w (live_of_seeks (t := 0) (.inr (.inl hw))))
    rw [hseeks.2.2] at hw
    cases hw

/-- What a thread will still look for is no less in `y` at `clock'` than in `x` at `clock`. -/
structure Worker.Keeps (x y : Worker) (clock clock' : Nat) : Prop where
  task : x.seeksTask clock = true → y.seeksTask clock' = true
  timer : x.seeksTimer clock = true → y.seeksTimer clock' = true
  stop : x.seeksStop clock = true → y.seeksStop clock' = true
  time : ∀ t, x.watchesTime clock t = true → y.watchesTime clock' t = true

theorem endsBy_mono {deadline : Option Nat} {clock clock' t t' : Nat} (ht : t ≤ t') (hc : clock ≤ clock')
    (h : endsBy deadline clock t = true) : endsBy deadline clock' t' = true := by
  cases deadline with
  | none => cases h
  | some d =>
    simp only [endsBy, Option.any_some, decide_eq_true_eq] at h ⊢
    omega

theorem watchesTime_mono {x : Worker} {clock t t' : Nat} (ht : t ≤ t') (h : x.watchesTime clock t = true) :
    x.watchesTime clock t' = true := by
  unfold Worker.watchesTime at h ⊢
  simp only [Bool.or_eq_true] at h ⊢
  refine h.imp_right fun hwait => ?_
  unfold Phase.waitsUntil at hwait ⊢
  split at hwait
  · simp only [Bool.and_eq_true] at hwait ⊢
    exact hwait.imp_right (endsBy_mono ht le_rfl)
  · exact endsBy_mono ht le_rfl hwait
  · exact endsBy_mono ht le_rfl hwait
  · cases hwait

theorem watchesTime_of_seeks {x : Worker} {clock : Nat} (h : x.seeksTimer clock = true) (t : Nat) : x.watchesTime clock t = true := by
  rw [Worker.watchesTime, h, Bool.true_or]

theorem seeksStop_of_seeks {x : Worker} {clock : Nat} (h : x.seeksTimer clock = true) : x.seeksStop clock = true := by
  unfold Worker.seeksStop
  split
  · rfl
  · exact h

theorem inRun_seeks {p : Phase} (h : p.inRun = true) (idleDone : Bool) (clock : Nat) :
    Worker.seeksTask ⟨p,idleDone⟩ clock = true ∧ Worker.seeksTimer ⟨p,idleDone⟩ clock = !idleDone ∧
      Worker.seeksStop ⟨p,idleDone⟩ clock = !idleDone ∧ ∀ t, p.waitsUntil clock t = false := by
  cases p with
  | search | taken _ | executing _ | settling _ | leaving => exact ⟨rfl,rfl,rfl,fun _ => rfl⟩
  | _ => cases h

/-- Wherever a thread stands in the loop of `run`, it looks for the same. -/
theorem Worker.keeps_inRun {p q : Phase} (hp : p.inRun = true) (hq : q.inRun = true) (idleDone : Bool) (clock : Nat) :
    Worker.Keeps ⟨p,idleDone⟩ ⟨q,idleDone⟩ clock clock := by
  obtain ⟨-,htimer,hstop,hwait⟩ := inRun_seeks hp idleDone clock
  obtain ⟨htask,htimer',hstop',hwait'⟩ := inRun_seeks hq idleDone clock
  refine ⟨fun _ => htask,?_,?_,fun t => ?_⟩
  · rw [htimer, htimer']
    exact id
  · rw [hstop, hstop']
    exact id
  · rw [Worker.watchesTime, Worker.watchesTime, htimer, htimer', hwait t, hwait' t]
    exact id

/-- Waits come to their ends. -/
theorem Worker.keeps_later (x : Worker) {clock clock' : Nat} (hc : clock ≤ clock') : x.Keeps x clock clock' := by
  have hover : x.phase.over clock = true → x.phase.over clock' = true := by
    unfold Phase.over
    split
    · rename_i deadline _
      cases deadline with
      | none => exact id
      | some d =>
        simp only [Option.any_some, decide_eq_true_eq]
        exact fun hd => hd.trans hc
    · exact id
  have htimer : x.seeksTimer clock = true → x.seeksTimer clock' = true := by
    unfold Worker.seeksTimer
    split <;> first | exact id | exact hover
  refine ⟨?_,htimer,?_,?_⟩
  · unfold Worker.seeksTask
    split <;> first | exact id | exact hover
  · unfold Worker.seeksStop
    split
    · exact id
    · exact htimer
  · intro t
    unfold Worker.watchesTime
    simp only [Bool.or_eq_true]
    refine Or.imp htimer ?_
    unfold Phase.waitsUntil
    split <;> first | exact id | exact endsBy_mono le_rfl hc

namespace System.Watched
variable {s' : System n}

/-- A thread that looks for everything watches everything. -/
theorem of_seeker {w : Fin n} (htask : (s.workers w).seeksTask s.clock = true) (htimer : (s.workers w).seeksTimer s.clock = true) :
    s.Watched where
  queue := fun _ => ⟨w,htask⟩
  timers := fun _ _ => ⟨w,watchesTime_of_seeks htimer _⟩
  flag := fun _ => ⟨w,htimer⟩
  stop := fun _ => ⟨w,seeksStop_of_seeks htimer⟩

theorem time (h : s.Watched) {m : Manager Unit} (ha : Manager.Announced s.timers m false)
    (hw : ∀ w t, (s.workers w).watchesTime s.clock t = true → (s'.workers w).watchesTime s'.clock t = true) :
    ∀ p ∈ m.timers, ∃ w, (s'.workers w).watchesTime s'.clock (m.next p) = true := by
  intro p hp
  rcases ha.later p hp with hf | ht | ⟨q,hq,hle⟩
  · cases hf
  · obtain ⟨w,hs⟩ := h.flag ht
    exact ⟨w,hw w _ (watchesTime_of_seeks hs _)⟩
  · obtain ⟨w,hs⟩ := h.timers q hq
    exact ⟨w,hw w _ (watchesTime_mono hle hs)⟩

theorem keeps (h : s.Watched) (hw : ∀ w, (s.workers w).Keeps (s'.workers w) s.clock s'.clock) (hq : s'.queue ≠ [] → s.queue ≠ [])
    (ht : Manager.Announced s.timers s'.timers false) (hu : s'.unseen = true → s.unseen = true) : s'.Watched where
  queue := fun hne => (h.queue (hq hne)).imp fun w => (hw w).task
  timers := h.time ht fun w => (hw w).time
  flag := by
    intro hf
    rw [ht.tickled, Bool.or_false] at hf
    exact (h.flag hf).imp fun w => (hw w).timer
  stop := fun hun => (h.stop (hu hun)).imp fun w => (hw w).stop

end System.Watched

/-- There is a byte in the pipe, or a `tickle` is due, or all work is watched. -/
def System.Awake (s : System n) : Prop := 0 < s.bytes ∨ 0 < s.tickles ∨ s.Watched

structure Inv (s : System n) : Prop where
  awake : s.Awake
  fit : ∀ w, (s.workers w).phase.inIdle = true → (s.workers w).idleDone = false
  timers : s.timers.Inv
  clock : 0 < s.clock

theorem announced_self (m : Manager Unit) : Manager.Announced m m false := .sublist rfl fun _ hp => ⟨hp,rfl⟩

theorem inv_init (n clock : Nat) : Inv (System.init n clock) where
  awake := .inr (.inr ⟨fun h => absurd rfl h,fun _ hp => absurd hp List.not_mem_nil,Bool.noConfusion,Bool.noConfusion⟩)
  fit := fun _ => Bool.noConfusion
  timers := Manager.inv_init
  clock := Nat.succ_pos clock

theorem toInt_le (d : Nat) : toInt d ≤ d := by
  unfold toInt Int.bmod
  dsimp only
  split <;> omega

/-- A timeout that is one is no longer than the delay. -/
theorem epollTimeout_le {d : Nat} (hd : d ≠ 2^64 - 1) : (epollTimeout d).toNat ≤ d := by
  have hle := toInt_le d
  unfold epollTimeout
  rw [if_pos hd]
  split
  · have hmax : toInt 3000 = 3000 := by decide
    omega
  · omega

/-- A thread that waits no longer than to the timer, or not at all, watches it. -/
theorem asked_watchesTime {delay now t : Nat} {idleDone : Bool} (hd : delay ≠ 2^64 - 1) (h : 0 ≤ epollTimeout delay)
    (ht : (epollTimeout delay).toNat ≤ t - now) : Worker.watchesTime ⟨.asked delay now,idleDone⟩ now t = true := by
  have hwait : Worker.watchesTime ⟨.asked delay now,idleDone⟩ now t =
      (delay ≠ 2^64 - 1 && endsBy (deadlineOf (epollTimeout delay) now) now t) := rfl
  rw [hwait, decide_eq_true hd, Bool.true_and, deadlineOf, if_neg (Int.not_lt.mpr h), endsBy, Option.any_some, decide_eq_true_eq]
  omega

/-- A task that is passed over as busy is a fiber that some thread executes. -/
theorem executing_of_busy {task : Task} (h : s.busy task = true) : ∃ v f, (s.workers v).phase = .executing f := by
  cases task with
  | fiber f =>
    obtain ⟨v,hv⟩ := of_decide_eq_true h
    exact ⟨v,f,hv⟩
  | cb => cases h

namespace Inv
variable {s' : System n}

/-- A step that moves one thread, and nothing that is watched. -/
theorem move (h : Inv s) {w : Fin n} {y : Worker} (hy : (s.workers w).Keeps y s.clock s.clock)
    (hfit : y.phase.inIdle = true → y.idleDone = false) (hwork : s'.workers = Function.update s.workers w y)
    (hsame : (s'.clock,s'.timers,s'.queue,s'.bytes,s'.tickles,s'.unseen) = (s.clock,s.timers,s.queue,s.bytes,s.tickles,s.unseen)) :
    Inv s' := by
  simp only [Prod.mk.injEq] at hsame
  obtain ⟨hclock,htimers,hqueue,hbytes,htickles,hunseen⟩ := hsame
  have hkeeps : ∀ v, (s.workers v).Keeps (s'.workers v) s.clock s'.clock := by
    intro v
    rw [hwork, hclock, Function.update_apply]
    split
    · rename_i hv
      rwa [hv]
    · exact Worker.keeps_later _ le_rfl
  refine ⟨?_,?_,by rw [htimers]; exact h.timers,by rw [hclock]; exact h.clock⟩
  · rcases h.awake with hb | ht | hwatched
    · exact .inl (by rwa [hbytes])
    · exact .inr (.inl (by rwa [htickles]))
    · refine .inr (.inr (hwatched.keeps hkeeps ?_ ?_ ?_))
      · rw [hqueue]
        exact id
      · rw [htimers]
        exact announced_self s.timers
      · rw [hunseen]
        exact id
  · intro v
    rw [hwork, Function.update_apply]
    split
    · exact hfit
    · exact h.fit v

theorem movePhase (h : Inv s) {w : Fin n} {p q : Phase} (hp : (s.workers w).phase = p)
    (hk : ∀ idleDone : Bool, Worker.Keeps ⟨p,idleDone⟩ ⟨q,idleDone⟩ s.clock s.clock) (hfit : q.inIdle = true → p.inIdle = true)
    (hwork : s'.workers = Function.update s.workers w { s.workers w with phase := q })
    (hsame : (s'.clock,s'.timers,s'.queue,s'.bytes,s'.tickles,s'.unseen) = (s.clock,s.timers,s.queue,s.bytes,s.tickles,s.unseen)) :
    Inv s' := by
  refine h.move (y := { s.workers w with phase := q }) ?_ (fun hi => h.fit w ?_) hwork hsame
  · subst hp
    exact hk (s.workers w).idleDone
  · rw [hp]
    exact hfit hi

/-- A step of one thread within the loop of `run`. -/
theorem moveInRun (h : Inv s) {w : Fin n} {p q : Phase} (hp : (s.workers w).phase = p) (hin : p.inRun = true) (hout : q.inRun = true)
    (hwork : s'.workers = Function.update s.workers w { s.workers w with phase := q })
    (hsame : (s'.clock,s'.timers,s'.queue,s'.bytes,s'.tickles,s'.unseen) = (s.clock,s.timers,s.queue,s.bytes,s.tickles,s.unseen)) :
    Inv s' := by
  refine h.movePhase hp (fun idleDone => Worker.keeps_inRun hin hout idleDone s.clock) (fun hi => ?_) hwork hsame
  cases q with
  | search | taken _ | executing _ | settling _ | leaving => cases hi
  | _ => cases hout

/-- More tasks; a queue that was empty is announced. -/
theorem queue (h : Inv s) (queue : List (Entry Task (Fin n))) (need : Bool) (hn : need = false → queue ≠ [] → s.queue ≠ []) :
    Inv ({ s with queue := queue }.owe need) := by
  refine ⟨?_,h.fit,h.timers,h.clock⟩
  cases need with
  | true => exact .inr (.inl (Nat.succ_pos s.tickles))
  | false =>
    refine h.awake.imp_right (Or.imp_right fun hw => ?_)
    exact hw.keeps (fun w => Worker.keeps_later _ le_rfl) (hn rfl) (announced_self s.timers) id

/-- Other timers, announced as the manager does. -/
theorem retime (h : Inv s) {m : Manager Unit} {front : Bool} (hm : m.Inv) (ha : Manager.Announced s.timers m front) :
    Inv ({ s with timers := m }.owe front) := by
  refine ⟨?_,h.fit,hm,h.clock⟩
  cases front with
  | true => exact .inr (.inl (Nat.succ_pos s.tickles))
  | false =>
    refine h.awake.imp_right (Or.imp_right fun hw => ?_)
    exact hw.keeps (fun w => Worker.keeps_later _ le_rfl) id ha id

theorem schedule (h : Inv s) (task : Option Task) (thread : Option (Fin n)) : Inv (s.schedule task thread) := by
  refine h.queue _ _ fun hneed _ => ?_
  exact List.isEmpty_eq_false_iff.mp hneed

theorem scheduleEach_need {queue : List (Entry Task (Fin n))} {need : Bool} {tasks : List (Option Task)}
    (h : (System.scheduleEach queue need tasks).1 = false) :
    need = false ∧ ((System.scheduleEach queue need tasks).2 ≠ [] → queue ≠ []) := by
  cases tasks with
  | nil => exact ⟨h,id⟩
  | cons task tasks =>
    rw [System.scheduleEach] at h ⊢
    obtain ⟨hneed,-⟩ := scheduleEach_need h
    obtain ⟨hempty,hneed⟩ := Bool.or_eq_false_iff.mp hneed
    exact ⟨hneed,fun _ => List.isEmpty_eq_false_iff.mp hempty⟩
termination_by tasks.length

theorem scheduleAll (h : Inv s) (tasks : List (Option Task)) : Inv (s.scheduleAll tasks) :=
  h.queue _ _ fun hneed => (scheduleEach_need hneed).2

theorem tickle (h : Inv s) (hc : Act.Covered .tickle s) (hdue : s.tickles ≠ 0) : Inv ({ s with tickles := s.tickles - 1 }.tickle) := by
  unfold System.tickle
  split
  · rename_i hidle
    refine ⟨?_,h.fit,h.timers,h.clock⟩
    by_cases hb : s.bytes = 0
    · by_cases ht : s.tickles = 1
      · obtain ⟨hq,htime,hf,hs⟩ := hc hidle ht hb
        exact .inr (.inr ⟨hq,htime,hf,hs⟩)
      · exact .inr (.inl (show 0 < s.tickles - 1 by omega))
    · exact .inl (Nat.pos_of_ne_zero hb)
  · exact ⟨.inl (Nat.succ_pos s.bytes),h.fit,h.timers,h.clock⟩

theorem stop (h : Inv s) (hn : 0 < n) : Inv { s with stopping := true, unseen := true, tickles := s.tickles + n } :=
  ⟨.inr (.inl (Nat.add_pos_right _ hn)),h.fit,h.timers,h.clock⟩

theorem passTime (h : Inv s) (d : Nat) : Inv { s with clock := s.clock + d } := by
  refine ⟨?_,h.fit,h.timers,Nat.add_pos_left h.clock d⟩
  refine h.awake.imp_right (Or.imp_right fun hw => ?_)
  exact hw.keeps (fun w => Worker.keeps_later _ (Nat.le_add_right _ d)) id (announced_self s.timers) id

theorem fit_set (h : Inv s) {w : Fin n} {y : Worker} (hfit : y.phase.inIdle = true → y.idleDone = false) (v : Fin n) :
    (Function.update s.workers w y v).phase.inIdle = true → (Function.update s.workers w y v).idleDone = false := by
  rw [Function.update_apply]
  split
  · exact hfit
  · exact h.fit v

/-- What threads do is the same but for `w`. -/
theorem set_imp (f : Worker → Bool) {w : Fin n} {y : Worker} (hy : f (s.workers w) = true → f y = true) (v : Fin n) :
    f (s.workers v) = true → f (Function.update s.workers w y v) = true := by
  rw [Function.update_apply]
  split
  · rename_i hv
    rwa [hv]
  · exact id

theorem search (h : Inv s) {w : Fin n} (hp : (s.workers w).phase = .search) : Inv (s.search w) := by
  unfold System.search
  cases hd : dequeue s.busy w s.queue with
  | some out =>
    obtain ⟨e,rest⟩ := out
    obtain ⟨-,before,behind,hq,-⟩ := dequeue_some hd
    have hne : s.queue ≠ [] := by simp [hq]
    refine (h.queue rest (passesForeign s.busy w s.queue) fun _ _ => hne).move
      (y := { s.workers w with phase := .taken e.task }) ⟨?_,?_,?_,?_⟩ (by simp [Phase.inIdle]) rfl rfl <;>
      simp [Worker.seeksTask, Worker.seeksTimer, Worker.seeksStop, Worker.watchesTime, Phase.waitsUntil, System.owe, hp]
  | none =>
    have hfit : ∀ idleDone : Bool, (if idleDone then Phase.exited else .toIdle).inIdle = true → idleDone = false := by
      decide
    refine ⟨?_,h.fit_set (hfit _),h.timers,h.clock⟩
    cases hpass : passesForeign s.busy w s.queue with
    | true => exact .inr (.inl (Nat.succ_pos s.tickles))
    | false =>
      refine h.awake.imp_right (Or.imp_right fun hw => ?_)
      refine ⟨fun hne => ?_,hw.time (announced_self s.timers) ?_,fun hf => (hw.flag hf).imp ?_,fun hu => (hw.stop hu).imp ?_⟩
      · -- all tasks are fibers that other threads execute, and these will search again
        obtain ⟨e,hin⟩ := List.exists_mem_of_ne_nil s.queue hne
        obtain ⟨v,hv⟩ := executing_of_busy (busy_of_none hd hpass e hin)
        have hvw : v ≠ w := by
          rintro rfl
          rw [hp] at hv
          cases hv.choose_spec
        refine ⟨v,?_⟩
        obtain ⟨f,hf⟩ := hv
        simp [System.setPhase, System.setWorker, System.owe, hvw, Worker.seeksTask, hf]
      · intro v t
        refine set_imp (s := s) (fun x => x.watchesTime s.clock t) ?_ v
        cases hi : (s.workers w).idleDone <;> simp [Worker.watchesTime, Worker.seeksTimer, Phase.waitsUntil, hp, hi]
      · intro v
        refine set_imp (s := s) (fun x => x.seeksTimer s.clock) ?_ v
        cases hi : (s.workers w).idleDone <;> simp [Worker.seeksTimer, hp, hi]
      · intro v
        refine set_imp (s := s) (fun x => x.seeksStop s.clock) ?_ v
        cases hi : (s.workers w).idleDone <;> simp [Worker.seeksStop, Worker.seeksTimer, hp, hi]

theorem nextTimer (h : Inv s) {w : Fin n} (hc : Act.Covered (.nextTimer w) s) (hp : (s.workers w).phase = .asking) :
    Inv ({ s with timers := (s.timers.getNextTimer s.clock).2 }.setPhase w (.asked (s.timers.getNextTimer s.clock).1 s.clock)) := by
  have hasking : (s.workers w).idleDone = false := h.fit w (by rw [hp]; rfl)
  refine ⟨?_,h.fit_set fun _ => hasking,h.timers.tickle false,h.clock⟩
  by_cases hb : s.bytes = 0
  swap
  · exact .inl (Nat.pos_of_ne_zero hb)
  by_cases ht : s.tickles = 0
  swap
  · exact .inr (.inl (Nat.pos_of_ne_zero ht))
  have hw : s.Watched := h.awake.elim (fun h => absurd h (by omega)) fun h => h.elim (fun h => absurd h (by omega)) id
  refine .inr (.inr ⟨fun hne => (hw.queue hne).imp ?_,fun p hin => ?_,Bool.noConfusion,fun hu => (hw.stop hu).imp ?_⟩)
  · intro v
    refine set_imp (s := s) (fun x => x.seeksTask s.clock) ?_ v
    simp [Worker.seeksTask, Phase.over, hp]
  · have hin : p ∈ s.timers.timers := hin
    change ∃ v, (Function.update s.workers w _ v).watchesTime s.clock (s.timers.next p) = true
    by_cases hneg : epollTimeout (s.timers.getNextTimer s.clock).1 < 0
    · obtain ⟨v,hvw,hv⟩ := hc hp hneg ht hb p hin
      exact ⟨v,by rwa [Function.update_of_ne hvw]⟩
    · have hdelay : (s.timers.getNextTimer s.clock).1 ≠ 2^64 - 1 := by
        intro hd
        rw [h.timers.getNextTimer_max h.clock hd] at hin
        cases hin
      have hle := h.timers.getNextTimer_le hin s.clock
      have htimeout := epollTimeout_le hdelay
      refine ⟨w,?_⟩
      rw [Function.update_self]
      apply asked_watchesTime hdelay (Int.not_lt.mp hneg)
      omega
  · intro v
    refine set_imp (s := s) (fun x => x.seeksStop s.clock) ?_ v
    simp [Worker.seeksStop]

theorem testStop (h : Inv s) {w : Fin n} {delay now : Nat} (hp : (s.workers w).phase = .asked delay now) :
    Inv (if s.stops delay then { s with unseen := false }.setWorker w ⟨.leaving,true⟩
      else { s with unseen := false }.setPhase w (.timed (epollTimeout delay) now)) := by
  have hasked : (s.workers w).idleDone = false := h.fit w (by rw [hp]; rfl)
  split
  · rename_i hs
    have hdelay : delay = 2^64 - 1 := by
      simp only [System.stops, Bool.and_eq_true, decide_eq_true_eq] at hs
      exact hs.1.1.1.1.1
    refine ⟨h.awake.imp_right (Or.imp_right fun hw => ?_),h.fit_set (by simp [Phase.inIdle]),h.timers,h.clock⟩
    refine ⟨fun _ => ⟨w,?_⟩,hw.time (announced_self s.timers) ?_,fun hf => (hw.flag hf).imp ?_,Bool.noConfusion⟩
    · simp [System.setWorker, Worker.seeksTask]
    · intro v t
      refine set_imp (s := s) (fun x => x.watchesTime s.clock t) ?_ v
      simp [Worker.watchesTime, Worker.seeksTimer, Phase.over, Phase.waitsUntil, hp, hdelay]
    · intro v
      refine set_imp (s := s) (fun x => x.seeksTimer s.clock) ?_ v
      simp [Worker.seeksTimer, Phase.over, hp]
  · refine ⟨h.awake.imp_right (Or.imp_right fun hw => ?_),h.fit_set fun _ => hasked,h.timers,h.clock⟩
    refine ⟨fun hne => (hw.queue hne).imp ?_,hw.time (announced_self s.timers) ?_,fun hf => (hw.flag hf).imp ?_,Bool.noConfusion⟩
    · intro v
      refine set_imp (s := s) (fun x => x.seeksTask s.clock) ?_ v
      simp [Worker.seeksTask, Phase.over, hp]
    · intro v t
      refine set_imp (s := s) (fun x => x.watchesTime s.clock t) ?_ v
      simp [Worker.watchesTime, Worker.seeksTimer, Phase.over, Phase.waitsUntil, hp]
    · intro v
      refine set_imp (s := s) (fun x => x.seeksTimer s.clock) ?_ v
      simp [Worker.seeksTimer, Phase.over, hp]

/-- A thread that begins its wait in time watches what it was to watch. -/
theorem wait (h : Inv s) {w : Fin n} {timeout : Int} {now : Nat} (hc : Act.Covered (.wait w) s)
    (hp : (s.workers w).phase = .timed timeout now) : Inv (s.setPhase w (.blocked (deadlineOf timeout s.clock))) := by
  have htimed : (s.workers w).idleDone = false := h.fit w (by rw [hp]; rfl)
  refine ⟨?_,h.fit_set fun _ => htimed,h.timers,h.clock⟩
  by_cases hb : s.bytes = 0
  swap
  · exact .inl (Nat.pos_of_ne_zero hb)
  by_cases ht : s.tickles = 0
  swap
  · exact .inr (.inl (Nat.pos_of_ne_zero ht))
  have hw : s.Watched := h.awake.elim (fun h => absurd h (by omega)) fun h => h.elim (fun h => absurd h (by omega)) id
  refine .inr (.inr ⟨fun hne => (hw.queue hne).imp ?_,fun p hin => ?_,fun hf => (hw.flag hf).imp ?_,fun hu => (hw.stop hu).imp ?_⟩)
  · intro v
    refine set_imp (s := s) (fun x => x.seeksTask s.clock) ?_ v
    simp [Worker.seeksTask, Phase.over, hp]
  · change ∃ v, (Function.update s.workers w _ v).watchesTime s.clock (s.timers.next p) = true
    cases hlate : (s.workers w).phase.waitsBeyond s.clock (s.timers.next p) with
    | true =>
      obtain ⟨v,hvw,hv⟩ := hc ht hb p hin hlate
      exact ⟨v,by rwa [Function.update_of_ne hvw]⟩
    | false =>
      refine ⟨w,?_⟩
      rw [hp, Phase.waitsBeyond, Bool.not_eq_false'] at hlate
      rw [Function.update_self, Worker.watchesTime, Bool.or_eq_true]
      exact .inr hlate
  · intro v
    refine set_imp (s := s) (fun x => x.seeksTimer s.clock) ?_ v
    simp [Worker.seeksTimer, Phase.over, hp]
  · intro v
    refine set_imp (s := s) (fun x => x.seeksStop s.clock) ?_ v
    simp [Worker.seeksStop, Worker.seeksTimer, Phase.over, hp]

/-- The thread behind `epoll_wait` looks for everything again. -/
theorem seeker (h : Inv s) {w : Fin n} {y : Worker} (hy : y.seeksTask s.clock = true) (hidle : y.idleDone = false)
    (htimer : y.idleDone = false → y.seeksTimer s.clock = true) {m : Manager Unit} (hm : m.Inv) (bytes : Nat) :
    Inv ({ s with timers := m, bytes := bytes }.setWorker w y) := by
  refine ⟨.inr (.inr (.of_seeker (w := w) ?_ ?_)),h.fit_set fun _ => hidle,hm,h.clock⟩
  · simpa [System.setWorker] using hy
  · simpa [System.setWorker] using htimer hidle

end Inv

/-- Every step that is covered keeps the threads awake. -/
theorem inv_step (hn : 0 < n) (h : Inv s) {a : Act n} (hc : a.Covered s) {s' : System n} (he : System.step a s = .ok ((),s')) :
    Inv s' := by
  cases a with
  | start w =>
    cases he
    split
    · rename_i hp
      exact h.movePhase (q := .search) hp (fun _ => ⟨fun _ => rfl,Bool.noConfusion,Bool.noConfusion,fun _ => Bool.noConfusion⟩) id rfl rfl
    · exact h
  | search w =>
    cases he
    split
    · rename_i hp
      exact h.search hp
    · exact h
  | begin w cbFiber =>
    simp only [System.step] at he
    split at he
    · rename_i f hp
      cases he
      exact h.moveInRun (q := .executing f) hp rfl rfl rfl rfl
    · rename_i hp
      cases he
      exact h.moveInRun (q := .executing cbFiber) hp rfl rfl rfl rfl
    · cases he
      exact h
  | pass w =>
    simp only [System.step] at he
    split at he
    · rename_i task hp
      cases he
      exact h.moveInRun (q := .search) hp rfl rfl rfl rfl
    · cases he
      exact h
  | switchBack w ready =>
    simp only [System.step] at he
    split at he
    · rename_i f hp
      cases he
      exact h.moveInRun (q := .settling (if ready then some f else none)) hp rfl rfl rfl rfl
    · cases he
      exact h
  | settle w =>
    simp only [System.step] at he
    split at he
    · rename_i f hp
      cases he
      exact (h.schedule (some (.fiber f)) none).moveInRun (q := .search) hp rfl rfl rfl rfl
    · rename_i hp
      cases he
      exact h.moveInRun (q := .search) hp rfl rfl rfl rfl
    · cases he
      exact h
  | enterIdle w =>
    cases he
    split
    · rename_i hp
      exact h.movePhase (q := .asking) hp (fun _ => ⟨id,id,id,fun _ => id⟩) id rfl rfl
    · exact h
  | nextTimer w =>
    simp only [System.step] at he
    split at he
    · rename_i hp
      cases he
      exact h.nextTimer hc hp
    · cases he
      exact h
  | testStop w =>
    simp only [System.step] at he
    split at he
    · rename_i hp
      cases he
      exact h.testStop hp
    · cases he
      exact h
  | wait w =>
    simp only [System.step] at he
    split at he
    · rename_i timeout now hp
      cases he
      exact h.wait hc hp
    · cases he
      exact h
  | wake w pipe event =>
    simp only [System.step] at he
    split at he
    · rename_i deadline hp
      cases he
      split
      · exact h.movePhase (q := .woken _) hp (fun _ => ⟨fun _ => rfl,fun _ => rfl,fun _ => rfl,fun _ _ => rfl⟩) id rfl rfl
      · exact h
    · cases he
      exact h
  | expire w now tmp =>
    simp only [System.step] at he
    split at he
    · rename_i pipe hp
      cases he
      exact h.seeker (y := ⟨.handing pipe _,(s.workers w).idleDone⟩) rfl (h.fit w (by rw [hp]; rfl)) (fun _ => rfl)
        (h.timers.listExpiredCb _ tmp) s.bytes
    · cases he
      exact h
  | hand w =>
    simp only [System.step] at he
    split at he
    · rename_i pipe tasks hp
      cases he
      exact (h.scheduleAll tasks).movePhase (q := .draining pipe) hp (fun _ => ⟨fun _ => rfl,id,id,fun _ => id⟩) id rfl rfl
    · cases he
      exact h
  | drain w =>
    simp only [System.step] at he
    split at he
    · rename_i pipe hp
      cases he
      have hidle := h.fit w (by rw [hp]; rfl)
      exact h.seeker (y := ⟨.leaving,(s.workers w).idleDone⟩) rfl hidle (fun hi => by rw [Worker.seeksTimer, hi]; rfl) h.timers _
    · cases he
      exact h
  | back w =>
    cases he
    split
    · rename_i hp
      exact h.moveInRun (q := .search) hp rfl rfl rfl rfl
    · exact h
  | tickle =>
    cases he
    split
    · exact h
    · rename_i hdue
      exact h.tickle hc hdue
  | schedule task thread =>
    cases he
    exact h.schedule task thread
  | scheduleAll tasks =>
    cases he
    exact h.scheduleAll tasks
  | addTimer p now ms cb recurring =>
    simp only [System.step] at he
    split at he
    · cases he
      exact h
    · rename_i hp
      cases he
      exact h.retime (h.timers.addTimer hp _ ms cb recurring) (Manager.addTimer_announced h.timers hp _ ms cb recurring)
  | reset p ms fromNow =>
    cases he
    exact h.retime (h.timers.reset p ms fromNow _) (Manager.reset_announced h.timers p ms fromNow _)
  | cancel p =>
    simp only [System.step] at he
    split at he
    · cases he
    · rename_i r hr
      cases he
      exact h.retime (h.timers.cancel hr) (Manager.cancel_announced hr)
  | autoStop =>
    cases he
    exact ⟨h.awake.imp_right (Or.imp_right fun hw => ⟨hw.queue,hw.timers,hw.flag,hw.stop⟩),h.fit,h.timers,h.clock⟩
  | stop =>
    cases he
    exact h.stop hn
  | setEvents k =>
    cases he
    exact ⟨h.awake.imp_right (Or.imp_right fun hw => ⟨hw.queue,hw.timers,hw.flag,hw.stop⟩),h.fit,h.timers,h.clock⟩
  | passTime d =>
    cases he
    exact h.passTime d

/-- No wakeup is lost in any run of any number of threads whose steps are all covered. -/
theorem never_lost (n clock : Nat) (acts : List (Act n)) (h : Along Act.Covered System.step acts (System.init n clock))
    (rs : List Unit) (t : System n) (hr : runAll System.step acts (System.init n clock) = .ok (rs,t)) : ¬ t.Lost := by
  intro hlost
  have hasleep := hlost.1
  obtain ⟨⟨w,-⟩,-,hbytes,htickles⟩ := hasleep
  have hinv := along_keeps (fun _ _ _ _ hs hc => inv_step (Fin.pos w) hs hc) acts (inv_init n clock) h hr
  rcases hinv.awake with hb | ht | hwatched
  · omega
  · omega
  · exact not_lost hwatched hlost

/-- A task for a sleeping thread, while another one executes: it is taken. With nobody idle a byte is
written, and read by the thread that gets to `epoll_wait`. -/
theorem never_lost_two :
    let sleeping : List (Act 2) := [.start 0,.search 0,.enterIdle 0,.nextTimer 0,.testStop 0,.wait 0]
    let acts := [.start 1,.schedule (some .cb) none,.tickle,.search 1,.begin 1 7] ++ sleeping ++
      [.schedule (some .cb) none,.tickle,.wake 0 true false,.expire 0 0 0,.hand 0,.drain 0,.back 0,.search 0]
    ∀ rs t, runAll System.step acts (System.init 2 0) = .ok (rs,t) → ¬ t.Lost := by
  intro sleeping acts
  have hcovered : Along Act.Covered System.step acts (System.init 2 0) := by decide +kernel
  exact never_lost 2 0 acts hcovered

/-- A thread sleeps, and a task, a timer or `stop` comes: nothing is written to the pipe. A timer that is
`2^31` milliseconds away turns the timeout negative. Time that passes before `epoll_wait` is slept over. -/
theorem idle_thread_loses_wakeups :
    let sleeping : List (Act 1) := [.start 0,.search 0,.enterIdle 0,.nextTimer 0,.testStop 0,.wait 0]
    let timed (ms : Nat) : List (Act 1) := [.start 0,.search 0,.enterIdle 0,.addTimer 0 1 ms (some ()) false,.tickle,.nextTimer 0,
      .testStop 0]
    ∀ acts ∈ [sleeping ++ [.schedule (some .cb) none,.tickle],sleeping ++ [.addTimer 0 0 10 (some ()) false,.tickle],
      sleeping ++ [.stop,.tickle],timed (2^31) ++ [.wait 0],timed 10 ++ [.passTime 5,.wait 0]],
      ∃ rs t, runAll System.step acts (System.init 1 0) = .ok (rs,t) ∧ t.Lost := by
  intro sleeping timed acts hin
  have hlost : ∀ acts ∈ [sleeping ++ [.schedule (some .cb) none,.tickle],sleeping ++ [.addTimer 0 0 10 (some ()) false,.tickle],
      sleeping ++ [.stop,.tickle],timed (2^31) ++ [.wait 0],timed 10 ++ [.passTime 5,.wait 0]],
      (runAll System.step acts (System.init 1 0)).toOption.any (fun r => decide r.2.Lost) = true := by decide +kernel
  have hrun := hlost acts hin
  cases hr : runAll System.step acts (System.init 1 0) with
  | error e =>
    rw [hr] at hrun
    cases hrun
  | ok r =>
    rw [hr] at hrun
    exact ⟨r.1,r.2,rfl,of_decide_eq_true hrun⟩

end Radixun.Common.Wakeup
