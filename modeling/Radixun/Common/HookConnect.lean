import Radixun.Common.HookIo

/-! `connect_with_timeout`: a connection that is in progress is waited for, and then its `SO_ERROR` is read. -/
namespace Radixun.Common.Hook
open Foundation.CommandRuns
open Timers (Call Ledger)

/-- `EINPROGRESS`. -/
def einprogress : Int := 115

/-- What `connect` returns: zero, or -1 with `errno`. -/
inductive ConnectResult where
  | zero
  | error (errno : Int)
  deriving DecidableEq

def ConnectResult.n : ConnectResult → Int
  | zero => 0
  | error _ => -1

inductive ConnectPhase where
  | direct
  | connecting
  | waiting
  | returned (r : ConnectResult)
  deriving DecidableEq

/-- A call of `connect_with_timeout`: whether `connect_f` returned zero, and what was read as `SO_ERROR`. -/
structure Connect (κ : Type) where
  phase : ConnectPhase
  wait : TimedWait κ
  connected : Bool
  soError : Option Int

/-- `connect_f` is called, the wait takes a step, a timeout is acted on, or `getsockopt` fails with an `errno` or reads `SO_ERROR`. -/
inductive ConnectAct (κ : Type) where
  | connect (r : ConnectResult)
  | wait (a : WaitAct κ)
  | finish
  | getsockopt (r : Except Int Int)

namespace Connect
variable {κ : Type}

def enter (hookEnabled : Bool) (ctx : Option FdCtx) (timeoutMs : UInt64) (timers : Ledger κ) : Connect κ :=
  let phase := match hookEnabled,ctx with
    | false,_ => ConnectPhase.direct
    | true,none => .returned (.error ebadf)
    | true,some c =>
      if c.isClosed then .returned (.error ebadf) else if !c.isSocket || c.userNonblock then .direct else .connecting
  ⟨phase,.enter timers timeoutMs,false,none⟩

/-- `connect_f`. In progress, it is waited for. -/
def connect (s : Connect κ) (r : ConnectResult) : Connect κ :=
  if s.wait.stage ≠ .idle then s
  else
    match s.phase with
    | .direct => { s with phase := .returned r, connected := r = .zero }
    | .connecting =>
      if r = .error einprogress then { s with phase := .waiting, wait.stage := .arming }
      else { s with phase := .returned r, connected := r = .zero }
    | _ => s

/-- Behind the wait, if the flag was set. -/
def finish (s : Connect κ) : Connect κ :=
  match s.phase,s.wait.stage with
  | .waiting,.timedOut e => { s with phase := .returned (.error e) }
  | _,_ => s

/-- What is made of `getsockopt`. -/
def answer (s : Connect κ) : Except Int Int → Connect κ
  | .error errno => { s with phase := .returned (.error errno) }
  | .ok error => { s with phase := .returned (if error = 0 then .zero else .error error), soError := some error }

/-- Behind the wait, also if `addEvent` has failed. -/
def getsockopt (s : Connect κ) (r : Except Int Int) : Connect κ :=
  match s.phase,s.wait.stage with
  | .waiting,.failed | .waiting,.ready _ => s.answer r
  | _,_ => s

def act : ConnectAct κ → Connect κ → Except Timers.Fault (Connect κ)
  | .connect r, s => .ok (s.connect r)
  | .wait a, s => (TimedWait.act a s.wait).map fun wait => { s with wait := wait }
  | .finish, s => .ok s.finish
  | .getsockopt r, s => .ok (s.getsockopt r)

/-- A step, until the call has returned. -/
def step (a : ConnectAct κ) (s : Connect κ) : Except Timers.Fault (Unit × Connect κ) :=
  match s.phase with
  | .returned _ => .ok ((),s)
  | _ => (act a s).map fun s' => ((),s')

/-- The connection is there: `connect_f` has said so, or the event was delivered to the wait and `SO_ERROR` is zero. -/
def Completed (s : Connect κ) : Prop := s.connected = true ∨ (s.wait.stage = .ready .event ∧ s.soError = some 0)

/-- A call that has returned says zero only for a connection that is there, else -1, and none of its timers is in the set. -/
def Truthful (s : Connect κ) : Prop :=
  ∀ r, s.phase = .returned r → (r.n = 0 ∧ s.Completed ∨ r.n = -1) ∧ ∀ i ∈ s.wait.mine, ¬s.wait.timers.Held i

/-- `SO_ERROR` reads zero behind a wait for which `addEvent` failed, or that was cancelled elsewhere. -/
def Misled (s : Connect κ) (a : ConnectAct κ) : Prop :=
  a = .getsockopt (.ok 0) ∧ s.phase = .waiting ∧ (s.wait.stage = .failed ∨ s.wait.stage = .ready .other)

/-- What holds of a call until a step misleads it. -/
structure Inv (s : Connect κ) : Prop where
  wait : s.wait.Inv
  pending : (∀ r, s.phase ≠ .returned r) → s.connected = false
  truthful : s.Truthful

theorem inv_enter {timers : Ledger κ} (h : timers.Good) (hookEnabled : Bool) (ctx : Option FdCtx) (timeoutMs : UInt64) :
    (enter hookEnabled ctx timeoutMs timers).Inv where
  wait := TimedWait.inv_enter h timeoutMs
  pending := fun _ => rfl
  truthful := by
    intro r hr
    have hn : r = .error ebadf := by
      cases hookEnabled with
      | false => cases hr
      | true =>
        cases ctx with
        | none => exact (ConnectPhase.returned.inj hr).symm
        | some c =>
          simp only [enter] at hr
          split at hr
          · exact (ConnectPhase.returned.inj hr).symm
          · split at hr <;> cases hr
    rw [hn]
    exact ⟨.inr rfl,(TimedWait.inv_enter h timeoutMs).disarmed rfl⟩

section Steps
variable {s : Connect κ}

theorem truthful_pending (h : ∀ r, s.phase ≠ .returned r) : s.Truthful := fun r hr => absurd hr (h r)

theorem truthful_error {errno : Int} (hw : s.wait.Inv) (hnone : s.wait.stage.timer = none) (hs : s.phase = .returned (.error errno)) :
    s.Truthful := by
  intro r hr
  cases hs.symm.trans hr
  exact ⟨.inr rfl,hw.disarmed hnone⟩

/-- What `connect_f` says is passed on. -/
theorem truthful_connect (hw : s.wait.Inv) (hnone : s.wait.stage.timer = none) {r : ConnectResult} (hs : s.phase = .returned r)
    (hc : s.connected = decide (r = .zero)) : s.Truthful := by
  cases r with
  | error errno => exact truthful_error hw hnone hs
  | zero =>
    intro r hr
    cases hs.symm.trans hr
    exact ⟨.inl ⟨rfl,.inl hc⟩,hw.disarmed hnone⟩

/-- A zero that `getsockopt` leads to is right exactly behind a wait that the event has ended. -/
theorem truthful_zero_iff (hw : s.wait.Inv) (hnone : s.wait.stage.timer = none) (hs : s.phase = .returned .zero)
    (hc : s.connected = false) (hzero : s.soError = some 0) : s.Truthful ↔ s.wait.stage = .ready .event := by
  constructor
  · intro h
    obtain ⟨⟨-,hcompleted⟩ | hn,-⟩ := h .zero hs
    · exact (hcompleted.resolve_left fun ht => Bool.false_ne_true (hc.symm.trans ht)).1
    · cases hn
  · intro hevent r hr
    cases hs.symm.trans hr
    exact ⟨.inl ⟨rfl,.inr ⟨hevent,hzero⟩⟩,hw.disarmed hnone⟩

/-- What is read behind the wait is taken for the connection's state, and tells it unless a zero is read too early. -/
theorem answer_truthful_iff (hw : s.wait.Inv) (hnone : s.wait.stage.timer = none) (hc : s.connected = false) (r : Except Int Int) :
    (s.answer r).Truthful ↔ (r = .ok 0 → s.wait.stage = .ready .event) := by
  cases r with
  | error errno => exact iff_of_true (truthful_error hw hnone rfl) fun he => by cases he
  | ok error =>
    by_cases hzero : error = 0
    · rw [hzero, forall_prop_of_true rfl]
      exact truthful_zero_iff hw hnone rfl hc rfl
    · have hphase : (s.answer (.ok error)).phase = .returned (.error error) := by rw [answer, if_neg hzero]
      exact iff_of_true (truthful_error hw hnone hphase) fun he => absurd (Except.ok.inj he) hzero

theorem getsockopt_truthful_iff (h : s.Inv) (r : Except Int Int) : (s.getsockopt r).Truthful ↔ ¬s.Misled (.getsockopt r) := by
  have hact : ConnectAct.getsockopt (κ := κ) r = .getsockopt (.ok 0) ↔ r = .ok 0 := by rw [ConnectAct.getsockopt.injEq]
  unfold getsockopt
  split
  · rename_i hphase hstage
    have hc := h.pending (by rw [hphase]; exact fun r hr => by cases hr)
    rw [answer_truthful_iff h.wait (by rw [hstage]; rfl) hc, Misled, hact, hphase, hstage]
    simp
  · rename_i source hphase hstage
    have hc := h.pending (by rw [hphase]; exact fun r hr => by cases hr)
    rw [answer_truthful_iff h.wait (by rw [hstage]; rfl) hc, Misled, hact, hphase, hstage]
    have hready := h.wait.ready
    rw [hstage] at hready
    cases source with
    | event => simp
    | callback => exact absurd rfl hready
    | other => simp
  · rename_i hother₁ hother₂
    refine iff_of_true h.truthful ?_
    rintro ⟨-,hphase,hstage | hstage⟩
    · exact hother₁ hphase hstage
    · exact hother₂ .other hphase hstage

theorem Inv.connect (h : s.Inv) (r : ConnectResult) : (s.connect r).Inv := by
  unfold Connect.connect
  split
  · exact h
  rename_i hidle
  have hnone : s.wait.stage.timer = none := by
    rw [not_not.mp hidle]
    rfl
  have hreturned : Inv { s with phase := .returned r, connected := decide (r = .zero) } :=
    ⟨h.wait,fun hp => absurd rfl (hp r),truthful_connect h.wait hnone rfl rfl⟩
  split
  · exact hreturned
  · rename_i hphase
    split
    · refine ⟨?_,fun _ => ?_,truthful_pending fun r hr => (by cases hr)⟩
      · exact h.wait.move_silent hnone.symm rfl
      · exact h.pending (by rw [hphase]; exact fun r hr => by cases hr)
    · exact hreturned
  · exact h

theorem Inv.finish (h : s.Inv) : s.finish.Inv := by
  unfold Connect.finish
  split
  · rename_i e hphase hstage
    refine ⟨h.wait,fun hp => absurd rfl (hp _),truthful_error h.wait ?_ rfl⟩
    rw [hstage]
    rfl
  · exact h

theorem Inv.getsockopt (h : s.Inv) {r : Except Int Int} (hr : ¬s.Misled (.getsockopt r)) : (s.getsockopt r).Inv := by
  refine ⟨?_,?_,(getsockopt_truthful_iff h r).mpr hr⟩
  · unfold Connect.getsockopt
    split
    · cases r <;> exact h.wait
    · cases r <;> exact h.wait
    · exact h.wait
  · unfold Connect.getsockopt
    split
    · cases r <;> exact fun hp => absurd rfl (hp _)
    · cases r <;> exact fun hp => absurd rfl (hp _)
    · exact h.pending

/-- Until the call returns, a step leads to a truthful state exactly if it is not misled, and goes wrong in no other way. -/
theorem act_spec (h : s.Inv) (hopen : ∀ r, s.phase ≠ .returned r) (a : ConnectAct κ) : ∃ s', act a s = .ok s' ∧
    (s'.Truthful ↔ ¬s.Misled a) ∧ (¬s.Misled a → s'.Inv) := by
  have hplain : ∀ {s' : Connect κ}, (∀ r, a ≠ .getsockopt r) → s'.Inv → (s'.Truthful ↔ ¬s.Misled a) ∧ (¬s.Misled a → s'.Inv) :=
    fun ha h' => ⟨iff_of_true h'.truthful fun hm => ha _ hm.1,fun _ => h'⟩
  cases a with
  | connect r => exact ⟨_,rfl,hplain (fun _ he => by cases he) (h.connect r)⟩
  | finish => exact ⟨_,rfl,hplain (fun _ he => by cases he) h.finish⟩
  | getsockopt r => exact ⟨_,rfl,getsockopt_truthful_iff h r,h.getsockopt⟩
  | wait a =>
    obtain ⟨wait,he,hw⟩ := TimedWait.act_inv h.wait a
    rw [act, he]
    exact ⟨_,rfl,hplain (fun _ he => by cases he) ⟨hw,fun _ => h.pending hopen,truthful_pending hopen⟩⟩

theorem step_spec (h : s.Inv) (a : ConnectAct κ) : ∃ s', step a s = .ok ((),s') ∧ (s'.Truthful ↔ ¬s.Misled a) ∧
    (¬s.Misled a → s'.Inv) := by
  unfold step
  split
  · rename_i r hphase
    refine ⟨s,rfl,iff_of_true h.truthful fun hm => ?_,fun _ => h⟩
    cases hphase.symm.trans hm.2.1
  · rename_i hopen
    obtain ⟨s',he,h'⟩ := act_spec h hopen a
    rw [he]
    exact ⟨s',rfl,h'⟩

/-- A step that is misled ends the call, so that every run completes. -/
theorem step_completes (h : s.Inv ∨ ∃ r, s.phase = .returned r) (a : ConnectAct κ) :
    ∃ s', step a s = .ok ((),s') ∧ (s'.Inv ∨ ∃ r, s'.phase = .returned r) := by
  rcases h with h | ⟨r,hphase⟩
  · obtain ⟨s',he,htruthful,hkeeps⟩ := step_spec h a
    refine ⟨s',he,?_⟩
    by_cases hm : s.Misled a
    · refine .inr ?_
      by_contra hopen
      exact htruthful.mp (truthful_pending fun r hr => hopen ⟨r,hr⟩) hm
    · exact .inl (hkeeps hm)
  · refine ⟨s,?_,.inr ⟨r,hphase⟩⟩
    rw [step, hphase]

end Steps

end Connect
end Radixun.Common.Hook
