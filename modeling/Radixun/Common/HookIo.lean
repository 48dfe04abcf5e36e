import Radixun.Common.FdCtx
import Radixun.Common.TimedWait

/-! `do_io`: a hooked call that does not block waits for its descriptor and is made again. -/
namespace Radixun.Common

/-- A context as `FdManager::get` makes it and as the hooks change it. -/
inductive FdCtx.Managed : FdCtx → Prop where
  | new (fd : Int32) (stat : Option Bool) : Managed (.new fd stat)
  | setUserNonblock {c : FdCtx} (h : Managed c) (v : Bool) : Managed (c.setUserNonblock v)
  | setTimeout {c : FdCtx} (h : Managed c) (type : TimeoutType) (v : UInt64) : Managed (c.setTimeout type v)

/-- Nothing sets `m_isClosed`. -/
theorem FdCtx.Managed.open {c : FdCtx} (h : c.Managed) : c.isClosed = false := by
  induction h with
  | new fd stat => rfl
  | setUserNonblock h v ih => exact ih
  | setTimeout h type v ih =>
    unfold FdCtx.setTimeout
    split <;> exact ih

namespace Hook
open Foundation.CommandRuns
open Timers (Call Ledger)

/-- `EINTR`, `EAGAIN` and `EBADF`. -/
def eintr : Int := 4
def eagain : Int := 11
def ebadf : Int := 9

/-- What a call returns, and `errno` behind it. -/
structure CallResult where
  n : Int
  errno : Int
  deriving DecidableEq

/-- The call is to be made again, at once or behind a wait. -/
def CallResult.Again (r : CallResult) : Prop := r.n = -1 ∧ (r.errno = eintr ∨ r.errno = eagain)

inductive IoPhase where
  | direct
  | running
  | returned (r : CallResult)
  deriving DecidableEq

/-- A call of `do_io`. `results` are those of the underlying call, the last one first. -/
structure Io (κ : Type) where
  phase : IoPhase
  wait : TimedWait κ
  results : List CallResult

/-- The underlying call is made, the wait takes a step, or its end is acted on. -/
inductive IoAct (κ : Type) where
  | call (r : CallResult)
  | wait (a : WaitAct κ)
  | finish (errno : Int)

namespace Io
variable {κ : Type}

/-- `do_io` up to the label `retry`. -/
def enter (hookEnabled : Bool) (ctx : Option FdCtx) (timeoutSo : TimeoutType) (timers : Ledger κ) : Io κ :=
  match hookEnabled,ctx with
  | false,_ | true,none => ⟨.direct,.enter timers (-1),[]⟩
  | true,some c =>
    ⟨if c.isClosed then .returned ⟨-1,ebadf⟩ else if !c.isSocket || c.userNonblock then .direct else .running,
      .enter timers (c.getTimeout timeoutSo),[]⟩

/-- The underlying call, unless the fiber waits. -/
def call (s : Io κ) (r : CallResult) : Io κ :=
  if s.wait.stage ≠ .idle then s
  else
    match s.phase with
    | .direct => { s with phase := .returned r, results := r :: s.results }
    | .running =>
      if r.n = -1 ∧ r.errno = eintr then { s with results := r :: s.results }
      else if r.n = -1 ∧ r.errno = eagain then { s with wait.stage := .arming, results := r :: s.results }
      else { s with phase := .returned r, results := r :: s.results }
    | .returned _ => s

/-- The end of a wait. `errno` is what a failed `addEvent` leaves. -/
def finish (s : Io κ) (errno : Int) : Io κ :=
  match s.wait.stage with
  | .failed => { s with phase := .returned ⟨-1,errno⟩ }
  | .timedOut e => { s with phase := .returned ⟨-1,e⟩ }
  | .ready _ => { s with wait.stage := .idle }
  | _ => s

/-- A step, until the call has returned. -/
def step (a : IoAct κ) (s : Io κ) : Except Timers.Fault (Unit × Io κ) :=
  match s.phase,a with
  | .returned _,_ => .ok ((),s)
  | _,.call r => .ok ((),s.call r)
  | _,.wait a => (TimedWait.act a s.wait).map fun wait => ((),{ s with wait := wait })
  | _,.finish errno => .ok ((),s.finish errno)

/-- What a call that blocks would return, or why it is cut short. -/
inductive Emulates (s : Io κ) (r : CallResult) : Prop where
  | result (earlier : List CallResult) (hresults : s.results = r :: earlier) (hr : ¬r.Again) (hagain : ∀ x ∈ earlier, x.Again)
  | unregistered (hn : r.n = -1) (hfailed : s.wait.stage = .failed)
  | timedOut (hr : r = ⟨-1,etimedout⟩) (hstage : s.wait.stage = .timedOut etimedout)
      (hfired : ∃ i ∈ s.wait.mine, i ∈ s.wait.fired)

/-- What holds of a call of `do_io` on a socket that is to block. -/
structure Inv (s : Io κ) : Prop where
  wait : s.wait.Inv
  hooked : s.phase ≠ .direct
  again : s.phase = .running → ∀ x ∈ s.results, x.Again
  returned : ∀ r, s.phase = .returned r → s.Emulates r ∧ s.wait.stage.timer = none

section Steps
variable {wait : TimedWait κ} {results : List CallResult} {r : CallResult}

theorem inv_running (hw : wait.Inv) (ha : ∀ x ∈ results, x.Again) : Inv ⟨.running,wait,results⟩ where
  wait := hw
  hooked := fun he => (by cases he)
  again := fun _ => ha
  returned := fun r he => (by cases he)

theorem inv_returned (hw : wait.Inv) (he : Emulates ⟨.returned r,wait,results⟩ r) (hnone : wait.stage.timer = none) :
    Inv ⟨.returned r,wait,results⟩ where
  wait := hw
  hooked := fun he => (by cases he)
  again := fun he => (by cases he)
  returned := fun r' hr => by
    cases hr
    exact ⟨he,hnone⟩

theorem inv_enter {timers : Ledger κ} (h : timers.Good) {c : FdCtx} (hc : c.Managed) (hsocket : c.isSocket = true)
    (huser : c.userNonblock = false) (type : TimeoutType) : (enter true (some c) type timers).Inv := by
  simp only [enter, hc.open, hsocket, huser, Bool.not_true, Bool.or_false, Bool.false_eq_true, if_false]
  exact inv_running (TimedWait.inv_enter h _) fun x hx => by cases hx

/-- The underlying call ends the call, or is one of those that are made again. -/
theorem call_inv (hw : wait.Inv) (ha : ∀ x ∈ results, x.Again) (r : CallResult) : (call ⟨.running,wait,results⟩ r).Inv := by
  unfold call
  split
  · exact inv_running hw ha
  rename_i hidle
  have hnone : wait.stage.timer = none := by
    rw [not_not.mp hidle]
    rfl
  have hagain : r.Again → ∀ x ∈ r :: results, x.Again := fun hr => List.forall_mem_cons.mpr ⟨hr,ha⟩
  dsimp only
  split
  · rename_i hintr
    exact inv_running hw (hagain ⟨hintr.1,.inl hintr.2⟩)
  split
  · rename_i hintr hblock
    exact inv_running (hw.move_silent hnone.symm rfl) (hagain ⟨hblock.1,.inr hblock.2⟩)
  · rename_i hintr hblock
    have hlast : ¬r.Again := fun hr => hr.2.elim (fun he => hintr ⟨hr.1,he⟩) fun he => hblock ⟨hr.1,he⟩
    exact inv_returned hw (.result results rfl hlast ha) hnone

/-- A wait that fails or times out ends the call. -/
theorem finish_inv (hw : wait.Inv) (ha : ∀ x ∈ results, x.Again) (errno : Int) : (finish ⟨.running,wait,results⟩ errno).Inv := by
  unfold finish
  split
  · rename_i hstage
    refine inv_returned hw (.unregistered rfl hstage) ?_
    rw [hstage]
    rfl
  · rename_i e hstage
    obtain ⟨rfl,hfired⟩ := hw.timedOut e hstage
    refine inv_returned hw (.timedOut rfl hstage hfired) ?_
    rw [hstage]
    rfl
  · rename_i source hstage
    exact inv_running (hw.move_silent (by rw [hstage]; rfl) rfl) ha
  · exact inv_running hw ha

end Steps

theorem step_inv {s : Io κ} (h : s.Inv) (a : IoAct κ) : ∃ s', step a s = .ok ((),s') ∧ s'.Inv := by
  obtain ⟨phase,wait,results⟩ := s
  cases phase with
  | direct => exact absurd rfl h.hooked
  | returned r => exact ⟨_,rfl,h⟩
  | running =>
    have ha := h.again rfl
    cases a with
    | call r => exact ⟨_,rfl,call_inv h.wait ha r⟩
    | finish errno => exact ⟨_,rfl,finish_inv h.wait ha errno⟩
    | wait a =>
      obtain ⟨wait',he,hw⟩ := TimedWait.act_inv h.wait a
      simp only [step, he]
      exact ⟨_,rfl,inv_running hw ha⟩

end Io
end Hook
end Radixun.Common
