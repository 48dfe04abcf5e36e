import Mathlib.Data.Fintype.EquivFin
import Radixun.Common.HookIo
import Radixun.Foundation.Inevitability

/-! A hooked call returns: each of its own steps brings it on, and what others do in between does not throw it back. -/
namespace Radixun.Common.Hook
open Foundation CommandRuns
open Timers (Call Ledger)

namespace Stage

/-- The next stage, by the value of the flag. -/
inductive Next (flag : Int) : Stage → Stage → Prop
  | armed {timer : Option (Nat × Nat)} : Next flag .arming (.adding timer)
  | registered {timer : Option (Nat × Nat)} : Next flag (.adding timer) (.waiting timer none)
  | refused {timer : Option (Nat × Nat)} : Next flag (.adding timer) (.failing timer)
  | failed {timer : Option (Nat × Nat)} : Next flag (.failing timer) .failed
  | triggered {timer : Option (Nat × Nat)} {source : WakeSource} : Next flag (.waiting timer none) (.waiting timer (some source))
  | resumed {timer : Option (Nat × Nat)} {source : WakeSource} : Next flag (.waiting timer (some source)) (.woken timer source)
  | disarmed {timer : Option (Nat × Nat)} {source : WakeSource} : Next flag (.woken timer source) (.checking source)
  | timedOut {source : WakeSource} (h : flag ≠ 0) : Next flag (.checking source) (.timedOut flag)
  | ready {source : WakeSource} (h : flag = 0) : Next flag (.checking source) (.ready source)

/-- The steps that are left up to the next attempt or the return. -/
def left : Stage → Nat
  | .idle => 0
  | .failed | .timedOut _ | .ready _ => 1
  | .failing _ | .checking _ => 2
  | .woken .. => 3
  | .waiting _ (some _) => 4
  | .waiting _ none => 5
  | .adding _ => 6
  | .arming => 7

/-- The wait is over. -/
def ended : Stage → Bool
  | .failed | .timedOut _ | .ready _ => true
  | _ => false

theorem Next.left_lt {flag : Int} {stage stage' : Stage} (h : Next flag stage stage') : stage'.left < stage.left := by
  cases h <;> simp [left]

end Stage

namespace TimedWait
variable {κ : Type} {s s' : TimedWait κ} {a : WaitAct κ}

/-- The step is the wait's own, or that of its callback which finds the event registered. -/
def Due : WaitAct κ → TimedWait κ → Prop
  | .arm p _ _, s => s.stage = .arming ∧ (s.timeout ≠ -1 → p ∉ s.timers.manager.made)
  | .addEvent _, s => ∃ timer, s.stage = .adding timer
  | .resume, s => ∃ timer source, s.stage = .waiting timer (some source)
  | .cancelTimer, s => (∃ timer, s.stage = .failing timer) ∨ ∃ timer source, s.stage = .woken timer source
  | .check, s => ∃ source, s.stage = .checking source
  | .cancelEvent found, s => found = true ∧ s.cancelling ≠ 0 ∧ ∃ timer, s.stage = .waiting timer none
  | _, _ => False

/-- The step is somebody else's. While the fiber waits for the event it is registered, so that `cancelEvent` finds it. -/
def Foreign (a : WaitAct κ) (s : TimedWait κ) : Prop :=
  ¬ Due a s ∧ (a = .cancelEvent false → ∀ timer, s.stage ≠ .waiting timer none)

/-- What others do to a wait: nothing, or they wake it. The flag stays set, and a callback that is to cancel the event of a
fiber that waits stays so. -/
structure Undisturbed (s s' : TimedWait κ) : Prop where
  stage : s'.stage = s.stage ∨ ∃ timer source, s.stage = .waiting timer none ∧ s'.stage = .waiting timer (some source)
  flag : s.cancelled ≠ 0 → s'.cancelled ≠ 0
  cancelling : ∀ timer, s'.stage = .waiting timer none → s.cancelling ≠ 0 → s'.cancelling ≠ 0

theorem Undisturbed.left_le (h : Undisturbed s s') : s'.stage.left ≤ s.stage.left := by
  rcases h.stage with hs | ⟨timer,source,hs,hs'⟩
  · rw [hs]
  · rw [hs, hs']
    exact Nat.le_succ 4

theorem Undisturbed.refl (s : TimedWait κ) : Undisturbed s s := ⟨.inl rfl,id,fun _ _ => id⟩

theorem trigger_undisturbed (s : TimedWait κ) (source : WakeSource) : Undisturbed s (s.trigger source) := by
  unfold trigger
  split
  · rename_i timer hs
    exact ⟨.inr ⟨timer,source,hs,rfl⟩,id,fun _ _ => id⟩
  · exact .refl s

theorem trigger_elsewhere (s : TimedWait κ) {source : WakeSource} (h : ∀ timer, s.stage ≠ .waiting timer none) : s.trigger source = s := by
  unfold trigger
  split
  · rename_i timer hs
    exact absurd hs (h timer)
  · rfl

theorem arm_undisturbed {p now : Nat} {cb : κ} (h : ¬ Due (.arm p now cb) s) (he : s.arm p now cb = .ok s') : Undisturbed s s' := by
  unfold arm at he
  split at he
  · cases he
    exact .refl s
  rename_i hstage
  have hmade : ¬ (s.timeout ≠ -1 → p ∉ s.timers.manager.made) := fun hfree => h ⟨not_not.mp hstage,hfree⟩
  rw [Classical.not_imp, not_not] at hmade
  rw [if_neg hmade.1] at he
  have himpossible : Ledger.step (.addTimer p now s.timeout.toNat (some cb) false) s.timers = .ok (.nothing,s.timers) :=
    if_neg (by simp [Ledger.possible, hmade.2])
  rw [himpossible] at he
  cases he
  exact .refl s

theorem cancelEvent_undisturbed {found : Bool} (h : Foreign (.cancelEvent found) s) : Undisturbed s (s.cancelEvent found) := by
  unfold cancelEvent
  split
  · exact .refl s
  rename_i hcount
  have helsewhere : ∀ timer, s.stage ≠ .waiting timer none := by
    cases found with
    | false => exact h.2 rfl
    | true => exact fun timer hs => h.1 ⟨rfl,hcount,timer,hs⟩
  have hless : Undisturbed s { s with cancelling := s.cancelling - 1 } :=
    ⟨.inl rfl,id,fun timer hs => absurd hs (helsewhere timer)⟩
  dsimp only
  split
  · rwa [trigger_elsewhere { s with cancelling := s.cancelling - 1 } helsewhere]
  · exact hless

theorem act_undisturbed (h : Foreign a s) (he : act a s = .ok s') : Undisturbed s s' := by
  cases a with
  | arm p now cb => exact arm_undisturbed h.1 he
  | addEvent ok =>
    cases he
    unfold addEvent
    split
    · rename_i timer hs
      exact absurd ⟨timer,hs⟩ h.1
    · exact .refl s
  | resume =>
    cases he
    unfold resume
    split
    · rename_i timer source hs
      exact absurd ⟨timer,source,hs⟩ h.1
    · exact .refl s
  | cancelTimer =>
    rw [act, cancelTimer] at he
    split at he
    · rename_i timer hs
      exact absurd (.inl ⟨timer,hs⟩) h.1
    · rename_i timer source hs
      exact absurd (.inr ⟨timer,source,hs⟩) h.1
    · cases he
      exact .refl s
  | check =>
    cases he
    unfold check
    split
    · rename_i source hs
      exact absurd ⟨source,hs⟩ h.1
    · exact .refl s
  | call c =>
    rw [act, call] at he
    split at he
    · obtain ⟨r,-,rfl⟩ := map_ok he
      exact ⟨.inl rfl,id,fun _ _ => id⟩
    · cases he
      exact .refl s
  | callback i =>
    cases he
    unfold callback
    split
    · exact ⟨.inl rfl,id,fun _ _ => id⟩
    · exact .refl s
  | setCancelled i =>
    cases he
    unfold setCancelled
    split
    · exact ⟨.inl rfl,fun _ => (by decide : etimedout ≠ 0),fun _ _ _ => Nat.succ_ne_zero _⟩
    · exact .refl s
  | cancelEvent found =>
    cases he
    exact cancelEvent_undisturbed h
  | event =>
    cases he
    exact trigger_undisturbed s .event
  | otherCancel =>
    cases he
    exact trigger_undisturbed s .other

/-- What the wait's own steps do to it. -/
structure Advances (s s' : TimedWait κ) : Prop where
  stage : Stage.Next s.cancelled s.stage s'.stage
  flag : s'.cancelled = s.cancelled

theorem disarm_advances {timer : Option (Nat × Nat)} {stage : Stage} (h : Stage.Next s.cancelled s.stage stage)
    (he : s.disarm timer stage = .ok s') : Advances s s' := by
  unfold disarm at he
  split at he
  · cases he
    exact ⟨h,rfl⟩
  · obtain ⟨r,-,rfl⟩ := map_ok he
    exact ⟨h,rfl⟩

theorem arm_advances {p now : Nat} {cb : κ} (h : Due (.arm p now cb) s) (he : s.arm p now cb = .ok s') : Advances s s' := by
  obtain ⟨hs,hfree⟩ := h
  rw [arm, if_neg (not_not.mpr hs)] at he
  split at he
  · cases he
    refine ⟨?_,rfl⟩
    rw [hs]
    exact .armed
  · rename_i htimeout
    have hmakes : Ledger.step (.addTimer p now s.timeout.toNat (some cb) false) s.timers =
        s.timers.act (.addTimer p now s.timeout.toNat (some cb) false) := if_pos (decide_eq_true (hfree htimeout))
    rw [hmakes, Ledger.act] at he
    cases he
    refine ⟨?_,rfl⟩
    rw [hs]
    exact .armed

theorem act_advances (h : Due a s) (he : act a s = .ok s') : Advances s s' := by
  cases a with
  | arm p now cb => exact arm_advances h he
  | addEvent ok =>
    obtain ⟨timer,hs⟩ := h
    cases he
    simp only [addEvent, hs]
    refine ⟨?_,rfl⟩
    rw [hs]
    cases ok with
    | true => exact .registered
    | false => exact .refused
  | resume =>
    obtain ⟨timer,source,hs⟩ := h
    cases he
    simp only [resume, hs]
    refine ⟨?_,rfl⟩
    rw [hs]
    exact .resumed
  | cancelTimer =>
    rcases h with ⟨timer,hs⟩ | ⟨timer,source,hs⟩
    · simp only [act, cancelTimer, hs] at he
      exact disarm_advances (hs ▸ .failed) he
    · simp only [act, cancelTimer, hs] at he
      exact disarm_advances (hs ▸ .disarmed) he
  | check =>
    obtain ⟨source,hs⟩ := h
    cases he
    simp only [check, hs]
    refine ⟨?_,rfl⟩
    rw [hs]
    dsimp only
    split
    · rename_i hset
      exact .timedOut hset
    · rename_i hclear
      exact .ready (not_not.mp hclear)
  | cancelEvent found =>
    obtain ⟨rfl,hcount,timer,hs⟩ := h
    cases he
    rw [cancelEvent, if_neg hcount]
    simp only [trigger, hs, if_true]
    refine ⟨?_,rfl⟩
    rw [hs]
    exact .triggered
  | _ => exact h.elim

/-- A wait that has begun and is not over goes on, unless nothing has woken it. -/
theorem exists_due (hidle : s.stage ≠ .idle) (hended : s.stage.ended = false)
    (hwait : ∀ timer, s.stage = .waiting timer none → s.cancelling ≠ 0)
    [Inhabited κ] : ∃ a, Due a s := by
  cases hs : s.stage with
  | idle => exact absurd hs hidle
  | arming =>
    obtain ⟨p,hp⟩ := Infinite.exists_notMem_finset s.timers.manager.made.toFinset
    exact ⟨.arm p 0 default,hs,fun _ hmem => hp (List.mem_toFinset.mpr hmem)⟩
  | adding timer => exact ⟨.addEvent true,timer,hs⟩
  | failing timer => exact ⟨.cancelTimer,.inl ⟨timer,hs⟩⟩
  | waiting timer wake =>
    cases wake with
    | none => exact ⟨.cancelEvent true,rfl,hwait timer hs,timer,hs⟩
    | some source => exact ⟨.resume,timer,source,hs⟩
  | woken timer source => exact ⟨.cancelTimer,.inr ⟨timer,source,hs⟩⟩
  | checking source => exact ⟨.check,source,hs⟩
  | failed =>
    rw [hs] at hended
    cases hended
  | timedOut e =>
    rw [hs] at hended
    cases hended
  | ready source =>
    rw [hs] at hended
    cases hended

end TimedWait

namespace Io
variable {κ : Type} {s s' : Io κ} {a : IoAct κ}

/-- The step is the call's own, or that of its callback which finds the event registered. -/
def Due (a : IoAct κ) (s : Io κ) : Prop :=
  s.phase = .running ∧ match a with
    | .call _ => s.wait.stage = .idle
    | .wait a => TimedWait.Due a s.wait
    | .finish _ => s.wait.stage.ended = true

/-- The step is somebody else's. -/
def Foreign (a : IoAct κ) (s : Io κ) : Prop :=
  ¬ Due a s ∧ (a = .wait (.cancelEvent false) → ∀ timer, s.wait.stage ≠ .waiting timer none)

/-- The call takes a step, behind any number of steps of others. -/
abbrev Moves : Io κ → Io κ → Prop := Turn Due Foreign step

/-- The call has returned. -/
def Returned (s : Io κ) : Prop := ∃ r, s.phase = .returned r

/-- The underlying call is to be made, or the fiber waits to be woken. -/
def Pauses (s : Io κ) : Prop := s.wait.stage = .idle ∨ ∃ timer, s.wait.stage = .waiting timer none

/-- How a call that has not returned goes on. A final result of the underlying call is returned, and any other one lets
the call go on; between an attempt and the next one, or the return, nothing but the wait for the event holds the fiber up;
and a failed `addEvent` and a callback that has set the flag make it return. -/
structure Proceeds (s : Io κ) : Prop where
  call : s.wait.stage = .idle → ∀ r, ∃ s', step (.call r) s = .ok ((),s') ∧ (r.Again ∧ s'.phase = .running ∨ s'.phase = .returned r)
  goesOn : Inevitable Moves (fun t => t.Returned ∨ t.Pauses) s
  refused : ∀ timer, s.wait.stage = .adding timer → ∃ s', step (.wait (.addEvent false)) s = .ok ((),s') ∧
    Inevitable Moves (fun t => ∃ errno, t.phase = .returned ⟨-1,errno⟩) s'
  begins : ∀ i ∈ s.wait.handed, i ∈ s.wait.mine → s.wait.cancelled = 0 →
    ∃ s', step (.wait (.callback i)) s = .ok ((),s') ∧ i ∈ s'.wait.begun ∧ s'.wait.stage = s.wait.stage
  fires : ∀ i ∈ s.wait.begun, (∃ timer wake, s.wait.stage = .waiting timer wake) →
    ∃ s', step (.wait (.setCancelled i)) s = .ok ((),s') ∧ Inevitable Moves (fun t => t.phase = .returned ⟨-1,etimedout⟩) s'

theorem step_wait {a : WaitAct κ} (hrun : s.phase = .running) : step (.wait a) s =
    (TimedWait.act a s.wait).map fun wait => ((),{ s with wait := wait }) := by
  simp only [step, hrun]

theorem step_undisturbed (hrun : s.phase = .running) (h : Foreign a s) (he : step a s = .ok ((),s')) :
    s'.phase = .running ∧ s.wait.Undisturbed s'.wait := by
  cases a with
  | call r =>
    simp only [step, hrun] at he
    cases he
    rw [call, if_pos fun hidle => h.1 ⟨hrun,hidle⟩]
    exact ⟨hrun,.refl _⟩
  | wait a =>
    rw [step_wait hrun] at he
    obtain ⟨wait,hact,heq⟩ := map_ok he
    cases heq
    refine ⟨hrun,TimedWait.act_undisturbed ⟨fun hdue => h.1 ⟨hrun,hdue⟩,?_⟩ hact⟩
    rintro rfl
    exact h.2 rfl
  | finish errno =>
    simp only [step, hrun] at he
    cases he
    have hended : ¬ s.wait.stage.ended = true := fun hended => h.1 ⟨hrun,hended⟩
    have hsame : s.finish errno = s := by
      unfold finish
      split
      · rename_i hs
        exact absurd (by rw [hs]; rfl) hended
      · rename_i e hs
        exact absurd (by rw [hs]; rfl) hended
      · rename_i source hs
        exact absurd (by rw [hs]; rfl) hended
      · rfl
    rw [hsame]
    exact ⟨hrun,.refl _⟩

/-- A part of the call that is no attempt: it is left by its own steps only, and ends where `P` holds. -/
structure Part (X : TimedWait κ → Prop) (P : Io κ → Prop) : Prop where
  busy : ∀ w, X w → w.stage ≠ .idle
  awake : ∀ w, X w → ∀ timer, w.stage = .waiting timer none → w.cancelling ≠ 0
  kept : ∀ w w', X w → w.Undisturbed w' → X w'
  advance : ∀ w w' results, X w → w.Advances w' → P ⟨.running,w',results⟩ ∨ X w'
  finish : ∀ (s : Io κ) errno, s.Inv → s.phase = .running → X s.wait → s.wait.stage.ended = true → P (s.finish errno)

theorem Part.inevitable [Inhabited κ] {X : TimedWait κ → Prop} {P : Io κ → Prop} (hpart : Part X P) (h : s.Inv) (hrun : s.phase = .running)
    (hx : X s.wait) : Inevitable Moves P s := by
  refine Inevitable.of_turns (fun s => s.wait.stage.left) (I := fun s => s.Inv ∧ s.phase = .running ∧ X s.wait) ?_ ?_ ?_ ⟨h,hrun,hx⟩
  · rintro a s ⟨⟩ s' ⟨h,hrun,hx⟩ hforeign he
    obtain ⟨s₁,he₁,h'⟩ := step_inv h a
    rw [he] at he₁
    cases he₁
    obtain ⟨hrun',hun⟩ := step_undisturbed hrun hforeign he
    exact ⟨⟨h',hrun',hpart.kept _ _ hx hun⟩,hun.left_le⟩
  · rintro s ⟨h,hrun,hx⟩
    cases hended : s.wait.stage.ended with
    | true =>
      obtain ⟨s',he,-⟩ := step_inv h (.finish 0)
      exact ⟨.finish 0,(),s',⟨hrun,hended⟩,he⟩
    | false =>
      obtain ⟨a,hdue⟩ := TimedWait.exists_due (hpart.busy _ hx) hended (hpart.awake _ hx)
      obtain ⟨s',he,-⟩ := step_inv h (.wait a)
      exact ⟨.wait a,(),s',⟨hrun,hdue⟩,he⟩
  · rintro a s ⟨⟩ s' ⟨h,hrun,hx⟩ hdue he
    obtain ⟨s₁,he₁,h'⟩ := step_inv h a
    rw [he] at he₁
    cases he₁
    cases a with
    | call r => exact absurd hdue.2 (hpart.busy _ hx)
    | wait a =>
      rw [step_wait hrun] at he
      obtain ⟨wait,hact,heq⟩ := map_ok he
      cases heq
      have hadvance := TimedWait.act_advances hdue.2 hact
      rcases hpart.advance _ _ s.results hx hadvance with hp | hx'
      · left
        rw [hrun]
        exact hp
      · exact .inr ⟨⟨h',hrun,hx'⟩,hadvance.stage.left_lt⟩
    | finish errno =>
      simp only [step, hrun] at he
      cases he
      exact .inl (hpart.finish s errno h hrun hx hdue.2)

/-- From any step between an attempt and the next one, the call comes to the next one or returns, or waits to be woken. -/
theorem part_on : Part (fun w : TimedWait κ => w.stage ≠ .idle ∧ ∀ timer, w.stage ≠ .waiting timer none)
    (fun t => t.Returned ∨ t.Pauses) where
  busy := fun w hx => hx.1
  awake := fun w hx timer hs => absurd hs (hx.2 timer)
  kept := by
    intro w w' hx hun
    rcases hun.stage with hs | ⟨timer,source,hs,-⟩
    · rwa [hs]
    · exact absurd hs (hx.2 timer)
  advance := by
    intro w w' results hx hadvance
    by_cases hwait : ∃ timer, w'.stage = .waiting timer none
    · exact .inl (.inr (.inr hwait))
    · refine .inr ⟨?_,fun timer hs => hwait ⟨timer,hs⟩⟩
      intro hidle
      have hnext := hadvance.stage
      rw [hidle] at hnext
      generalize w.stage = stage at hnext
      cases hnext
  finish := by
    intro s errno _ _ _ hended
    unfold finish
    split
    · exact .inl ⟨_,rfl⟩
    · exact .inl ⟨_,rfl⟩
    · exact .inr (.inl rfl)
    · rename_i hfailed htimed hready
      cases hs : s.wait.stage with
      | failed => exact absurd hs hfailed
      | timedOut e => exact absurd hs (htimed e)
      | ready source => exact absurd hs (hready source)
      | _ =>
        rw [hs] at hended
        cases hended

/-- Behind a failed `addEvent` the call returns -1. -/
theorem part_refused : Part (fun w : TimedWait κ => (∃ timer, w.stage = .failing timer) ∨ w.stage = .failed)
    (fun t => ∃ errno, t.phase = .returned ⟨-1,errno⟩) where
  busy := by
    rintro w (⟨timer,hs⟩ | hs) hidle
    · rw [hs] at hidle
      cases hidle
    · rw [hs] at hidle
      cases hidle
  awake := by
    rintro w (⟨timer,hs⟩ | hs) timer' hwait
    · rw [hs] at hwait
      cases hwait
    · rw [hs] at hwait
      cases hwait
  kept := by
    intro w w' hx hun
    rcases hun.stage with hs | ⟨timer,source,hs,-⟩
    · rwa [hs]
    · rw [hs] at hx
      rcases hx with ⟨timer',hx⟩ | hx <;> cases hx
  advance := by
    rintro w w' results hx hadvance
    have hnext := hadvance.stage
    rcases hx with ⟨timer,hs⟩ | hs
    · rw [hs] at hnext
      generalize w'.stage = stage at hnext ⊢
      cases hnext
      exact .inr (.inr rfl)
    · rw [hs] at hnext
      cases hnext
  finish := by
    rintro s errno - - (⟨timer,hs⟩ | hs) hended
    · rw [hs] at hended
      cases hended
    · exact ⟨errno,by simp only [finish, hs]⟩

/-- The flag is set and the wait has not looked at it; a fiber that waits is about to be woken by the callback. -/
def Expires (w : TimedWait κ) : Prop :=
  w.cancelled ≠ 0 ∧ match w.stage with
    | .waiting _ none => w.cancelling ≠ 0
    | .waiting _ (some _) | .woken .. | .checking _ | .timedOut _ => True
    | _ => False

/-- Behind a callback that has set the flag the call times out. -/
theorem part_expires : Part (Expires : TimedWait κ → Prop) (fun t => t.phase = .returned ⟨-1,etimedout⟩) where
  busy := by
    intro w hx hidle
    have hstage := hx.2
    rw [hidle] at hstage
    exact hstage
  awake := by
    intro w hx timer hwait
    have hstage := hx.2
    rw [hwait] at hstage
    exact hstage
  kept := by
    intro w w' hx hun
    refine ⟨hun.flag hx.1,?_⟩
    have hstage := hx.2
    rcases hun.stage with hs | ⟨timer,source,-,hs⟩
    · cases hw : w'.stage with
      | waiting timer wake =>
        cases wake with
        | none =>
          rw [← hs, hw] at hstage
          exact hun.cancelling timer hw hstage
        | some source => trivial
      | _ =>
        rw [← hs, hw] at hstage
        exact hstage
    · rw [hs]
      trivial
  advance := by
    intro w w' results hx hadvance
    right
    refine ⟨?_,?_⟩
    · rw [hadvance.flag]
      exact hx.1
    have hstage := hx.2
    have hnext := hadvance.stage
    generalize w.stage = stage at hnext hstage
    generalize w'.stage = stage' at hnext
    cases hnext with
    | triggered => trivial
    | resumed => trivial
    | disarmed => trivial
    | timedOut => trivial
    | ready hclear => exact absurd hclear hx.1
    | _ => exact hstage.elim
  finish := by
    intro s errno h _ hx hended
    have hstage := hx.2
    cases hs : s.wait.stage with
    | timedOut e =>
      obtain ⟨rfl,-⟩ := h.wait.timedOut e hs
      simp only [finish, hs]
    | failed =>
      rw [hs] at hstage
      exact hstage.elim
    | ready source =>
      rw [hs] at hstage
      exact hstage.elim
    | _ =>
      rw [hs] at hended
      cases hended

/-- In every state it can come to, a call that has not returned goes on. -/
theorem Inv.proceeds [Inhabited κ] (h : s.Inv) (hrun : s.phase = .running) : s.Proceeds where
  call := by
    intro hidle r
    refine ⟨s.call r,by simp only [step, hrun],?_⟩
    by_cases hagain : r.Again
    · left
      refine ⟨hagain,?_⟩
      simp only [Io.call, hidle, hrun, ne_eq, not_true_eq_false, if_false]
      split
      · rfl
      rename_i hintr
      have hblock : r.errno = eagain := hagain.2.resolve_left fun he => hintr ⟨hagain.1,he⟩
      rw [if_pos ⟨hagain.1,hblock⟩]
    · right
      have hintr : ¬ (r.n = -1 ∧ r.errno = eintr) := fun he => hagain ⟨he.1,.inl he.2⟩
      have hblock : ¬ (r.n = -1 ∧ r.errno = eagain) := fun he => hagain ⟨he.1,.inr he.2⟩
      simp only [Io.call, hidle, hrun, if_neg hintr, if_neg hblock, ne_eq, not_true_eq_false, if_false]
  goesOn := by
    by_cases hidle : s.wait.stage = .idle
    · exact .now (.inr (.inl hidle))
    by_cases hwait : ∃ timer, s.wait.stage = .waiting timer none
    · exact .now (.inr (.inr hwait))
    · exact part_on.inevitable h hrun ⟨hidle,fun timer hs => hwait ⟨timer,hs⟩⟩
  refused := by
    intro timer hs
    obtain ⟨s',he,h'⟩ := step_inv h (.wait (.addEvent false))
    refine ⟨s',he,?_⟩
    rw [step_wait hrun] at he
    cases he
    refine part_refused.inevitable h' hrun (.inl ⟨timer,?_⟩)
    simp only [TimedWait.addEvent, hs, Bool.false_eq_true, if_false]
  begins := by
    intro i hi hmine hclear
    refine ⟨_,step_wait hrun,?_⟩
    simp only [TimedWait.callback, if_pos hi, if_pos (And.intro hmine hclear), List.mem_cons_self, true_and]
  fires := by
    rintro i hi ⟨timer,wake,hs⟩
    obtain ⟨s',he,h'⟩ := step_inv h (.wait (.setCancelled i))
    refine ⟨s',he,?_⟩
    rw [step_wait hrun] at he
    cases he
    refine part_expires.inevitable h' hrun ?_
    simp only [Expires, TimedWait.setCancelled, if_pos hi, hs]
    refine ⟨by decide,?_⟩
    cases wake with
    | none => exact Nat.succ_ne_zero _
    | some source => trivial

/-- A socket whose reads have a timeout of 5 ms. -/
private def patient : FdCtx := .setTimeout (.new 3 (some true)) .recv 5

private theorem patient_managed : patient.Managed := .setTimeout (.new 3 (some true)) .recv 5

/-- Interrupted, then twice without data: the first wait ends by the event, the second by the timer. -/
private def attempts : List (IoAct Unit) :=
  [.call ⟨-1,eintr⟩,.call ⟨-1,eagain⟩,.wait (.arm 1 0 ()),.wait (.addEvent true),.wait .event,.wait .resume,
    .wait .cancelTimer,.wait .check,.finish 0,.call ⟨-1,eagain⟩,.wait (.arm 2 7 ()),.wait (.addEvent true),
    .wait (.call (.listExpiredCb 12 0)),.wait (.callback 1),.wait (.setCancelled 1),.wait (.cancelEvent true),.wait .resume,
    .wait .cancelTimer,.wait .check,.finish 0]

end Io
end Radixun.Common.Hook
