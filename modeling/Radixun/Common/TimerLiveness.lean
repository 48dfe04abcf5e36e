import Radixun.Common.TimerDeadlines

/-! Whether a timer is armed, by what has happened to it since it was made, and what the calls on it answer. -/
namespace Radixun.Common.Timers
open Foundation.CommandRuns

namespace Manager
variable {κ : Type} {m : Manager κ} {p q : Nat}

theorem cancel_made {b : Bool} {m' : Manager κ} (he : m.cancel q = .ok (b,m')) : m'.made = m.made := by
  unfold cancel at he
  split at he
  · cases he
    rfl
  · split at he
    · cases he
    · cases he
      rfl

theorem refresh_made (m : Manager κ) (q now : Nat) : (m.refresh q now).2.made = m.made := by
  unfold refresh
  dsimp only
  split
  · rfl
  · split <;> rfl

theorem reset_made (m : Manager κ) (q ms : Nat) (fromNow : Bool) (now : Nat) :
    (m.reset q ms fromNow now).2.2.made = m.made := by
  unfold reset
  dsimp only
  split
  · rfl
  split
  · rfl
  · split <;> rfl

/-- A timer with a callback that is found: the calls on it succeed. -/
theorem cancel_find (hcb : (m.timer p).cb.isNone = false) (hf : m.find p = some q) : ∃ m', m.cancel p = .ok (true,m') := by
  simp only [cancel, hcb, hf, Bool.false_eq_true, if_false]
  exact ⟨_,rfl⟩

theorem reset_true (hcb : (m.timer p).cb.isNone = false) (hf : m.find p = some q) (ms : Nat) (fromNow : Bool) (now : Nat) :
    (m.reset p ms fromNow now).1 = true := by
  simp only [reset, hcb, hf, Bool.false_eq_true, if_false]
  split <;> rfl

/-- A timer without one: nothing happens, and `reset` still answers by its arguments first. -/
theorem cancel_spent (hcb : (m.timer p).cb = none) : m.cancel p = .ok (false,m) := by
  rw [cancel, hcb]
  rfl

theorem refresh_spent (hcb : (m.timer p).cb = none) (now : Nat) : m.refresh p now = (false,m) := by
  simp only [refresh, hcb, Option.isNone_none, if_true]

theorem reset_spent (hcb : (m.timer p).cb = none) (ms : Nat) (fromNow : Bool) (now : Nat) :
    m.reset p ms fromNow now = (decide (ms = (m.timer p).ms ∧ fromNow = false),false,m) := by
  simp only [reset, hcb, Option.isNone_none, if_true]
  split
  · rename_i hsame
    rw [decide_eq_true hsame]
  · rename_i hother
    rw [decide_eq_false hother]

end Manager

namespace Ledger
variable {κ : Type} {s s' t : Ledger κ} {c : Call κ} {r : Reply κ} {calls : List (Call κ)} {rs : List (Reply κ)} {i p : Nat} {d : κ}

/-- The timer at `p` is still there and its callback is gone. -/
def Spent (s : Ledger κ) (p : Nat) : Prop := p ∈ s.manager.made ∧ (s.manager.timer p).cb = none

/-- A timer is there until its address is given back. -/
theorem step_made (h : s.Good) (he : step c s = .ok (r,s')) (hp : p ∈ s.manager.made) (hc : c ≠ .release p) : p ∈ s'.manager.made := by
  rw [step] at he
  split at he
  swap
  · cases he
    exact hp
  cases c with
  | addTimer q now ms cb recurring =>
    cases he
    exact List.mem_cons_of_mem q hp
  | cancel q =>
    obtain ⟨out,hout,heq⟩ := map_ok he
    cases heq
    rwa [Manager.cancel_made hout]
  | refresh q now =>
    cases he
    rwa [Manager.refresh_made]
  | reset q ms fromNow now =>
    cases he
    rwa [Manager.reset_made]
  | getNextTimer now =>
    cases he
    exact hp
  | listExpiredCb now tmp =>
    cases he
    exact (h.inv.listExpiredCb_made now tmp).symm ▸ hp
  | release q =>
    cases he
    refine List.mem_filter.mpr ⟨hp,decide_eq_true ?_⟩
    rintro rfl
    exact hc rfl

namespace Spent

/-- No call gives a callback back. -/
theorem step (h : s.Good) (hs : s.Spent p) (he : step c s = .ok (r,s')) (hc : c ≠ .release p) : s'.Spent p := by
  refine ⟨step_made h he hs.1 hc,?_⟩
  cases step_effect h he with
  | keep _ _ _ _ _ hsame _ => exact (hsame p).1.trans hs.2
  | @add q _ _ _ _ m _ hq _ htimer _ =>
    have hne : p ≠ q := fun hpq => hq (hpq ▸ hs.1)
    exact (congrArg Timer.cb ((htimer p).trans (if_neg hne))).trans hs.2
  | @cancel q m _ _ htimer _ =>
    change (m.timer p).cb = none
    rw [htimer p]
    split
    · rfl
    · exact hs.2
  | @expire now tmp =>
    change ((s.manager.listExpiredCb now tmp).2.timer p).cb = none
    rw [h.inv.listExpiredCb_timer]
    split
    · rw [Timer.afterExpiry_cb, hs.2, ite_self]
    · exact hs.2

theorem run (h : s.Good) (hs : s.Spent p) (hr : runAll Ledger.step calls s = .ok (rs,t)) (hrel : .release p ∉ calls) :
    t.Spent p := by
  induction calls generalizing s rs with
  | nil =>
    cases hr
    exact hs
  | cons c calls ih =>
    obtain ⟨r,s',rs',he,hrest,rfl⟩ := run_cons hr
    rw [List.mem_cons, not_or] at hrel
    exact ih ((step_effect h he).good h) (hs.step h he fun hc => hrel.1 hc.symm) hrest hrel.2

theorem not_holds (hs : s.Spent p) : ¬s.Holds i p d := by
  rintro ⟨-,hcb⟩
  rw [hs.2] at hcb
  cases hcb

end Spent

/-- The two ways to lose a callback: to be cancelled with success, and to be handed out without being recurring. -/
def Disarms (s : Ledger κ) (i p : Nat) (c : Call κ) (r : Reply κ) : Prop :=
  (c = .cancel p ∧ r = .flag true) ∨ ((s.manager.timer p).recurring = false ∧ i ∈ r.numbers)

theorem step_disarms (h : s.Good) (hh : s.Holds i p d) (he : step c s = .ok (r,s')) (hd : s.Disarms i p c r) : s'.Spent p := by
  have hmade := h.inv.made p hh.1
  rcases hd with ⟨rfl,rfl⟩ | ⟨hrec,hin⟩
  · refine ⟨step_made h he hmade (fun hc => by cases hc),?_⟩
    cases step_effect h he with
    | keep _ _ hc => exact absurd rfl (hc p rfl)
    | cancel _ _ htimer _ => exact congrArg Timer.cb ((htimer p).trans (if_pos rfl))
  · have hc : c ≠ .release p := by
      rintro rfl
      rw [Ledger.step] at he
      split at he <;> cases he <;> cases hin
    refine ⟨step_made h he hmade hc,?_⟩
    cases step_effect h he with
    | keep _ hr =>
      rw [hr] at hin
      cases hin
    | add => cases hin
    | cancel => cases hin
    | @expire now tmp =>
      obtain ⟨q,e,hq,hdue⟩ := (mem_numbers h).mp hin
      obtain rfl := h.unique i q p e d hq hh
      change ((s.manager.listExpiredCb now tmp).2.timer q).cb = none
      rw [h.inv.listExpiredCb_timer, if_pos ⟨hh.1,hdue⟩, Timer.afterExpiry_once hrec]

/-- Whatever has become of a timer that is there: it has no callback once it is cancelled. -/
theorem step_cancel_spent (h : s.Good) (hp : p ∈ s.manager.made) : ∃ b s', step (.cancel p) s = .ok (.flag b,s') ∧ s'.Spent p := by
  have hact : step (.cancel p) s = s.act (.cancel p) := if_pos (decide_eq_true hp)
  cases hcb : (s.manager.timer p).cb with
  | none =>
    refine ⟨false,s,?_,hp,hcb⟩
    rw [hact, act, Manager.cancel_spent hcb]
    rfl
  | some c =>
    have hin := h.armed p hp (by rw [hcb]; rfl)
    have hnone : (s.manager.timer p).cb.isNone = false := by
      rw [hcb]
      rfl
    obtain ⟨m',hm⟩ := Manager.cancel_find hnone (h.inv.find_of_mem hin)
    have he : step (.cancel p) s = .ok (.flag true,⟨m',s.count⟩) := by
      rw [hact, act, hm]
      rfl
    exact ⟨true,_,he,step_disarms h ⟨hin,hcb⟩ he (.inl ⟨rfl,rfl⟩)⟩

/-- A timer that is made with a callback is in the set, at its own address and under the next number. -/
theorem step_new {now ms : Nat} {recurring : Bool} (h : s.Good)
    (he : step (.addTimer p now ms (some d) recurring) s = .ok (.made i,s')) :
    i = s.count ∧ s'.count = s.count + 1 ∧ p ∈ s'.manager.made ∧ s'.Holds i p d := by
  cases step_effect h he with
  | keep _ _ _ hnew => exact absurd rfl (hnew i)
  | @add _ _ _ _ _ m _ _ hmem htimer hmade =>
    have hcb : (m.timer p).cb = some (s.count,d) := congrArg Timer.cb ((htimer p).trans (if_pos rfl))
    have hin : p ∈ m.made := by
      rw [hmade]
      exact List.mem_cons_self
    exact ⟨rfl,rfl,hin,(hmem p).mpr (.inl rfl),hcb⟩

/-- A timer that is disarmed in a run has no callback after it. -/
theorem run_disarmed (h : s.Good) (hh : s.Holds i p d) (hr : runAll step calls s = .ok (rs,t)) (hrel : .release p ∉ calls)
    (hgone : (.cancel p,.flag true) ∈ calls.zip rs ∨ ((s.manager.timer p).recurring = false ∧ i ∈ rs.flatMap Reply.numbers)) :
    t.Spent p := by
  induction calls generalizing s rs with
  | nil =>
    cases hr
    simp at hgone
  | cons c calls ih =>
    obtain ⟨r,s',rs',he,hrest,rfl⟩ := run_cons hr
    have heff := step_effect h he
    rw [List.mem_cons, not_or] at hrel
    by_cases hd : s.Disarms i p c r
    · exact (step_disarms h hh he hd).run (heff.good h) hrest hrel.2
    · rw [Disarms, not_or] at hd
      have hstays := heff.stays h hh hd.1 fun hrec hin => hd.2 ⟨hrec,hin⟩
      refine ih (heff.good h) hstays hrest hrel.2 ?_
      rw [heff.recurring_same h hh.1]
      rw [List.zip_cons_cons, List.mem_cons, List.flatMap_cons, List.mem_append, Prod.mk.injEq] at hgone
      rcases hgone with (⟨hc,hr⟩ | hlater) | ⟨hrec,hnow | hlater⟩
      · exact absurd ⟨hc.symm,hr.symm⟩ hd.1
      · exact .inl hlater
      · exact absurd ⟨hrec,hnow⟩ hd.2
      · exact .inr ⟨hrec,hlater⟩

/-- By its history since it was made, timer `i` at `p` is armed: it has a callback, was not cancelled with success and, if it
is not recurring, not handed out. -/
def StillArmed (i p : Nat) (cb : Option κ) (recurring : Bool) (calls : List (Call κ)) (rs : List (Reply κ)) : Prop :=
  cb.isSome = true ∧ (.cancel p,.flag true) ∉ calls.zip rs ∧ (recurring = false → i ∉ rs.flatMap Reply.numbers)

/-- The history agrees with the state. -/
theorem made_state {now ms : Nat} {cb : Option κ} {recurring : Bool} (h : s.Good)
    (hr : runAll step (.addTimer p now ms cb recurring :: calls) s = .ok (.made i :: rs,t)) (hrel : .release p ∉ calls) :
    t.Good ∧ ((StillArmed i p cb recurring calls rs ∧ ∃ d, t.Holds i p d) ∨ (¬StillArmed i p cb recurring calls rs ∧ t.Spent p)) := by
  obtain ⟨r,s',rs',he,hrest,heq⟩ := run_cons hr
  cases heq
  have heff := step_effect h he
  have hg := heff.good h
  have ht : t.Good := runAll_keeps (fun c s r s' h he => (step_effect h he).good h) calls hg hrest
  refine ⟨ht,?_⟩
  cases heff with
  | keep _ _ _ hnew => exact absurd rfl (hnew i)
  | @add _ _ _ _ _ m _ hp hmem htimer hmade =>
    have htp : m.timer p = ⟨recurring,ms,uint64 (now + ms),cb.map fun c => (s.count,c)⟩ := (htimer p).trans (if_pos rfl)
    have hin : p ∈ m.made := hmade ▸ List.mem_cons_self
    cases cb with
    | none => exact .inr ⟨fun harmed => Bool.false_ne_true harmed.1,Spent.run hg ⟨hin,congrArg Timer.cb htp⟩ hrest hrel⟩
    | some d =>
      have hh : Holds ⟨m,s.count + 1⟩ s.count p d := ⟨(hmem p).mpr (.inl rfl),congrArg Timer.cb htp⟩
      have hrec : (m.timer p).recurring = recurring := congrArg Timer.recurring htp
      by_cases harmed : StillArmed s.count p (some d) recurring calls rs
      · exact .inl ⟨harmed,d,(run_stays hg hh hrest harmed.2.1 fun hone => harmed.2.2 (hrec ▸ hone)).2⟩
      · refine .inr ⟨harmed,run_disarmed hg hh hrest hrel ?_⟩
        by_contra hkept
        rw [not_or, not_and] at hkept
        exact harmed ⟨rfl,hkept.1,fun hone => hkept.2 (hrec.trans hone)⟩

/-- The call answers whether the timer is armed, and if not, changes nothing. -/
def Truthful (s : Ledger κ) (armed : Prop) (c : Call κ) : Prop :=
  ∃ b s', step c s = .ok (.flag b,s') ∧ (b = true ↔ armed) ∧ (b = false → s' = s)

section Answers
variable {armed : Prop}

/-- A call on a timer that is there. -/
private theorem step_call (hp : p ∈ s.manager.made) : step (.cancel p) s = s.act (.cancel p) ∧
    (∀ now, step (.refresh p now) s = s.act (.refresh p now)) ∧
    ∀ ms fromNow now, step (.reset p ms fromNow now) s = s.act (.reset p ms fromNow now) :=
  ⟨if_pos (decide_eq_true hp),fun _ => if_pos (decide_eq_true hp),fun _ _ _ => if_pos (decide_eq_true hp)⟩

theorem truthful_armed (h : t.Good) (hh : t.Holds i p d) (ha : armed) : t.Truthful armed (.cancel p) ∧
    (∀ now, t.Truthful armed (.refresh p now)) ∧ ∀ ms fromNow now, t.Truthful armed (.reset p ms fromNow now) := by
  obtain ⟨hcancel,hrefresh,hreset⟩ := step_call (h.inv.made p hh.1)
  have hnone : (t.manager.timer p).cb.isNone = false := by rw [hh.2]; rfl
  have hfind := h.inv.find_of_mem hh.1
  have hyes : true = true ↔ armed := iff_of_true rfl ha
  refine ⟨?_,fun now => ?_,fun ms fromNow now => ?_⟩
  · obtain ⟨m',hm⟩ := Manager.cancel_find hnone hfind
    refine ⟨true,⟨m',t.count⟩,?_,hyes,fun hf => by cases hf⟩
    rw [hcancel, act, hm]
    rfl
  · have hm := Manager.refresh_find hnone hfind now
    refine ⟨true,⟨(t.manager.refresh p now).2,t.count⟩,?_,hyes,fun hf => by cases hf⟩
    rw [hrefresh, act, hm]
  · have hm := Manager.reset_true hnone hfind ms fromNow now
    refine ⟨true,⟨(t.manager.reset p ms fromNow now).2.2,t.count⟩,?_,hyes,fun hf => by cases hf⟩
    rw [hreset, act, hm]

theorem truthful_spent (hs : t.Spent p) (ha : ¬armed) : t.Truthful armed (.cancel p) ∧
    (∀ now, t.Truthful armed (.refresh p now)) ∧ ∀ ms fromNow now, (t.Truthful armed (.reset p ms fromNow now) ↔
      ¬(ms = (t.manager.timer p).ms ∧ fromNow = false)) := by
  obtain ⟨hcancel,hrefresh,hreset⟩ := step_call hs.1
  have hno : false = true ↔ armed := iff_of_false Bool.false_ne_true ha
  refine ⟨?_,fun now => ?_,fun ms fromNow now => ?_⟩
  · refine ⟨false,t,?_,hno,fun _ => rfl⟩
    rw [hcancel, act, Manager.cancel_spent hs.2]
    rfl
  · refine ⟨false,t,?_,hno,fun _ => rfl⟩
    rw [hrefresh, act, Manager.refresh_spent hs.2]
  · have hrun : step (.reset p ms fromNow now) t = .ok (.flag (decide (ms = (t.manager.timer p).ms ∧ fromNow = false)),t) := by
      rw [hreset, act, Manager.reset_spent hs.2]
    constructor
    · rintro ⟨b,s',he,hb,-⟩ hsame
      rw [hrun, decide_eq_true hsame] at he
      cases he
      exact ha (hb.mp rfl)
    · intro hother
      rw [decide_eq_false hother] at hrun
      exact ⟨false,t,hrun,hno,fun _ => rfl⟩

end Answers

/-- Every run completes. A timer that is made next, whatever happens until its address is given back: `cancel` and `refresh`
answer truthfully whether it is armed, and so does `reset` exactly unless the timer is not armed, the period is the one it has
and the start is kept. -/
theorem liveness_iff (before : List (Call κ)) : ∃ rs s, runAll step before start = .ok (rs,s) ∧
    ∀ p now ms cb recurring after i rs' t, runAll step (.addTimer p now ms cb recurring :: after) s = .ok (.made i :: rs',t) →
      .release p ∉ after →
      t.Truthful (StillArmed i p cb recurring after rs') (.cancel p) ∧
      (∀ now', t.Truthful (StillArmed i p cb recurring after rs') (.refresh p now')) ∧
      ∀ ms' fromNow now', (t.Truthful (StillArmed i p cb recurring after rs') (.reset p ms' fromNow now') ↔
        ¬(¬StillArmed i p cb recurring after rs' ∧ ms' = (t.manager.timer p).ms ∧ fromNow = false)) := by
  obtain ⟨rs,s,hr,h⟩ := run_completes before
  refine ⟨rs,s,hr,?_⟩
  intro p now ms cb recurring after i rs' t hrun hrel
  obtain ⟨ht,⟨harmed,d,hh⟩ | ⟨hnot,hs⟩⟩ := made_state h hrun hrel
  · obtain ⟨hc,hf,hset⟩ := truthful_armed ht hh harmed
    exact ⟨hc,hf,fun ms' fromNow now' => iff_of_true (hset ms' fromNow now') fun hboth => hboth.1 harmed⟩
  · obtain ⟨hc,hf,hset⟩ := truthful_spent hs hnot
    refine ⟨hc,hf,fun ms' fromNow now' => ?_⟩
    rw [hset, and_iff_right hnot]

/-- A timer that is cancelled, and then reset to the period it has from the start it has: the answer is that it is armed. -/
theorem cancelled_reset : ∃ t : Ledger Unit, runAll step [.addTimer 1 0 5 (some ()) false,.cancel 1] start =
      .ok ([.made 0,.flag true],t) ∧
    step (.reset 1 5 false 0) t = .ok (.flag true,t) ∧
    ¬t.Truthful (StillArmed 0 1 (some ()) false [.cancel 1] [.flag true]) (.reset 1 5 false 0) := by
  refine ⟨_,rfl,rfl,?_⟩
  rintro ⟨b,s',he,hb,-⟩
  cases he
  exact (hb.mp rfl).2.1 (List.mem_singleton_self _)

end Ledger
end Radixun.Common.Timers
