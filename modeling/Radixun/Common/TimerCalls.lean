import Radixun.Common.TimerExpiry
import Radixun.Common.TimerSet

/-! What the calls on a timer manager return, over whole runs: when a callback is handed out, and how
long to wait for the next one. -/
namespace Radixun.Common.Timers
open Foundation.CommandRuns

/-- Calls on the manager and on its timers, with the clock reading and the addresses they get. A
callback may be empty; `addConditionTimer` is `addTimer` with one that `OnTimer` is bound to.
`release` is the end of a timer that is not in the set and that nobody refers to any more. -/
inductive Call (κ : Type) where
  | addTimer (p now ms : Nat) (cb : Option κ) (recurring : Bool)
  | cancel (p : Nat)
  | refresh (p now : Nat)
  | reset (p ms : Nat) (fromNow : Bool) (now : Nat)
  | getNextTimer (now : Nat)
  | listExpiredCb (now tmp : Nat)
  | release (p : Nat)
  deriving DecidableEq

inductive Reply (κ : Type) where
  | made (i : Nat)
  | flag (b : Bool)
  | delay (d : Nat)
  | due (cbs : List (Option (Nat × κ)))
  | nothing
  deriving DecidableEq

/-- The timers whose callbacks are handed out. -/
def Reply.numbers {κ : Type} : Reply κ → List Nat
  | .due cbs => cbs.filterMap fun cb => cb.map (·.1)
  | _ => []

/-- A manager whose timers are numbered in the order they are made. A callback carries the number of
its timer, which nothing looks at. -/
structure Ledger (κ : Type) where
  manager : Manager (Nat × κ)
  count : Nat

namespace Ledger
variable {κ : Type}

def start : Ledger κ := ⟨.init,0⟩

/-- The call can be made: an address is free before a timer is allocated there, and is that of a timer
for the calls on timers. -/
def possible (s : Ledger κ) : Call κ → Bool
  | .addTimer p .. => p ∉ s.manager.made
  | .cancel p | .refresh p _ | .reset p .. => p ∈ s.manager.made
  | .getNextTimer _ | .listExpiredCb .. => true
  | .release p => p ∈ s.manager.made ∧ p ∉ s.manager.timers

def act (s : Ledger κ) : Call κ → Except Fault (Reply κ × Ledger κ)
  | .addTimer p now ms cb recurring =>
    .ok (.made s.count,⟨(s.manager.addTimer p now ms (cb.map fun c => (s.count,c)) recurring).2,s.count + 1⟩)
  | .cancel p => (s.manager.cancel p).map fun r => (.flag r.1,{ s with manager := r.2 })
  | .refresh p now => .ok (.flag (s.manager.refresh p now).1,{ s with manager := (s.manager.refresh p now).2 })
  | .reset p ms fromNow now =>
    .ok (.flag (s.manager.reset p ms fromNow now).1,{ s with manager := (s.manager.reset p ms fromNow now).2.2 })
  | .getNextTimer now => .ok (.delay (s.manager.getNextTimer now).1,{ s with manager := (s.manager.getNextTimer now).2 })
  | .listExpiredCb now tmp =>
    .ok (.due (s.manager.listExpiredCb now tmp).1,{ s with manager := (s.manager.listExpiredCb now tmp).2 })
  | .release p => .ok (.nothing,{ s with manager := { s.manager with made := s.manager.made.filter (· ≠ p) } })

/-- A call that can not be made changes nothing. -/
def step (c : Call κ) (s : Ledger κ) : Except Fault (Reply κ × Ledger κ) :=
  if s.possible c then s.act c else .ok (.nothing,s)

/-- Timer `i` is in the set, at address `p` and with callback `c`. -/
def Holds (s : Ledger κ) (i p : Nat) (c : κ) : Prop := p ∈ s.manager.timers ∧ (s.manager.timer p).cb = some (i,c)

/-- A number is that of one timer, and a timer with a callback is in the set. -/
structure Good (s : Ledger κ) : Prop where
  inv : s.manager.Inv
  armed : ∀ p ∈ s.manager.made, (s.manager.timer p).cb.isSome = true → p ∈ s.manager.timers
  bound : ∀ i p c, s.Holds i p c → i < s.count
  unique : ∀ i p q c d, s.Holds i p c → s.Holds i q d → p = q

theorem good_start : Good (start : Ledger κ) where
  inv := Manager.inv_init
  armed := fun p hp => absurd hp List.not_mem_nil
  bound := fun i p c h => absurd h.1 List.not_mem_nil
  unique := fun i p q c d h => absurd h.1 List.not_mem_nil

/-- What a call can do to the timers in the set. -/
inductive Effect (s : Ledger κ) : Call κ → Reply κ → Ledger κ → Prop where
  | keep {c : Call κ} {r : Reply κ} {m : Manager (Nat × κ)} (hinv : m.Inv) (hr : r.numbers = []) (hc : ∀ p, c = .cancel p → r ≠ .flag true)
      (hnew : ∀ i, r ≠ .made i) (hmem : ∀ q, q ∈ m.timers ↔ q ∈ s.manager.timers)
      (hsame : ∀ q, (m.timer q).cb = (s.manager.timer q).cb ∧ (m.timer q).recurring = (s.manager.timer q).recurring)
      (hmade : ∀ q ∈ m.made, q ∈ s.manager.made) : Effect s c r ⟨m,s.count⟩
  | add {p now ms : Nat} {cb : Option κ} {recurring : Bool} {m : Manager (Nat × κ)} (hinv : m.Inv)
      (hp : p ∉ s.manager.made)
      (hmem : ∀ q, q ∈ m.timers ↔ q = p ∨ q ∈ s.manager.timers)
      (htimer : ∀ q, m.timer q = if q = p then ⟨recurring,ms,uint64 (now + ms),cb.map fun c => (s.count,c)⟩ else s.manager.timer q)
      (hmade : m.made = p :: s.manager.made) :
      Effect s (.addTimer p now ms cb recurring) (.made s.count) ⟨m,s.count + 1⟩
  | cancel {p : Nat} {m : Manager (Nat × κ)} (hinv : m.Inv) (hmem : ∀ q, q ∈ m.timers ↔ q ≠ p ∧ q ∈ s.manager.timers)
      (htimer : ∀ q, m.timer q = if q = p then { s.manager.timer p with cb := none } else s.manager.timer q)
      (hmade : m.made = s.manager.made) : Effect s (.cancel p) (.flag true) ⟨m,s.count⟩
  | expire {now tmp : Nat} :
      Effect s (.listExpiredCb now tmp) (.due (s.manager.listExpiredCb now tmp).1)
        ⟨(s.manager.listExpiredCb now tmp).2,s.count⟩

variable {s s' : Ledger κ} {c : Call κ} {r : Reply κ}

/-- A timer that is taken out of the set and put back with another time. -/
private theorem mem_move {m : Manager (Nat × κ)} {p : Nat} (h : m.Inv) (hin : p ∈ m.timers) (t : Timer (Nat × κ)) (q : Nat) :
    q ∈ (((m.erase p).setTimer p t).insert p).timers ↔ q ∈ m.timers := by
  rw [Manager.mem_insert, Manager.setTimer_timers, Manager.erase, h.nodup.mem_erase_iff]
  constructor
  · rintro (rfl | hq)
    · exact hin
    · exact hq.2
  · intro hq
    by_cases hqp : q = p
    · exact .inl hqp
    · exact .inr ⟨hqp,hq⟩

private theorem inv_move {m : Manager (Nat × κ)} {p : Nat} {t : Timer (Nat × κ)} (h : m.Inv) (hin : p ∈ m.timers)
    (hb : t.next < 2^64) : (((m.erase p).setTimer p t).insert p).Inv := by
  refine ((h.erase p).setTimer (h.notMem_erase p) t).insert (h.made p hin) ?_
  rwa [Manager.setTimer_next, if_pos rfl]

private theorem same_move {m : Manager (Nat × κ)} {p : Nat} {t : Timer (Nat × κ)} (hcb : t.cb = (m.timer p).cb)
    (hr : t.recurring = (m.timer p).recurring) (q : Nat) :
    ((((m.erase p).setTimer p t).insert p).timer q).cb = (m.timer q).cb ∧
      ((((m.erase p).setTimer p t).insert p).timer q).recurring = (m.timer q).recurring := by
  rw [Manager.insert_timer, Manager.setTimer_timer]
  split
  · rename_i hq
    rw [hq]
    exact ⟨hcb,hr⟩
  · exact ⟨rfl,rfl⟩

private theorem effect_refl (h : s.Good) (hr : r.numbers = []) (hc : ∀ p, c = .cancel p → r ≠ .flag true)
    (hnew : ∀ i, r ≠ .made i) : Effect s c r s :=
  .keep h.inv hr hc hnew (fun _ => Iff.rfl) (fun _ => ⟨rfl,rfl⟩) fun _ => id

theorem step_effect (h : s.Good) (he : step c s = .ok (r,s')) : Effect s c r s' := by
  rw [step] at he
  split at he
  swap
  · cases he
    exact effect_refl h rfl (fun _ _ hr => by cases hr) fun _ hn => by cases hn
  rename_i hpos
  cases c with
  | addTimer p now ms cb recurring =>
    cases he
    have hp : p ∉ s.manager.made := of_decide_eq_true hpos
    exact .add (h.inv.addTimer hp now ms _ recurring) hp (fun q => Manager.mem_insert) (fun q => Manager.setTimer_timer _) rfl
  | cancel p =>
    simp only [act, Manager.cancel] at he
    split at he
    · cases he
      exact effect_refl h rfl (fun _ _ hr => by cases hr) fun _ hn => by cases hn
    · split at he
      · cases he
      · rename_i q hq
        obtain ⟨rfl,hin⟩ := Manager.find_some hq
        cases he
        refine .cancel ((h.inv.setTimer_same ?_).erase _) (fun p => ?_) (fun p => Manager.setTimer_timer _) rfl
        · rfl
        · exact h.inv.nodup.mem_erase_iff
  | refresh p now =>
    cases he
    simp only [Manager.refresh]
    split
    · exact effect_refl h rfl (fun _ hc => by cases hc) fun _ hn => by cases hn
    · split
      · exact effect_refl h rfl (fun _ hc => by cases hc) fun _ hn => by cases hn
      · rename_i q hq
        obtain ⟨rfl,hin⟩ := Manager.find_some hq
        exact .keep (inv_move h.inv hin (Nat.mod_lt _ (by decide))) rfl (fun _ hc => by cases hc) (fun _ hn => by cases hn)
          (mem_move h.inv hin _)
          (same_move rfl rfl) fun _ => id
  | reset p ms fromNow now =>
    cases he
    simp only [Manager.reset]
    split
    · exact effect_refl h rfl (fun _ hc => by cases hc) fun _ hn => by cases hn
    split
    · exact effect_refl h rfl (fun _ hc => by cases hc) fun _ hn => by cases hn
    split
    · exact effect_refl h rfl (fun _ hc => by cases hc) fun _ hn => by cases hn
    · rename_i q hq
      obtain ⟨rfl,hin⟩ := Manager.find_some hq
      exact .keep ((inv_move h.inv hin (Nat.mod_lt _ (by decide))).tickle _) rfl (fun _ hc => by cases hc) (fun _ hn => by cases hn)
        (mem_move h.inv hin _)
        (same_move rfl rfl) fun _ => id
  | getNextTimer now =>
    cases he
    exact .keep (h.inv.tickle false) rfl (fun _ hc => by cases hc) (fun _ hn => by cases hn) (fun _ => Iff.rfl)
      (fun _ => ⟨rfl,rfl⟩) fun _ => id
  | listExpiredCb now tmp =>
    cases he
    exact .expire
  | release p =>
    cases he
    obtain ⟨hmade,hnot⟩ := of_decide_eq_true hpos
    refine .keep ⟨h.inv.sorted,h.inv.nodup,fun q hq => ?_,h.inv.bounded⟩ rfl (fun _ hc => by cases hc) (fun _ hn => by cases hn)
      (fun _ => Iff.rfl)
      (fun _ => ⟨rfl,rfl⟩) fun q hq => (List.mem_filter.mp hq).1
    refine List.mem_filter.mpr ⟨h.inv.made q hq,decide_eq_true fun he => ?_⟩
    exact hnot (he ▸ hq)

/-- Timer `i` is in the set. -/
def Held (s : Ledger κ) (i : Nat) : Prop := ∃ p c, s.Holds i p c

section Holds
variable {i p q : Nat} {d : κ}

private theorem holds_keep {m : Manager (Nat × κ)} (hmem : ∀ q, q ∈ m.timers ↔ q ∈ s.manager.timers)
    (hsame : ∀ q, (m.timer q).cb = (s.manager.timer q).cb ∧ (m.timer q).recurring = (s.manager.timer q).recurring) :
    Holds ⟨m,s.count⟩ i q d ↔ s.Holds i q d := by
  rw [Holds, Holds, hmem, (hsame q).1]

private theorem holds_add {now ms : Nat} {cb : Option κ} {recurring : Bool} {m : Manager (Nat × κ)} (h : s.Good)
    (hp : p ∉ s.manager.made) (hmem : ∀ q, q ∈ m.timers ↔ q = p ∨ q ∈ s.manager.timers)
    (htimer : ∀ q, m.timer q = if q = p then ⟨recurring,ms,uint64 (now + ms),cb.map fun c => (s.count,c)⟩ else s.manager.timer q) :
    Holds ⟨m,s.count + 1⟩ i q d ↔ q = p ∧ i = s.count ∧ cb = some d ∨ s.Holds i q d := by
  rw [Holds, Holds, hmem, htimer]
  by_cases hqp : q = p
  · have hnot : p ∉ s.manager.timers := fun hin => hp (h.inv.made p hin)
    simp only [hqp, if_true, true_and, hnot, false_and, or_false, Option.map_eq_some_iff, Prod.mk.injEq]
    constructor
    · rintro ⟨c,rfl,rfl,rfl⟩
      exact ⟨rfl,rfl⟩
    · rintro ⟨rfl,rfl⟩
      exact ⟨d,rfl,rfl,rfl⟩
  · simp only [hqp, if_false, false_or, false_and]

private theorem holds_cancel {m : Manager (Nat × κ)} (hmem : ∀ q, q ∈ m.timers ↔ q ≠ p ∧ q ∈ s.manager.timers)
    (htimer : ∀ q, m.timer q = if q = p then { s.manager.timer p with cb := none } else s.manager.timer q) :
    Holds ⟨m,s.count⟩ i q d ↔ q ≠ p ∧ s.Holds i q d := by
  rw [Holds, Holds, hmem, htimer]
  by_cases hqp : q = p
  · simp [hqp]
  · simp [hqp]

private theorem holds_expire (h : s.Good) {now tmp : Nat} :
    Holds ⟨(s.manager.listExpiredCb now tmp).2,s.count⟩ i q d ↔
      s.Holds i q d ∧ (s.manager.next q ≤ now → (s.manager.timer q).recurring = true) := by
  rw [Holds, Holds, h.inv.mem_listExpiredCb, h.inv.listExpiredCb_timer]
  by_cases hdue : q ∈ s.manager.timers ∧ s.manager.next q ≤ now
  · rw [if_pos hdue, Timer.afterExpiry_cb]
    by_cases hr : (s.manager.timer q).recurring = true
    · simp [hr]
    · simp [hr, hdue]
  · rw [if_neg hdue]
    tauto

/-- The callbacks handed out are those of the timers that are due. -/
theorem mem_numbers {now tmp : Nat} (h : s.Good) : i ∈ (Reply.due (s.manager.listExpiredCb now tmp).1).numbers ↔
    ∃ p c, s.Holds i p c ∧ s.manager.next p ≤ now := by
  simp only [Reply.numbers, h.inv.listExpiredCb_cbs, List.filterMap_map, List.mem_filterMap, List.mem_filter,
    Function.comp_apply, decide_eq_true_eq, Option.map_eq_some_iff, Holds]
  constructor
  · rintro ⟨p,⟨hin,hdue⟩,⟨j,c⟩,hcb,rfl⟩
    exact ⟨p,c,⟨hin,hcb⟩,hdue⟩
  · rintro ⟨p,c,⟨hin,hcb⟩,hdue⟩
    exact ⟨p,⟨hin,hdue⟩,(i,c),hcb,rfl⟩

private theorem numbers_nodup {now tmp : Nat} (h : s.Good) : (Reply.due (s.manager.listExpiredCb now tmp).1).numbers.Nodup := by
  simp only [Reply.numbers, h.inv.listExpiredCb_cbs, List.filterMap_map]
  rw [List.Nodup, List.pairwise_filterMap]
  refine (h.inv.nodup.filter _).imp_of_mem fun {p q} hp hq hne => ?_
  intro i hi j hj hij
  simp only [Function.comp_apply, Option.map_eq_some_iff] at hi hj
  obtain ⟨⟨_,c⟩,hc,rfl⟩ := hi
  obtain ⟨⟨_,d⟩,hd,rfl⟩ := hj
  dsimp only at hij
  subst hij
  exact hne (h.unique _ p q c d ⟨(List.mem_filter.mp hp).1,hc⟩ ⟨(List.mem_filter.mp hq).1,hd⟩)

end Holds

namespace Effect

theorem good (h : s.Good) (he : Effect s c r s') : s'.Good := by
  cases he with
  | keep hinv _ _ _ hmem hsame hmade =>
    refine ⟨hinv,fun p hp hcb => ?_,fun i p c hh => ?_,fun i p q c d hp hq => ?_⟩
    · rw [(hsame p).1] at hcb
      exact (hmem p).mpr (h.armed p (hmade p hp) hcb)
    · exact h.bound i p c ((holds_keep hmem hsame).mp hh)
    · exact h.unique i p q c d ((holds_keep hmem hsame).mp hp) ((holds_keep hmem hsame).mp hq)
  | @add p now ms cb recurring m hinv hp hmem htimer hmade =>
    refine ⟨hinv,fun q hq hcb => ?_,fun i q c hh => ?_,fun i q q' c d hq hq' => ?_⟩
    · rw [hmem]
      by_cases hqp : q = p
      · exact .inl hqp
      · rw [htimer, if_neg hqp] at hcb
        rw [hmade] at hq
        exact .inr (h.armed q ((List.mem_cons.mp hq).resolve_left hqp) hcb)
    · rcases (holds_add h hp hmem htimer).mp hh with ⟨-,rfl,-⟩ | hh
      · exact Nat.lt_succ_self _
      · exact (h.bound i q c hh).trans (Nat.lt_succ_self _)
    · rcases (holds_add h hp hmem htimer).mp hq with ⟨rfl,rfl,-⟩ | hq
      · rcases (holds_add h hp hmem htimer).mp hq' with ⟨rfl,-⟩ | hq'
        · rfl
        · exact absurd (h.bound _ _ _ hq') (lt_irrefl _)
      · rcases (holds_add h hp hmem htimer).mp hq' with ⟨-,rfl,-⟩ | hq'
        · exact absurd (h.bound _ _ _ hq) (lt_irrefl _)
        · exact h.unique i q q' c d hq hq'
  | @cancel p m hinv hmem htimer hmade =>
    refine ⟨hinv,fun q hq hcb => ?_,fun i q c hh => ?_,fun i q q' c d hq hq' => ?_⟩
    · rw [htimer] at hcb
      rw [hmade] at hq
      split at hcb
      · cases hcb
      · rename_i hqp
        exact (hmem q).mpr ⟨hqp,h.armed q hq hcb⟩
    · exact h.bound i q c ((holds_cancel hmem htimer).mp hh).2
    · exact h.unique i q q' c d ((holds_cancel hmem htimer).mp hq).2 ((holds_cancel hmem htimer).mp hq').2
  | @expire now tmp =>
    refine ⟨h.inv.listExpiredCb now tmp,fun q hq hcb => ?_,fun i q c hh => ?_,fun i q q' c d hq hq' => ?_⟩
    · rw [h.inv.listExpiredCb_made] at hq
      rw [h.inv.listExpiredCb_timer] at hcb
      rw [h.inv.mem_listExpiredCb]
      split at hcb
      · rename_i hdue
        refine ⟨hdue.1,fun _ => ?_⟩
        by_contra hr
        rw [Timer.afterExpiry_cb, if_neg hr] at hcb
        cases hcb
      · rename_i hdue
        have hin := h.armed q hq hcb
        exact ⟨hin,fun hle => absurd ⟨hin,hle⟩ hdue⟩
    · exact h.bound i q c ((holds_expire h).mp hh).1
    · exact h.unique i q q' c d ((holds_expire h).mp hq).1 ((holds_expire h).mp hq').1

theorem count_le (he : Effect s c r s') : s.count ≤ s'.count := by
  cases he with
  | add => exact Nat.le_succ _
  | _ => exact le_rfl

/-- Nothing but the making of a timer puts its number into the set. -/
theorem held (h : s.Good) (he : Effect s c r s') {i p : Nat} {d : κ} (hi : i < s.count) (hh : s'.Holds i p d) : s.Holds i p d := by
  cases he with
  | keep _ _ _ _ hmem hsame _ => exact (holds_keep hmem hsame).mp hh
  | add _ hp hmem htimer _ =>
    rcases (holds_add h hp hmem htimer).mp hh with ⟨-,rfl,-⟩ | hh
    · exact absurd hi (lt_irrefl _)
    · exact hh
  | cancel _ hmem htimer _ => exact ((holds_cancel hmem htimer).mp hh).2
  | expire => exact ((holds_expire h).mp hh).1

theorem numbers_held (h : s.Good) (he : Effect s c r s') {i : Nat} (hi : i ∈ r.numbers) : s.Held i := by
  cases he with
  | keep _ hr _ _ _ _ _ => rw [hr] at hi; cases hi
  | add => cases hi
  | cancel => cases hi
  | expire =>
    obtain ⟨p,d,hh,-⟩ := (mem_numbers h).mp hi
    exact ⟨p,d,hh⟩

theorem numbers_count (h : s.Good) (he : Effect s c r s') (i : Nat) : r.numbers.count i ≤ 1 := by
  cases he with
  | keep _ hr _ _ _ _ _ => simp [hr]
  | add => simp [Reply.numbers]
  | cancel => simp [Reply.numbers]
  | expire => exact List.nodup_iff_count_le_one.mp (numbers_nodup h) i

/-- A timer that is not recurring leaves the set when its callback is handed out. -/
theorem handed_out (h : s.Good) (he : Effect s c r s') {i : Nat} (hi : i ∈ r.numbers)
    (hone : ∀ p d, s.Holds i p d → (s.manager.timer p).recurring = false) : ¬ s'.Held i := by
  rintro ⟨q,d,hh⟩
  cases he with
  | keep _ hr _ _ _ _ _ => rw [hr] at hi; cases hi
  | add => cases hi
  | cancel => cases hi
  | expire =>
    obtain ⟨p,e,hp,hdue⟩ := (mem_numbers h).mp hi
    obtain ⟨hq,hrec⟩ := (holds_expire h).mp hh
    obtain rfl := h.unique i p q e d hp hq
    rw [hone p d hq] at hrec
    exact absurd (hrec hdue) Bool.false_ne_true

theorem cancelled {p i : Nat} {d : κ} (h : s.Good) (he : Effect s (.cancel p) (.flag true) s') (hh : s.Holds i p d) : ¬ s'.Held i := by
  rintro ⟨q,e,hq⟩
  cases he with
  | keep _ _ hc _ _ _ _ => exact hc p rfl rfl
  | cancel _ hmem htimer _ =>
    obtain ⟨hne,hq⟩ := (holds_cancel hmem htimer).mp hq
    exact hne (h.unique i q p e d hq hh)

theorem recurring_same (h : s.Good) (he : Effect s c r s') {p : Nat} (hp : p ∈ s.manager.timers) :
    (s'.manager.timer p).recurring = (s.manager.timer p).recurring := by
  cases he with
  | keep _ _ _ _ _ hsame _ => exact (hsame p).2
  | add _ hnew _ htimer _ =>
    have hne : ∀ {q}, q ∉ s.manager.made → p ≠ q := fun hq he => hq (he ▸ h.inv.made p hp)
    show ((_ : Manager (Nat × κ)).timer p).recurring = _
    rw [htimer, if_neg (hne hnew)]
  | cancel _ _ htimer _ =>
    show ((_ : Manager (Nat × κ)).timer p).recurring = _
    rw [htimer]
    split
    · rename_i hpq
      rw [hpq]
    · rfl
  | expire =>
    show ((s.manager.listExpiredCb _ _).2.timer p).recurring = _
    rw [h.inv.listExpiredCb_timer]
    split
    · exact Timer.afterExpiry_recurring _ _
    · rfl

/-- A timer stays in the set unless it is cancelled or, if it is not recurring, handed out. -/
theorem stays (h : s.Good) (he : Effect s c r s') {i p : Nat} {d : κ} (hh : s.Holds i p d)
    (hcancel : ¬ (c = .cancel p ∧ r = .flag true)) (hout : (s.manager.timer p).recurring = false → i ∉ r.numbers) :
    s'.Holds i p d := by
  cases he with
  | keep _ _ _ _ hmem hsame _ => exact (holds_keep hmem hsame).mpr hh
  | add _ hp hmem htimer _ => exact (holds_add h hp hmem htimer).mpr (.inr hh)
  | cancel _ hmem htimer _ =>
    refine (holds_cancel hmem htimer).mpr ⟨?_,hh⟩
    rintro rfl
    exact hcancel ⟨rfl,rfl⟩
  | expire =>
    refine (holds_expire h).mpr ⟨hh,fun hdue => ?_⟩
    by_contra hr
    exact hout (Bool.eq_false_iff.mpr hr) ((mem_numbers h).mpr ⟨p,d,hh,hdue⟩)

end Effect
theorem step_completes (h : s.Good) (c : Call κ) : ∃ r s', step c s = .ok (r,s') ∧ s'.Good := by
  have hok : ∃ r s', step c s = .ok (r,s') := by
    rw [step]
    split
    swap
    · exact ⟨_,_,rfl⟩
    rename_i hpos
    cases c with
    | cancel p =>
      simp only [act, Manager.cancel]
      split
      · exact ⟨_,_,rfl⟩
      · rename_i hcb
        have hin := h.armed p (of_decide_eq_true hpos) (by simpa [Option.isSome_iff_ne_none] using hcb)
        rw [h.inv.find_of_mem hin]
        exact ⟨_,_,rfl⟩
    | _ => exact ⟨_,_,rfl⟩
  obtain ⟨r,s',he⟩ := hok
  exact ⟨r,s',he,(step_effect h he).good h⟩

theorem run_completes (calls : List (Call κ)) : ∃ rs s, runAll step calls start = .ok (rs,s) ∧ s.Good :=
  runAll_total (fun c _ h => step_completes h c) calls good_start

section Runs
variable {calls : List (Call κ)} {rs : List (Reply κ)} {t : Ledger κ} {i p : Nat} {d : κ}

/-- The first call of a run and the rest. -/
theorem run_cons (hr : runAll step (c :: calls) s = .ok (rs,t)) :
    ∃ r s' rs', step c s = .ok (r,s') ∧ runAll step calls s' = .ok (rs',t) ∧ rs = r :: rs' := by
  rw [runAll] at hr
  cases he : step c s with
  | error e => rw [he] at hr; cases hr
  | ok out =>
    obtain ⟨r,s'⟩ := out
    simp only [he] at hr
    cases hrest : runAll step calls s' with
    | error e => rw [hrest] at hr; cases hr
    | ok rest =>
      rw [hrest] at hr
      cases hr
      exact ⟨r,s',rest.1,rfl,hrest,rfl⟩

theorem run_numbers_lt (h : s.Good) (hr : runAll step calls s = .ok (rs,t)) (hi : i ∈ rs.flatMap Reply.numbers) : i < t.count := by
  have hmono : ∀ {calls : List (Call κ)} {s rs}, s.Good → runAll step calls s = .ok (rs,t) → s.count ≤ t.count := by
    intro calls
    induction calls with
    | nil => intro s rs _ hr; cases hr; exact le_rfl
    | cons c calls ih =>
      intro s rs h hr
      obtain ⟨r,s',rs',he,hrest,-⟩ := run_cons hr
      have heff := step_effect h he
      exact heff.count_le.trans (ih (heff.good h) hrest)
  induction calls generalizing s rs with
  | nil => cases hr; simp at hi
  | cons c calls ih =>
    obtain ⟨r,s',rs',he,hrest,rfl⟩ := run_cons hr
    have heff := step_effect h he
    rcases List.mem_append.mp (List.flatMap_cons ▸ hi) with hi | hi
    · obtain ⟨p,d,hh⟩ := heff.numbers_held h hi
      exact (h.bound i p d hh).trans_le (heff.count_le.trans (hmono (heff.good h) hrest))
    · exact ih (heff.good h) hrest hi

/-- The callback of a timer that has left the set is not handed out any more. -/
theorem run_dead (h : s.Good) (hi : i < s.count) (hdead : ¬ s.Held i) (hr : runAll step calls s = .ok (rs,t)) :
    i ∉ rs.flatMap Reply.numbers := by
  induction calls generalizing s rs with
  | nil => cases hr; simp
  | cons c calls ih =>
    obtain ⟨r,s',rs',he,hrest,rfl⟩ := run_cons hr
    have heff := step_effect h he
    rw [List.flatMap_cons, List.mem_append, not_or]
    refine ⟨fun hin => hdead (heff.numbers_held h hin),ih (heff.good h) (hi.trans_le heff.count_le) ?_ hrest⟩
    rintro ⟨p,d,hh⟩
    exact hdead ⟨p,d,heff.held h hi hh⟩

/-- The callback of a timer that is not recurring is handed out once at most. -/
theorem run_once (h : s.Good) (hi : i < s.count) (hone : ∀ p d, s.Holds i p d → (s.manager.timer p).recurring = false)
    (hr : runAll step calls s = .ok (rs,t)) : (rs.flatMap Reply.numbers).count i ≤ 1 := by
  induction calls generalizing s rs with
  | nil => cases hr; simp
  | cons c calls ih =>
    obtain ⟨r,s',rs',he,hrest,rfl⟩ := run_cons hr
    have heff := step_effect h he
    have hi' := hi.trans_le heff.count_le
    rw [List.flatMap_cons, List.count_append]
    by_cases hin : i ∈ r.numbers
    · have hnone := run_dead (heff.good h) hi' (heff.handed_out h hin hone) hrest
      rw [List.count_eq_zero_of_not_mem hnone]
      exact heff.numbers_count h i
    · rw [List.count_eq_zero_of_not_mem hin, Nat.zero_add]
      refine ih (heff.good h) hi' (fun p d hh => ?_) hrest
      have hold := heff.held h hi hh
      rw [heff.recurring_same h hold.1]
      exact hone p d hold

/-- A timer that is neither cancelled nor, if it is not recurring, handed out in a run is in the set after it. -/
theorem run_stays (h : s.Good) (hh : s.Holds i p d) (hr : runAll step calls s = .ok (rs,t))
    (hcancel : (.cancel p,.flag true) ∉ calls.zip rs)
    (hout : (s.manager.timer p).recurring = false → i ∉ rs.flatMap Reply.numbers) : t.Good ∧ t.Holds i p d := by
  induction calls generalizing s rs with
  | nil => cases hr; exact ⟨h,hh⟩
  | cons c calls ih =>
    obtain ⟨r,s',rs',he,hrest,rfl⟩ := run_cons hr
    have heff := step_effect h he
    rw [List.zip_cons_cons, List.mem_cons, not_or] at hcancel
    rw [List.flatMap_cons] at hout
    have hstays := heff.stays h hh (fun hc => hcancel.1 (by rw [hc.1, hc.2]))
      fun hr hin => hout hr (List.mem_append_left _ hin)
    refine ih (heff.good h) hstays hrest hcancel.2 fun hr hin => hout ?_ (List.mem_append_right _ hin)
    rwa [← heff.recurring_same h hh.1]

/-- A run that begins by making a timer: it takes the next number, and besides it what was held is held. -/
private theorem made_cons {now ms : Nat} {cb : Option κ} {recurring : Bool} (h : s.Good)
    (hr : runAll step (.addTimer p now ms cb recurring :: calls) s = .ok (.made i :: rs,t)) :
    ∃ s', i = s.count ∧ s'.Good ∧ s.count < s'.count ∧ (s'.manager.timer p).recurring = recurring ∧
      (∀ j q d, s'.Holds j q d ↔ q = p ∧ j = s.count ∧ cb = some d ∨ s.Holds j q d) ∧ runAll step calls s' = .ok (rs,t) := by
  obtain ⟨r,s',rs',he,hrest,heq⟩ := run_cons hr
  cases heq
  have heff := step_effect h he
  have hg := heff.good h
  cases heff with
  | keep _ _ _ hnew _ _ _ => exact absurd rfl (hnew i)
  | add hinv hp hmem htimer hmade =>
    refine ⟨_,rfl,hg,Nat.lt_succ_self _,?_,fun j q d => holds_add h hp hmem htimer,hrest⟩
    simp only [htimer, if_true]

theorem made_once {now ms : Nat} {cb : Option κ} (h : s.Good)
    (hr : runAll step (.addTimer p now ms cb false :: calls) s = .ok (.made i :: rs,t)) :
    i = s.count ∧ (rs.flatMap Reply.numbers).count i ≤ 1 := by
  obtain ⟨s',hi,hg,hlt,hrec,hholds,hrest⟩ := made_cons h hr
  refine ⟨hi,run_once hg (hi ▸ hlt) (fun q d hh => ?_) hrest⟩
  rw [hi] at hh
  rcases (hholds s.count q d).mp hh with ⟨rfl,-⟩ | hh
  · exact hrec
  · exact absurd (h.bound _ _ _ hh) (lt_irrefl _)

theorem cancelled_dead (h : s.Good) (hcb : (s.manager.timer p).cb = some (i,d))
    (hr : runAll step (.cancel p :: calls) s = .ok (.flag true :: rs,t)) : i ∉ rs.flatMap Reply.numbers := by
  obtain ⟨r,s',rs',he,hrest,heq⟩ := run_cons hr
  cases heq
  have heff := step_effect h he
  have hmade : p ∈ s.manager.made := by
    by_contra hnot
    rw [step, if_neg (by simpa [possible] using hnot)] at he
    cases he
  have hheld : s.Holds i p d := ⟨h.armed p hmade (by rw [hcb]; rfl),hcb⟩
  exact run_dead (heff.good h) ((h.bound i p d hheld).trans_le heff.count_le) (heff.cancelled h hheld) hrest

theorem made_due {now ms now' : Nat} {recurring : Bool} (h : s.Good)
    (hr : runAll step (.addTimer p now ms (some d) recurring :: calls) s = .ok (.made i :: rs,t))
    (hcancel : (.cancel p,.flag true) ∉ calls.zip rs) (hout : recurring = false → i ∉ rs.flatMap Reply.numbers)
    (hdue : t.manager.next p ≤ now') (tmp : Nat) : some (i,d) ∈ (t.manager.listExpiredCb now' tmp).1 := by
  obtain ⟨s',rfl,hg,-,hrec,hholds,hrest⟩ := made_cons h hr
  obtain ⟨ht,hheld⟩ := run_stays hg ((hholds _ p d).mpr (.inl ⟨rfl,rfl,rfl⟩)) hrest hcancel fun hr => hout (hrec ▸ hr)
  rw [ht.inv.listExpiredCb_cbs, List.mem_map]
  exact ⟨p,List.mem_filter.mpr ⟨hheld.1,decide_eq_true hdue⟩,hheld.2⟩

end Runs

/-- Every run completes, whatever the clock shows. After it, for a timer made next that is not
recurring: its callback is handed out at most once. For a timer that is cancelled next with success:
its callback is not handed out any more. For a timer made next with a callback: until it is cancelled
with success or, if it is not recurring, handed out, every search at a time not before its `m_next`
hands out its callback. -/
theorem callbacks_delivered (before : List (Call κ)) : ∃ rs s, runAll step before start = .ok (rs,s) ∧
    (∀ p now ms cb after i rs' t, runAll step (.addTimer p now ms cb false :: after) s = .ok (.made i :: rs',t) →
      ((rs ++ rs').flatMap Reply.numbers).count i ≤ 1) ∧
    (∀ p i c after rs' t, (s.manager.timer p).cb = some (i,c) →
      runAll step (.cancel p :: after) s = .ok (.flag true :: rs',t) → i ∉ rs'.flatMap Reply.numbers) ∧
    ∀ p now ms c recurring after i rs' t,
      runAll step (.addTimer p now ms (some c) recurring :: after) s = .ok (.made i :: rs',t) →
      (.cancel p,.flag true) ∉ after.zip rs' → (recurring = false → i ∉ rs'.flatMap Reply.numbers) →
      ∀ now' tmp, t.manager.next p ≤ now' →
        ∃ cbs t', step (.listExpiredCb now' tmp) t = .ok (.due cbs,t') ∧ some (i,c) ∈ cbs := by
  obtain ⟨rs,s,hr,h⟩ := run_completes before
  refine ⟨rs,s,hr,?_,?_,?_⟩
  · intro p now ms cb after i rs' t hrun
    obtain ⟨hi,hone⟩ := made_once h hrun
    -- the number was not given out before
    have hnew : i ∉ rs.flatMap Reply.numbers := fun hin => absurd (run_numbers_lt good_start hr hin) (hi ▸ lt_irrefl _)
    rw [List.flatMap_append, List.count_append, List.count_eq_zero_of_not_mem hnew, Nat.zero_add]
    exact hone
  · intro p i c after rs' t hcb hrun
    exact cancelled_dead h hcb hrun
  · intro p now ms c recurring after i rs' t hrun hcancel hout now' tmp hdue
    exact ⟨_,_,rfl,made_due h hrun hcancel hout hdue tmp⟩

/-- Every run completes. After it, the delay for a clock that runs is `~0ull` exactly if there is no
timer; otherwise, as long as the timers stay as they are, a search before the delay is over returns
nothing, and a later one returns something. -/
theorem sleep_agrees (calls : List (Call κ)) : ∃ rs s, runAll step calls start = .ok (rs,s) ∧
    ∀ now, 0 < now → ∃ delay s', step (.getNextTimer now) s = .ok (.delay delay,s') ∧
      (delay = 2^64 - 1 ↔ s.manager.timers = []) ∧
      ∀ m : Manager (Nat × κ), m.timers = s.manager.timers → m.timer = s.manager.timer → s.manager.timers ≠ [] →
        ∀ t tmp, (now ≤ t → t < now + delay → (m.listExpiredCb t tmp).1 = []) ∧
          (now + delay ≤ t → (m.listExpiredCb t tmp).1 ≠ []) := by
  obtain ⟨rs,s,hr,h⟩ := run_completes calls
  refine ⟨rs,s,hr,fun now hnow => ⟨_,_,rfl,?_,?_⟩⟩
  · refine ⟨h.inv.getNextTimer_max hnow,fun hnil => ?_⟩
    rw [Manager.getNextTimer, hnil]
  · intro m htimers htimer hne t tmp
    obtain ⟨p,ps,hs⟩ := List.exists_cons_of_ne_nil hne
    rw [Ne, Manager.listExpiredCb_nil_iff (htimers.trans hs), Manager.next, htimer, Manager.getNextTimer, hs]
    change (now ≤ t → t < now + (if s.manager.next p ≤ now then 0 else s.manager.next p - now) → t < s.manager.next p) ∧
      (now + (if s.manager.next p ≤ now then 0 else s.manager.next p - now) ≤ t → ¬ t < s.manager.next p)
    split <;> omega

end Ledger
end Radixun.Common.Timers
