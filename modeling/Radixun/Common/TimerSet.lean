import Mathlib.Order.Defs.Unbundled
import Radixun.Common.TimerOrder
import Radixun.Foundation.CommandRuns

/-! The timer set over whole runs: which timers it holds, that its order is never disturbed, and that
every search for an armed timer succeeds. Each operation is also given as the writes it makes. -/
namespace Radixun.Common.Timers
open Foundation.CommandRuns
variable {κ : Type}

/-- `Timer::Comparator`; `none` is the null pointer. -/
def Manager.comparator (m : Manager κ) : Option Nat → Option Nat → Bool
  | none, none => false
  | none, some _ => true
  | some _, none => false
  | some p, some q => m.less p q

/-- One write under the lock. `eraseFront` is the erasure of a range that starts the set, `announce`
is the update of `m_tickled` in the protected `addTimer`. -/
inductive Write (κ : Type) where
  | alloc (p : Nat) (t : Timer κ)
  | cb (p : Nat) (c : Option κ)
  | ms (p d : Nat)
  | next (p n : Nat)
  | erase (it : Option Nat)
  | eraseFront (n : Nat)
  | insert (p : Nat)
  | announce (p : Nat)
  | clearTickled
  | free (p : Nat)

/-- What may not happen to the set: an erasure at its end, and a new `m_next` for a timer it holds. -/
inductive Breach where
  | eraseEnd | nextInSet
  deriving DecidableEq, Repr

def Write.perform (m : Manager κ) : Write κ → Except Breach (Manager κ)
  | .alloc p t => if p ∈ m.timers then .error .nextInSet else .ok ({ m with made := p :: m.made }.setTimer p t)
  | .cb p c => .ok (m.setTimer p { m.timer p with cb := c })
  | .ms p d => .ok (m.setTimer p { m.timer p with ms := d })
  | .next p n => if p ∈ m.timers then .error .nextInSet else .ok (m.setTimer p { m.timer p with next := n })
  | .erase it =>
    match it with
    | none => .error .eraseEnd
    | some q => .ok (m.erase q)
  | .eraseFront n => .ok { m with timers := m.timers.drop n }
  | .insert p => .ok (m.insert p)
  | .announce p => .ok { m with tickled := m.tickled || (m.timers.head? = some p && !m.tickled) }
  | .clearTickled => .ok { m with tickled := false }
  | .free p => .ok { m with made := m.made.filter (· ≠ p) }

def performAll : List (Write κ) → Manager κ → Except Breach (Manager κ)
  | [], m => .ok m
  | w :: ws, m =>
    match w.perform m with
    | .error e => .error e
    | .ok m' => performAll ws m'

theorem performAll_cons {w : Write κ} {ws : List (Write κ)} {m m' : Manager κ} (h : w.perform m = .ok m') :
    performAll (w :: ws) m = performAll ws m' := by rw [performAll, h]

theorem performAll_append {ws vs : List (Write κ)} {m m' : Manager κ} (h : performAll ws m = .ok m') :
    performAll (ws ++ vs) m = performAll vs m' := by
  induction ws generalizing m with
  | nil => cases h; rfl
  | cons w ws ih =>
    rw [performAll] at h
    cases hw : w.perform m with
    | error e => rw [hw] at h; cases h
    | ok m₁ =>
      rw [hw] at h
      rw [List.cons_append, performAll_cons hw]
      exact ih h

/-- A callback as a timer holds it: the one given, or bound to a condition by `OnTimer`. -/
inductive Callback (κ ω : Type) where
  | plain (c : κ)
  | onTimer (cond : ω) (c : κ)
  deriving DecidableEq

/-- Calls on the manager and on its timers. `release` is the end of a timer that is not in the set
and that nobody refers to any more; its address may be used again. -/
inductive Op (κ ω : Type) where
  | addTimer (p now ms : Nat) (c : κ) (recurring : Bool)
  | addConditionTimer (p now ms : Nat) (c : κ) (cond : ω) (recurring : Bool)
  | cancel (p : Nat)
  | refresh (p now : Nat)
  | reset (p ms : Nat) (fromNow : Bool) (now : Nat)
  | getNextTimer (now : Nat)
  | listExpiredCb (now tmp : Nat)
  | release (p : Nat)

namespace Op
open Manager
variable {ω : Type}

/-- The call can be made: an address is free before a timer is allocated there, and is that of a timer
for the calls on timers. -/
def possible (m : Manager (Callback κ ω)) : Op κ ω → Bool
  | .addTimer p .. | .addConditionTimer p .. => p ∉ m.made
  | .cancel p | .refresh p _ | .reset p .. => p ∈ m.made
  | .getNextTimer _ | .listExpiredCb .. => true
  | .release p => p ∈ m.made ∧ p ∉ m.timers

def act (m : Manager (Callback κ ω)) : Op κ ω → Except Fault (Unit × Manager (Callback κ ω))
  | .addTimer p now ms c recurring => .ok ((),(m.addTimer p now ms (some (.plain c)) recurring).2)
  | .addConditionTimer p now ms c cond recurring => .ok ((),(m.addTimer p now ms (some (.onTimer cond c)) recurring).2)
  | .cancel p => (m.cancel p).map fun r => ((),r.2)
  | .refresh p now => .ok ((),(m.refresh p now).2)
  | .reset p ms fromNow now => .ok ((),(m.reset p ms fromNow now).2.2)
  | .getNextTimer now => .ok ((),(m.getNextTimer now).2)
  | .listExpiredCb now tmp => .ok ((),(m.listExpiredCb now tmp).2)
  | .release p => .ok ((),{ m with made := m.made.filter (· ≠ p) })

/-- A call that can not be made changes nothing. -/
def step (op : Op κ ω) (m : Manager (Callback κ ω)) : Except Fault (Unit × Manager (Callback κ ω)) :=
  if op.possible m then op.act m else .ok ((),m)

/-- The loop over the expired timers. -/
def expireWrites (now : Nat) : List Nat → Manager κ → List (Write κ)
  | [], _ => []
  | p :: ps, m =>
    (if (m.timer p).recurring then [.next p (uint64 (now + (m.timer p).ms)),.insert p] else [.cb p none]) ++
      expireWrites now ps (expire now m p)

/-- The writes of a call in the order of the source. -/
def writes (m : Manager (Callback κ ω)) : Op κ ω → List (Write (Callback κ ω))
  | .addTimer p now ms c recurring => [.alloc p ⟨recurring,ms,uint64 (now + ms),some (.plain c)⟩,.insert p,.announce p]
  | .addConditionTimer p now ms c cond recurring =>
    [.alloc p ⟨recurring,ms,uint64 (now + ms),some (.onTimer cond c)⟩,.insert p,.announce p]
  | .cancel p => if (m.timer p).cb.isNone then [] else [.cb p none,.erase (m.find p)]
  | .refresh p now =>
    if (m.timer p).cb.isNone ∨ m.find p = none then []
    else [.erase (m.find p),.next p (uint64 (now + (m.timer p).ms)),.insert p]
  | .reset p ms fromNow now =>
    let t := m.timer p
    if ms = t.ms ∧ fromNow = false ∨ t.cb.isNone ∨ m.find p = none then []
    else
      let start := if fromNow then now else uint64Sub t.next t.ms
      [.erase (m.find p),.ms p ms,.next p (uint64 (start + ms)),.insert p,.announce p]
  | .getNextTimer _ => [.clearTickled]
  | .listExpiredCb now tmp =>
    match m.timers with
    | [] => []
    | p :: _ =>
      if now < m.next p then []
      else
        let expired := m.expired now tmp
        .eraseFront expired.length :: expireWrites now expired { m with timers := m.timers.drop expired.length }
  | .release p => [.free p]

end Op

namespace Manager
variable {m : Manager κ} {p q : Nat}

/-- Null comes first, then the earlier timer, then the lower address. -/
instance (m : Manager κ) : IsStrictWeakOrder (Option Nat) fun l r => m.comparator l r = true where
  irrefl l := by cases l <;> simp [comparator, less_iff]
  trans a b c := by
    cases a <;> cases b <;> cases c <;> simp only [comparator, less_iff, reduceCtorEq, imp_self, implies_true, false_imp_iff]
    omega
  incomp_trans a b c := by
    cases a <;> cases b <;> cases c <;> simp only [comparator, less_iff, reduceCtorEq, not_true_eq_false, not_false_eq_true,
      and_false, and_true, imp_self, implies_true, false_imp_iff]
    omega

theorem setTimer_setTimer (t u : Timer κ) : (m.setTimer p t).setTimer p u = m.setTimer p u := by
  simp only [setTimer, Function.update_idem]

@[simp] theorem setTimer_timer (t : Timer κ) : (m.setTimer p t).timer q = if q = p then t else m.timer q :=
  Function.update_apply _ _ _ _

@[simp] theorem erase_timer : (m.erase p).timer = m.timer := rfl

/-- A timer of the set is found: it stands behind every timer that is before it. -/
theorem Inv.find_of_mem (h : Inv m) (hp : p ∈ m.timers) : m.find p = some p := by
  have hself : m.less p p = false := by
    rw [Bool.eq_false_iff, ne_eq, less_iff]
    omega
  cases hf : m.timers.find? fun q => !m.less q p with
  | none => exact absurd (List.find?_eq_none.mp hf p hp) (by simp [hself])
  | some r =>
    obtain ⟨hr,front,behind,htimers,hfront⟩ := List.find?_eq_some_iff_append.mp hf
    have hrp : m.le r p := by
      rw [htimers] at hp
      rcases List.mem_append.mp hp with hp | hp
      · exact absurd (hfront p hp) (by simp [hself])
      · rcases List.mem_cons.mp hp with rfl | hp
        · exact hself
        · have hsorted := h.sorted
          rw [htimers] at hsorted
          exact (List.pairwise_cons.mp (List.pairwise_append.mp hsorted).2.1).1 p hp
    have hfind : m.find p = some r := by
      rw [find, hf]
      exact Option.filter_some_pos (by simp [show m.less p r = false from hrp])
    rw [hfind, (find_some hfind).1]

/-- Besides the order: the timers in the set are those with a callback. -/
structure Armed (m : Manager κ) : Prop extends Inv m where
  armed : ∀ p ∈ m.made, p ∈ m.timers ↔ (m.timer p).cb.isSome = true

theorem armed_init : Armed (init : Manager κ) := ⟨inv_init,by simp [init]⟩

namespace Armed

theorem find_eq (h : Armed m) (hp : p ∈ m.made) (hcb : (m.timer p).cb.isSome = true) : m.find p = some p :=
  h.find_of_mem ((h.armed p hp).mpr hcb)

theorem insert (h : Inv m) (ha : ∀ q ∈ m.made, q ≠ p → (q ∈ m.timers ↔ (m.timer q).cb.isSome = true))
    (hmade : p ∈ m.made) (hb : m.next p < 2^64) (hcb : (m.timer p).cb.isSome = true) : Armed (m.insert p) := by
  refine ⟨h.insert hmade hb,fun q hq => ?_⟩
  rw [mem_insert, insert_timer]
  by_cases hqp : q = p
  · simp [hqp, hcb]
  · simp only [hqp, false_or]
    exact ha q hq hqp

theorem tickle (h : Armed m) (tickled : Bool) : Armed { m with tickled := tickled } := ⟨h.toInv.tickle tickled,h.armed⟩

/-- A timer that was taken out of the set is put back at another time. -/
theorem move (h : Armed m) (hp : p ∈ m.timers) {t : Timer κ} (hcb : t.cb = (m.timer p).cb) (hb : t.next < 2^64) :
    Armed (((m.erase p).setTimer p t).insert p) := by
  have hmade := h.made p hp
  refine insert ((h.erase p).setTimer (h.notMem_erase p) t) (fun q hq hqp => ?_) hmade ?_ ?_
  · have hiff : q ∈ (m.erase p).timers ↔ q ∈ m.timers := by
      rw [Manager.erase, List.Nodup.mem_erase_iff h.nodup, and_iff_right hqp]
    rw [setTimer_timers, hiff, setTimer_timer, if_neg hqp]
    exact h.armed q hq
  · rwa [setTimer_next, if_pos rfl]
  · rw [setTimer_timer, if_pos rfl, hcb]
    exact (h.armed p hmade).mp hp

theorem addTimer (h : Armed m) (hp : p ∉ m.made) (now ms : Nat) (c : κ) (recurring : Bool) :
    Armed (m.addTimer p now ms (some c) recurring).2 := by
  refine ⟨h.toInv.addTimer hp now ms _ recurring,fun q hq => ?_⟩
  have htimer : (m.addTimer p now ms (some c) recurring).2.timer q =
      if q = p then ⟨recurring,ms,uint64 (now + ms),some c⟩ else m.timer q := setTimer_timer _
  have hmem : q ∈ (m.addTimer p now ms (some c) recurring).2.timers ↔ q = p ∨ q ∈ m.timers := mem_insert
  rw [hmem, htimer]
  rcases List.mem_cons.mp hq with rfl | hq
  · simp
  · have hne : q ≠ p := fun he => hp (he ▸ hq)
    rw [if_neg hne, or_iff_right hne]
    exact h.armed q hq

/-- A timer without a callback is outside of the set. -/
theorem disarm (h : Armed m) (p : Nat) : Armed ((m.setTimer p { m.timer p with cb := none }).erase p) := by
  have hinv : Inv (m.setTimer p { m.timer p with cb := none }) := h.setTimer_same rfl
  refine ⟨hinv.erase p,fun q hq => ?_⟩
  have htimer : ((m.setTimer p { m.timer p with cb := none }).erase p).timer q =
      if q = p then { m.timer p with cb := none } else m.timer q := setTimer_timer _
  rw [htimer, Manager.erase, hinv.nodup.mem_erase_iff, setTimer_timers]
  by_cases hqp : q = p
  · simp [hqp]
  · rw [if_neg hqp, and_iff_right hqp]
    exact h.armed q hq

/-- The address of a timer outside of the set is given back. -/
theorem release (h : Armed m) (hp : p ∉ m.timers) : Armed { m with made := m.made.filter (· ≠ p) } := by
  refine ⟨⟨h.sorted,h.nodup,fun q hq => ?_,h.bounded⟩,fun q hq => h.armed q (List.mem_filter.mp hq).1⟩
  refine List.mem_filter.mpr ⟨h.made q hq,?_⟩
  exact decide_eq_true fun he => hp (he ▸ hq)

end Armed
end Manager

namespace Op
open Manager
variable {ω : Type} {m : Manager (Callback κ ω)} {p : Nat}

/-- The call succeeds, its writes one after the other do the same, and the set stays as it should be. -/
def Kept (op : Op κ ω) (m : Manager (Callback κ ω)) : Prop :=
  ∃ m', op.act m = .ok ((),m') ∧ performAll (op.writes m) m = .ok m' ∧ Armed m'

private theorem kept_add (h : Armed m) (hp : p ∉ m.made) (now ms : Nat) (c : Callback κ ω) (recurring : Bool) :
    performAll [.alloc p ⟨recurring,ms,uint64 (now + ms),some c⟩,.insert p,.announce p] m =
      .ok (m.addTimer p now ms (some c) recurring).2 := by
  have hnot : p ∉ m.timers := fun hin => hp (h.made p hin)
  simp only [performAll, Write.perform, if_neg hnot]
  rfl

private theorem kept_cancel (h : Armed m) (hp : p ∈ m.made) : Kept (.cancel p : Op κ ω) m := by
  simp only [Kept, act, writes, Manager.cancel]
  cases hcb : (m.timer p).cb with
  | none => exact ⟨m,rfl,rfl,h⟩
  | some c =>
    rw [h.find_eq hp (by rw [hcb]; rfl)]
    exact ⟨_,rfl,rfl,h.disarm p⟩

private theorem kept_refresh (h : Armed m) (hp : p ∈ m.made) (now : Nat) : Kept (.refresh p now : Op κ ω) m := by
  simp only [Kept, act, writes, Manager.refresh]
  cases hcb : (m.timer p).cb with
  | none => exact ⟨m,rfl,by simp [performAll],h⟩
  | some c =>
    have hsome : (m.timer p).cb.isSome = true := by rw [hcb]; rfl
    have hin := (h.armed p hp).mpr hsome
    rw [h.find_eq hp hsome]
    refine ⟨((m.erase p).setTimer p { m.timer p with next := uint64 (now + (m.timer p).ms) }).insert p,?_,?_,?_⟩
    · simp [hcb]
    · simp only [Option.isNone_some, Bool.false_eq_true, reduceCtorEq, or_self, if_false, performAll,
        Write.perform, if_neg (h.notMem_erase p)]
      rfl
    · exact h.move hin rfl (Nat.mod_lt _ (by decide))

private theorem kept_reset (h : Armed m) (hp : p ∈ m.made) (ms : Nat) (fromNow : Bool) (now : Nat) :
    Kept (.reset p ms fromNow now : Op κ ω) m := by
  simp only [Kept, act, writes, Manager.reset]
  by_cases hsame : ms = (m.timer p).ms ∧ fromNow = false
  · exact ⟨m,by simp [hsame],by simp [hsame, performAll],h⟩
  cases hcb : (m.timer p).cb with
  | none => exact ⟨m,by simp [hsame],by simp [performAll],h⟩
  | some c =>
    have hsome : (m.timer p).cb.isSome = true := by rw [hcb]; rfl
    have hin := (h.armed p hp).mpr hsome
    rw [h.find_eq hp hsome]
    simp only [hsame, Option.isNone_some, Bool.false_eq_true, reduceCtorEq, or_self, if_false]
    refine ⟨_,rfl,?_,?_⟩
    · simp only [performAll, Write.perform, erase_timer, setTimer_timers, if_neg (h.notMem_erase p), setTimer_setTimer,
        setTimer_timer, if_true, hcb]
      rfl
    · refine (h.move hin hcb.symm ?_).tickle _
      exact Nat.mod_lt _ (by decide)

/-- The timers still to be treated are outside of the set with their callbacks, all others are as they should be. -/
private theorem kept_expire {ps : List Nat} (h : Inv m) (hn : ps.Nodup)
    (hp : ∀ p ∈ ps, p ∉ m.timers ∧ p ∈ m.made ∧ (m.timer p).cb.isSome = true)
    (ha : ∀ p ∈ m.made, p ∉ ps → (p ∈ m.timers ↔ (m.timer p).cb.isSome = true)) (now : Nat) :
    performAll (expireWrites now ps m) m = .ok (expireAll now ps m).2 ∧ Armed (expireAll now ps m).2 := by
  induction ps generalizing m with
  | nil => exact ⟨rfl,h,fun p hp => ha p hp List.not_mem_nil⟩
  | cons p ps ih =>
    obtain ⟨hnot,hmade,hcb⟩ := hp p List.mem_cons_self
    obtain ⟨hnew,hrest⟩ := List.nodup_cons.mp hn
    have hother : ∀ q, q ≠ p → (expire now m p).timer q = m.timer q ∧ (q ∈ (expire now m p).timers ↔ q ∈ m.timers) := by
      intro q hq
      unfold expire
      dsimp only
      split <;> simp [hq]
    have hmade' : (expire now m p).made = m.made := by
      unfold expire Manager.insert
      dsimp only
      split <;> rfl
    have hpself : p ∈ (expire now m p).timers ↔ ((expire now m p).timer p).cb.isSome = true := by
      unfold expire
      dsimp only
      split <;> simp [hcb, hnot]
    have hperform : performAll (expireWrites now (p :: ps) m) m = performAll (expireWrites now ps (expire now m p)) (expire now m p) := by
      rw [expireWrites]
      refine performAll_append ?_
      unfold expire
      dsimp only
      split
      · simp only [performAll, Write.perform, if_neg hnot]
      · simp only [performAll, Write.perform]
    rw [hperform]
    refine ih (h.expire hnot hmade now) hrest ?_ ?_
    · intro q hq
      have hne : q ≠ p := fun he => hnew (he ▸ hq)
      obtain ⟨hqnot,hqmade,hqcb⟩ := hp q (List.mem_cons_of_mem p hq)
      obtain ⟨ht,hmem⟩ := hother q hne
      exact ⟨fun hin => hqnot (hmem.mp hin),hmade' ▸ hqmade,ht ▸ hqcb⟩
    · intro q hq hqps
      by_cases hqp : q = p
      · rw [hqp]
        exact hpself
      · obtain ⟨ht,hmem⟩ := hother q hqp
        rw [ht, hmem]
        exact ha q (hmade' ▸ hq) fun hin => (List.mem_cons.mp hin).elim hqp hqps

private theorem kept_listExpiredCb (h : Armed m) (now tmp : Nat) : Kept (.listExpiredCb now tmp : Op κ ω) m := by
  simp only [Kept, act, writes, Manager.listExpiredCb]
  cases ht : m.timers with
  | nil => exact ⟨m,rfl,rfl,h⟩
  | cons p ps =>
    dsimp only
    by_cases hlate : now < m.next p
    · simp only [if_pos hlate]
      exact ⟨m,rfl,rfl,h⟩
    · simp only [if_neg hlate]
      rw [← ht]
      have happ := Inv.expired_append m now tmp
      generalize m.expired now tmp = front at happ
      have hnodup := h.nodup
      rw [happ] at hnodup
      obtain ⟨hfront,-,hdisjoint⟩ := List.nodup_append.mp hnodup
      have hfrontmem : ∀ q ∈ front, q ∈ m.timers := fun q hq => happ ▸ List.mem_append_left _ hq
      have hkept := kept_expire (h.toInv.sublist (List.drop_sublist front.length m.timers)) hfront ?_ ?_ now
      · refine ⟨_,rfl,?_,hkept.2⟩
        rw [performAll_cons (show Write.perform m (.eraseFront front.length) = .ok
          { m with timers := m.timers.drop front.length } from rfl)]
        exact hkept.1
      · intro q hq
        have hmade := h.made q (hfrontmem q hq)
        exact ⟨fun hin => hdisjoint q hq q hin rfl,hmade,(h.armed q hmade).mp (hfrontmem q hq)⟩
      · intro q hq hqfront
        rw [← h.armed q hq]
        refine ⟨fun hin => List.mem_of_mem_drop hin,fun hin => ?_⟩
        rw [happ] at hin
        exact (List.mem_append.mp hin).resolve_left hqfront

theorem kept (h : Armed m) (op : Op κ ω) (hop : op.possible m = true) : op.Kept m := by
  cases op with
  | addTimer p now ms c recurring =>
    have hp : p ∉ m.made := of_decide_eq_true hop
    exact ⟨_,rfl,kept_add h hp now ms _ recurring,h.addTimer hp now ms _ recurring⟩
  | addConditionTimer p now ms c cond recurring =>
    have hp : p ∉ m.made := of_decide_eq_true hop
    exact ⟨_,rfl,kept_add h hp now ms _ recurring,h.addTimer hp now ms _ recurring⟩
  | cancel p => exact kept_cancel h (of_decide_eq_true hop)
  | refresh p now => exact kept_refresh h (of_decide_eq_true hop) now
  | reset p ms fromNow now => exact kept_reset h (of_decide_eq_true hop) ms fromNow now
  | getNextTimer now => exact ⟨_,rfl,rfl,h.tickle false⟩
  | listExpiredCb now tmp => exact kept_listExpiredCb h now tmp
  | release p => exact ⟨_,rfl,rfl,h.release (of_decide_eq_true hop).2⟩

theorem step_kept (h : Armed m) (op : Op κ ω) : ∃ m', op.step m = .ok ((),m') ∧ Armed m' := by
  rw [step]
  split
  · rename_i hop
    obtain ⟨m',hm,-,h'⟩ := kept h op hop
    exact ⟨m',hm,h'⟩
  · exact ⟨m,rfl,h⟩

/-- Every run of calls succeeds. Along it, the writes of each call neither change `m_next` of a timer in
the set nor erase at its end. After it the set is ordered strictly, null pointers included, it holds
no timer twice and exactly the timers with a callback, and `find` succeeds for these. -/
theorem timer_set_kept (ops : List (Op κ ω)) :
    Along (fun op m => op.possible m = true → op.Kept m) step ops init ∧
    ∃ rs m, runAll step ops (init : Manager (Callback κ ω)) = .ok (rs,m) ∧
      IsStrictWeakOrder (Option Nat) (fun l r => m.comparator l r = true) ∧ m.timers.Nodup ∧
      (∀ p ∈ m.made, p ∈ m.timers ↔ (m.timer p).cb.isSome = true) ∧
      ∀ p ∈ m.made, (m.timer p).cb.isSome = true → m.find p = some p := by
  have hsucc : ∀ op m, Armed m → ∃ r m', step op m = .ok (r,m') ∧ Armed m' := fun (op : Op κ ω) m h => ⟨(),step_kept h op⟩
  constructor
  · refine along_imp (I := Armed) (fun op m h _ hop => kept h op hop) ?_ ops armed_init (along_true step ops init)
    intro op m r m' h _ he
    obtain ⟨_,m₁,h₁,h'⟩ := hsucc op m h
    rw [h₁] at he
    cases he
    exact h'
  · obtain ⟨rs,m,hr,h⟩ := runAll_total hsucc ops armed_init
    exact ⟨rs,m,hr,inferInstance,h.nodup,h.armed,fun p hp hcb => h.find_eq hp hcb⟩

end Op

end Radixun.Common.Timers
