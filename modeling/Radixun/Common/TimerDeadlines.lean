import Radixun.Common.TimerCalls

/-! When timers expire: all that are due and no other, and not before the time they were armed for. -/
namespace Radixun.Common.Timers
open Foundation.CommandRuns

/-- What a search for expired timers returns and leaves behind. -/
structure ExpiresExactly {κ : Type} (m m' : Manager κ) (now : Nat) (cbs : List (Option κ)) : Prop where
  returned : ∃ due : List Nat, due.Nodup ∧ (∀ p, p ∈ due ↔ p ∈ m.timers ∧ m.next p ≤ now) ∧
    due.Pairwise (fun p q => m.next p ≤ m.next q) ∧ cbs = due.map fun p => (m.timer p).cb
  once : ∀ p ∈ m.timers, m.next p ≤ now → (m.timer p).recurring = false →
    p ∉ m'.timers ∧ m'.timer p = { m.timer p with cb := none }
  again : ∀ p ∈ m.timers, m.next p ≤ now → (m.timer p).recurring = true →
    p ∈ m'.timers ∧ m'.timer p = { m.timer p with next := uint64 (now + (m.timer p).ms) }
  others : ∀ p, ¬(p ∈ m.timers ∧ m.next p ≤ now) → m'.timer p = m.timer p ∧ (p ∈ m'.timers ↔ p ∈ m.timers)
  ordered : m'.Inv

theorem Timer.afterExpiry_once {κ : Type} {t : Timer κ} (h : t.recurring = false) (now : Nat) :
    t.afterExpiry now = { t with cb := none } := if_neg (by rw [h]; exact Bool.false_ne_true)

theorem Timer.afterExpiry_again {κ : Type} {t : Timer κ} (h : t.recurring = true) (now : Nat) :
    t.afterExpiry now = { t with next := uint64 (now + t.ms) } := if_pos h

namespace Manager
variable {κ : Type} {m : Manager κ}

theorem Inv.expiresExactly (h : Inv m) (now tmp : Nat) :
    ExpiresExactly m (m.listExpiredCb now tmp).2 now (m.listExpiredCb now tmp).1 where
  returned := by
    refine ⟨m.timers.filter fun p => m.next p ≤ now,h.nodup.filter _,?_,?_,h.listExpiredCb_cbs now tmp⟩
    · intro p
      rw [List.mem_filter, decide_eq_true_eq]
    · exact (h.sorted.filter _).imp le_next
  once p hp hdue hrec := by
    rw [h.mem_listExpiredCb, h.listExpiredCb_timer, if_pos ⟨hp,hdue⟩]
    exact ⟨fun hin => Bool.false_ne_true (hrec ▸ hin.2 hdue),Timer.afterExpiry_once hrec now⟩
  again p hp hdue hrec := by
    rw [h.mem_listExpiredCb, h.listExpiredCb_timer, if_pos ⟨hp,hdue⟩]
    exact ⟨⟨hp,fun _ => hrec⟩,Timer.afterExpiry_again hrec now⟩
  others p hp := by
    rw [h.mem_listExpiredCb, h.listExpiredCb_timer, if_neg hp]
    exact ⟨rfl,⟨And.left,fun hin => ⟨hin,fun hdue => absurd ⟨hin,hdue⟩ hp⟩⟩⟩
  ordered := h.listExpiredCb now tmp

/-- The calls on a timer leave the other timers alone. -/
theorem cancel_next {p q : Nat} {b : Bool} {m' : Manager κ} (he : m.cancel q = .ok (b,m')) : m'.next p = m.next p := by
  unfold cancel at he
  split at he
  · cases he
    rfl
  · split at he
    · cases he
    · cases he
      rw [erase_next, setTimer_next]
      split
      · rename_i hpq
        rw [hpq, next]
      · rfl

theorem refresh_find {p q : Nat} (hcb : (m.timer p).cb.isNone = false) (hf : m.find p = some q) (now : Nat) :
    m.refresh p now = (true,((m.erase q).setTimer p { m.timer p with next := uint64 (now + (m.timer p).ms) }).insert p) := by
  simp only [refresh, hcb, hf, Bool.false_eq_true, if_false]

theorem reset_find {p q : Nat} (hcb : (m.timer p).cb.isNone = false) (hf : m.find p = some q) (ms now : Nat) :
    (m.reset p ms true now).2.2.timer p = { m.timer p with ms := ms, next := uint64 (now + ms) } := by
  simp only [reset, hcb, hf, Bool.false_eq_true, Bool.true_eq_false, and_false, if_false, if_true]
  exact (setTimer_timer _).trans (if_pos rfl)

theorem refresh_next {p q : Nat} (hne : p ≠ q) (now : Nat) : (m.refresh q now).2.next p = m.next p := by
  unfold refresh
  dsimp only
  split
  · rfl
  · split
    · rfl
    · rw [insert_next, setTimer_next, if_neg hne, erase_next]

theorem reset_next {p q : Nat} (hne : p ≠ q) (ms : Nat) (fromNow : Bool) (now : Nat) :
    (m.reset q ms fromNow now).2.2.next p = m.next p := by
  unfold reset
  dsimp only
  split
  · rfl
  split
  · rfl
  split
  · rfl
  · change ((m.erase _).setTimer q _).next p = _
    rw [setTimer_next, if_neg hne, erase_next]

end Manager

namespace Ledger
variable {κ : Type}

/-- Every run completes, and a search at any time after it, with the timer searched with at any address, returns the
callbacks of exactly the timers that are due, the earlier first; of these it disarms the ones that are not recurring and arms
the others again, and it leaves all other timers alone. -/
theorem expiry_exact (calls : List (Call κ)) : ∃ rs s, runAll step calls start = .ok (rs,s) ∧
    ∀ now tmp, ∃ cbs s', step (.listExpiredCb now tmp) s = .ok (.due cbs,s') ∧
      ExpiresExactly s.manager s'.manager now cbs := by
  obtain ⟨rs,s,hr,h⟩ := run_completes calls
  exact ⟨rs,s,hr,fun now tmp => ⟨_,_,rfl,h.inv.expiresExactly now tmp⟩⟩

/-- The call gives timer `i` another time: as long as it is armed, by a call on it or because it expires. -/
def Rearms (s : Ledger κ) (i : Nat) : Call κ → Prop
  | .refresh p _ => ∃ d, s.Holds i p d
  | .reset p ms fromNow _ => (∃ d, s.Holds i p d) ∧ ¬(ms = (s.manager.timer p).ms ∧ fromNow = false)
  | .listExpiredCb now _ => ∃ p d, s.Holds i p d ∧ s.manager.next p ≤ now
  | _ => False

/-- The call, with that reply, arms timer `i` at `t0` for the period `ms`. -/
inductive Arms (s : Ledger κ) (i t0 ms : Nat) : Call κ → Reply κ → Prop where
  | addTimer (p : Nat) (c : κ) (recurring : Bool) : s.Arms i t0 ms (.addTimer p t0 ms (some c) recurring) (.made i)
  | refresh (p : Nat) (c : κ) (hcb : (s.manager.timer p).cb = some (i,c)) (hms : (s.manager.timer p).ms = ms) :
      s.Arms i t0 ms (.refresh p t0) (.flag true)
  | reset (p : Nat) (c : κ) (hcb : (s.manager.timer p).cb = some (i,c)) : s.Arms i t0 ms (.reset p ms true t0) (.flag true)

/-- Timer `i`, unless it is armed anew, is not returned before the deadline, in whatever run. -/
def NeverEarly (s : Ledger κ) (i deadline : Nat) : Prop :=
  ∀ calls rs t, runAll step calls s = .ok (rs,t) → Along (fun c s => ¬s.Rearms i c) step calls s →
    ∀ now tmp r t', step (.listExpiredCb now tmp) t = .ok (r,t') → i ∈ r.numbers → deadline ≤ now

section Deadline
variable {s s' t : Ledger κ} {c : Call κ} {r : Reply κ} {calls : List (Call κ)} {rs : List (Reply κ)} {i p n : Nat} {d : κ}

/-- One call: a timer in the set keeps its time unless the call arms it anew. -/
theorem step_next (h : s.Good) (he : step c s = .ok (r,s')) (hh : s.Holds i p d) (hc : ¬s.Rearms i c) :
    s'.manager.next p = s.manager.next p := by
  rw [step] at he
  split at he
  swap
  · cases he
    rfl
  rename_i hpos
  cases c with
  | addTimer q now ms cb recurring =>
    cases he
    have hne : p ≠ q := fun hpq => of_decide_eq_true hpos (hpq ▸ h.inv.made p hh.1)
    exact (Manager.setTimer_next _).trans (if_neg hne)
  | cancel q =>
    obtain ⟨out,hout,heq⟩ := map_ok he
    cases heq
    exact Manager.cancel_next hout
  | refresh q now =>
    cases he
    refine Manager.refresh_next ?_ now
    rintro rfl
    exact hc ⟨d,hh⟩
  | reset q ms fromNow now =>
    cases he
    by_cases hsame : ms = (s.manager.timer q).ms ∧ fromNow = false
    · rw [Manager.reset, if_pos hsame]
    · refine Manager.reset_next ?_ ms fromNow now
      rintro rfl
      exact hc ⟨⟨d,hh⟩,hsame⟩
  | getNextTimer now =>
    cases he
    rfl
  | listExpiredCb now tmp =>
    cases he
    have htimer := h.inv.listExpiredCb_timer now tmp p
    rw [if_neg fun hdue => hc ⟨p,d,hh,hdue.2⟩] at htimer
    exact congrArg Timer.next htimer
  | release q =>
    cases he
    rfl

/-- A run that does not arm a timer anew: it has the time it had, as long as it is in the set. -/
theorem run_next (h : s.Good) (hi : i < s.count) (hn : ∀ p d, s.Holds i p d → s.manager.next p = n)
    (hr : runAll step calls s = .ok (rs,t)) (ha : Along (fun c s => ¬s.Rearms i c) step calls s) :
    t.Good ∧ ∀ p d, t.Holds i p d → t.manager.next p = n := by
  have hstep : ∀ (c : Call κ) (s : Ledger κ) r s', (s.Good ∧ i < s.count ∧ ∀ p d, s.Holds i p d → s.manager.next p = n) →
      ¬s.Rearms i c → step c s = .ok (r,s') →
      s'.Good ∧ i < s'.count ∧ ∀ p d, s'.Holds i p d → s'.manager.next p = n := by
    rintro c s r s' ⟨h,hi,hn⟩ hc he
    have heff := step_effect h he
    refine ⟨heff.good h,hi.trans_le heff.count_le,?_⟩
    intro p d hh'
    have hh := heff.held h hi hh'
    rw [step_next h he hh hc, hn p d hh]
  obtain ⟨ht,-,htn⟩ := along_keeps hstep calls ⟨h,hi,hn⟩ ha hr
  exact ⟨ht,htn⟩

/-- A call on a timer that was answered was made on one that exists. -/
theorem step_flag {b : Bool} (he : step c s = .ok (.flag b,s')) : s.possible c = true ∧ s.act c = .ok (.flag b,s') := by
  rw [step] at he
  split at he
  · rename_i hpos
    exact ⟨hpos,he⟩
  · cases he

/-- After the call the timer is in the set with the sum as it comes out in 64 bits. -/
theorem Arms.armed {t0 ms : Nat} (h : s.Good) (ha : s.Arms i t0 ms c r) (he : step c s = .ok (r,s')) :
    ∃ p d, s'.Holds i p d ∧ s'.manager.next p = uint64 (t0 + ms) := by
  have heff := step_effect h he
  cases ha with
  | addTimer p c recurring =>
    cases heff with
    | keep _ _ _ hnew => exact absurd rfl (hnew i)
    | @add _ _ _ _ _ m _ _ hmem htimer _ =>
      have hp : m.timer p = ⟨recurring,ms,uint64 (t0 + ms),some (s.count,c)⟩ := (htimer p).trans (if_pos rfl)
      exact ⟨p,c,⟨(hmem p).mpr (.inl rfl),congrArg Timer.cb hp⟩,congrArg Timer.next hp⟩
  | refresh p c hcb hms =>
    obtain ⟨hpos,hact⟩ := step_flag he
    have hin := h.armed p (of_decide_eq_true hpos) (by rw [hcb]; rfl)
    have hrun := Manager.refresh_find (by rw [hcb]; rfl) (h.inv.find_of_mem hin) t0
    have hs' : s'.manager = (s.manager.refresh p t0).2 := congrArg Ledger.manager (Prod.mk.inj (Except.ok.inj hact)).2.symm
    refine ⟨p,c,heff.stays h ⟨hin,hcb⟩ (fun hc => by cases hc.1) (fun _ => List.not_mem_nil),?_⟩
    rw [hs', hrun, Manager.insert_next, Manager.setTimer_next, if_pos rfl, hms]
  | reset p c hcb =>
    obtain ⟨hpos,hact⟩ := step_flag he
    have hin := h.armed p (of_decide_eq_true hpos) (by rw [hcb]; rfl)
    have hrun := Manager.reset_find (by rw [hcb]; rfl) (h.inv.find_of_mem hin) ms t0
    have hs' : s'.manager = (s.manager.reset p ms true t0).2.2 := congrArg Ledger.manager (Prod.mk.inj (Except.ok.inj hact)).2.symm
    refine ⟨p,c,heff.stays h ⟨hin,hcb⟩ (fun hc => by cases hc.1) (fun _ => List.not_mem_nil),?_⟩
    rw [hs']
    exact congrArg Timer.next hrun

/-- Such a timer is never early exactly if the sum does not wrap. -/
theorem neverEarly_iff (h : s.Good) (hh : s.Holds i p d) (hn : s.manager.next p = uint64 n) : s.NeverEarly i n ↔ n < 2^64 := by
  constructor
  · intro hnever
    have hin : i ∈ (Reply.due (s.manager.listExpiredCb (uint64 n) 0).1).numbers := (mem_numbers h).mpr ⟨p,d,hh,hn.le⟩
    have hle := hnever [] [] s rfl trivial (uint64 n) 0 _ _ rfl hin
    rw [uint64] at hle
    exact hle.trans_lt (Nat.mod_lt _ (by decide))
  · intro hlt calls rs t hr ha now tmp r t' he hin
    obtain ⟨ht,htn⟩ := run_next h (h.bound i p d hh)
      (fun q e hq => by rw [h.unique i q p e d hq hh, hn, uint64, Nat.mod_eq_of_lt hlt]) hr ha
    cases he
    obtain ⟨q,e,hq,hdue⟩ := (mem_numbers ht).mp hin
    rwa [htn q e hq] at hdue

end Deadline

/-- Every run completes. A timer made or armed anew next, at `t0` and for the period `ms`, is never returned before `t0 + ms`,
in whatever run follows and as long as it is not armed anew, exactly if the sum is below `2^64`. -/
theorem never_early_iff (before : List (Call κ)) : ∃ rs s, runAll step before start = .ok (rs,s) ∧
    ∀ i t0 ms c r s', s.Arms i t0 ms c r → step c s = .ok (r,s') → (s'.NeverEarly i (t0 + ms) ↔ t0 + ms < 2^64) := by
  obtain ⟨rs,s,hr,h⟩ := run_completes before
  refine ⟨rs,s,hr,?_⟩
  intro i t0 ms c r s' ha he
  obtain ⟨p,d,hh,hn⟩ := ha.armed h he
  exact neverEarly_iff ((step_effect h he).good h) hh hn

/-- The largest period there is, as a timeout of minus one becomes, wraps to a time before that of the call, and the timer
is returned at once. -/
theorem early_at_once : ∃ s' : Ledger Unit, step (.addTimer 1 1000 (2^64 - 1) (some ()) false) start = .ok (.made 0,s') ∧
    (s'.manager.listExpiredCb 1000 0).1 = [some (0,())] ∧ ¬s'.NeverEarly 0 (1000 + (2^64 - 1)) := by
  have hdue : (Manager.listExpiredCb ((start : Ledger Unit).manager.addTimer 1 1000 (2^64 - 1) (some (0,())) false).2 1000 0).1 =
      [some (0,())] := by decide +kernel
  refine ⟨_,rfl,hdue,?_⟩
  intro hnever
  have hin : 0 ∈ (Reply.due (Manager.listExpiredCb
      ((start : Ledger Unit).manager.addTimer 1 1000 (2^64 - 1) (some (0,())) false).2 1000 0).1).numbers := by
    rw [hdue]
    exact List.mem_singleton_self 0
  have hle := hnever [] [] _ rfl trivial 1000 0 _ _ rfl hin
  omega

end Ledger
end Radixun.Common.Timers
