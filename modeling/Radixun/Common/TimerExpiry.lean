import Mathlib.Data.List.TakeWhile
import Radixun.Common.TimerOrder

/-! What a search for expired timers takes out of the set, and what it leaves of each timer. -/
namespace Radixun.Common.Timers

/-- In an ordered list, what passes a test that the smaller pass with it stands in front. -/
theorem takeWhile_of_pairwise {α : Type} {r : α → α → Prop} {p : α → Bool} (hp : ∀ a b, r a b → p b = true → p a = true)
    {l : List α} (hl : l.Pairwise r) : l.takeWhile p = l.filter p ∧ l.dropWhile p = l.filter fun a => !p a := by
  induction hl with
  | nil => exact ⟨rfl,rfl⟩
  | @cons a l ha hl ih =>
    cases hpa : p a with
    | true => simp [hpa, ih]
    | false =>
      have hnone : ∀ b ∈ l, p b = false := by
        intro b hb
        by_contra hpb
        have := hp a b (ha b hb) (by simpa using hpb)
        rw [hpa] at this
        cases this
      constructor
      · simpa [hpa] using hnone
      · rw [List.dropWhile_cons_of_neg (by simp [hpa]), List.filter_cons_of_pos (by simp [hpa]), List.filter_eq_self.mpr]
        intro b hb
        rw [hnone b hb]
        rfl

/-- A timer behind its expiry. -/
def Timer.afterExpiry {κ : Type} (now : Nat) (t : Timer κ) : Timer κ :=
  if t.recurring then { t with next := uint64 (now + t.ms) } else { t with cb := none }

@[simp] theorem Timer.afterExpiry_recurring {κ : Type} (now : Nat) (t : Timer κ) : (t.afterExpiry now).recurring = t.recurring := by
  unfold afterExpiry
  split <;> rfl

@[simp] theorem Timer.afterExpiry_ms {κ : Type} (now : Nat) (t : Timer κ) : (t.afterExpiry now).ms = t.ms := by
  unfold afterExpiry
  split <;> rfl

theorem Timer.afterExpiry_cb {κ : Type} (now : Nat) (t : Timer κ) :
    (t.afterExpiry now).cb = if t.recurring = true then t.cb else none := by
  unfold afterExpiry
  split <;> rfl

namespace Manager
variable {κ : Type} {m : Manager κ} {p q : Nat}

theorem expire_timer (now : Nat) (m : Manager κ) (p q : Nat) :
    (expire now m p).timer q = if q = p then (m.timer p).afterExpiry now else m.timer q := by
  unfold expire Timer.afterExpiry
  dsimp only
  split <;> exact Function.update_apply _ _ _ _

theorem mem_expire {now : Nat} : q ∈ (expire now m p).timers ↔ q ∈ m.timers ∨ q = p ∧ (m.timer p).recurring = true := by
  unfold expire
  dsimp only
  split
  · rename_i hr
    rw [mem_insert, setTimer_timers, or_comm, and_iff_left hr]
  · rename_i hr
    rw [setTimer_timers, or_iff_left fun h => hr h.2]

/-- The loop collects the callbacks as they were before it. -/
theorem expireAll_cbs {now : Nat} {ps : List Nat} (hn : ps.Nodup) :
    (expireAll now ps m).1 = ps.map fun p => (m.timer p).cb := by
  induction ps generalizing m with
  | nil => rfl
  | cons p ps ih =>
    obtain ⟨hp,hn⟩ := List.nodup_cons.mp hn
    rw [expireAll, ih hn, List.map_cons]
    have hrest : ps.map (fun q => ((expire now m p).timer q).cb) = ps.map fun q => (m.timer q).cb := by
      apply List.map_congr_left
      intro q hq
      have hne : q ≠ p := fun he => hp (he ▸ hq)
      rw [expire_timer, if_neg hne]
    exact congrArg ((m.timer p).cb :: ·) hrest

theorem expireAll_timer {now : Nat} {ps : List Nat} (hn : ps.Nodup) :
    (expireAll now ps m).2.timer q = if q ∈ ps then (m.timer q).afterExpiry now else m.timer q := by
  induction ps generalizing m with
  | nil => rfl
  | cons p ps ih =>
    obtain ⟨hp,hn⟩ := List.nodup_cons.mp hn
    rw [expireAll, ih hn, expire_timer]
    by_cases hqp : q = p
    · rw [hqp, if_neg hp, if_pos rfl, if_pos List.mem_cons_self]
    · simp only [List.mem_cons, hqp, false_or, if_false]

theorem mem_expireAll {now : Nat} {ps : List Nat} (hn : ps.Nodup) :
    q ∈ (expireAll now ps m).2.timers ↔ q ∈ m.timers ∨ q ∈ ps ∧ (m.timer q).recurring = true := by
  induction ps generalizing m with
  | nil => simp [expireAll]
  | cons p ps ih =>
    obtain ⟨hp,hn⟩ := List.nodup_cons.mp hn
    rw [expireAll, ih hn, mem_expire, expire_timer]
    by_cases hqp : q = p
    · simp [hqp, hp]
    · simp [hqp]

theorem expireAll_made (now : Nat) (ps : List Nat) (m : Manager κ) : (expireAll now ps m).2.made = m.made := by
  induction ps generalizing m with
  | nil => rfl
  | cons p ps ih =>
    rw [expireAll, ih]
    unfold expire
    dsimp only
    split <;> rfl

/-- Nothing is returned exactly when the first timer is not due. -/
theorem listExpiredCb_nil_iff {ps : List Nat} (h : m.timers = p :: ps) (now tmp : Nat) :
    (m.listExpiredCb now tmp).1 = [] ↔ now < m.next p := by
  unfold listExpiredCb
  rw [h]
  dsimp only
  split
  · rename_i hlt
    exact iff_of_true rfl hlt
  · rename_i hge
    refine iff_of_false ?_ hge
    have hfirst : ∃ q qs, m.expired now tmp = q :: qs := by
      unfold expired
      rw [h]
      by_cases hbelow : m.next p < now ∨ m.next p = now ∧ p < tmp
      · rw [List.takeWhile_cons_of_pos (by simpa using hbelow)]
        exact ⟨_,_,rfl⟩
      · rw [List.takeWhile_cons_of_neg (by simpa using hbelow)]
        change ∃ q qs, (p :: ps).takeWhile (fun p => decide (m.next p = now)) = q :: qs
        have hnow : m.next p = now := by omega
        rw [List.takeWhile_cons_of_pos (by simpa using hnow)]
        exact ⟨_,_,rfl⟩
    obtain ⟨q,qs,hexp⟩ := hfirst
    rw [hexp, expireAll]
    exact List.cons_ne_nil _ _

namespace Inv

/-- The timers that are due, in the order of the set. The address of the timer searched with does not matter. -/
theorem expired_eq (h : Inv m) (now tmp : Nat) : m.expired now tmp = m.timers.filter fun p => m.next p ≤ now := by
  let below : Nat → Bool := fun p => m.next p < now || m.next p = now && p < tmp
  have hbelow : ∀ p, below p = true ↔ m.next p < now ∨ m.next p = now ∧ p < tmp := fun p => by simp [below]
  have hdown : ∀ a b, m.le a b → below b = true → below a = true := by
    intro a b hab hb
    rw [hbelow] at hb ⊢
    rw [le_iff] at hab
    omega
  obtain ⟨htake,hdrop⟩ := takeWhile_of_pairwise hdown h.sorted
  have hsplit : m.timers.drop (m.timers.takeWhile below).length = m.timers.dropWhile below := by
    have := @List.drop_left _ (m.timers.takeWhile below) (m.timers.dropWhile below)
    rwa [List.takeWhile_append_dropWhile] at this
  have hrest : (m.timers.dropWhile below).takeWhile (fun p => m.next p = now) =
      (m.timers.dropWhile below).filter fun p => m.next p ≤ now := by
    have hlate : ∀ p ∈ m.timers.dropWhile below, now ≤ m.next p := by
      intro p hp
      rw [hdrop, List.mem_filter] at hp
      have hnot : ¬ below p = true := by simpa using hp.2
      rw [hbelow] at hnot
      omega
    have hsorted : (m.timers.dropWhile below).Pairwise fun a b => now ≤ m.next a ∧ m.next a ≤ m.next b :=
      (h.sorted.sublist (List.dropWhile_sublist _)).imp_of_mem fun ha _ hab => ⟨hlate _ ha,le_next hab⟩
    rw [(takeWhile_of_pairwise (p := fun p => decide (m.next p = now)) ?_ hsorted).1]
    · apply List.filter_congr
      intro p hp
      have := hlate p hp
      rw [decide_eq_decide]
      omega
    · intro a b hab hb
      simp only [decide_eq_true_eq] at hb ⊢
      omega
  have hfront : (m.timers.takeWhile below).filter (fun p => m.next p ≤ now) = m.timers.takeWhile below := by
    rw [List.filter_eq_self]
    intro p hp
    have := (hbelow p).mp (List.mem_takeWhile_imp hp)
    simp only [decide_eq_true_eq]
    omega
  change m.timers.takeWhile below ++ (m.timers.drop (m.timers.takeWhile below).length).takeWhile _ = _
  rw [hsplit, hrest]
  conv_rhs => rw [← List.takeWhile_append_dropWhile (p := below) (l := m.timers), List.filter_append, hfront]

theorem mem_expired (h : Inv m) (now tmp : Nat) : p ∈ m.expired now tmp ↔ p ∈ m.timers ∧ m.next p ≤ now := by
  rw [h.expired_eq, List.mem_filter, decide_eq_true_eq]

theorem expired_nodup (h : Inv m) (now tmp : Nat) : (m.expired now tmp).Nodup := by
  rw [h.expired_eq]
  exact h.nodup.filter _

/-- The tests in front of the search change nothing. -/
theorem listExpiredCb_eq (h : Inv m) (now tmp : Nat) :
    m.listExpiredCb now tmp = Manager.expireAll now (m.expired now tmp) { m with timers := m.timers.drop (m.expired now tmp).length } := by
  have hnil : m.expired now tmp = [] → m.listExpiredCb now tmp = ([],m) → m.listExpiredCb now tmp =
      Manager.expireAll now (m.expired now tmp) { m with timers := m.timers.drop (m.expired now tmp).length } := by
    intro hexp hcall
    rw [hcall, hexp]
    rfl
  unfold Manager.listExpiredCb at hnil ⊢
  cases ht : m.timers with
  | nil =>
    rw [ht] at hnil
    exact hnil (by rw [h.expired_eq, ht]; rfl) rfl
  | cons p ps =>
    rw [ht] at hnil
    dsimp only at hnil ⊢
    split
    · rename_i hlt
      rw [if_pos hlt] at hnil
      refine hnil ?_ rfl
      rw [h.expired_eq, List.filter_eq_nil_iff]
      intro q hq
      have hsorted := h.sorted
      rw [ht] at hq hsorted
      have hle : m.next p ≤ m.next q := by
        rcases List.mem_cons.mp hq with rfl | hq
        · exact le_rfl
        · exact le_next ((List.pairwise_cons.mp hsorted).1 q hq)
      simp only [decide_eq_true_eq]
      omega
    · rfl

/-- The callbacks returned are those of the timers that are due. -/
theorem listExpiredCb_cbs (h : Inv m) (now tmp : Nat) :
    (m.listExpiredCb now tmp).1 = (m.timers.filter fun p => m.next p ≤ now).map fun p => (m.timer p).cb := by
  rw [h.listExpiredCb_eq, expireAll_cbs (h.expired_nodup now tmp), h.expired_eq]

theorem listExpiredCb_timer (h : Inv m) (now tmp q : Nat) : (m.listExpiredCb now tmp).2.timer q =
    if q ∈ m.timers ∧ m.next q ≤ now then (m.timer q).afterExpiry now else m.timer q := by
  rw [h.listExpiredCb_eq, expireAll_timer (h.expired_nodup now tmp)]
  simp only [h.mem_expired]

theorem mem_listExpiredCb (h : Inv m) (now tmp : Nat) :
    q ∈ (m.listExpiredCb now tmp).2.timers ↔ q ∈ m.timers ∧ (m.next q ≤ now → (m.timer q).recurring = true) := by
  rw [h.listExpiredCb_eq, mem_expireAll (h.expired_nodup now tmp), h.mem_expired]
  have hnodup := h.nodup
  have happ := expired_append m now tmp
  have hmem : q ∈ m.timers ↔ q ∈ m.expired now tmp ∨ q ∈ m.timers.drop (m.expired now tmp).length := by
    nth_rewrite 1 [happ]
    exact List.mem_append
  rw [happ] at hnodup
  have hdisjoint := (List.nodup_append.mp hnodup).2.2
  have hdrop : q ∈ m.timers.drop (m.expired now tmp).length ↔ q ∈ m.timers ∧ ¬ m.next q ≤ now := by
    constructor
    · intro hq
      have hin := hmem.mpr (.inr hq)
      exact ⟨hin,fun hle => hdisjoint q ((h.mem_expired now tmp).mpr ⟨hin,hle⟩) q hq rfl⟩
    · intro hq
      exact (hmem.mp hq.1).resolve_left fun hexp => hq.2 ((h.mem_expired now tmp).mp hexp).2
  change q ∈ m.timers.drop (m.expired now tmp).length ∨ (q ∈ m.timers ∧ m.next q ≤ now) ∧ (m.timer q).recurring = true ↔ _
  rw [hdrop]
  tauto

theorem listExpiredCb_made (h : Inv m) (now tmp : Nat) : (m.listExpiredCb now tmp).2.made = m.made := by
  rw [h.listExpiredCb_eq, expireAll_made]

end Inv
end Manager
end Radixun.Common.Timers
