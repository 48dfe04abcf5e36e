import Radixun.Common.TimerManager

/-! The order of the timer set, and what a change of the set means for whoever waits for its first timer. -/
namespace Radixun.Common.Timers.Manager
variable {κ : Type} {m : Manager κ} {p q : Nat}

theorem less_iff : m.less p q = true ↔ m.next p < m.next q ∨ m.next p = m.next q ∧ p < q := by
  unfold less
  split
  · simp [*]
  · split
    · simp only [Bool.false_eq_true, false_iff]
      omega
    · simp only [decide_eq_true_eq]
      omega

theorem le_iff : m.le p q ↔ m.next p < m.next q ∨ m.next p = m.next q ∧ p ≤ q := by
  rw [le, Bool.eq_false_iff, ne_eq, less_iff]
  omega

theorem le_next (h : m.le p q) : m.next p ≤ m.next q := by
  have hle := le_iff.mp h
  omega

instance (m : Manager κ) : Std.Total m.le := ⟨fun p q => by rw [le_iff, le_iff]; omega⟩

instance (m : Manager κ) : IsTrans Nat m.le := ⟨fun p q r => by rw [le_iff, le_iff, le_iff]; omega⟩

@[simp] theorem setTimer_timers (t : Timer κ) : (m.setTimer p t).timers = m.timers := rfl
@[simp] theorem setTimer_made (t : Timer κ) : (m.setTimer p t).made = m.made := rfl
@[simp] theorem setTimer_tickled (t : Timer κ) : (m.setTimer p t).tickled = m.tickled := rfl
@[simp] theorem insert_timer : (m.insert p).timer = m.timer := rfl
@[simp] theorem insert_next : (m.insert p).next q = m.next q := rfl
@[simp] theorem erase_next : (m.erase p).next q = m.next q := rfl

@[simp] theorem setTimer_next (t : Timer κ) : (m.setTimer p t).next q = if q = p then t.next else m.next q := by
  rw [next, setTimer]
  simp only [Function.update_apply]
  split <;> rfl

@[simp] theorem mem_insert : q ∈ (m.insert p).timers ↔ q = p ∨ q ∈ m.timers := by
  unfold insert
  split
  · exact ⟨.inr,fun h => h.elim (fun h => by rwa [h]) id⟩
  · exact List.mem_orderedInsert m.le

theorem find_some {r : Nat} (h : m.find p = some r) : r = p ∧ p ∈ m.timers := by
  obtain ⟨hfind,hp⟩ := Option.filter_eq_some_iff.mp h
  have hr := List.find?_some hfind
  simp only [Bool.not_eq_true'] at hr hp
  have h₁ : m.le p r := hr
  have h₂ : m.le r p := hp
  rw [le_iff] at h₁ h₂
  obtain rfl : r = p := by omega
  exact ⟨rfl,List.mem_of_find?_eq_some hfind⟩

/-- The set is in the order of the comparator, and holds timers that were made, each once. -/
structure Inv (m : Manager κ) : Prop where
  sorted : m.timers.Pairwise m.le
  nodup : m.timers.Nodup
  made : ∀ p ∈ m.timers, p ∈ m.made
  bounded : ∀ p ∈ m.timers, m.next p < 2^64

theorem inv_init : Inv (init : Manager κ) := ⟨.nil,.nil,by simp [init],by simp [init]⟩

namespace Inv

/-- The order does not depend on timers outside of the set. -/
theorem setTimer (h : Inv m) (hp : p ∉ m.timers) (t : Timer κ) : Inv (m.setTimer p t) := by
  have hnext : ∀ q ∈ m.timers, (m.setTimer p t).next q = m.next q := by
    intro q hq
    rw [setTimer_next, if_neg (fun he => hp (by rwa [← he]))]
  refine ⟨h.sorted.imp_of_mem ?_,h.nodup,h.made,fun q hq => by rw [hnext q hq]; exact h.bounded q hq⟩
  intro a b ha hb hab
  rw [le_iff, hnext a ha, hnext b hb]
  exact le_iff.mp hab

/-- Callbacks do not matter. -/
theorem setTimer_same (h : Inv m) {t : Timer κ} (ht : t.next = m.next p) : Inv (m.setTimer p t) := by
  have hnext : (m.setTimer p t).next = m.next := by
    funext q
    rw [setTimer_next]
    split
    · rename_i hq
      rw [ht, hq]
    · rfl
  refine ⟨h.sorted.imp ?_,h.nodup,h.made,fun q hq => by rw [hnext]; exact h.bounded q hq⟩
  intro a b hab
  rw [le_iff, hnext]
  exact le_iff.mp hab

theorem insert (h : Inv m) (hmade : p ∈ m.made) (hb : m.next p < 2^64) : Inv (m.insert p) := by
  have hmem : ∀ q, q ∈ (m.insert p).timers → q ∈ m.made ∧ m.next q < 2^64 := by
    intro q hq
    rcases mem_insert.mp hq with rfl | hq
    · exact ⟨hmade,hb⟩
    · exact ⟨h.made q hq,h.bounded q hq⟩
  refine ⟨?_,?_,fun q hq => (hmem q hq).1,fun q hq => (hmem q hq).2⟩
  · unfold Manager.insert
    split
    · exact h.sorted
    · exact h.sorted.orderedInsert p m.timers
  · unfold Manager.insert
    split
    · exact h.nodup
    · rename_i hp
      exact (List.perm_orderedInsert m.le p m.timers).nodup_iff.mpr (List.nodup_cons.mpr ⟨hp,h.nodup⟩)

theorem sublist (h : Inv m) {timers : List Nat} (hs : List.Sublist timers m.timers) : Inv { m with timers := timers } :=
  ⟨h.sorted.sublist hs,h.nodup.sublist hs,fun p hp => h.made p (hs.subset hp),fun p hp => h.bounded p (hs.subset hp)⟩

theorem erase (h : Inv m) (p : Nat) : Inv (m.erase p) := h.sublist List.erase_sublist

theorem tickle (h : Inv m) (tickled : Bool) : Inv { m with tickled := tickled } := ⟨h.sorted,h.nodup,h.made,h.bounded⟩

theorem add (h : Inv m) (hmade : p ∈ m.made) (hb : m.next p < 2^64) : Inv (m.add p).2 := (h.insert hmade hb).tickle _

theorem addTimer (h : Inv m) (hp : p ∉ m.made) (now ms : Nat) (cb : Option κ) (recurring : Bool) :
    Inv (m.addTimer p now ms cb recurring).2 := by
  have hnew : Inv { m with made := p :: m.made } :=
    ⟨h.sorted,h.nodup,fun q hq => List.mem_cons_of_mem p (h.made q hq),h.bounded⟩
  refine (hnew.setTimer (p := p) (fun hin => hp (h.made p hin)) _).add List.mem_cons_self ?_
  rw [setTimer_next, if_pos rfl]
  exact Nat.mod_lt _ (by decide)

theorem notMem_erase (h : Inv m) (p : Nat) : p ∉ (m.erase p).timers := h.nodup.not_mem_erase

theorem cancel (h : Inv m) {r : Bool} {m' : Manager κ} (he : m.cancel p = .ok (r,m')) : Inv m' := by
  unfold Manager.cancel at he
  split at he
  · cases he
    exact h
  · split at he
    · cases he
    · cases he
      refine (h.setTimer_same ?_).erase _
      rfl

theorem reset (h : Inv m) (p ms : Nat) (fromNow : Bool) (now : Nat) : Inv (m.reset p ms fromNow now).2.2 := by
  unfold Manager.reset
  dsimp only
  split
  · exact h
  split
  · exact h
  split
  · exact h
  · rename_i q hq
    obtain ⟨rfl,hin⟩ := find_some hq
    refine ((h.erase q).setTimer (h.notMem_erase q) _).add (h.made q hin) ?_
    rw [setTimer_next, if_pos rfl]
    exact Nat.mod_lt _ (by decide)

theorem expire (h : Inv m) (hp : p ∉ m.timers) (hmade : p ∈ m.made) (now : Nat) : Inv (expire now m p) := by
  unfold Manager.expire
  dsimp only
  split
  · refine (h.setTimer hp _).insert hmade ?_
    rw [setTimer_next, if_pos rfl]
    exact Nat.mod_lt _ (by decide)
  · exact h.setTimer hp _

theorem expireAll (h : Inv m) {ps : List Nat} (hn : ps.Nodup) (hp : ∀ p ∈ ps, p ∉ m.timers ∧ p ∈ m.made) (now : Nat) :
    Inv (expireAll now ps m).2 := by
  induction ps generalizing m with
  | nil => exact h
  | cons p ps ih =>
    obtain ⟨hnot,hmade⟩ := hp p List.mem_cons_self
    obtain ⟨hnew,hrest⟩ := List.nodup_cons.mp hn
    refine ih (h.expire hnot hmade now) hrest ?_
    intro q hq
    obtain ⟨hqnot,hqmade⟩ := hp q (List.mem_cons_of_mem p hq)
    have hne : q ≠ p := fun he => hnew (by rwa [← he])
    unfold Manager.expire
    dsimp only
    split
    · exact ⟨fun hin => (mem_insert.mp hin).elim hne hqnot,hqmade⟩
    · exact ⟨hqnot,hqmade⟩

/-- What is taken out of the set is a front part of it. -/
theorem expired_append (m : Manager κ) (now tmp : Nat) :
    m.timers = m.expired now tmp ++ m.timers.drop (m.expired now tmp).length := by
  apply Eq.symm
  apply List.prefix_iff_eq_append.mp
  unfold expired
  dsimp only
  generalize hb : m.timers.takeWhile _ = below
  have hbelow : below ++ m.timers.drop below.length = m.timers := by
    apply List.prefix_iff_eq_append.mp
    rw [← hb]
    exact List.takeWhile_prefix _
  nth_rewrite 2 [← hbelow]
  exact (List.prefix_append_right_inj below).mpr (List.takeWhile_prefix _)

theorem listExpiredCb (h : Inv m) (now tmp : Nat) : Inv (m.listExpiredCb now tmp).2 := by
  unfold Manager.listExpiredCb
  split
  · exact h
  · split
    · exact h
    · have happ := expired_append m now tmp
      have hnodup := h.nodup
      rw [happ] at hnodup
      obtain ⟨hfront,-,hdisjoint⟩ := List.nodup_append.mp hnodup
      refine (h.sublist (List.drop_sublist _ _)).expireAll hfront ?_ now
      intro p hp
      refine ⟨fun hin => hdisjoint p hp p hin rfl,h.made p ?_⟩
      rw [happ]
      exact List.mem_append_left _ hp

/-- The delay is that of the earliest timer. -/
theorem getNextTimer_le (h : Inv m) (hp : p ∈ m.timers) (now : Nat) : (m.getNextTimer now).1 ≤ m.next p - now := by
  have hsorted := h.sorted
  unfold getNextTimer
  cases ht : m.timers with
  | nil => rw [ht] at hp; cases hp
  | cons q qs =>
    rw [ht] at hp hsorted
    have hle : m.next q ≤ m.next p := by
      rcases List.mem_cons.mp hp with rfl | hp
      · exact le_rfl
      · exact le_next ((List.pairwise_cons.mp hsorted).1 p hp)
    dsimp only
    split <;> omega

/-- `~0ull` means that there is no timer, once the clock runs. -/
theorem getNextTimer_max (h : Inv m) {now : Nat} (hn : 0 < now) (hd : (m.getNextTimer now).1 = 2^64 - 1) : m.timers = [] := by
  cases ht : m.timers with
  | nil => rfl
  | cons q qs =>
    have hq : q ∈ m.timers := by rw [ht]; exact List.mem_cons_self
    have hle := h.getNextTimer_le hq now
    have hb := h.bounded q hq
    omega

end Inv

/-- The set has changed, and the owner is told if `front` is set: the flag says so, and otherwise no
timer is earlier than all were before. -/
structure Announced (m m' : Manager κ) (front : Bool) : Prop where
  tickled : m'.tickled = (m.tickled || front)
  later : ∀ p ∈ m'.timers, front = true ∨ m.tickled = true ∨ ∃ q ∈ m.timers, m.next q ≤ m'.next p

theorem Announced.sublist {m' : Manager κ} (ht : m'.tickled = m.tickled) (hs : ∀ p ∈ m'.timers, p ∈ m.timers ∧ m'.next p = m.next p) :
    Announced m m' false where
  tickled := by rw [ht, Bool.or_false]
  later := fun p hp => .inr (.inr ⟨p,(hs p hp).1,(hs p hp).2.ge⟩)

/-- The first timer is the new one or is not later than it. -/
theorem insert_head (m : Manager κ) (p : Nat) :
    (m.insert p).timers.head? = some p ∨ ∃ q ∈ m.timers, m.next q ≤ m.next p := by
  unfold insert
  split
  · rename_i hp
    exact .inr ⟨p,hp,le_rfl⟩
  · cases ht : m.timers with
    | nil => exact .inl rfl
    | cons q qs =>
      rw [List.orderedInsert_cons]
      split
      · exact .inl rfl
      · rename_i hle
        exact .inr ⟨q,List.mem_cons_self,le_next ((Std.Total.total p q).resolve_left hle)⟩

theorem add_announced (m : Manager κ) (p : Nat) : Announced m (m.add p).2 (m.add p).1 where
  tickled := rfl
  later := by
    intro q hq
    rcases mem_insert.mp hq with rfl | hq
    · rcases insert_head m q with hhead | hearlier
      · cases ht : m.tickled with
        | true => exact .inr (.inl rfl)
        | false => exact .inl (by rw [add, hhead, insert, ht]; simp)
      · exact .inr (.inr hearlier)
    · exact .inr (.inr ⟨q,hq,le_rfl⟩)

/-- Timers that are not in the set may be changed before. -/
theorem Announced.of_setTimer {m' : Manager κ} {front : Bool} {made : List Nat} {t : Timer κ} (hp : p ∉ m.timers)
    (h : Announced ({ m with made := made }.setTimer p t) m' front) : Announced m m' front where
  tickled := h.tickled
  later := by
    intro q hq
    rcases h.later q hq with hf | ht | ⟨r,hr,hle⟩
    · exact .inl hf
    · exact .inr (.inl ht)
    · refine .inr (.inr ⟨r,hr,?_⟩)
      rwa [setTimer_next, if_neg (fun he => hp (by rwa [← he]))] at hle

/-- So may timers be taken out. -/
theorem Announced.of_erase {m' : Manager κ} {front : Bool} (p : Nat) (h : Announced (m.erase p) m' front) :
    Announced m m' front where
  tickled := h.tickled
  later := by
    intro q hq
    rcases h.later q hq with hf | ht | ⟨r,hr,hle⟩
    · exact .inl hf
    · exact .inr (.inl ht)
    · exact .inr (.inr ⟨r,List.mem_of_mem_erase hr,hle⟩)

theorem addTimer_announced (h : Inv m) (hp : p ∉ m.made) (now ms : Nat) (cb : Option κ) (recurring : Bool) :
    Announced m (m.addTimer p now ms cb recurring).2 (m.addTimer p now ms cb recurring).1 :=
  (add_announced _ p).of_setTimer fun hin => hp (h.made p hin)

theorem cancel_announced {r : Bool} {m' : Manager κ} (he : m.cancel p = .ok (r,m')) : Announced m m' false := by
  unfold cancel at he
  split at he
  · cases he
    exact .sublist rfl fun q hq => ⟨hq,rfl⟩
  · split at he
    · cases he
    · cases he
      refine .sublist rfl fun q hq => ⟨List.mem_of_mem_erase hq,?_⟩
      rw [erase_next, setTimer_next]
      split
      · rename_i hqp
        rw [hqp]
        rfl
      · rfl

theorem reset_announced (h : Inv m) (p ms : Nat) (fromNow : Bool) (now : Nat) :
    Announced m (m.reset p ms fromNow now).2.2 (m.reset p ms fromNow now).2.1 := by
  have hsame : Announced m m false := .sublist rfl fun q hq => ⟨hq,rfl⟩
  unfold reset
  dsimp only
  split
  · exact hsame
  split
  · exact hsame
  split
  · exact hsame
  · rename_i q hq
    obtain ⟨rfl,-⟩ := find_some hq
    refine Announced.of_erase q ?_
    exact (add_announced _ q).of_setTimer (h.notMem_erase q)

end Radixun.Common.Timers.Manager
