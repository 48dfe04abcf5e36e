import Radixun.Common.FdContextTable

/-! What concurrent `addEvent` calls do to the fd contexts that are in the table. -/
namespace Radixun.Common.IOManager
open Foundation CommandRuns CriticalSections PointerTable
variable {θ σ φ κ : Type}

/-- The events of a context stay registered, with what they wake. -/
def FdContext.Keeps (c c' : FdContext σ φ κ) : Prop := ∀ e ∈ c.events, e ∈ c'.events ∧ c'.context e = c.context e

theorem FdContext.keeps_refl (c : FdContext σ φ κ) : c.Keeps c := fun _ he => ⟨he,rfl⟩

theorem FdContext.Keeps.trans {c d f : FdContext σ φ κ} (h : c.Keeps d) (h' : d.Keeps f) : c.Keeps f := by
  intro e he
  obtain ⟨hd,hcd⟩ := h e he
  obtain ⟨hf,hdf⟩ := h' e hd
  exact ⟨hf,hdf.trans hcd⟩

namespace FdTable
variable {t t' : FdTable σ φ κ} {k : AddSection σ φ κ} {a : AddEvent σ φ κ} {way : AddSection σ φ κ ⊕ Bool} {e : Fault} {n : Nat}

/-- Every entry of the table keeps its context, and the context what is registered in it. -/
def Retains (t t' : FdTable σ φ κ) : Prop :=
  ∀ (i p : Nat) (c : FdContext σ φ κ), t.fdContexts[i]? = some (some p) → t.heap[p]? = some c →
    t'.fdContexts[i]? = some (some p) ∧ ∃ c', t'.heap[p]? = some c' ∧ c.Keeps c'

theorem retains_refl (t : FdTable σ φ κ) : Retains t t := fun _ _ c hp hc => ⟨hp,c,hc,c.keeps_refl⟩

theorem Retains.trans {u : FdTable σ φ κ} (h : Retains t t') (h' : Retains t' u) : Retains t u := by
  intro i p c hp hc
  obtain ⟨hp',c',hc',hk⟩ := h i p c hp hc
  obtain ⟨hp'',c'',hc'',hk'⟩ := h' i p c' hp' hc'
  exact ⟨hp'',c'',hc'',hk.trans hk'⟩

/-- What the section needs of the table: no negative descriptor is taken for an index, and the table is
resized to no less than it has. -/
def Fits : AddSection σ φ κ → FdTable σ φ κ → Prop
  | .lookup a, t => covers t.fdContexts a.fd = true → ¬ a.fd < 0
  | .grow a, t => ¬ a.fd < 0 ∧ t.fdContexts.length ≤ a.fd.toNatClampNeg * 3 / 2
  | .register _ _, _ => True

structure Inv (t : FdTable σ φ κ) : Prop extends Filled t where
  size : 32 ≤ t.fdContexts.length

theorem resize_old {v : List (Option Nat)} {i p : Nat} (h : (resize v n)[i]? = some (some p)) : v[i]? = some (some p) := by
  rw [getElem?_resize] at h
  split at h
  · exact Option.join_eq_some_iff.mp (Option.some.inj h)
  · cases h

theorem length_contextResize (t : FdTable σ φ κ) (n : Nat) : (t.contextResize n).fdContexts.length = n := by
  rw [contextResize, length_newContexts, length_resize]

theorem contextResize_slot (t : FdTable σ φ κ) {i : Nat} (hi : i < n) :
    (∃ p, t.fdContexts[i]? = some (some p) ∧ (t.contextResize n).fdContexts[i]? = some (some p)) ∨
    ∃ p, (t.contextResize n).fdContexts[i]? = some (some p) ∧ t.heap.length ≤ p ∧ (t.contextResize n).heap[p]? = some .new := by
  have hi' : i < (resize t.fdContexts n).length := by rwa [length_resize]
  obtain ⟨p,hv,hp⟩ | ⟨p,-,hp,hle,hc⟩ := newContexts_slot t.heap hi'
  · exact .inl ⟨p,resize_old hv,hp⟩
  · exact .inr ⟨p,hp,hle,hc⟩

theorem contextResize_filled (h : Filled t) (n : Nat) : Filled (t.contextResize n) := by
  have hold : ∀ p, some p ∈ resize t.fdContexts n → p < t.heap.length := by
    intro p hp
    obtain ⟨i,hi⟩ := List.mem_iff_getElem?.mp hp
    have hv := resize_old hi
    obtain ⟨q,hq,hlt⟩ := h.slots i (List.getElem?_eq_some_iff.mp hv).1
    rw [hv] at hq
    cases hq
    exact hlt
  refine ⟨?_,newContexts_apart t.heap (fun i j p hi hj => h.apart i j p (resize_old hi) (resize_old hj)) hold⟩
  intro i hi
  rw [length_contextResize] at hi
  obtain ⟨p,hv,hp⟩ | ⟨p,hp,-,hc⟩ := contextResize_slot t hi
  · obtain ⟨q,hq,hlt⟩ := h.slots i (List.getElem?_eq_some_iff.mp hv).1
    rw [hv] at hq
    cases hq
    exact ⟨p,hp,Nat.lt_of_lt_of_le hlt (newContexts_extends t.heap _).length_le⟩
  · exact ⟨p,hp,(List.getElem?_eq_some_iff.mp hc).1⟩

theorem inv_init : Inv (init : FdTable σ φ κ) := by
  have h : Filled (⟨[],[],fun _ => ∅,0⟩ : FdTable σ φ κ) := ⟨fun i hi => (by cases hi),fun i j p hi => (by cases hi)⟩
  exact ⟨contextResize_filled h 32,Nat.le_of_eq (length_contextResize _ 32).symm⟩

theorem contextResize_retains (h : t.fdContexts.length ≤ n) : Retains t (t.contextResize n) := by
  intro i p c hp hc
  have hi := (List.getElem?_eq_some_iff.mp hp).1
  have hp' : (t.contextResize n).fdContexts[i]? = some (some p) := by
    have hkept : (resize t.fdContexts n)[i]? = some (some p) := by
      rw [getElem?_resize, if_pos (Nat.lt_of_lt_of_le hi h), hp, Option.join_some]
    obtain ⟨q,hv,hq⟩ | ⟨q,hv,-⟩ := newContexts_slot t.heap (List.getElem?_eq_some_iff.mp hkept).1
    · rw [hkept] at hv
      cases hv
      exact hq
    · rw [hkept] at hv
      cases hv
  obtain ⟨rest,hr⟩ := newContexts_extends t.heap (resize t.fdContexts n)
  refine ⟨hp',c,?_,c.keeps_refl⟩
  rw [contextResize]
  simp only [← hr, List.getElem?_append_left (List.getElem?_eq_some_iff.mp hc).1, hc]

/-- A resize to less drops a context. -/
theorem contextResize_loses (h : Filled t) (hn : n < t.fdContexts.length) : ¬ Retains t (t.contextResize n) := by
  intro hr
  obtain ⟨p,hp,hlt⟩ := h.slots n hn
  obtain ⟨hp',-⟩ := hr n p t.heap[p] hp (List.getElem?_eq_getElem hlt)
  have := (List.getElem?_eq_some_iff.mp hp').1
  rw [length_contextResize] at this
  omega

theorem fetch_ok (h : t.fetch a = .ok (way,t')) : t' = t ∧ ∃ p, slot t.fdContexts a.fd = some p ∧ way = .inl (.register a p) := by
  rw [fetch] at h
  cases hs : slot t.fdContexts a.fd with
  | none => rw [hs] at h; cases h
  | some p => rw [hs] at h; cases h; exact ⟨rfl,p,rfl,rfl⟩

theorem fetch_error (h : t.fetch a = .error e) : slot t.fdContexts a.fd = none := by
  rw [fetch] at h
  cases hs : slot t.fdContexts a.fd with
  | none => rfl
  | some p => rw [hs] at h; cases h

/-- The registration fills a free place of one context, or changes nothing. -/
theorem register_ok {p : Option Nat} (h : t.register a p = .ok (way,t')) :
    t'.fdContexts = t.fdContexts ∧ (t'.heap = t.heap ∨ ∃ q c, p = some q ∧ t.heap[q]? = some c ∧ a.event ∉ c.events ∧
      t'.heap = t.heap.set q ⟨Function.update c.context a.event (.filled a.this a.current a.cb),c.events ∪ {a.event}⟩) := by
  cases p with
  | none => cases h
  | some q =>
    rw [register] at h
    cases hc : t.heap[q]? with
    | none => rw [hc] at h; cases h
    | some c =>
      simp only [hc] at h
      by_cases he : a.event ∈ c.events
      · rw [if_pos he] at h; cases h
      rw [if_neg he] at h
      cases hctl : a.ctl with
      | false => rw [hctl] at h; cases h; exact ⟨rfl,.inl rfl⟩
      | true =>
        cases hx : (c.context a.event).isEmpty with
        | false => rw [hctl, hx] at h; cases h
        | true => rw [hctl, hx] at h; cases h; exact ⟨rfl,.inr ⟨q,c,rfl,hc,he,rfl⟩⟩

theorem register_retains {p : Option Nat} (h : t.register a p = .ok (way,t')) : Retains t t' := by
  obtain ⟨hv,hheap | ⟨q,c,-,hc,hnew,hheap⟩⟩ := register_ok h
  · intro i p c hp hc
    exact ⟨by rw [hv]; exact hp,c,by rw [hheap]; exact hc,c.keeps_refl⟩
  · intro i p d hp hd
    refine ⟨by rw [hv]; exact hp,?_⟩
    rw [hheap]
    by_cases hpq : q = p
    · rw [← hpq, hc] at hd
      cases hd
      refine ⟨_,by rw [hpq, List.getElem?_set_self (List.getElem?_eq_some_iff.mp (hpq ▸ hc)).1],?_⟩
      intro e he
      have hne : e ≠ a.event := by
        rintro rfl
        exact hnew he
      exact ⟨Finset.mem_union_left _ he,Function.update_of_ne hne _ _⟩
    · exact ⟨d,by rw [List.getElem?_set_ne hpq]; exact hd,d.keeps_refl⟩

theorem register_inv (h : Inv t) {p : Option Nat} (hr : t.register a p = .ok (way,t')) : Inv t' := by
  obtain ⟨hv,hheap⟩ := register_ok hr
  have hlen : t'.heap.length = t.heap.length := by
    rcases hheap with hheap | ⟨q,c,-,-,-,hheap⟩
    · rw [hheap]
    · rw [hheap, List.length_set]
  exact ⟨⟨by rw [hv, hlen]; exact h.slots,by rw [hv]; exact h.apart⟩,by rw [hv]; exact h.size⟩

/-- The descriptor that a fitting resize is for is inside the new table. -/
theorem grow_slot (h : Inv t) (hf : Fits (.grow a) t) :
    ∃ p, slot (t.contextResize (a.fd.toNatClampNeg * 3 / 2)).fdContexts a.fd = some (some p) := by
  have hi : a.fd.toNatClampNeg < a.fd.toNatClampNeg * 3 / 2 := by
    have h32 := h.size
    have := hf.2
    omega
  rw [slot_nonneg hf.1]
  obtain ⟨p,-,hp⟩ | ⟨p,hp,-⟩ := contextResize_slot t hi
  · exact ⟨p,hp⟩
  · exact ⟨p,hp⟩

theorem exec_inv (h : Inv t) (hf : Fits k t) (he : exec k t = .ok (way,t')) : Inv t' ∧ Retains t t' := by
  cases k with
  | lookup a =>
    have ht : t' = t := by
      rw [exec] at he
      split at he
      · exact (fetch_ok he).1
      · cases he; rfl
    rw [ht]
    exact ⟨h,retains_refl t⟩
  | grow a =>
    rw [exec, enlarged_nonneg hf.1] at he
    rw [(fetch_ok he).1]
    refine ⟨⟨contextResize_filled h.toFilled _,?_⟩,contextResize_retains hf.2⟩
    rw [length_contextResize]
    exact h.size.trans hf.2
  | register a p => exact ⟨register_inv h he,register_retains he⟩

theorem exec_in_range (h : Inv t) (hf : Fits k t) (he : exec k t = .error e) : e ≠ .outOfBounds := by
  cases k with
  | lookup a =>
    rw [exec] at he
    split at he
    · rename_i hcov
      obtain ⟨p,hp⟩ := slot_of_covers hcov (hf hcov)
      rw [fetch_error he] at hp
      cases hp
    · cases he
  | grow a =>
    rw [exec, enlarged_nonneg hf.1] at he
    obtain ⟨p,hp⟩ := grow_slot h hf
    rw [fetch_error he] at hp
    cases hp
  | register a p =>
    rintro rfl
    rw [exec] at he
    unfold register at he
    repeat' split at he
    all_goals cases he

theorem exec_breaks (h : Inv t) (hf : ¬ Fits k t) : Breaks addEvent Retains (· = .outOfBounds) k t := by
  cases k with
  | lookup a =>
    rw [Fits, Classical.not_imp, not_not] at hf
    refine .inr ⟨.outOfBounds,?_,rfl⟩
    change exec (.lookup a) t = _
    rw [exec, if_pos hf.1, fetch, slot_neg hf.2]
  | grow a =>
    by_cases h0 : a.fd < 0
    · refine .inr ⟨.outOfBounds,?_,rfl⟩
      change exec (.grow a) t = _
      rw [exec, enlarged, if_pos h0]
    · have hlt : a.fd.toNatClampNeg * 3 / 2 < t.fdContexts.length := by
        apply Nat.lt_of_not_le
        intro hle
        exact hf ⟨h0,hle⟩
      cases hs : slot (t.contextResize (a.fd.toNatClampNeg * 3 / 2)).fdContexts a.fd with
      | none =>
        refine .inr ⟨.outOfBounds,?_,rfl⟩
        change exec (.grow a) t = _
        rw [exec, enlarged_nonneg h0]
        simp only [fetch, hs]
      | some p =>
        refine .inl ⟨.inl (.register a p),_,?_,contextResize_loses h.toFilled hlt⟩
        change exec (.grow a) t = _
        rw [exec, enlarged_nonneg h0]
        simp only [fetch, hs]
  | register a p => exact absurd trivial hf

/-- The table only grows, and no index is outside of it, in exactly those runs of concurrent calls in
which no negative descriptor is taken for an index and no resize asks for less than the table has. -/
theorem addEvent_grows_iff [DecidableEq θ] (acts : List (Act θ (AddEvent σ φ κ))) :
    ((states addEvent.act acts (.idle .init)).Pairwise (fun s s' => Retains s.shared s'.shared) ∧
      ∀ e, runAll addEvent.act acts (.idle .init) = .error e → e ≠ .outOfBounds) ↔
      Along (Admitted Fits) addEvent.act acts (.idle .init) := by
  refine related_iff_admitted retains_refl (fun _ _ _ => Retains.trans) ?_ ?_ ?_ ?_ acts inv_init
  · intro k x way x' hx hf he
    exact (exec_inv hx hf he).1
  · intro k x way x' hx hf he
    exact (exec_inv hx hf he).2
  · intro k x e hx hf he
    exact exec_in_range hx hf he
  · intro k x hx hf
    exact exec_breaks hx hf

private def readOf (fd : Int32) : AddEvent Unit Unit Unit := ⟨fd,.read,some (),(),none,true⟩

/-- Two threads look up 48 and 32 in the first table of 32 slots. The first makes it 72 slots long and
registers. -/
private def bothLooked : List (Act Bool (AddEvent Unit Unit Unit)) :=
  [.call false (readOf 48),.call true (readOf 32),.step false,.step true,.step false,.step false]

set_option maxRecDepth 4000 in
/-- The second thread then cuts the table to 48 slots, and the registration is lost. -/
theorem addEvent_shrinks : ¬ ∀ acts : List (Act Bool (AddEvent Unit Unit Unit)),
    (states addEvent.act acts (.idle .init)).Pairwise (fun s s' => Retains s.shared s'.shared) ∧
      ∀ e, runAll addEvent.act acts (.idle .init) = .error e → e ≠ .outOfBounds := by
  intro h
  have hlast := pairwise_last (h (bothLooked ++ [.step true])).1 rfl rfl
  have hslot := (hlast 48 48 _ rfl rfl).1
  cases hslot

end FdTable
end Radixun.Common.IOManager
