import Radixun.Common.FdContextGrowth

/-! An `addEvent` call that no other one interrupts does what the sequential model says. -/
namespace Radixun.Common.IOManager.FdTable
open Foundation CommandRuns CriticalSections PointerTable
variable {θ σ φ κ : Type} {t : FdTable σ φ κ} {a : AddEvent σ φ κ} {i p : Nat}

/-- The context an entry points to. -/
def contextAt (t : FdTable σ φ κ) (i : Nat) : FdContext σ φ κ := (t.fdContexts[i]?.join.bind (t.heap[·]?)).getD .new

/-- The table as the sequential model has it: contexts by descriptor, without pointers. -/
def toState (t : FdTable σ φ κ) : State σ φ κ := ⟨t.fdContexts.length,t.contextAt,t.interest,t.pending,[]⟩

theorem contextAt_slot (hi : t.fdContexts[i]? = some (some p)) : t.contextAt i = t.heap[p]?.getD .new := by
  rw [contextAt, hi, Option.join_some, Option.bind_some]

theorem contextAt_beyond (hi : t.fdContexts.length ≤ i) : t.contextAt i = .new := by
  rw [contextAt, List.getElem?_eq_none hi]
  rfl

/-- New slots have the contexts that the sequential model gives the descriptors beyond the table. -/
theorem toState_contextResize (h : Filled t) {n : Nat} (hn : t.fdContexts.length ≤ n) :
    (t.contextResize n).toState = { t.toState with size := n } := by
  have hctx : (t.contextResize n).contextAt = t.contextAt := by
    funext i
    by_cases hin : i < n
    · by_cases hi : i < t.fdContexts.length
      · obtain ⟨p,hp,hlt⟩ := h.slots i hi
        obtain ⟨hp',c,hc,-⟩ := contextResize_retains hn i p _ hp (List.getElem?_eq_getElem hlt)
        obtain ⟨rest,hr⟩ := newContexts_extends t.heap (resize t.fdContexts n)
        rw [contextAt_slot hp, contextAt_slot hp', contextResize]
        simp only [← hr, List.getElem?_append_left hlt]
      · rw [contextAt_beyond (Nat.le_of_not_lt hi)]
        obtain ⟨p,hp,-⟩ | ⟨p,hp,-,hc⟩ := contextResize_slot t hin
        · exact absurd (List.getElem?_eq_some_iff.mp hp).1 hi
        · rw [contextAt_slot hp, hc, Option.getD_some]
    · rw [contextAt_beyond (by rw [length_contextResize]; omega), contextAt_beyond (by omega)]
  rw [toState, hctx, length_contextResize]
  rfl

/-- A write through the pointer of one entry changes the context of that descriptor only. -/
theorem contextAt_set (h : Filled t) (hi : t.fdContexts[i]? = some (some p)) {c : FdContext σ φ κ} {t' : FdTable σ φ κ}
    (hv : t'.fdContexts = t.fdContexts) (hheap : t'.heap = t.heap.set p c) : t'.contextAt = Function.update t.contextAt i c := by
  funext j
  by_cases hj : j < t.fdContexts.length
  · obtain ⟨q,hq,hlt⟩ := h.slots j hj
    have hq' : t'.fdContexts[j]? = some (some q) := by rw [hv, hq]
    by_cases hji : j = i
    · subst hji
      rw [hi] at hq
      cases hq
      rw [Function.update_self, contextAt_slot hq', hheap, List.getElem?_set_self hlt, Option.getD_some]
    · have hpq : p ≠ q := by
        rintro rfl
        exact hji (h.apart j i p hq hi)
      rw [Function.update_of_ne hji, contextAt_slot hq', contextAt_slot hq, hheap, List.getElem?_set_ne hpq]
  · have hji : j ≠ i := by
      rintro rfl
      exact hj (List.getElem?_eq_some_iff.mp hi).1
    rw [Function.update_of_ne hji, contextAt_beyond (Nat.le_of_not_lt hj), contextAt_beyond]
    rw [hv]
    exact Nat.le_of_not_lt hj

theorem toState_set (h : Filled t) (hi : t.fdContexts[i]? = some (some p)) {c : FdContext σ φ κ} {t' : FdTable σ φ κ}
    (hv : t'.fdContexts = t.fdContexts) (hheap : t'.heap = t.heap.set p c) :
    t'.toState = ⟨t.fdContexts.length,Function.update t.contextAt i c,t'.interest,t'.pending,[]⟩ := by
  rw [toState, contextAt_set h hi hv hheap, hv]

/-- What a call leaves to see: whether 0 is returned, and the contexts. -/
def view (out : (AddSection σ φ κ ⊕ Bool) × FdTable σ φ κ) : Option Bool × State σ φ κ := (out.1.getRight?,out.2.toState)

/-- `addEvent` of the sequential model on a call's arguments. -/
def sequential (s : State σ φ κ) (a : AddEvent σ φ κ) : Except Fault (Option Bool × State σ φ κ) :=
  (s.addEvent a.fd.toNatClampNeg a.event a.this a.current a.cb a.ctl).map fun out => (some out.1,out.2)

theorem register_toState (h : Filled t) (hi : t.fdContexts[a.fd.toNatClampNeg]? = some (some p)) :
    (t.register a (some p)).map view = sequential t.toState a := by
  have hlt : a.fd.toNatClampNeg < t.toState.size := (List.getElem?_eq_some_iff.mp hi).1
  obtain ⟨q,hq,hheap⟩ := h.slots a.fd.toNatClampNeg hlt
  rw [hi] at hq
  cases hq
  have hc : t.toState.fds a.fd.toNatClampNeg = t.heap[p] := by
    change t.contextAt _ = _
    rw [contextAt_slot hi, List.getElem?_eq_getElem hheap, Option.getD_some]
  rw [sequential, State.addEvent, if_pos hlt]
  simp only [register, List.getElem?_eq_getElem hheap, hc, if_neg (Nat.not_le_of_lt hlt)]
  by_cases he : a.event ∈ t.heap[p].events
  · simp only [if_pos he, Except.map]
  · simp only [if_neg he]
    cases a.ctl with
    | false => rfl
    | true =>
      cases hx : (t.heap[p].context a.event).isEmpty with
      | false => rfl
      | true =>
        have hop : (if t.heap[p].events = ∅ then CtlOp.add else CtlOp.mod) ≠ .del := by
          split
          · intro hd; cases hd
          · intro hd; cases hd
        simp only [State.epollCtl, if_neg hop]
        exact congrArg (fun s => Except.ok (some true,s)) (toState_set h hi rfl rfl)

theorem alone_register (n : Nat) (t : FdTable σ φ κ) (a : AddEvent σ φ κ) (p : Option Nat) :
    addEvent.alone (n + 1) (.register a p) t = t.register a p := by
  have hexec : addEvent.exec (.register a p) t = t.register a p := rfl
  rw [Calls.alone, hexec]
  cases hr : t.register a p with
  | error e => rfl
  | ok out =>
    obtain ⟨way,t'⟩ := out
    cases way with
    | inr r => rfl
    | inl k =>
      unfold register at hr
      repeat' split at hr
      all_goals cases hr

/-- A descriptor beyond the table: the sequential model too makes the table larger first. -/
theorem sequential_contextResize (h : Filled t) (hlen : t.fdContexts.length ≤ a.fd.toNatClampNeg)
    (hn : a.fd.toNatClampNeg < a.fd.toNatClampNeg * 3 / 2) :
    sequential (t.contextResize (a.fd.toNatClampNeg * 3 / 2)).toState a = sequential t.toState a := by
  have hlen' : ¬ a.fd.toNatClampNeg < t.toState.size := Nat.not_lt_of_le hlen
  rw [toState_contextResize h (hlen.trans (Nat.le_of_lt hn)), sequential, sequential, State.addEvent, State.addEvent, if_pos hn,
    if_neg hlen']

theorem alone_eq_sequential (h : Inv t) (hfd : ¬ a.fd < 0) (hsize : t.fdContexts.length < 2^31) :
    (addEvent.alone 3 (.lookup a) t).map view = sequential t.toState a := by
  have hnat := Int32.toNat_toInt a.fd
  have h0 := not_neg.mp hfd
  by_cases hcov : covers t.fdContexts a.fd = true
  · have hlt := lt_of_covers hcov
    obtain ⟨p,hp,-⟩ := h.slots a.fd.toNatClampNeg (by omega)
    have hexec : addEvent.exec (.lookup a) t = .ok (.inl (.register a (some p)),t) := by
      change exec (.lookup a) t = _
      rw [exec, if_pos hcov, fetch, slot_nonneg hfd, hp]
    rw [Calls.alone, hexec]
    simp only [alone_register]
    exact register_toState h.toFilled hp
  · have hge : t.fdContexts.length ≤ a.fd.toNatClampNeg := by
      rw [covers_of_small hsize] at hcov
      omega
    have h32 := h.size
    have hf : Fits (.grow a) t := ⟨hfd,by omega⟩
    obtain ⟨p,hp⟩ := grow_slot h hf
    have hlook : addEvent.exec (.lookup a) t = .ok (.inl (.grow a),t) := by
      change exec (.lookup a) t = _
      rw [exec, if_neg hcov]
    have hgrow : addEvent.exec (.grow a) t = .ok (.inl (.register a (some p)),t.contextResize (a.fd.toNatClampNeg * 3 / 2)) := by
      change exec (.grow a) t = _
      rw [exec, enlarged_nonneg hfd]
      simp only [fetch, hp]
    rw [slot_nonneg hfd] at hp
    rw [Calls.alone, hlook]
    simp only [Calls.alone, hgrow]
    rw [← sequential_contextResize h.toFilled hge (by omega), ← register_toState (contextResize_filled h.toFilled _) hp]
    exact congrArg (Except.map view) (alone_register 0 _ a (some p))

/-- Where no other call comes between, `addEvent` through its sections is the sequential `addEvent`, on
tables that an `int` can count. -/
theorem addEvent_uninterrupted [DecidableEq θ] {s : Config θ (AddSection σ φ κ) (FdTable σ φ κ)} {u : θ} (h : Inv s.shared)
    (hidle : s.next u = none) (hfd : ¬ a.fd < 0) (hsize : s.shared.fdContexts.length < 2^31) :
    (runAll addEvent.act (.call u a :: List.replicate 3 (.step u)) s).map (fun out => ((summary out).1,out.2.shared.toState)) =
      (sequential s.shared.toState a).map fun out => (out.1.toList,out.2) := by
  have hrun := congrArg (Except.map fun out : List Bool × Config θ (AddSection σ φ κ) (FdTable σ φ κ) => (out.1,out.2.shared.toState))
    (runAll_alone (c := addEvent) hidle a 3)
  rw [map_map, map_map] at hrun
  rw [← alone_eq_sequential h hfd hsize, map_map]
  exact hrun

end Radixun.Common.IOManager.FdTable
