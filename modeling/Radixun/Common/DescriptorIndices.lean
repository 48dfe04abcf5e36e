import Radixun.Common.FdContextGrowth
import Radixun.Common.FdManager

/-! Descriptors as indices: the vectors of `IOManager` and `FdManager` under concurrent calls with any `int`. -/
namespace Radixun.Foundation.CriticalSections
open CommandRuns

/-- A fault does not occur in a run exactly if no section of it raises it. -/
theorem run_avoids_iff {θ ι κ σ ρ ε : Type} [DecidableEq θ] {c : Calls ι κ σ ρ ε} {C : κ → σ → Prop} {e : ε}
    (hC : ∀ k x, c.exec k x = .error e ↔ ¬ C k x) (acts : List (Act θ ι)) (x : σ) :
    runAll c.act acts (.idle x) ≠ .error e ↔ Along (Admitted C) c.act acts (.idle x) := by
  have hrun : (∀ e', runAll c.act acts (.idle x) = .error e' → ¬ e' = e) ↔
      Along (fun (a : Act θ ι) s => ∀ e', c.act a s = .error e' → ¬ e' = e) c.act acts (.idle x) := not_error_iff_along (· = e) acts
  have hone : ∀ (a : Act θ ι) (s : Config θ κ σ), True → ((∀ e', c.act a s = .error e' → ¬ e' = e) ↔ Admitted C a s) := by
    intro a s _
    cases a with
    | call t i =>
      refine iff_of_true ?_ trivial
      intro e' he'
      obtain ⟨_,_,ha,_⟩ := Calls.act_error he'
      cases ha
    | step t =>
      constructor
      · intro h k hk
        by_contra hn
        exact h e (Calls.act_fault hk ((hC k s.shared).mpr hn)) rfl
      · rintro h e' he' rfl
        obtain ⟨t',k,ha,hk,he⟩ := Calls.act_error he'
        cases ha
        exact (hC k s.shared).mp he (h k hk)
  rw [← along_congr hone (fun _ _ _ _ _ _ _ => trivial) acts trivial, ← hrun]
  constructor
  · rintro h e' he' rfl
    exact h he'
  · intro h he
    exact h e he rfl

end Radixun.Foundation.CriticalSections

namespace Radixun.Common.IOManager
open Foundation CommandRuns CriticalSections PointerTable
variable {θ σ φ κ : Type}

/-- `FdContext::triggerEvent`, with what it gives to a scheduler. -/
def FdContext.triggerEvent (c : FdContext σ φ κ) (event : Event) : Except Fault (List (σ × Task φ κ) × FdContext σ φ κ) :=
  if event ∉ c.events then .error .assertion
  else
    let x := c.context event
    match x.scheduler with
    | none => .error .nullDeref
    | some scheduler =>
      let (task,x') := match x.cb with
        | some cb => ([(scheduler,Task.cb cb)],⟨none,x.fiber,none⟩)
        | none => (x.fiber.toList.map fun f => (scheduler,Task.fiber f),⟨none,none,none⟩)
      .ok (task,⟨Function.update c.context event x',c.events \ {event}⟩)

/-- The table with what `schedule` was called with so far. -/
structure EventTable (σ φ κ : Type) extends FdTable σ φ κ where
  scheduled : List (σ × Task φ κ)

/-- `delEvent`, `cancelEvent` and `cancelAll`. -/
inductive Removal where
  | del (event : Event)
  | cancel (event : Event)
  | cancelAll

/-- A call of one of the three, with the outcome of its `epoll_ctl`. -/
structure RemoveEvent where
  fd : Int32
  removal : Removal
  ctl : Bool

inductive EventCall (σ φ κ : Type) where
  | add (a : AddEvent σ φ κ)
  | remove (r : RemoveEvent)

inductive EventSection (σ φ κ : Type) where
  | add (k : AddSection σ φ κ)
  | lookup (r : RemoveEvent)
  | unregister (r : RemoveEvent) (fdCtx : Option Nat)

namespace EventTable

def init : EventTable σ φ κ := ⟨.init,[]⟩

/-- The context at `p` as it is left by a call on descriptor `fd` that took `events` out of it. -/
def leave (t : EventTable σ φ κ) (fd : Int32) (p : Nat) (c : FdContext σ φ κ) (events : Nat) (tasks : List (σ × Task φ κ)) :
    EventTable σ φ κ :=
  { t with
    heap := t.heap.set p c
    interest := Function.update t.interest fd.toNatClampNeg c.events
    pending := (decrement^[events]) t.pending
    scheduled := t.scheduled ++ tasks }

/-- `triggerEvent` in `cancelAll`, if the event is registered, with how many were. -/
def triggerIf (c : FdContext σ φ κ) (event : Event) : Except Fault (Nat × List (σ × Task φ κ) × FdContext σ φ κ) :=
  if event ∈ c.events then (c.triggerEvent event).map fun r => (1,r.1,r.2) else .ok (0,[],c)

/-- The part of `delEvent` under the mutex of the fd context. -/
def delEvent (t : EventTable σ φ κ) (fd : Int32) (p : Nat) (c : FdContext σ φ κ) (event : Event) (ctl : Bool) : Bool × EventTable σ φ κ :=
  if event ∉ c.events ∨ !ctl then (false,t)
  else (true,t.leave fd p ⟨Function.update c.context event .empty,c.events \ {event}⟩ 1 [])

/-- That of `cancelEvent`. -/
def cancelEvent (t : EventTable σ φ κ) (fd : Int32) (p : Nat) (c : FdContext σ φ κ) (event : Event) (ctl : Bool) :
    Except Fault (Bool × EventTable σ φ κ) :=
  if event ∉ c.events ∨ !ctl then .ok (false,t)
  else (c.triggerEvent event).map fun r => (true,t.leave fd p r.2 1 r.1)

/-- That of `cancelAll`. -/
def cancelAll (t : EventTable σ φ κ) (fd : Int32) (p : Nat) (c : FdContext σ φ κ) (ctl : Bool) : Except Fault (Bool × EventTable σ φ κ) :=
  if c.events = ∅ ∨ !ctl then .ok (false,t)
  else do
    let (n,tasks,c) ← triggerIf c .read
    let (n',tasks',c) ← triggerIf c .write
    if c.events ≠ ∅ then .error .assertion else .ok (true,t.leave fd p c (n + n') (tasks ++ tasks'))

/-- The part of the three functions up to the end of the read lock. -/
def lookup (t : EventTable σ φ κ) (r : RemoveEvent) : Except Fault ((EventSection σ φ κ ⊕ Bool) × EventTable σ φ κ) :=
  if !covers t.fdContexts r.fd then .ok (.inr false,t)
  else
    match slot t.fdContexts r.fd with
    | none => .error .outOfBounds
    | some p => .ok (.inl (.unregister r p),t)

/-- The part under the mutex of the fd context. -/
def unregister (t : EventTable σ φ κ) (r : RemoveEvent) (fdCtx : Option Nat) : Except Fault (Bool × EventTable σ φ κ) :=
  match fdCtx with
  | none => .error .nullDeref
  | some p =>
    match t.heap[p]? with
    | none => .error .nullDeref
    | some c =>
      match r.removal with
      | .del event => .ok (t.delEvent r.fd p c event r.ctl)
      | .cancel event => t.cancelEvent r.fd p c event r.ctl
      | .cancelAll => t.cancelAll r.fd p c r.ctl

def exec : EventSection σ φ κ → EventTable σ φ κ → Except Fault ((EventSection σ φ κ ⊕ Bool) × EventTable σ φ κ)
  | .add k, t => (FdTable.exec k t.toFdTable).map fun out => (out.1.map .add id,{ t with toFdTable := out.2 })
  | .lookup r, t => t.lookup r
  | .unregister r p, t => (t.unregister r p).map fun out => (.inr out.1,out.2)

/-- What keeps the index of the section inside the vector: below the size as an `int` the descriptor is not negative, and
the vector grows for no descriptor below 2. -/
def Indexes : EventSection σ φ κ → EventTable σ φ κ → Prop
  | .add (.lookup a), t => covers t.fdContexts a.fd = true → ¬ a.fd < 0
  | .add (.grow a), _ => ¬ a.fd < 0 ∧ 2 ≤ a.fd.toNatClampNeg
  | .add (.register ..), _ => True
  | .lookup r, t => covers t.fdContexts r.fd = true → ¬ r.fd < 0
  | .unregister .., _ => True

variable {t : EventTable σ φ κ}

theorem fetch_outOfBounds (t : FdTable σ φ κ) (a : AddEvent σ φ κ) : t.fetch a = .error .outOfBounds ↔ slot t.fdContexts a.fd = none := by
  rw [FdTable.fetch]
  cases slot t.fdContexts a.fd with
  | none => exact iff_of_true rfl rfl
  | some p => exact iff_of_false (fun he => by cases he) fun he => by cases he

theorem triggerEvent_inside (c : FdContext σ φ κ) (event : Event) : c.triggerEvent event ≠ .error .outOfBounds := by
  unfold FdContext.triggerEvent
  split
  · exact fun he => by cases he
  · cases hs : (c.context event).scheduler with
    | none => simp only [hs]; exact fun he => by cases he
    | some scheduler => simp only [hs]; exact fun he => by cases he

theorem triggerIf_inside (c : FdContext σ φ κ) (event : Event) : triggerIf c event ≠ .error .outOfBounds := by
  unfold triggerIf
  split
  · exact fun h => triggerEvent_inside c event (map_error h)
  · exact fun he => by cases he

theorem cancelEvent_inside (fd : Int32) (p : Nat) (c : FdContext σ φ κ) (event : Event) (ctl : Bool) :
    t.cancelEvent fd p c event ctl ≠ .error .outOfBounds := by
  unfold cancelEvent
  split
  · exact fun he => by cases he
  · exact fun h => triggerEvent_inside c event (map_error h)

theorem cancelAll_inside (fd : Int32) (p : Nat) (c : FdContext σ φ κ) (ctl : Bool) : t.cancelAll fd p c ctl ≠ .error .outOfBounds := by
  unfold cancelAll
  split
  · exact fun he => by cases he
  · intro h
    cases hr : triggerIf c .read with
    | error e =>
      rw [hr] at h
      cases h
      exact triggerIf_inside c .read hr
    | ok r =>
      obtain ⟨n,tasks,c'⟩ := r
      rw [hr] at h
      change (triggerIf c' .write >>= _) = _ at h
      cases hw : triggerIf c' .write with
      | error e =>
        rw [hw] at h
        cases h
        exact triggerIf_inside c' .write hw
      | ok r =>
        obtain ⟨n',tasks',c''⟩ := r
        rw [hw] at h
        change (if c''.events ≠ ∅ then _ else _) = _ at h
        split at h <;> cases h

/-- The part under the mutex has no index. -/
theorem unregister_inside (r : RemoveEvent) (p : Option Nat) : t.unregister r p ≠ .error .outOfBounds := by
  unfold unregister
  cases p with
  | none => exact fun he => by cases he
  | some p =>
    cases hc : t.heap[p]? with
    | none => simp only [hc]; exact fun he => by cases he
    | some c =>
      simp only [hc]
      cases r.removal with
      | del event => exact fun he => by cases he
      | cancel event => exact cancelEvent_inside r.fd p c event r.ctl
      | cancelAll => exact cancelAll_inside r.fd p c r.ctl

theorem register_inside (t : FdTable σ φ κ) (a : AddEvent σ φ κ) (p : Option Nat) : t.register a p ≠ .error .outOfBounds := by
  intro h
  unfold FdTable.register at h
  repeat' split at h
  all_goals cases h

theorem map_error_iff {α β ε : Type} {f : α → β} {x : Except ε α} {e : ε} : x.map f = .error e ↔ x = .error e := by
  cases x with
  | error e' => exact ⟨fun h => congrArg _ (Except.error.inj h),fun h => congrArg _ (Except.error.inj h)⟩
  | ok a => exact iff_of_false (fun he => by cases he) fun he => by cases he

/-- A section leaves the vector exactly where its index is not kept inside. -/
theorem exec_outOfBounds (k : EventSection σ φ κ) (t : EventTable σ φ κ) : exec k t = .error .outOfBounds ↔ ¬ Indexes k t := by
  cases k with
  | add k =>
    rw [exec, map_error_iff]
    cases k with
    | lookup a =>
      rw [FdTable.exec, Indexes, Classical.not_imp, not_not]
      cases hc : covers t.fdContexts a.fd with
      | false => exact iff_of_false (fun he => by cases he) fun h => Bool.false_ne_true h.1
      | true => rw [if_pos rfl, fetch_outOfBounds, slot_covered_none hc, and_iff_right rfl]
    | grow a =>
      rw [FdTable.exec, Indexes, not_and_or, not_not]
      by_cases h0 : a.fd < 0
      · rw [enlarged, if_pos h0]
        exact iff_of_true rfl (.inl h0)
      · rw [enlarged_nonneg h0]
        simp only [fetch_outOfBounds, slot_enlarged_none h0 (FdTable.length_contextResize t.toFdTable _), h0, false_or, Nat.not_le]
    | register a p => exact iff_of_false (register_inside t.toFdTable a p) (not_not.mpr trivial)
  | lookup r =>
    rw [exec, lookup, Indexes, Classical.not_imp, not_not]
    cases hc : covers t.fdContexts r.fd with
    | false => exact iff_of_false (fun he => by cases he) fun h => Bool.false_ne_true h.1
    | true =>
      rw [if_neg (by decide), and_iff_right rfl, ← slot_covered_none hc]
      cases slot t.fdContexts r.fd with
      | none => exact iff_of_true rfl rfl
      | some p => exact iff_of_false (fun he => by cases he) fun he => by cases he
  | unregister r p =>
    rw [exec, map_error_iff]
    exact iff_of_false (unregister_inside r p) (not_not.mpr trivial)

end EventTable

def eventCalls : Calls (EventCall σ φ κ) (EventSection σ φ κ) (EventTable σ φ κ) Bool Fault where
  enter
    | .add a => .add (.lookup a)
    | .remove r => .lookup r
  exec := EventTable.exec

end Radixun.Common.IOManager

namespace Radixun.Common.FdManager
open Foundation CommandRuns CriticalSections PointerTable
variable {θ : Type} {m : Manager}

/-- What keeps the index of the section inside the vector. Unlike the others, `get` refuses -1 beforehand. -/
def Indexes : FdSection → Manager → Prop
  | .find fd _ _, m => fd ≠ -1 → covers m.datas fd = true → ¬ fd < 0
  | .create fd _, m => ¬ fd < 0 ∧ (covers m.datas fd = true ∨ 2 ≤ fd.toNatClampNeg)
  | .erase fd, m => covers m.datas fd = true → ¬ fd < 0

theorem find_outOfBounds (fd : Int32) (autoCreate : Bool) (stat : Option Bool) (m : Manager) :
    m.find fd autoCreate stat = .error .outOfBounds ↔ fd ≠ -1 ∧ covers m.datas fd = true ∧ fd < 0 := by
  rw [Manager.find]
  by_cases hm : fd = -1
  · rw [if_pos hm]
    exact iff_of_false (fun he => by cases he) fun h => h.1 hm
  · rw [if_neg hm, and_iff_right hm]
    cases hc : covers m.datas fd with
    | false => exact iff_of_false (fun he => by cases he) fun h => Bool.false_ne_true h.1
    | true =>
      rw [if_neg (by decide), and_iff_right rfl, ← slot_covered_none hc]
      cases slot m.datas fd with
      | none => exact iff_of_true rfl rfl
      | some p => exact iff_of_false (fun he => by cases he) fun he => by cases he

theorem create_outOfBounds (fd : Int32) (stat : Option Bool) (m : Manager) :
    m.create fd stat = .error .outOfBounds ↔ fd < 0 ∨ covers m.datas fd = false ∧ fd.toNatClampNeg < 2 := by
  -- the slot that is written to, in the vector as it is or as it is resized
  have hslot : ∀ v : List (Option Nat), (if covers m.datas fd then some m.datas else (enlarged fd).map (resize m.datas)) = some v →
      (m.create fd stat = .error .outOfBounds ↔ slot v fd = none) := by
    intro v hv
    simp only [Manager.create, hv]
    cases slot v fd with
    | none => exact iff_of_true rfl rfl
    | some p => exact iff_of_false (fun he => by cases he) fun he => by cases he
  cases hc : covers m.datas fd with
  | true =>
    rw [hslot m.datas (by rw [hc]; rfl), slot_covered_none hc]
    exact ⟨.inl,fun h => h.resolve_right fun h => Bool.false_ne_true h.1.symm⟩
  | false =>
    by_cases h0 : fd < 0
    · refine iff_of_true ?_ (.inl h0)
      have hnone : enlarged fd = none := if_pos h0
      simp only [Manager.create, hc, hnone]
      rfl
    · rw [hslot (resize m.datas (fd.toNatClampNeg * 3 / 2)) (by rw [hc, enlarged_nonneg h0]; rfl),
        slot_enlarged_none h0 (length_resize ..)]
      exact ⟨fun h => .inr ⟨rfl,h⟩,fun h => (h.resolve_left h0).2⟩

theorem erase_outOfBounds (fd : Int32) (m : Manager) : m.erase fd = .error .outOfBounds ↔ covers m.datas fd = true ∧ fd < 0 := by
  rw [Manager.erase]
  cases hc : covers m.datas fd with
  | false => exact iff_of_false (fun he => by cases he) fun h => Bool.false_ne_true h.1
  | true =>
    rw [if_neg (by decide), and_iff_right rfl, ← slot_covered_none hc]
    cases slot m.datas fd with
    | none => exact iff_of_true rfl rfl
    | some p => exact iff_of_false (fun he => by cases he) fun he => by cases he

theorem section_outOfBounds (k : FdSection) (m : Manager) : calls.exec k m = .error .outOfBounds ↔ ¬ Indexes k m := by
  cases k with
  | find fd autoCreate stat =>
    rw [Indexes, Classical.not_imp, Classical.not_imp, not_not]
    exact find_outOfBounds fd autoCreate stat m
  | create fd stat =>
    rw [Indexes, not_and_or, not_not, not_or, Bool.not_eq_true, Nat.not_le]
    exact create_outOfBounds fd stat m
  | erase fd =>
    rw [Indexes, Classical.not_imp, not_not]
    exact erase_outOfBounds fd m

end Radixun.Common.FdManager

namespace Radixun.Common.IOManager
open Foundation CommandRuns CriticalSections PointerTable
variable {θ σ φ κ : Type}

/-- The accesses of the six functions are all inside of the vectors exactly in the runs in which no descriptor below
the size is negative, -1 in `get` apart, and no vector grows for 0 or 1. -/
theorem descriptors_inside_iff [DecidableEq θ] (acts : List (Act θ (EventCall σ φ κ))) (fdActs : List (Act θ FdManager.FdCall)) :
    (runAll eventCalls.act acts (.idle .init) ≠ .error .outOfBounds ↔
      Along (Admitted EventTable.Indexes) eventCalls.act acts (.idle .init)) ∧
    (runAll FdManager.calls.act fdActs (.idle .init) ≠ .error .outOfBounds ↔
      Along (Admitted FdManager.Indexes) FdManager.calls.act fdActs (.idle .init)) :=
  ⟨run_avoids_iff EventTable.exec_outOfBounds acts EventTable.init,
    run_avoids_iff FdManager.section_outOfBounds fdActs FdManager.Manager.init⟩

/-- What `Socket` does when it is closed twice, and `close` on -2: both read before the start of the vector. -/
theorem closed_socket_outside :
    ¬ ((∀ acts : List (Act Unit (EventCall Unit Unit Unit)), runAll eventCalls.act acts (.idle .init) ≠ .error .outOfBounds) ∨
      ∀ acts : List (Act Unit FdManager.FdCall), runAll FdManager.calls.act acts (.idle .init) ≠ .error .outOfBounds) := by
  rintro (h | h)
  · exact h [.call () (.remove ⟨-1,.cancelAll,true⟩),.step ()] rfl
  · exact h [.call () (.get (-2) false none),.step ()] rfl

end Radixun.Common.IOManager
