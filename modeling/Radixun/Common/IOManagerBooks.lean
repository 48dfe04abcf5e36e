import Mathlib.Algebra.BigOperators.Group.Multiset.Basic
import Radixun.Common.IOManagerModel
import Radixun.Foundation.TableSum

/-! The books the IO manager keeps about registrations: mask, slots, kernel and counter agree,
and every registration is in exactly one place. -/
namespace Radixun.Common.IOManager
open Foundation.ExceptionState Foundation.TableSum
variable {σ φ κ : Type}

/-- What a slot has registered: a scheduler with one of callback and fiber. -/
def EventContext.registration (x : EventContext σ φ κ) : List (σ × Task φ κ) :=
  match x with
  | ⟨some scheduler,none,some cb⟩ => [(scheduler,.cb cb)]
  | ⟨some scheduler,some fiber,none⟩ => [(scheduler,.fiber fiber)]
  | _ => []

/-- A slot whose event bit is `bit`. -/
def EventContext.Agrees (x : EventContext σ φ κ) (bit : Prop) : Prop :=
  (bit ↔ x.scheduler.isSome = true ∧ (x.cb.isSome = true ↔ x.fiber.isNone = true)) ∧ (¬ bit ↔ x = .empty)

def FdContext.live (c : FdContext σ φ κ) : Multiset (σ × Task φ κ) := ∑ e, ↑(c.context e).registration

namespace State

/-- All registrations that have not left the table. -/
def live (s : State σ φ κ) : Multiset (σ × Task φ κ) := ∑ fd ∈ Finset.range s.size, (s.fds fd).live

/-- The number of event bits that are set. -/
def bits (s : State σ φ κ) : Nat := ∑ fd ∈ Finset.range s.size, (s.fds fd).events.card

end State

/-- What holds also between an `epoll_ctl` and the triggers that follow it. -/
structure Core (s : State σ φ κ) : Prop where
  slots : ∀ fd e, ((s.fds fd).context e).Agrees (e ∈ (s.fds fd).events)
  beyond : ∀ fd, s.size ≤ fd → (s.fds fd).events = ∅
  pending : s.pending = s.bits
  size : 32 ≤ s.size

structure Inv (s : State σ φ κ) : Prop extends Core s where
  interest : ∀ fd, s.interest fd = (s.fds fd).events

theorem EventContext.empty_agrees : (EventContext.empty : EventContext σ φ κ).Agrees False := by
  simp [EventContext.Agrees, EventContext.empty]

theorem inv_init : Inv (State.init : State σ φ κ) where
  slots := fun fd e => by simpa [State.init] using EventContext.empty_agrees
  interest := fun _ => rfl
  beyond := fun _ _ => rfl
  pending := by simp [State.init, State.bits]
  size := le_rfl

/-- A slot with its bit set holds one registration, in one of two forms. -/
theorem EventContext.Agrees.set {x : EventContext σ φ κ} {bit : Prop} (h : x.Agrees bit) (hb : bit) :
    ∃ scheduler task, x.registration = [(scheduler,task)] ∧
      ((∃ c, x = ⟨some scheduler,none,some c⟩ ∧ task = .cb c) ∨ ∃ f, x = ⟨some scheduler,some f,none⟩ ∧ task = .fiber f) := by
  obtain ⟨hs,hx⟩ := h.1.mp hb
  obtain ⟨scheduler,fiber,cb⟩ := x
  cases scheduler with
  | none => simp at hs
  | some scheduler =>
    cases cb with
    | some c =>
      cases fiber with
      | some f => simp at hx
      | none => exact ⟨scheduler,.cb c,rfl,.inl ⟨c,rfl,rfl⟩⟩
    | none =>
      cases fiber with
      | some f => exact ⟨scheduler,.fiber f,rfl,.inr ⟨f,rfl,rfl⟩⟩
      | none => simp at hx

theorem EventContext.Agrees.clear {x : EventContext σ φ κ} {bit : Prop} (h : x.Agrees bit) (hb : ¬ bit) : x = .empty :=
  h.2.mp hb

namespace State
variable {s : State σ φ κ} {fd : Nat} {event : Event}

/-- The table after the slot of `event` is emptied and its bit is cleared. -/
def vacate (s : State σ φ κ) (fd : Nat) (event : Event) : State σ φ κ :=
  s.setFd fd ⟨Function.update (s.fds fd).context event .empty,(s.fds fd).events \ {event}⟩

/-- Firing a registered event hands its registration over and empties the slot. -/
theorem fire_ok (hslot : ((s.fds fd).context event).Agrees (event ∈ (s.fds fd).events)) (he : event ∈ (s.fds fd).events) :
    s.fire fd event = .ok { s.vacate fd event with
      pending := decrement s.pending
      scheduled := s.scheduled ++ ((s.fds fd).context event).registration } := by
  obtain ⟨scheduler,task,hr,⟨c,hx,rfl⟩ | ⟨f,hx,rfl⟩⟩ := hslot.set he
  all_goals
    rw [fire, triggerEvent, hr]
    simp only [not_not.mpr he, if_false, hx]
    rfl

theorem fire_fails (he : event ∉ (s.fds fd).events) : s.fire fd event = .error .assertion := by
  rw [fire, triggerEvent]
  simp only [he, not_false_eq_true, if_true]
  rfl

end State

section Updates
variable {s : State σ φ κ} {fd : Nat} {event : Event}

@[simp] theorem registration_empty : (EventContext.empty : EventContext σ φ κ).registration = [] := rfl

/-- Replacing one slot changes what is live by that slot. -/
theorem live_slot (c : FdContext σ φ κ) (event : Event) (x : EventContext σ φ κ) (events : Finset Event) :
    FdContext.live ⟨Function.update c.context event x,events⟩ + ↑(c.context event).registration =
      c.live + ↑x.registration :=
  sum_update Finset.univ c.context (fun x => (↑x.registration : Multiset (σ × Task φ κ))) (Finset.mem_univ event) x

theorem live_setFd (hfd : fd < s.size) (c : FdContext σ φ κ) :
    (s.setFd fd c).live + (s.fds fd).live = s.live + c.live :=
  sum_update (Finset.range s.size) s.fds FdContext.live (Finset.mem_range.mpr hfd) c

theorem bits_setFd (hfd : fd < s.size) (c : FdContext σ φ κ) :
    (s.setFd fd c).bits + (s.fds fd).events.card = s.bits + c.events.card :=
  sum_update (Finset.range s.size) s.fds (fun c => c.events.card) (Finset.mem_range.mpr hfd) c

theorem Core.lt_size (h : Core s) (he : event ∈ (s.fds fd).events) : fd < s.size := by
  by_contra hn
  rw [h.beyond fd (by omega)] at he
  exact absurd he (Finset.notMem_empty _)

/-- Slots agree with the mask again when one slot and its bit are replaced together. -/
theorem Core.slots_set (h : Core s) {x : EventContext σ φ κ} {events : Finset Event} (hx : x.Agrees (event ∈ events))
    (hother : ∀ e, e ≠ event → (e ∈ events ↔ e ∈ (s.fds fd).events)) (fd' : Nat) (e : Event) :
    (((s.setFd fd ⟨Function.update (s.fds fd).context event x,events⟩).fds fd').context e).Agrees
      (e ∈ ((s.setFd fd ⟨Function.update (s.fds fd).context event x,events⟩).fds fd').events) := by
  by_cases hfd : fd' = fd
  · subst hfd
    simp only [State.setFd, Function.update_self]
    by_cases he : e = event
    · subst he
      rwa [Function.update_self]
    · rw [Function.update_of_ne he, hother e he]
      exact h.slots fd' e
  · simp only [State.setFd, Function.update_of_ne hfd]
    exact h.slots fd' e

theorem Core.beyond_set (h : Core s) (hfd : fd < s.size) (c : FdContext σ φ κ) (fd' : Nat) (hs : s.size ≤ fd') :
    ((s.setFd fd c).fds fd').events = ∅ := by
  simp only [State.setFd]
  rw [Function.update_of_ne (by omega)]
  exact h.beyond fd' hs

/-- Clearing a registered event takes its registration and one unit of the counter away. -/
theorem Core.vacate (h : Core s) (he : event ∈ (s.fds fd).events) (scheduled : List (σ × Task φ κ)) :
    Core { s.vacate fd event with pending := decrement s.pending, scheduled := scheduled } ∧
      s.live = (s.vacate fd event).live + ↑((s.fds fd).context event).registration ∧ decrement s.pending + 1 = s.pending := by
  have hfd := h.lt_size he
  have hcard : ((s.fds fd).events \ {event}).card + 1 = (s.fds fd).events.card := by
    rw [Finset.sdiff_singleton_eq_erase, Finset.card_erase_add_one he]
  have hbits := bits_setFd hfd ⟨Function.update (s.fds fd).context event .empty,(s.fds fd).events \ {event}⟩
  have hpos : s.pending = (s.vacate fd event).bits + 1 := by
    rw [h.pending, State.vacate]
    simp only at hbits
    omega
  have hdec : decrement s.pending = (s.vacate fd event).bits := by rw [decrement, if_neg (by omega)]; omega
  refine ⟨⟨?_,?_,hdec,h.size⟩,?_,by omega⟩
  · intro fd' e
    refine h.slots_set (by simpa using EventContext.empty_agrees) ?_ fd' e
    intro e hne
    simp [hne]
  · exact h.beyond_set hfd _
  · have hslot := live_slot (s.fds fd) event .empty ((s.fds fd).events \ {event})
    have hrow := live_setFd hfd ⟨Function.update (s.fds fd).context event .empty,(s.fds fd).events \ {event}⟩
    rw [registration_empty, Multiset.coe_nil, add_zero] at hslot
    rw [← hslot, ← add_assoc] at hrow
    apply add_right_cancel (b := FdContext.live ⟨Function.update (s.fds fd).context event .empty,(s.fds fd).events \ {event}⟩)
    rw [← hrow]
    exact add_right_comm _ _ _

/-- Filling an empty slot adds its registration and one unit. -/
theorem Core.occupy (h : Core s) (hfd : fd < s.size) (he : event ∉ (s.fds fd).events) {x : EventContext σ φ κ} (hx : x.Agrees True) :
    let s' := s.setFd fd ⟨Function.update (s.fds fd).context event x,(s.fds fd).events ∪ {event}⟩
    Core { s' with pending := s.pending + 1 } ∧ s'.live = s.live + ↑x.registration := by
  intro s'
  have hempty := (h.slots fd event).clear he
  have hcard : ((s.fds fd).events ∪ {event}).card = (s.fds fd).events.card + 1 := by
    rw [Finset.union_singleton, Finset.card_insert_of_notMem he]
  have hbits : s'.bits + (s.fds fd).events.card = s.bits + ((s.fds fd).events ∪ {event}).card := bits_setFd hfd _
  refine ⟨⟨?_,h.beyond_set hfd _,?_,h.size⟩,?_⟩
  · intro fd' e
    refine h.slots_set (by simpa using hx) ?_ fd' e
    intro e hne
    simp [hne]
  · change s.pending + 1 = s'.bits
    rw [h.pending]
    omega
  · have hslot := live_slot (s.fds fd) event x ((s.fds fd).events ∪ {event})
    have hrow := live_setFd hfd ⟨Function.update (s.fds fd).context event x,(s.fds fd).events ∪ {event}⟩
    rw [hempty, registration_empty, Multiset.coe_nil, add_zero] at hslot
    rw [hslot, ← add_assoc, add_right_comm] at hrow
    exact add_right_cancel hrow

/-- A larger table counts the same. -/
theorem Core.resize (h : Core s) (size : Nat) (hs : s.size ≤ size) :
    Core { s with size := size } ∧ State.live { s with size := size } = s.live := by
  have hzero : ∀ fd, s.size ≤ fd → (s.fds fd).live = 0 := by
    intro fd hfd
    apply Finset.sum_eq_zero
    intro e _
    rw [(h.slots fd e).clear (by rw [h.beyond fd hfd]; exact Finset.notMem_empty _)]
    rfl
  have hbits : State.bits { s with size := size } = s.bits :=
    sum_extend _ hs fun fd hfd => by rw [h.beyond fd hfd, Finset.card_empty]
  exact ⟨⟨h.slots,fun fd hfd => h.beyond fd (hs.trans hfd),h.pending.trans hbits.symm,h.size.trans hs⟩,sum_extend _ hs hzero⟩

end Updates
end Radixun.Common.IOManager
