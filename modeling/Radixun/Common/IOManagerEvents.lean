import Radixun.Common.IOManagerBooks
import Radixun.Foundation.CommandRuns

/-! Runs of registrations, cancellations and dispatches. -/
namespace Radixun.Common.IOManager
open Foundation.ExceptionState Foundation.CommandRuns
variable {σ φ κ : Type}

/-- A call with its arguments and the outcome of its `epoll_ctl`. The caller of `addEvent` runs on
a thread of scheduler `this`, in fiber `current`. -/
inductive Op (σ φ κ : Type) where
  | add (fd : Nat) (event : Event) (this : σ) (current : φ) (cb : Option κ) (ctl : Bool)
  | del (fd : Nat) (event : Event) (ctl : Bool)
  | cancel (fd : Nat) (event : Event) (ctl : Bool)
  | cancelAll (fd : Nat) (ctl : Bool)
  | dispatch (fd : Nat) (ready : Ready) (ctl : Bool)

def Op.run : Op σ φ κ → State σ φ κ → Except Fault (Bool × State σ φ κ)
  | .add fd event this current cb ctl, s => s.addEvent fd event (some this) current cb ctl
  | .del fd event ctl, s => s.delEvent fd event ctl
  | .cancel fd event ctl, s => s.cancelEvent fd event ctl
  | .cancelAll fd ctl, s => s.cancelAll fd ctl
  | .dispatch fd ready ctl, s => s.dispatch fd ready ctl

/-- What `addEvent` registers. -/
def Op.added : Op σ φ κ → List (σ × Task φ κ)
  | .add _ _ this _ (some cb) _ => [(this,.cb cb)]
  | .add _ _ this current none _ => [(this,.fiber current)]
  | _ => []

/-- What `delEvent` removes. -/
def Op.deleted (op : Op σ φ κ) (s : State σ φ κ) : List (σ × Task φ κ) :=
  match op with
  | .del fd event _ => ((s.fds fd).context event).registration
  | _ => []

/-- The events in `mask` of descriptor `fd` were triggered, and nothing else happened. -/
structure Fired (s s' : State σ φ κ) (fd : Nat) (mask : Finset Event) : Prop where
  core : Core s'
  interest : s'.interest = s.interest
  size : s'.size = s.size
  others : ∀ fd', fd' ≠ fd → s'.fds fd' = s.fds fd'
  events : (s'.fds fd).events = (s.fds fd).events \ mask
  counted : s'.pending + mask.card = s.pending
  handed : ∃ handed, s'.scheduled = s.scheduled ++ handed ∧ handed.length = mask.card ∧ s.live = s'.live + ↑handed

namespace Fired
variable {s s' s'' : State σ φ κ} {fd : Nat} {m n : Finset Event}

theorem none (h : Core s) (fd : Nat) : Fired s s fd ∅ :=
  ⟨h,rfl,rfl,fun _ _ => rfl,by simp,by simp,[],by simp,rfl,by simp⟩

theorem trans (h₁ : Fired s s' fd m) (h₂ : Fired s' s'' fd n) (hd : Disjoint m n) : Fired s s'' fd (m ∪ n) where
  core := h₂.core
  interest := h₂.interest.trans h₁.interest
  size := h₂.size.trans h₁.size
  others := fun fd' hfd => (h₂.others fd' hfd).trans (h₁.others fd' hfd)
  events := by rw [h₂.events, h₁.events]; exact sdiff_sdiff_left
  counted := by
    have hc₁ := h₁.counted
    have hc₂ := h₂.counted
    rw [Finset.card_union_of_disjoint hd]
    omega
  handed := by
    obtain ⟨x,hx,hlx,hlive⟩ := h₁.handed
    obtain ⟨y,hy,hly,hlive'⟩ := h₂.handed
    refine ⟨x ++ y,by rw [hy, hx, List.append_assoc],?_,?_⟩
    · rw [List.length_append, hlx, hly, Finset.card_union_of_disjoint hd]
    · rw [hlive, hlive', ← Multiset.coe_add, add_assoc]
      exact congrArg _ (add_comm _ _)

end Fired

section Calls
variable {s : State σ φ κ} {fd : Nat}

theorem fire_fired (h : Core s) {event : Event} (he : event ∈ (s.fds fd).events) :
    ∃ s', s.fire fd event = .ok s' ∧ Fired s s' fd {event} := by
  obtain ⟨hcore,hlive,hcount⟩ := h.vacate he (s.scheduled ++ ((s.fds fd).context event).registration)
  obtain ⟨scheduler,task,hreg,-⟩ := (h.slots fd event).set he
  refine ⟨_,State.fire_ok (h.slots fd event) he,hcore,rfl,rfl,?_,?_,?_,?_⟩
  · intro fd' hfd
    simp [State.vacate, State.setFd, hfd]
  · simp [State.vacate, State.setFd]
  · simpa using hcount
  · exact ⟨_,rfl,by rw [hreg]; rfl,hlive⟩

theorem fireIf_fired (h : Core s) (event : Event) (test : Bool) (he : test = true → event ∈ (s.fds fd).events) :
    ∃ s', s.fireIf test fd event = .ok s' ∧ Fired s s' fd (if test then {event} else ∅) := by
  cases test with
  | false => exact ⟨s,rfl,.none h fd⟩
  | true => exact fire_fired h (he rfl)

/-- The two conditional triggers one after the other, for a mask of registered events. -/
theorem fire_mask (h : Core s) {mask : Finset Event} (hm : mask ⊆ (s.fds fd).events) :
    ∃ s₁ s₂, s.fireIf (.read ∈ mask) fd .read = .ok s₁ ∧ s₁.fireIf (.write ∈ mask) fd .write = .ok s₂ ∧
      (Event.write ∈ (s₁.fds fd).events ↔ Event.write ∈ (s.fds fd).events) ∧ Fired s s₂ fd mask := by
  obtain ⟨s₁,he₁,hf₁⟩ := fireIf_fired h .read (.read ∈ mask) (fun hr => hm (of_decide_eq_true hr))
  have hsame : Event.write ∈ (s₁.fds fd).events ↔ Event.write ∈ (s.fds fd).events := by
    rw [hf₁.events]
    split <;> simp
  obtain ⟨s₂,he₂,hf₂⟩ :=
    fireIf_fired hf₁.core .write (.write ∈ mask) (fun hw => hsame.mpr (hm (of_decide_eq_true hw)))
  have hsplit : (if decide (Event.read ∈ mask) = true then {Event.read} else ∅) ∪
      (if decide (Event.write ∈ mask) = true then {Event.write} else ∅) = mask := by
    ext e
    cases e <;> by_cases hr : Event.read ∈ mask <;> by_cases hw : Event.write ∈ mask <;> simp [hr, hw]
  refine ⟨s₁,s₂,he₁,he₂,hsame,?_⟩
  rw [← hsplit]
  exact hf₁.trans hf₂ (by split <;> split <;> simp)

end Calls

/-- Nothing of the bookkeeping changes and nothing is scheduled. -/
structure Same (s s' : State σ φ κ) : Prop where
  fds : s'.fds = s.fds
  interest : s'.interest = s.interest
  pending : s'.pending = s.pending
  scheduled : s'.scheduled = s.scheduled
  live : s'.live = s.live

/-- Where registrations go: what was live or is added is live still, handed over or deleted. -/
structure Moved (op : Op σ φ κ) (s s' : State σ φ κ) (handed : List (σ × Task φ κ)) : Prop where
  scheduled : s'.scheduled = s.scheduled ++ handed
  live : s.live + ↑op.added = s'.live + ↑handed + ↑(op.deleted s)

/-- The calls that hand registrations to their schedulers. -/
def Op.hands : Op σ φ κ → Bool
  | .add .. => false
  | .del .. => false
  | .cancel .. => true
  | .cancelAll .. => true
  | .dispatch .. => true

/-- A call that fails changes nothing; one that succeeds accounts for every registration. -/
def Books (op : Op σ φ κ) (r : Bool) (s s' : State σ φ κ) : Prop :=
  if r then ∃ handed, Moved op s s' handed ∧ (op.hands = false → handed = []) else Same s s'

/-- What the callers of `addEvent` and the kernel promise. -/
def Op.Admissible : Op σ φ κ → State σ φ κ → Prop
  | .add fd event _ _ _ _, s => event ∉ (s.fds fd).events
  | .dispatch fd ready _, s => ready.real ⊆ (s.fds fd).events
  | _, _ => True

instance : (op : Op σ φ κ) → (s : State σ φ κ) → Decidable (op.Admissible s)
  | .add fd event _ _ _ _, s => inferInstanceAs (Decidable (event ∉ (s.fds fd).events))
  | .dispatch fd ready _, s => inferInstanceAs (Decidable (ready.real ⊆ (s.fds fd).events))
  | .del .., _ | .cancel .., _ | .cancelAll .., _ => isTrue trivial

theorem same_books (op : Op σ φ κ) (s : State σ φ κ) : Books op false s s := ⟨rfl,rfl,rfl,rfl,rfl⟩

section Calls
variable {s : State σ φ κ} {fd : Nat} {event : Event}

theorem core_epollCtl (h : Core s) (op : CtlOp) (fd : Nat) (events : Finset Event) : Core (s.epollCtl op fd events) :=
  ⟨h.slots,h.beyond,h.pending,h.size⟩

/-- The interest set follows the mask when both are replaced for one descriptor. -/
private theorem interest_follows (h : Inv s) {s' : State σ φ κ} {op : CtlOp} {events : Finset Event}
    (hi : s'.interest = (s.epollCtl op fd events).interest) (ho : ∀ fd', fd' ≠ fd → s'.fds fd' = s.fds fd')
    (he : (s'.fds fd).events = events) (hop : op = .del → events = ∅) (fd' : Nat) :
    s'.interest fd' = (s'.fds fd').events := by
  rw [hi]
  by_cases hfd : fd' = fd
  · subst hfd
    simp only [State.epollCtl, Function.update_self, he]
    split
    · rename_i hdel
      exact (hop hdel).symm
    · rfl
  · simp only [State.epollCtl, Function.update_of_ne hfd]
    rw [h.interest, ho fd' hfd]

private theorem op_del {events : Finset Event} (h : (if events = ∅ then CtlOp.del else .mod) = .del) : events = ∅ := by
  by_contra hne
  rw [if_neg hne] at h
  cases h

/-- What the triggers after an `epoll_ctl` hand over is what the table loses. -/
private theorem fired_books (op : Op σ φ κ) {s' : State σ φ κ} {ctl : CtlOp} {events mask : Finset Event}
    (hadd : op.added = []) (hdel : op.deleted s = []) (hands : op.hands = true)
    (hf : Fired (s.epollCtl ctl fd events) s' fd mask) : Books op true s s' := by
  obtain ⟨handed,hsched,-,hlive⟩ := hf.handed
  refine ⟨handed,⟨hsched,?_⟩,by simp [hands]⟩
  rw [hadd, hdel, Multiset.coe_nil, add_zero, add_zero]
  exact hlive

theorem cancelEvent_ok (h : Inv s) (fd : Nat) (event : Event) (ctl : Bool) :
    ∃ r s', s.cancelEvent fd event ctl = .ok (r,s') ∧ Inv s' ∧ Books (.cancel fd event ctl) r s s' := by
  unfold State.cancelEvent
  split
  · exact ⟨_,s,rfl,h,same_books _ s⟩
  dsimp only
  split
  · exact ⟨_,s,rfl,h,same_books _ s⟩
  rename_i he
  rw [not_not] at he
  cases ctl with
  | false => exact ⟨_,s,rfl,h,same_books _ s⟩
  | true =>
    obtain ⟨s',hs',hf⟩ := fire_fired (core_epollCtl h.toCore
      (if (s.fds fd).events \ {event} = ∅ then .del else .mod) fd ((s.fds fd).events \ {event})) he
    simp only [Bool.not_true, Bool.false_eq_true, if_false, hs', ok_bind]
    refine ⟨_,s',rfl,⟨hf.core,?_⟩,fired_books _ rfl rfl rfl hf⟩
    exact interest_follows h hf.interest hf.others hf.events op_del

theorem cancelAll_ok (h : Inv s) (fd : Nat) (ctl : Bool) :
    ∃ r s', s.cancelAll fd ctl = .ok (r,s') ∧ Inv s' ∧ Books (.cancelAll fd ctl) r s s' := by
  unfold State.cancelAll
  split
  · exact ⟨_,s,rfl,h,same_books _ s⟩
  split
  · exact ⟨_,s,rfl,h,same_books _ s⟩
  cases ctl with
  | false => exact ⟨_,s,rfl,h,same_books _ s⟩
  | true =>
    obtain ⟨s₁,s₂,he₁,he₂,hsame,hf⟩ := fire_mask (core_epollCtl h.toCore .del fd ∅) (subset_refl (s.fds fd).events)
    have hgone : (s₂.fds fd).events = ∅ := by
      rw [hf.events]
      exact sdiff_self
    have hsecond : s₁.fireIf (.write ∈ (s₁.fds fd).events) fd .write = .ok s₂ := by
      rw [decide_eq_decide.mpr hsame]
      exact he₂
    have hfirst : (s.epollCtl .del fd ∅).fireIf (.read ∈ ((s.epollCtl .del fd ∅).fds fd).events) fd .read = .ok s₁ := he₁
    simp only [Bool.not_true, Bool.false_eq_true, if_false, hfirst, ok_bind, hsecond, hgone, ne_eq, not_true_eq_false]
    refine ⟨_,s₂,rfl,⟨hf.core,?_⟩,fired_books _ rfl rfl rfl hf⟩
    exact interest_follows h hf.interest hf.others hgone fun _ => rfl

/-- A dispatch of registered events triggers these. -/
theorem dispatch_fires (h : Inv s) (fd : Nat) {ready : Ready} (hne : (s.fds fd).events ∩ ready.real ≠ ∅)
    (hr : ready.real ⊆ (s.fds fd).events) :
    ∃ s' op, s.dispatch fd ready true = .ok (true,s') ∧ Inv s' ∧
      Fired (s.epollCtl op fd ((s.fds fd).events \ ready.real)) s' fd ready.real := by
  obtain ⟨s₁,s₂,he₁,he₂,-,hf⟩ := fire_mask
    (core_epollCtl h.toCore (if (s.fds fd).events \ ready.real = ∅ then .del else .mod) fd ((s.fds fd).events \ ready.real)) hr
  refine ⟨s₂,_,?_,⟨hf.core,interest_follows h hf.interest hf.others hf.events op_del⟩,hf⟩
  simp only [State.dispatch, if_neg hne, Bool.not_true, Bool.false_eq_true, if_false, he₁, ok_bind, he₂]

theorem dispatch_ok (h : Inv s) (fd : Nat) (ready : Ready) (ctl : Bool) (hr : ready.real ⊆ (s.fds fd).events) :
    ∃ r s', s.dispatch fd ready ctl = .ok (r,s') ∧ Inv s' ∧ Books (.dispatch fd ready ctl) r s s' := by
  by_cases hne : (s.fds fd).events ∩ ready.real = ∅
  · exact ⟨_,s,if_pos hne,h,same_books _ s⟩
  cases ctl with
  | false => exact ⟨false,s,by simp [State.dispatch, hne],h,same_books _ s⟩
  | true =>
    obtain ⟨s',op,hs',hinv,hf⟩ := dispatch_fires h fd hne hr
    exact ⟨_,s',hs',hinv,fired_books _ rfl rfl rfl hf⟩

theorem delEvent_ok (h : Inv s) (fd : Nat) (event : Event) (ctl : Bool) :
    ∃ r s', s.delEvent fd event ctl = .ok (r,s') ∧ Inv s' ∧ Books (.del fd event ctl) r s s' := by
  unfold State.delEvent
  split
  · exact ⟨_,s,rfl,h,same_books _ s⟩
  dsimp only
  split
  · exact ⟨_,s,rfl,h,same_books _ s⟩
  rename_i he
  rw [not_not] at he
  cases ctl with
  | false => exact ⟨_,s,rfl,h,same_books _ s⟩
  | true =>
    obtain ⟨hcore,hlive,-⟩ := (core_epollCtl h.toCore (if (s.fds fd).events \ {event} = ∅ then .del else .mod) fd
      ((s.fds fd).events \ {event})).vacate he s.scheduled
    refine ⟨_,_,rfl,⟨hcore,?_⟩,[],⟨(List.append_nil _).symm,?_⟩,fun _ => rfl⟩
    · refine interest_follows h rfl ?_ ?_ op_del
      · intro fd' hfd
        simp [State.setFd, State.epollCtl, hfd]
      · simp [State.setFd, State.epollCtl]
    · rw [show (Op.del fd event true : Op σ φ κ).added = [] from rfl, Multiset.coe_nil, add_zero, add_zero]
      exact hlive

/-- The table is large enough for the descriptor, and holds what it held. -/
private theorem grown (h : Inv s) (fd : Nat) :
    ∃ g, (if fd < s.size then s else { s with size := fd * 3 / 2 }) = g ∧ Inv g ∧ fd < g.size ∧ Same s g := by
  by_cases hfd : fd < s.size
  · exact ⟨s,if_pos hfd,h,hfd,rfl,rfl,rfl,rfl,rfl⟩
  · have hs := h.size
    obtain ⟨hcore,hlive⟩ := h.toCore.resize (fd * 3 / 2) (by omega)
    exact ⟨_,if_neg hfd,⟨hcore,h.interest⟩,show fd < fd * 3 / 2 by omega,rfl,rfl,rfl,rfl,hlive⟩

theorem addEvent_ok (h : Inv s) (fd : Nat) (event : Event) (this : σ) (current : φ) (cb : Option κ) (ctl : Bool)
    (he : event ∉ (s.fds fd).events) :
    ∃ r s', s.addEvent fd event (some this) current cb ctl = .ok (r,s') ∧ Inv s' ∧
      Books (.add fd event this current cb ctl) r s s' := by
  obtain ⟨g,hg,hinv,hfd,hsame⟩ := grown h fd
  unfold State.addEvent
  simp only [hg]
  rw [if_neg (by omega), if_neg (by rw [hsame.fds]; exact he)]
  cases ctl with
  | false => exact ⟨_,g,rfl,hinv,hsame⟩
  | true =>
    rw [← hsame.fds] at he
    have hempty : ((g.fds fd).context event).isEmpty = true := by
      rw [(hinv.slots fd event).clear he]
      rfl
    simp only [Bool.not_true, Bool.false_eq_true, if_false, hempty]
    generalize hop : (if (g.fds fd).events = ∅ then CtlOp.add else .mod) = op
    have hndel : op ≠ .del := by
      subst hop
      split <;> simp
    have hagrees : (EventContext.filled (some this) current cb).Agrees True := by
      cases cb <;> simp [EventContext.Agrees, EventContext.empty, EventContext.filled]
    have hreg : (EventContext.filled (some this) current cb).registration = (Op.add fd event this current cb true).added := by
      cases cb <;> rfl
    obtain ⟨hcore,hl⟩ := (core_epollCtl hinv.toCore op fd ((g.fds fd).events ∪ {event})).occupy hfd he hagrees
    refine ⟨_,_,rfl,⟨hcore,?_⟩,[],⟨(hsame.scheduled.trans (List.append_nil _).symm),?_⟩,fun _ => rfl⟩
    · refine interest_follows hinv rfl ?_ ?_ (fun hdel => absurd hdel hndel)
      · intro fd' hfd
        simp [State.setFd, State.epollCtl, hfd]
      · simp [State.setFd, State.epollCtl]
    · rw [← hreg, ← hsame.live]
      exact hl.symm.trans ((add_zero _).symm.trans (add_zero _).symm)

theorem op_ok (h : Inv s) (op : Op σ φ κ) (ha : op.Admissible s) :
    ∃ r s', op.run s = .ok (r,s') ∧ Inv s' ∧ Books op r s s' := by
  cases op with
  | add fd event this current cb ctl => exact addEvent_ok h fd event this current cb ctl ha
  | del fd event ctl => exact delEvent_ok h fd event ctl
  | cancel fd event ctl => exact cancelEvent_ok h fd event ctl
  | cancelAll fd ctl => exact cancelAll_ok h fd ctl
  | dispatch fd ready ctl => exact dispatch_ok h fd ready ctl ha

end Calls

/-- The manager together with what was registered and what was deleted so far. -/
structure Ledger (σ φ κ : Type) where
  io : State σ φ κ
  added : Multiset (σ × Task φ κ)
  deleted : Multiset (σ × Task φ κ)

def Ledger.init : Ledger σ φ κ := ⟨.init,0,0⟩

def Op.record (op : Op σ φ κ) (l : Ledger σ φ κ) : Except Fault (Bool × Ledger σ φ κ) :=
  match op.run l.io with
  | .error e => .error e
  | .ok (false,io) => .ok (false,⟨io,l.added,l.deleted⟩)
  | .ok (true,io) => .ok (true,⟨io,l.added + ↑op.added,l.deleted + ↑(op.deleted l.io)⟩)

/-- The books are kept, and every registration ever added is still in the table, was handed to
its scheduler, or was deleted. -/
structure Balanced (l : Ledger σ φ κ) : Prop where
  inv : Inv l.io
  balance : l.added = l.io.live + ↑l.io.scheduled + l.deleted

theorem balanced_init : Balanced (Ledger.init : Ledger σ φ κ) := by
  refine ⟨inv_init,?_⟩
  have hlive : (State.init : State σ φ κ).live = 0 := Finset.sum_eq_zero fun _ _ => Finset.sum_eq_zero fun _ _ => rfl
  rw [show (Ledger.init : Ledger σ φ κ).io = .init from rfl, hlive]
  rfl

theorem record_ok (op : Op σ φ κ) (l : Ledger σ φ κ) (h : Balanced l) (ha : op.Admissible l.io) :
    ∃ r l', op.record l = .ok (r,l') ∧ True ∧ Balanced l' := by
  obtain ⟨r,s',he,hinv,hbooks⟩ := op_ok h.inv op ha
  unfold Op.record
  rw [he]
  cases r with
  | false =>
    have hsame : Same l.io s' := hbooks
    refine ⟨_,_,rfl,trivial,hinv,?_⟩
    dsimp only
    rw [h.balance, hsame.live, hsame.scheduled]
  | true =>
    obtain ⟨handed,hmoved,-⟩ := hbooks
    refine ⟨_,_,rfl,trivial,hinv,?_⟩
    dsimp only
    rw [hmoved.scheduled, h.balance, ← Multiset.coe_add]
    calc l.io.live + ↑l.io.scheduled + l.deleted + ↑op.added
        = l.io.live + ↑op.added + (↑l.io.scheduled + l.deleted) := by abel
      _ = s'.live + ↑handed + ↑(op.deleted l.io) + (↑l.io.scheduled + l.deleted) := by rw [hmoved.live]
      _ = s'.live + (↑l.io.scheduled + ↑handed) + (l.deleted + ↑(op.deleted l.io)) := by abel

/-- Registrations are kept straight over every sequence of calls: counter, masks, slots and kernel
agree, no assertion fails, a failed call changes nothing, and every registration is in the table, or
was handed to its scheduler, or was deleted. Only calls that cancel or dispatch hand over. -/
theorem registrations_kept (ops : List (Op σ φ κ)) (ha : Along (fun op l => op.Admissible l.io) Op.record ops Ledger.init) :
    ∃ rs l, runAll Op.record ops Ledger.init = .ok (rs,l) ∧ l.io.pending = l.io.bits ∧
      (∀ fd e, ((l.io.fds fd).context e).Agrees (e ∈ (l.io.fds fd).events)) ∧
      (∀ fd, l.io.interest fd = (l.io.fds fd).events) ∧
      l.added = l.io.live + ↑l.io.scheduled + l.deleted ∧
      ∀ op : Op σ φ κ, op.Admissible l.io → ∃ r s', op.run l.io = .ok (r,s') ∧ Books op r l.io s' := by
  obtain ⟨rs,l,hr,-,hl⟩ := runAll_along record_ok ops balanced_init ha
  refine ⟨rs,l,hr,hl.inv.pending,hl.inv.slots,hl.inv.interest,hl.balance,?_⟩
  intro op hop
  obtain ⟨r,s',he,-,hbooks⟩ := op_ok hl.inv op hop
  exact ⟨r,s',he,hbooks⟩

/-- Both events of one descriptor: one is dispatched and one deleted. -/
theorem registrations_kept_both :
    let ops : List (Op Nat Nat Nat) := [.add 5 .read 1 7 none true,.add 5 .write 1 7 (some 9) true,
      .dispatch 5 ⟨true,false,false,false⟩ true,.del 5 .write true]
    ∃ rs l, runAll Op.record ops Ledger.init = .ok (rs,l) ∧ l.io.pending = l.io.bits ∧
      (∀ fd e, ((l.io.fds fd).context e).Agrees (e ∈ (l.io.fds fd).events)) ∧
      (∀ fd, l.io.interest fd = (l.io.fds fd).events) ∧
      l.added = l.io.live + ↑l.io.scheduled + l.deleted ∧
      ∀ op : Op Nat Nat Nat, op.Admissible l.io → ∃ r s', op.run l.io = .ok (r,s') ∧ Books op r l.io s' := by
  intro ops
  have ha : Along (fun op l => op.Admissible l.io) Op.record ops Ledger.init := by decide +kernel
  exact registrations_kept ops ha

end Radixun.Common.IOManager
