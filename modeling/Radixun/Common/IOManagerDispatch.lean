import Radixun.Common.IOManagerEvents

/-! What a dispatch triggers. The result of `epoll_wait` is older than the mask it meets, and an
error stands for both events. -/
namespace Radixun.Common.IOManager
open Foundation.ExceptionState Foundation.CommandRuns
variable {σ φ κ : Type} {s : State σ φ κ} {fd : Nat}

/-- The events a result calls for: those that are ready and registered. -/
def State.due (s : State σ φ κ) (fd : Nat) (ready : Ready) : Finset Event := (s.fds fd).events ∩ ready.real

/-- The dispatch completes, triggers the due events and no others, and counts them down. -/
def TriggersDue (s : State σ φ κ) (fd : Nat) (ready : Ready) (ctl : Bool) : Prop :=
  ∃ r s', s.dispatch fd ready ctl = .ok (r,s') ∧ (s'.fds fd).events = (s.fds fd).events \ s.due fd ready ∧
    (∀ fd', fd' ≠ fd → s'.fds fd' = s.fds fd') ∧ s'.pending + (s.due fd ready).card = s.pending ∧
    ∃ handed, s'.scheduled = s.scheduled ++ handed ∧ handed.length = (s.due fd ready).card ∧ s.live = s'.live + ↑handed

/-- Nothing is due, or the kernel takes the new mask and every ready event is registered. -/
def Covered (s : State σ φ κ) (fd : Nat) (ready : Ready) (ctl : Bool) : Prop :=
  s.due fd ready = ∅ ∨ ctl = true ∧ ready.real ⊆ (s.fds fd).events

instance (s : State σ φ κ) (fd : Nat) (ready : Ready) (ctl : Bool) : Decidable (Covered s fd ready ctl) :=
  inferInstanceAs (Decidable (_ ∨ _))

/-- A dispatch with an event that is not registered reaches the assertion of `triggerEvent`. -/
theorem dispatch_fails (h : Inv s) {ready : Ready} (hne : s.due fd ready ≠ ∅) (hr : ¬ ready.real ⊆ (s.fds fd).events) :
    s.dispatch fd ready true = .error .assertion := by
  have hne' : (s.fds fd).events ∩ ready.real ≠ ∅ := hne
  have hcore := core_epollCtl h.toCore (if (s.fds fd).events \ ready.real = ∅ then .del else .mod) fd
    ((s.fds fd).events \ ready.real)
  simp only [State.dispatch, if_neg hne', Bool.not_true, Bool.false_eq_true, if_false]
  generalize hs : s.epollCtl _ fd _ = s₀ at hcore ⊢
  have hevents : (s₀.fds fd).events = (s.fds fd).events := by rw [← hs]; rfl
  rw [← hevents] at hr
  by_cases hread : Event.read ∈ ready.real ∧ Event.read ∉ (s₀.fds fd).events
  · rw [State.fireIf, decide_eq_true hread.1, if_pos rfl, State.fire_fails hread.2]
    rfl
  obtain ⟨s₁,he₁,hf₁⟩ := fireIf_fired hcore .read (.read ∈ ready.real)
    (fun hm => not_not.mp fun hn => hread ⟨of_decide_eq_true hm,hn⟩)
  have hwrite : Event.write ∈ ready.real ∧ Event.write ∉ (s₀.fds fd).events := by
    by_contra hn
    refine hr fun e he => ?_
    cases e with
    | read => exact not_not.mp fun hr => hread ⟨he,hr⟩
    | write => exact not_not.mp fun hw => hn ⟨he,hw⟩
  have hmissing : Event.write ∉ (s₁.fds fd).events := by
    rw [hf₁.events]
    exact fun hw => hwrite.2 (Finset.mem_sdiff.mp hw).1
  rw [he₁, ok_bind, State.fireIf, decide_eq_true hwrite.1, if_pos rfl, State.fire_fails hmissing]
  rfl

/-- What becomes of a dispatch: nothing, the due events, or the assertion. -/
theorem dispatch_outcome (h : Inv s) (fd : Nat) (ready : Ready) (ctl : Bool) :
    (s.due fd ready = ∅ ∨ ctl = false) ∧ s.dispatch fd ready ctl = .ok (false,s) ∨
    (Covered s fd ready ctl ∧ ∃ s' op, s.dispatch fd ready ctl = .ok (true,s') ∧ Inv s' ∧
      Fired (s.epollCtl op fd ((s.fds fd).events \ ready.real)) s' fd (s.due fd ready)) ∨
    ¬ Covered s fd ready ctl ∧ s.dispatch fd ready ctl = .error .assertion := by
  by_cases hne : s.due fd ready = ∅
  · exact .inl ⟨.inl hne,if_pos hne⟩
  cases ctl with
  | false => exact .inl ⟨.inr rfl,if_neg hne⟩
  | true =>
    by_cases hr : ready.real ⊆ (s.fds fd).events
    · obtain ⟨s',op,hs',hinv,hf⟩ := dispatch_fires h fd hne hr
      have hdue : s.due fd ready = ready.real := Finset.inter_eq_right.mpr hr
      exact .inr (.inl ⟨.inr ⟨rfl,hr⟩,s',op,hs',hinv,by rwa [hdue]⟩)
    · refine .inr (.inr ⟨?_,dispatch_fails h hne hr⟩)
      rintro (hempty | ⟨-,hsub⟩)
      · exact hne hempty
      · exact hr hsub

theorem triggersDue_iff (h : Inv s) (fd : Nat) (ready : Ready) (ctl : Bool) :
    TriggersDue s fd ready ctl ↔ Covered s fd ready ctl := by
  rcases dispatch_outcome h fd ready ctl with ⟨hquiet,hs⟩ | ⟨hcov,s',op,hs',-,hf⟩ | ⟨hcov,hs⟩
  · constructor
    · rintro ⟨r,s',he,hevents,-⟩
      rw [hs] at he
      cases he
      have hdisjoint : Disjoint (s.fds fd).events (s.due fd ready) := sdiff_eq_left.mp hevents.symm
      exact .inl (Finset.disjoint_self_iff_empty _ |>.mp (hdisjoint.mono_left Finset.inter_subset_left))
    · rintro hcov
      have hempty : s.due fd ready = ∅ := by
        rcases hcov with hempty | ⟨hctl,-⟩
        · exact hempty
        · exact hquiet.resolve_right (by simp [hctl])
      refine ⟨false,s,hs,?_,fun _ _ => rfl,?_,[],(List.append_nil _).symm,?_,(add_zero _).symm⟩
      all_goals simp [hempty]
  · exact iff_of_true ⟨true,s',hs',hf.events,hf.others,hf.counted,hf.handed⟩ hcov
  · refine iff_of_false ?_ hcov
    rintro ⟨r,s',he,-⟩
    rw [hs] at he
    cases he

theorem addEvent_fails (h : Inv s) {event : Event} (he : event ∈ (s.fds fd).events) (this : Option σ) (current : φ)
    (cb : Option κ) (ctl : Bool) : s.addEvent fd event this current cb ctl = .error .assertion := by
  have hfd := h.toCore.lt_size he
  simp only [State.addEvent, if_pos hfd, if_neg (Nat.not_le_of_lt hfd), if_pos he]

/-- Every call that returns keeps the books, whatever its arguments. -/
theorem run_keeps (op : Op σ φ κ) (s : State σ φ κ) (r : Bool) (s' : State σ φ κ) (h : Inv s) (he : op.run s = .ok (r,s')) :
    Inv s' := by
  have hok : op.Admissible s → Inv s' := by
    intro ha
    obtain ⟨r₁,s₁,h₁,hinv,-⟩ := op_ok h op ha
    rw [he] at h₁
    cases h₁
    exact hinv
  cases op with
  | add fd event this current cb ctl =>
    apply hok
    intro hin
    rw [Op.run, addEvent_fails h hin] at he
    cases he
  | dispatch fd ready ctl =>
    rw [Op.run] at he
    rcases dispatch_outcome h fd ready ctl with ⟨-,hs⟩ | ⟨-,s₁,op,hs₁,hinv,-⟩ | ⟨-,hs⟩
    · rw [hs] at he
      cases he
      exact h
    · rw [hs₁] at he
      cases he
      exact hinv
    · rw [hs] at he
      cases he
  | del fd event ctl => exact hok trivial
  | cancel fd event ctl => exact hok trivial
  | cancelAll fd ctl => exact hok trivial

/-- A dispatch triggers what is due. -/
def Op.TriggersDue : Op σ φ κ → State σ φ κ → Prop
  | .dispatch fd ready ctl, s => IOManager.TriggersDue s fd ready ctl
  | _, _ => True

def Op.Covered : Op σ φ κ → State σ φ κ → Prop
  | .dispatch fd ready ctl, s => IOManager.Covered s fd ready ctl
  | _, _ => True

/-- Over every sequence of calls, in which the results of one `epoll_wait` are dispatched one by one
with other calls in between: each dispatch triggers what is due exactly where each one is covered. -/
theorem dispatches_exact_iff (ops : List (Op σ φ κ)) :
    Along Op.TriggersDue Op.run ops State.init ↔ Along Op.Covered Op.run ops State.init := by
  refine along_congr ?_ (fun op s r s' h _ => run_keeps op s r s' h) ops inv_init
  intro op s h
  cases op with
  | dispatch fd ready ctl => exact triggersDue_iff h fd ready ctl
  | add fd event this current cb ctl => exact Iff.rfl
  | del fd event ctl => exact Iff.rfl
  | cancel fd event ctl => exact Iff.rfl
  | cancelAll fd ctl => exact Iff.rfl

/-- An error on a descriptor registered for reading only: the read event is triggered, and the
trigger of the write event fails its assertion. -/
theorem error_breaks_dispatch :
    let ops : List (Op Nat Nat Nat) := [.add 5 .read 1 7 none true,.dispatch 5 ⟨false,false,true,false⟩ true]
    runAll Op.run ops State.init = .error .assertion ∧ ¬ Along Op.TriggersDue Op.run ops State.init := by
  intro ops
  have hrun : runAll Op.run ops State.init = .error .assertion := rfl
  refine ⟨hrun,?_⟩
  rintro ⟨-,h⟩
  obtain ⟨r,s',he,-⟩ := (h true _ rfl).1
  cases he

end Radixun.Common.IOManager
