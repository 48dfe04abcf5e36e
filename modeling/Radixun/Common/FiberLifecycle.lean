import Radixun.Common.FiberInvariant
import Radixun.Foundation.CommandRuns

/-! The life of a callback, over whole runs: where its fiber is left, and what comes after. -/
namespace Radixun.Common.Scheduler
open Foundation.CommandRuns Foundation.ExceptionState

/-- What a run may show: only fibers with work left are resumed or queued again, and a
callback that is left leaves its fiber terminated. -/
def Event.Good : Event → Prop
  | .resumed f => f.ctx ≠ .past ∧ HasWork f
  | .requeued f => f.ctx ≠ .past
  | .left _ state => state = .term ∨ state = .except

/-- The fiber that `run` has found and is about to resume: one that is not at its end. -/
def System.picked {n : Nat} (s : System n) (w : Fin n) : Option Nat :=
  if (s.workers w).loops then
    ((s.workers w).taken.bind Task.fiber?).filter fun i => (s.fibers i).any fun f => f.state ≠ .term ∧ f.state ≠ .except
  else none

/-- The fiber that the main fiber of the thread is to call. -/
def System.callee {n : Nat} (s : System n) (w : Fin n) (i : Nat) : Option Fiber :=
  if (s.workers w).idle then s.fibers i else none

/-- No fiber is resumed or called that a thread is not through with: that executes, is between its write of `m_state` and the
switch, or has switched out in front of the rest of the loop body. -/
def Act.Exclusive {n : Nat} (a : Act n) (s : System n) : Prop :=
  match a with
  | .begin w => ∀ i ∈ s.picked w, ¬ s.held i
  | .call w i => ∀ _ ∈ s.callee w i, ¬ s.held i
  | _ => True

/-- The way the callback of a fiber that is about to switch was left, if it was. -/
def Phase.leaves : Phase → Option (Option Exit)
  | .leaving exit _ => some exit
  | .executing | .out => none

/-- No callback is left through a `std::exception`, no fiber is resumed from the queue that a `run` keeps vacant, a fiber that
is called has something to run, and on a thread without a scheduler it does not yield and ends with `back`. -/
def Act.Proper {n : Nat} (a : Act n) (s : System n) : Prop :=
  match a with
  | .work w => ∀ c ∈ (s.workers w).current, c.2 = .executing → ∀ f ∈ s.fibers c.1, f.program ≠ some ⟨[],.throwsException⟩
  | .begin w => ∀ i ∈ s.picked w, ∀ f ∈ s.fibers i, ¬ Vacant f
  | .call w i => ∀ f ∈ s.callee w i, f.ctx ≠ .past ∧ ¬ Vacant f
  | .switch w => (s.workers w).home = .plain → ∀ c ∈ (s.workers w).current, ∀ f ∈ s.fibers c.1,
      ∀ exit ∈ c.2.leaves, f.caller = true ∧ exit.isSome = true
  | _ => True

instance {n : Nat} (s : System n) : (a : Act n) → Decidable (a.Exclusive s)
  | .begin w => inferInstanceAs (Decidable (∀ i ∈ s.picked w, ¬ s.held i))
  | .call w i => inferInstanceAs (Decidable (∀ _ ∈ s.callee w i, ¬ s.held i))
  | .newFiber .. | .acquire _ | .release _ | .scheduleFiber .. | .scheduleCb .. | .enter _ | .take _ | .work _ | .switch _
  | .settle _ => isTrue trivial

instance {n : Nat} (s : System n) : (a : Act n) → Decidable (a.Proper s)
  | .work w => inferInstanceAs (Decidable (∀ c ∈ (s.workers w).current, c.2 = .executing →
      ∀ f ∈ s.fibers c.1, f.program ≠ some ⟨[],.throwsException⟩))
  | .begin w => inferInstanceAs (Decidable (∀ i ∈ s.picked w, ∀ f ∈ s.fibers i, ¬ Vacant f))
  | .call w i => inferInstanceAs (Decidable (∀ f ∈ s.callee w i, f.ctx ≠ .past ∧ ¬ Vacant f))
  | .switch w => inferInstanceAs (Decidable ((s.workers w).home = .plain → ∀ c ∈ (s.workers w).current, ∀ f ∈ s.fibers c.1,
      ∀ exit ∈ c.2.leaves, f.caller = true ∧ exit.isSome = true))
  | .newFiber .. | .acquire _ | .release _ | .scheduleFiber .. | .scheduleCb .. | .enter _ | .take _ | .settle _ => isTrue trivial

/-- Up to the next switch a callback does not throw a `std::exception`: the fiber is about to be suspended or terminated. -/
theorem segment_ok {f : Fiber} (h : Phase.executing.Fits f) (hp : f.program ≠ some ⟨[],.throwsException⟩) :
    ∃ g exit ctx, f.segment = .ok (g,exit,ctx) ∧ (Phase.leaving exit ctx).Fits g ∧ g.caller = f.caller ∧
      ∀ e, exit = some e → g.state = .term ∨ g.state = .except := by
  obtain ⟨hs,he,-⟩ := h
  unfold Fiber.segment
  cases hprog : f.program with
  | none =>
    cases hctx : f.ctx with
    | past =>
      rw [Sound, hctx, he] at hs
      simp at hs
    | entry => simp [Fiber.program, hctx] at hprog
    | inside rest => simp [Fiber.program, hctx] at hprog
  | some b =>
    obtain ⟨yields,exit⟩ := b
    cases yields with
    | cons y ys =>
      refine ⟨_,_,_,if_pos he,?_,rfl,fun e h => by cases h⟩
      cases y <;> simp [Phase.Fits, Sound, Yield.state]
    | nil =>
      refine ⟨_,_,_,rfl,?_,rfl,fun e _ => ?_⟩
      all_goals
        cases exit with
        | throwsException => exact absurd hprog hp
        | returns => simp [Phase.Fits, Sound, Exit.stateAfter]
        | throwsOther => simp [Phase.Fits, Sound, Exit.stateAfter]

section Steps
variable {n : Nat} {s : System n} {w : Fin n} {i : Nat} {f g : Fiber}

theorem current_cases {ph : Phase} (h : (s.workers w).current = some (i,ph)) : (s.workers w).called = some (i,ph) ∨
    (s.workers w).called = none ∧ ∃ role, (s.workers w).turn = some ⟨i,role,ph⟩ := by
  rw [Worker.current] at h
  cases hcalled : (s.workers w).called with
  | some c =>
    rw [hcalled] at h
    exact .inl h
  | none =>
    simp only [hcalled] at h
    split at h
    · obtain ⟨⟨j,role,ph'⟩,ht,heq⟩ := Option.map_eq_some_iff.mp h
      cases heq
      exact .inr ⟨rfl,role,ht⟩
    · cases h

theorem current_fits (h : Inv s) {ph : Phase} (hc : (s.workers w).current = some (i,ph)) : ∃ f, s.fibers i = some f ∧ ph.Fits f := by
  obtain hcalled | ⟨-,role,hturn⟩ := current_cases hc
  · exact h.seated.fits (.called w) i ph hcalled
  · exact h.seated.fits (.turn w) i ph (by rw [System.seat, hturn]; rfl)

theorem setWorker_setWorker (s : System n) (w : Fin n) (x y : Worker) : (s.setWorker w x).setWorker w y = s.setWorker w y := by
  simp only [System.setWorker, Function.update_idem]

namespace Inv

/-- On a seat no other fiber sits, and this one on no other seat. -/
theorem alone (h : Inv s) {p : Seat n} {ph : Phase} (hp : s.seat p = some (i,ph)) :
    (∀ q ph', q ≠ p → s.seat q ≠ some (i,ph')) ∧ ∀ j ph', s.seat p = some (j,ph') → j = i := by
  constructor
  · intro q ph' hqp hq
    exact hqp (h.seated.one q p i ph' ph hq hp)
  · intro j ph' hj
    rw [hp] at hj
    cases hj
    rfl

/-- A fiber that a thread has called is kept by nobody. -/
theorem called_not_kept (h : Inv s) {ph : Phase} (hcalled : (s.workers w).called = some (i,ph)) (v : Fin n) :
    (s.workers v).cbFiber ≠ some i := by
  intro hv
  have hseat := h.kept_seat (p := .called w) hcalled hv
  cases hseat

/-- A fiber that a `run` is with is kept by no other one. -/
theorem turn_not_kept (h : Inv s) {ph : Phase} (hsit : s.seat (.turn w) = some (i,ph)) (v : Fin n) (hvw : v ≠ w) :
    (s.workers v).cbFiber ≠ some i := by
  intro hv
  have hseat := h.kept_seat hsit hv
  cases hseat
  exact hvw rfl

/-- While `run` is with a fiber it has no task in hand. -/
theorem not_taken (h : Inv s) {t : Turn} (hturn : (s.workers w).turn = some t) : (s.workers w).taken = none := by
  cases htaken : (s.workers w).taken with
  | none => rfl
  | some task =>
    have hnone := (h.taken w task htaken).1
    rw [hturn] at hnone
    cases hnone

/-- The fiber that a thread is with goes on to another phase. -/
theorem move (h : Inv s) {ph ph' : Phase} (hc : (s.workers w).current = some (i,ph)) (hf : s.fibers i = some f)
    (hfits : ph'.Fits g) (hcaller : g.caller = f.caller) :
    Inv ((s.setFiber i g).setWorker w ((s.workers w).setPhase ph')) := by
  have hnext := h.fresh i f hf
  have hput : ∀ q, some ph' = some q → q.Fits g := fun q hq => by cases hq; exact hfits
  obtain hcalled | ⟨hcalled,role,hturn⟩ := current_cases hc
  · obtain ⟨hfree,hthere⟩ := h.alone (p := .called w) hcalled
    have hx : (s.workers w).setPhase ph' = { s.workers w with called := some (i,ph') } := by rw [Worker.setPhase, hcalled]
    rw [hx]
    exact h.call (o := some ph') ⟨rfl,rfl,rfl⟩ rfl hnext hfree hthere hput (fun ho => by cases ho) (h.called_not_kept hcalled)
  · have hsit : s.seat (.turn w) = some (i,ph) := by rw [System.seat, hturn]; rfl
    obtain ⟨hfree,hthere⟩ := h.alone hsit
    have hx : (s.workers w).setPhase ph' = { s.workers w with turn := some ⟨i,role,ph'⟩ } := by
      simp only [Worker.setPhase, hcalled, hturn, Option.map_some]
    have hrole := h.kept.role w i role ph hturn
    rw [hx]
    refine h.turn (o := some ph') rfl (h.not_taken hturn) rfl hnext hfree hthere hput (fun ho => by cases ho)
      (h.turn_not_kept hsit) ?_ (.inr (.inr rfl)) ?_
    · intro hcb
      obtain ⟨f',hf',hno,-⟩ := h.kept.cb w i hcb
      rw [hf] at hf'
      cases hf'
      exact ⟨hcaller.trans hno,.inl ⟨ph',by rw [hrole.mpr hcb]⟩⟩
    · intro role' ph'' ht
      cases ht
      exact hrole

/-- The main fiber is back behind `call`. -/
theorem rise (h : Inv s) {ph : Phase} (hcalled : (s.workers w).called = some (i,ph)) (hf : s.fibers i = some f)
    (hsound : Sound g ∧ g.state ≠ .exec) : Inv ((s.setFiber i g).setWorker w { s.workers w with called := none }) := by
  obtain ⟨hfree,hthere⟩ := h.alone (p := .called w) hcalled
  exact h.call (o := none) ⟨rfl,rfl,rfl⟩ rfl (h.fresh i f hf) hfree hthere (fun q hq => by cases hq) (fun _ => hsound)
    (h.called_not_kept hcalled)

/-- The end of the loop body. A fiber for callbacks is given up or kept vacant. -/
theorem leave (h : Inv s) {role : Role} {c : Option Nat} (hturn : (s.workers w).turn = some ⟨i,role,.out⟩)
    (hf : s.fibers i = some f) (hsound : Sound g ∧ g.state ≠ .exec)
    (hc : role = .fiber ∧ c = (s.workers w).cbFiber ∨ role = .cb ∧ (c = none ∨ c = some i ∧ g.caller = false ∧ Vacant g)) :
    Inv (s.leave w i g c) := by
  have hsit : s.seat (.turn w) = some (i,.out) := by rw [System.seat, hturn]; rfl
  obtain ⟨hfree,hthere⟩ := h.alone hsit
  have hrole := h.kept.role w i role .out hturn
  refine h.turn (o := none) rfl (h.not_taken hturn) rfl (h.fresh i f hf) hfree hthere (fun q hq => by cases hq) (fun _ => hsound)
    (h.turn_not_kept hsit) ?_ ?_ ?_
  · intro hcb
    obtain ⟨rfl,rfl⟩ | ⟨rfl,rfl | ⟨rfl,hcaller,hvacant⟩⟩ := hc
    · have hcb' := hrole.mpr hcb
      cases hcb'
    · cases hcb
    · exact ⟨hcaller,.inr hvacant⟩
  · obtain ⟨-,rfl⟩ | ⟨-,rfl | ⟨rfl,-⟩⟩ := hc
    · exact .inr (.inr rfl)
    · exact .inr (.inl rfl)
    · exact .inl rfl
  · intro role' ph ht
    cases ht

end Inv

theorem work_ok (h : Inv s) (hc : Act.Proper (.work w) s) : ∃ events s', s.work w = .ok (events,s') ∧
    (∀ e ∈ events, e.Good) ∧ Inv s' := by
  unfold System.work
  split
  · rename_i i hcur
    obtain ⟨f,hf,hfits⟩ := current_fits h hcur
    obtain ⟨g,exit,ctx,hseg,hleaving,hcaller,hend⟩ := segment_ok hfits (hc _ hcur rfl f hf)
    refine ⟨_,_,by simp only [hf, hseg]; rfl,?_,h.move hcur hf hleaving hcaller⟩
    intro e he
    obtain ⟨exit,rfl⟩ : ∃ e', exit = some e' := by
      cases exit with
      | none => exact absurd he List.not_mem_nil
      | some e' => exact ⟨e',rfl⟩
    obtain rfl := List.mem_singleton.mp he
    exact hend exit rfl
  · exact ⟨[],s,rfl,by simp,h⟩

theorem switch_ok (h : Inv s) (hc : Act.Proper (.switch w) s) : ∃ events s', s.switch w = .ok (events,s') ∧
    (∀ e ∈ events, e.Good) ∧ Inv s' := by
  unfold System.switch
  split
  · rename_i i exit ctx hcur
    obtain ⟨f,hf,hsound,hexec,hinit⟩ := current_fits h hcur
    have hout : Phase.out.Fits { f with ctx := ctx } := ⟨hsound,hexec,hinit⟩
    have hmove : Inv (((s.setFiber i { f with ctx := ctx })).setWorker w ((s.workers w).setPhase .out)) := h.move hcur hf hout rfl
    obtain ⟨s',hs',hinv⟩ : ∃ s', (if f.caller && exit.isSome then (s.setFiber i { f with ctx := ctx }).back w i
        else (s.setFiber i { f with ctx := ctx }).swapOut w i) = .ok s' ∧ Inv s' := by
      split
      · unfold System.back
        simp only [System.setFiber_workers]
        cases hcalled : (s.workers w).called with
        | some c =>
          have hcur' : (s.workers w).current = some c := by rw [Worker.current, hcalled]
          rw [hcur] at hcur'
          cases hcur'
          exact (h.rise hcalled hf ⟨hsound,hexec⟩).drop i
        | none =>
          refine ⟨_,rfl,?_⟩
          have henter := hmove.locals w ((s.workers w).home = .pool) (hmove.taken w)
          rwa [setWorker_setWorker, System.setWorker_workers, if_pos rfl] at henter
      · rename_i hnot
        by_cases hplain : (s.workers w).home = .plain
        · obtain ⟨hcaller,hsome⟩ := hc hplain _ hcur f hf exit rfl
          rw [hcaller, hsome] at hnot
          exact absurd rfl hnot
        · unfold System.swapOut
          dsimp only
          rw [if_neg (show ¬ ((s.setFiber i { f with ctx := ctx }).workers w).home = .plain from hplain)]
          simp only [System.setFiber_workers]
          cases hcalled : (s.workers w).called with
          | some c =>
            have hcur' : (s.workers w).current = some c := by rw [Worker.current, hcalled]
            rw [hcur] at hcur'
            cases hcur'
            have henter := (h.rise hcalled hf ⟨hsound,hexec⟩).locals w true ((h.rise hcalled hf ⟨hsound,hexec⟩).taken w)
            rw [setWorker_setWorker, System.setWorker_workers, if_pos rfl] at henter
            exact henter.drop i
          | none => exact ⟨_,rfl,hmove⟩
    refine ⟨[],s',?_,by simp,hinv⟩
    simp only [hf]
    rw [hs']
    rfl
  · exact ⟨[],s,rfl,by simp,h⟩

theorem settle_ok (h : Inv s) {role : Role} (hturn : (s.workers w).turn = some ⟨i,role,.out⟩) (hf : s.fibers i = some f) :
    ∃ events s', s.settle w i f role = .ok (events,s') ∧ (∀ e ∈ events, e.Good) ∧ Inv s' := by
  obtain ⟨f',hf',hsound,hexec,hinit⟩ := h.seated.fits (.turn w) i .out (by rw [System.seat, hturn]; rfl)
  obtain rfl : f = f' := Option.some.inj (hf.symm.trans hf')
  have hqueue : Inv (s.requeue i) := by
    refine h.requeue fun j hj => ?_
    rw [fiberIds, List.filterMap_append] at hj
    rcases List.mem_append.mp hj with hj | hj
    · exact h.queue j hj
    · obtain rfl := List.mem_singleton.mp hj
      rw [hf]
      rfl
  have hhold : f.state ≠ .term ∧ f.state ≠ .except → Sound { f with state := .hold } := by
    intro hlive
    unfold Sound at hsound ⊢
    cases hctx : f.ctx with
    | entry =>
      rw [hctx] at hsound
      rcases hsound with hs | hs
      · exact absurd hs hinit
      · exact absurd hs hexec
    | inside rest => exact .inr (.inl rfl)
    | past =>
      rw [hctx] at hsound
      rcases hsound with hs | hs
      · exact absurd hs hlive.1
      · exact absurd hs hlive.2
  have hready : f.state = .ready → Event.Good (.requeued f) := by
    intro hs hctx
    rw [Sound, hctx, hs] at hsound
    simp at hsound
  cases role with
  | fiber =>
    simp only [System.settle]
    split
    · rename_i hs
      exact ⟨_,_,rfl,by simpa using hready hs,hqueue.leave hturn hf ⟨hsound,hexec⟩ (.inl ⟨rfl,rfl⟩)⟩
    · have hg : Sound (if f.state ≠ .term ∧ f.state ≠ .except then { f with state := .hold } else f) ∧
          (if f.state ≠ .term ∧ f.state ≠ .except then { f with state := .hold } else f).state ≠ .exec := by
        split
        · rename_i hlive
          exact ⟨hhold hlive,fun hs => by cases hs⟩
        · exact ⟨hsound,hexec⟩
      obtain ⟨s',hs',hinv⟩ := (h.leave (c := (s.workers w).cbFiber) hturn hf hg (.inl ⟨rfl,rfl⟩)).drop i
      exact ⟨[],s',by rw [hs']; rfl,by simp,hinv⟩
  | cb =>
    simp only [System.settle]
    split
    · rename_i hs
      exact ⟨_,_,rfl,by simpa using hready hs,hqueue.leave hturn hf ⟨hsound,hexec⟩ (.inr ⟨rfl,.inl rfl⟩)⟩
    · split
      · rename_i hend
        have hreset : f.reset none = .ok ⟨.init,none,.entry,false⟩ := by
          rcases hend with hs | hs <;> simp [Fiber.reset, FiberState.disposable, hs]
        refine ⟨[],_,by rw [hreset]; rfl,by simp,?_⟩
        exact h.leave hturn hf ⟨.inl rfl,fun hs => by cases hs⟩ (.inr ⟨rfl,.inr ⟨rfl,rfl,rfl,rfl⟩⟩)
      · rename_i hend
        have hlive : f.state ≠ .term ∧ f.state ≠ .except := ⟨fun hs => hend (.inr hs),fun hs => hend (.inl hs)⟩
        obtain ⟨s',hs',hinv⟩ := (h.leave (c := none) hturn hf ⟨hhold hlive,fun hs => by cases hs⟩ (.inr ⟨rfl,.inl rfl⟩)).drop i
        exact ⟨[],s',by rw [hs']; rfl,by simp,hinv⟩

/-- A sound fiber that neither executes nor is at its end, and is not vacant, has something to run. -/
theorem ready_of_resting (hsound : Sound f ∧ f.state ≠ .exec) (hpast : f.ctx ≠ .past) (hvacant : ¬ Vacant f) :
    HasWork f ∧ Phase.executing.Fits { f with state := .exec } := by
  have hwork : HasWork f := by
    intro hctx
    have hs := hsound.1
    rw [Sound, hctx] at hs
    rw [Option.isSome_iff_ne_none]
    exact fun hcb => hvacant ⟨hs.resolve_right hsound.2,hcb⟩
  refine ⟨hwork,?_,rfl,hwork⟩
  unfold Sound
  cases hctx : f.ctx with
  | entry => exact .inr rfl
  | inside rest => exact .inl rfl
  | past => exact absurd hctx hpast

/-- `swapIn` of a fiber that no thread holds. -/
theorem resume_ok (h : Inv s) (hturn : (s.workers w).turn = none) {role : Role} {c : Option Nat} (hnext : i < s.next)
    (hfree : ∀ p ph, s.seat p ≠ some (i,ph)) (hsound : Sound f ∧ f.state ≠ .exec) (hpast : f.ctx ≠ .past) (hvacant : ¬ Vacant f)
    (hother : ∀ v, v ≠ w → (s.workers v).cbFiber ≠ some i) (hcaller : role = .cb → f.caller = false)
    (hrole : role = .cb ↔ c = some i) (hc : c = some i ∨ c = (s.workers w).cbFiber) :
    ∃ events s', s.resume w i f c role = .ok (events,s') ∧ (∀ e ∈ events, e.Good) ∧ Inv s' := by
  obtain ⟨hwork,hfits⟩ := ready_of_resting hsound hpast hvacant
  have hswap : f.swapIn = .ok { f with state := .exec } := if_neg hsound.2
  refine ⟨[.resumed f],_,by rw [System.resume, hswap]; rfl,by simp [Event.Good, hpast, hwork],?_⟩
  refine h.turn (o := some .executing) rfl rfl rfl hnext (fun q ph _ => hfree q ph) ?_ ?_ (fun ho => by cases ho) hother ?_ ?_ ?_
  · intro j ph hj
    rw [System.seat, hturn] at hj
    cases hj
  · intro ph hph
    cases hph
    exact hfits
  · intro hcb
    have hrole' := hrole.mpr hcb
    exact ⟨hcaller hrole',.inl ⟨.executing,by rw [hrole']⟩⟩
  · exact hc.imp_right .inr
  · intro role' ph ht
    cases ht
    exact hrole

theorem live_of_states (hsound : Sound f) (hlive : f.state ≠ .term ∧ f.state ≠ .except) : f.ctx ≠ .past := by
  intro hctx
  rw [Sound, hctx] at hsound
  exact hsound.elim hlive.1 hlive.2

theorem loops_iff {x : Worker} : x.loops = true ↔ x.inRun = true ∧ x.called = none ∧ x.turn = none := by
  simp [Worker.loops, and_assoc]

theorem take_ok (h : Inv s) (hloops : (s.workers w).loops = true) : Inv (s.take w) := by
  obtain ⟨-,-,hturn⟩ := loops_iff.mp hloops
  unfold System.take
  cases hd : dequeue s.busy w s.queue with
  | none => exact h
  | some r =>
    obtain ⟨⟨task,thread⟩,rest⟩ := r
    obtain ⟨-,before,behind,hqueue,rfl⟩ := dequeue_some hd
    have hrest : ∀ j ∈ fiberIds (before ++ behind), (s.fibers j).isSome = true := by
      intro j hj
      refine h.queue j ?_
      rw [fiberIds, List.filterMap_append] at hj
      rw [System.queued, hqueue, fiberIds, List.filterMap_append, List.filterMap_cons]
      split <;> grind
    have htask : ∀ j ∈ task.fiber?, (s.fibers j).isSome = true := by
      intro j hj
      refine h.queue j ?_
      rw [System.queued, hqueue, fiberIds, List.filterMap_append]
      exact List.mem_append_right _ (List.mem_filterMap.mpr ⟨_,List.mem_cons_self,hj⟩)
    refine (h.requeue hrest).locals w (s.workers w).inRun fun task' ht => ?_
    cases ht
    exact ⟨hturn,htask⟩

theorem begin_ok (h : Inv s) (hloops : (s.workers w).loops = true) {task : Task} (htaken : (s.workers w).taken = some task)
    (he : Act.Exclusive (.begin w) s) (hc : Act.Proper (.begin w) s) :
    ∃ events s', s.begin w task = .ok (events,s') ∧ (∀ e ∈ events, e.Good) ∧ Inv s' := by
  obtain ⟨hturn,hthere⟩ := h.taken w task htaken
  cases task with
  | fiber i =>
    obtain ⟨f,hf⟩ := Option.isSome_iff_exists.mp (hthere i rfl)
    simp only [System.begin, hf]
    split
    · rename_i hlive
      have hpicked : i ∈ s.picked w := by
        rw [System.picked, if_pos hloops, htaken]
        simp [Task.fiber?, hf, hlive]
      have hheld := he i hpicked
      have hvacant := hc i hpicked f hf
      have hsound := h.resting hf hheld
      have hkept := h.not_kept hf hheld hvacant
      exact resume_ok h hturn (h.fresh i f hf) (Inv.not_seated hheld) hsound (live_of_states hsound.1 hlive) hvacant
        (fun v _ => hkept v) (fun hrole => by cases hrole) (by simp [hkept w]) (.inr rfl)
    · have hfree : Inv (s.setWorker w { s.workers w with taken := none }) :=
        h.locals w (s.workers w).inRun fun task ht => by cases ht
      obtain ⟨s',hs',hinv⟩ := hfree.drop i
      exact ⟨[],s',by rw [hs']; rfl,by simp,hinv⟩
  | cb b =>
    unfold System.begin
    cases hcb : (s.workers w).cbFiber with
    | some i =>
      obtain ⟨f,hf,hcaller,⟨ph,ht⟩ | hvacant⟩ := h.kept.cb w i hcb
      · rw [hturn] at ht
        cases ht
      have hfree : ∀ p ph, s.seat p ≠ some (i,ph) := by
        intro p ph hp
        obtain ⟨f',hf',hfits⟩ := h.seated.fits p i ph hp
        rw [hf] at hf'
        cases hf'
        exact hfits.not_vacant hvacant
      have hreset : f.reset (some b) = .ok (.new b false) := by
        rw [Fiber.reset, hvacant.1]
        rfl
      simp only [hf, hreset, ok_bind]
      exact resume_ok h hturn (h.fresh i f hf) hfree (new_resting b false) (fun hctx => by cases hctx) (by simp [Vacant, Fiber.new])
        (fun v hv hv' => hv (h.kept.one v w i hv' hcb)) (fun _ => rfl) (by simp) (.inl rfl)
    | none =>
      dsimp only
      have hgrow : Inv { s with next := s.next + 1 } :=
        { h with fresh := fun i f hf => (h.fresh i f hf).trans (Nat.lt_succ_self _) }
      exact resume_ok (f := .new b false) hgrow hturn (Nat.lt_succ_self _) h.next_free (new_resting b false)
        (fun hctx => by cases hctx) (by simp [Vacant, Fiber.new]) (fun v _ => h.next_not_kept v) (fun _ => rfl) (by simp) (.inl rfl)

theorem call_ok (h : Inv s) (hidle : (s.workers w).idle = true) (he : Act.Exclusive (.call w i) s) (hc : Act.Proper (.call w i) s) :
    (∀ e ∈ (s.call w i).1, e.Good) ∧ Inv (s.call w i).2 := by
  have hcalled : (s.workers w).called = none := by
    simp only [Worker.idle, Bool.and_eq_true, Option.isNone_iff_eq_none] at hidle
    exact hidle.2
  unfold System.call
  cases hf : s.fibers i with
  | none => exact ⟨by simp,h⟩
  | some f =>
    have hcallee : f ∈ s.callee w i := by rw [System.callee, if_pos hidle, hf]; rfl
    have hheld := he f hcallee
    obtain ⟨hpast,hvacant⟩ := hc f hcallee
    have hkept := h.not_kept hf hheld hvacant
    obtain ⟨hwork,hfits⟩ := ready_of_resting (h.resting hf hheld) hpast hvacant
    refine ⟨by simp [Event.Good, hpast, hwork],?_⟩
    refine h.call (o := some .executing) ⟨rfl,rfl,rfl⟩ rfl (h.fresh i f hf) (fun q ph _ => Inv.not_seated hheld q ph) ?_ ?_
      (fun ho => by cases ho) hkept
    · intro j ph hj
      rw [System.seat, hcalled] at hj
      cases hj
    · intro ph hph
      cases hph
      exact hfits

/-- Every step that is exclusive and proper keeps all fibers in order. -/
theorem step_ok (h : Inv s) (a : Act n) (he : a.Exclusive s) (hc : a.Proper s) :
    ∃ events s', System.step a s = .ok (events,s') ∧ (∀ e ∈ events, e.Good) ∧ Inv s' := by
  cases a with
  | newFiber b caller => exact ⟨_,_,rfl,by simp,h.add b caller⟩
  | acquire i =>
    refine ⟨_,_,rfl,by simp,?_⟩
    split
    · rename_i hsome
      exact { h with handles := List.forall_mem_cons.mpr ⟨hsome,h.handles⟩ }
    · exact h
  | release i =>
    rw [System.step]
    split
    · have hfew : Inv { s with handles := s.handles.erase i } :=
        { h with handles := fun j hj => h.handles j (List.mem_of_mem_erase hj) }
      obtain ⟨s',hs',hinv⟩ := hfew.drop i
      exact ⟨_,s',by rw [hs']; rfl,by simp,hinv⟩
    · exact ⟨_,_,rfl,by simp,h⟩
  | scheduleFiber i thread =>
    refine ⟨_,_,rfl,by simp,?_⟩
    split
    · rename_i hsome
      refine h.requeue fun j hj => ?_
      rw [fiberIds, List.filterMap_append] at hj
      rcases List.mem_append.mp hj with hj | hj
      · exact h.queue j hj
      · obtain rfl := List.mem_singleton.mp hj
        exact hsome
    · exact h
  | scheduleCb b thread =>
    refine ⟨_,_,rfl,by simp,h.requeue fun j hj => ?_⟩
    rw [fiberIds, List.filterMap_append] at hj
    rcases List.mem_append.mp hj with hj | hj
    · exact h.queue j hj
    · exact absurd hj List.not_mem_nil
  | call w i =>
    rw [System.step]
    split
    · rename_i hidle
      obtain ⟨hgood,hinv⟩ := call_ok h hidle he hc
      exact ⟨_,_,rfl,hgood,hinv⟩
    · exact ⟨_,_,rfl,by simp,h⟩
  | enter w =>
    refine ⟨_,_,rfl,by simp,?_⟩
    split
    · exact h.locals w true (h.taken w)
    · exact h
  | take w =>
    refine ⟨_,_,rfl,by simp,?_⟩
    split
    · rename_i hfree
      exact take_ok h (Bool.and_eq_true_iff.mp hfree).1
    · exact h
  | begin w =>
    simp only [System.step]
    split
    · rename_i task htaken
      split
      · rename_i hloops
        exact begin_ok h hloops htaken he hc
      · exact ⟨_,_,rfl,by simp,h⟩
    · exact ⟨_,_,rfl,by simp,h⟩
  | work w => exact work_ok h hc
  | switch w => exact switch_ok h hc
  | settle w =>
    simp only [System.step]
    split
    · rename_i i role hturn
      split
      · exact ⟨_,_,rfl,by simp,h⟩
      · rename_i f hf
        split
        · exact settle_ok h hturn hf
        · exact ⟨_,_,rfl,by simp,h⟩
    · exact ⟨_,_,rfl,by simp,h⟩

theorem picked_cases (h : i ∈ s.picked w) : (s.workers w).loops = true ∧ (s.workers w).taken = some (.fiber i) ∧
    ∃ f, s.fibers i = some f ∧ f.state ≠ .term ∧ f.state ≠ .except := by
  rw [System.picked] at h
  split at h
  · rename_i hloops
    obtain ⟨hin,hlive⟩ := Option.filter_eq_some_iff.mp h
    obtain ⟨task,htaken,htask⟩ := Option.bind_eq_some_iff.mp hin
    obtain ⟨f,hf,hstate⟩ := (Option.any_eq_true _ _).mp hlive
    cases task with
    | fiber j =>
      cases htask
      exact ⟨hloops,htaken,f,hf,of_decide_eq_true hstate⟩
    | cb b => cases htask
  · cases h

theorem vacant_idle (hsound : Sound f) (hvacant : Vacant f) : ¬ HasWork f := by
  intro hwork
  cases hctx : f.ctx with
  | entry =>
    have hsome := hwork hctx
    rw [hvacant.2] at hsome
    cases hsome
  | inside rest =>
    rw [Sound, hctx, hvacant.1] at hsound
    simp at hsound
  | past =>
    rw [Sound, hctx, hvacant.1] at hsound
    simp at hsound

/-- What is not proper shows at once. -/
theorem improper_shows (h : Inv s) {a : Act n} (he : a.Exclusive s) (hc : ¬ a.Proper s) {events : List Event} {s' : System n}
    (hstep : System.step a s = .ok (events,s')) : ¬ ∀ e ∈ events, e.Good := by
  intro hall
  cases a with
  | newFiber b caller | acquire i | release i | scheduleFiber i thread | scheduleCb b thread | enter w | take w | settle w =>
    exact hc trivial
  | work w =>
    simp only [Act.Proper, not_forall, not_not] at hc
    obtain ⟨⟨i,ph⟩,hcur,rfl,f,hf,hp⟩ := hc
    obtain ⟨f',hf',-,hexec,-⟩ := current_fits h hcur
    obtain rfl : f = f' := Option.some.inj (hf.symm.trans hf')
    have hseg : f.segment = .ok (⟨.exec,f.cb,f.ctx,f.caller⟩,some .throwsException,.past) := by
      simp [Fiber.segment, hp, Exit.stateAfter, hexec]
    rw [System.step, System.work, show (s.workers w).current = some (i,.executing) from hcur] at hstep
    simp only [show s.fibers i = some f from hf, hseg, ok_bind] at hstep
    cases hstep
    have hleft := hall _ List.mem_cons_self
    simp [Event.Good] at hleft
  | begin w =>
    simp only [Act.Proper, not_forall, not_not] at hc
    obtain ⟨i,hpicked,f,hf,hvacant⟩ := hc
    obtain ⟨hloops,htaken,f',hf',hlive⟩ := picked_cases hpicked
    obtain rfl : f = f' := Option.some.inj (Eq.trans (Eq.symm hf) hf')
    obtain ⟨hsound,hexec⟩ := h.resting hf' (he i hpicked)
    simp only [System.step, htaken, if_pos hloops, System.begin, hf'] at hstep
    rw [if_pos hlive, System.resume, show f.swapIn = .ok { f with state := .exec } from if_neg hexec] at hstep
    cases hstep
    exact vacant_idle hsound hvacant (hall _ List.mem_cons_self).2
  | call w i =>
    simp only [Act.Proper, not_forall] at hc
    obtain ⟨f,hcallee,hbad⟩ := hc
    have hheld := he f hcallee
    rw [System.callee] at hcallee
    split at hcallee
    · rename_i hidle
      have hf : s.fibers i = some f := hcallee
      have hsound := (h.resting hf hheld).1
      rw [System.step, if_pos hidle, System.call, hf] at hstep
      cases hstep
      obtain ⟨hpast,hwork⟩ := hall _ List.mem_cons_self
      exact hbad ⟨hpast,fun hvacant => vacant_idle hsound hvacant hwork⟩
    · cases hcallee
  | switch w =>
    simp only [Act.Proper, not_forall] at hc
    obtain ⟨hplain,⟨i,ph⟩,hcur,f,hf,exit,hleaves,hbad⟩ := hc
    cases ph with
    | executing | out => cases hleaves
    | leaving exit' ctx =>
      cases hleaves
      have hswap : ¬ (f.caller && exit.isSome) = true := fun hb => hbad (by simpa using hb)
      rw [System.step, System.switch, show (s.workers w).current = some (i,.leaving exit ctx) from hcur] at hstep
      simp only [show s.fibers i = some f from hf] at hstep
      rw [if_neg hswap, System.swapOut] at hstep
      rw [if_pos (show ((s.setFiber i { f with ctx := ctx }).workers w).home = .plain from hplain)] at hstep
      cases hstep

end Steps

/-- The last thread has no scheduler, the others are those of the pool. -/
private def homes (n : Nat) (w : Fin (n + 1)) : Home := if w.val = n then .plain else .pool

end Radixun.Common.Scheduler
