import Mathlib.Logic.Function.Basic
import Radixun.Foundation.CommandRuns

/-! Concurrent calls that work on shared data in critical sections. A thread is between calls or in
front of a section of its call; the sections of different threads come in any order. -/
namespace Radixun.Foundation.CriticalSections
open CommandRuns
universe u
variable {θ ι κ σ ρ ε : Type u}

/-- The section a call begins with and what a section does: the call goes on to another section or
returns. -/
structure Calls (ι κ σ ρ ε : Type u) where
  enter : ι → κ
  exec : κ → σ → Except ε ((κ ⊕ ρ) × σ)

structure Config (θ κ σ : Type u) where
  shared : σ
  next : θ → Option κ

/-- A thread begins a call, or does the section in front of it. -/
inductive Act (θ ι : Type u) where
  | call (t : θ) (i : ι)
  | step (t : θ)

def Config.idle (x : σ) : Config θ κ σ := ⟨x,fun _ => none⟩

variable [DecidableEq θ]

/-- The effect of an act, with what the call returns if it does. A thread in a call does not begin
another one, and one between calls has nothing to do. -/
def Calls.act (c : Calls ι κ σ ρ ε) : Act θ ι → Config θ κ σ → Except ε (Option ρ × Config θ κ σ)
  | .call t i, s =>
    match s.next t with
    | some _ => .ok (none,s)
    | none => .ok (none,⟨s.shared,Function.update s.next t (some (c.enter i))⟩)
  | .step t, s =>
    match s.next t with
    | none => .ok (none,s)
    | some k =>
      match c.exec k s.shared with
      | .error e => .error e
      | .ok (way,x) => .ok (way.getRight?,⟨x,Function.update s.next t way.getLeft?⟩)

variable {c : Calls ι κ σ ρ ε} {a : Act θ ι} {s s' : Config θ κ σ} {t : θ} {k : κ} {out : Option ρ} {e : ε}

theorem Calls.act_step (ht : s.next t = some k) {way : κ ⊕ ρ} {x : σ} (he : c.exec k s.shared = .ok (way,x)) :
    c.act (.step t) s = .ok (way.getRight?,⟨x,Function.update s.next t way.getLeft?⟩) := by
  simp only [act, ht, he]

theorem Calls.act_fault (ht : s.next t = some k) (he : c.exec k s.shared = .error e) : c.act (.step t) s = .error e := by
  simp only [act, ht, he]

theorem Calls.act_error (h : c.act a s = .error e) : ∃ t k, a = .step t ∧ s.next t = some k ∧ c.exec k s.shared = .error e := by
  cases a with
  | call t i => cases hn : s.next t <;> simp only [act, hn] at h <;> cases h
  | step t =>
    cases hn : s.next t with
    | none => simp only [act, hn] at h; cases h
    | some k =>
      cases he : c.exec k s.shared with
      | error e' => rw [act_fault hn he] at h; cases h; exact ⟨t,k,rfl,hn,he⟩
      | ok out => rw [act_step hn he] at h; cases h

/-- What an act can do: nothing, begin a call, or a section of the thread's call. -/
theorem Calls.act_cases (h : c.act a s = .ok (out,s')) :
    (s' = s ∧ out = none) ∨
    (∃ t i, a = .call t i ∧ s.next t = none ∧ s'.shared = s.shared ∧
      s'.next = Function.update s.next t (some (c.enter i)) ∧ out = none) ∨
    (∃ t k way, a = .step t ∧ s.next t = some k ∧ c.exec k s.shared = .ok (way,s'.shared) ∧
      s'.next = Function.update s.next t way.getLeft? ∧ out = way.getRight?) := by
  cases a with
  | call t i =>
    cases hn : s.next t with
    | none => simp only [act, hn] at h; cases h; exact .inr (.inl ⟨t,i,rfl,hn,rfl,rfl,rfl⟩)
    | some k => simp only [act, hn] at h; cases h; exact .inl ⟨rfl,rfl⟩
  | step t =>
    cases hn : s.next t with
    | none => simp only [act, hn] at h; cases h; exact .inl ⟨rfl,rfl⟩
    | some k =>
      cases he : c.exec k s.shared with
      | error e => rw [act_fault hn he] at h; cases h
      | ok o => rw [act_step hn he] at h; cases h; exact .inr (.inr ⟨t,k,o.1,rfl,hn,he,rfl,rfl⟩)

/-- The section that the act does, if it does one, meets a condition. -/
def Admitted (C : κ → σ → Prop) : Act θ ι → Config θ κ σ → Prop
  | .call _ _, _ => True
  | .step t, s => ∀ k, s.next t = some k → C k s.shared

omit [DecidableEq θ] in
theorem admitted_at {C : κ → σ → Prop} (hn : s.next t = some k) : Admitted C (.step t : Act θ ι) s ↔ C k s.shared := by
  refine ⟨fun h => h k hn,fun h k' hk => ?_⟩
  rw [hn] at hk
  cases hk
  exact h

omit [DecidableEq θ] in
instance decidableAdmitted (C : κ → σ → Prop) [∀ k x, Decidable (C k x)] : (a : Act θ ι) → (s : Config θ κ σ) → Decidable (Admitted C a s)
  | .call _ _, _ => isTrue trivial
  | .step t, s =>
    match hn : s.next t with
    | none => isTrue (by intro k hk; rw [hn] at hk; cases hk)
    | some k => decidable_of_iff (C k s.shared) (admitted_at hn).symm

/-- What admitted sections keep of the data, admitted acts keep. -/
theorem Calls.act_keeps {C : κ → σ → Prop} {J : σ → Prop}
    (hinv : ∀ k x way x', J x → C k x → c.exec k x = .ok (way,x') → J x') (hs : J s.shared) (hc : Admitted C a s)
    (h : c.act a s = .ok (out,s')) : J s'.shared := by
  obtain ⟨rfl,-⟩ | ⟨t,i,-,-,hx,-⟩ | ⟨t,k,way,rfl,hn,he,-⟩ := Calls.act_cases h
  · exact hs
  · rw [hx]
    exact hs
  · exact hinv k s.shared way s'.shared hs (hc k hn) he

/-- The next sections of a call, at most `n` of them, with nothing between them. -/
def Calls.alone (c : Calls ι κ σ ρ ε) : Nat → κ → σ → Except ε ((κ ⊕ ρ) × σ)
  | 0, k, x => .ok (.inl k,x)
  | n + 1, k, x =>
    match c.exec k x with
    | .error e => .error e
    | .ok (.inl k',x') => c.alone n k' x'
    | .ok (.inr r,x') => .ok (.inr r,x')

private theorem runAll_idle (ht : s.next t = none) (n : Nat) :
    runAll c.act (List.replicate n (.step t)) s = .ok (List.replicate n none,s) := by
  induction n with
  | zero => rfl
  | succ n ih =>
    have hact : c.act (.step t) s = .ok (none,s) := by simp only [Calls.act, ht]
    simp only [List.replicate_succ, runAll, hact, ih]

/-- What a run of one thread shows: the results returned, and the configuration behind it. -/
def summary (out : List (Option ρ) × Config θ κ σ) : List ρ × Config θ κ σ := (out.1.filterMap id,out.2)

/-- The same of sections that a thread does on its own. -/
def Config.after (s : Config θ κ σ) (t : θ) (out : (κ ⊕ ρ) × σ) : List ρ × Config θ κ σ :=
  (out.1.getRight?.toList,⟨out.2,Function.update s.next t out.1.getLeft?⟩)

private theorem after_update (x : σ) (o : Option κ) :
    ((⟨x,Function.update s.next t o⟩ : Config θ κ σ).after t : (κ ⊕ ρ) × σ → _) = s.after t := by
  funext out
  rw [Config.after, Config.after, Function.update_idem]

private theorem summary_quiet (h : c.act a s = .ok (none,s')) (acts : List (Act θ ι)) :
    (runAll c.act (a :: acts) s).map summary = (runAll c.act acts s').map summary := by
  rw [runAll]
  simp only [h]
  cases runAll c.act acts s' <;> rfl

private theorem runAll_steps (ht : s.next t = some k) (n : Nat) :
    (runAll c.act (List.replicate n (.step t)) s).map summary = (c.alone n k s.shared).map (s.after t) := by
  induction n generalizing k s with
  | zero =>
    have hs : (⟨s.shared,Function.update s.next t (some k)⟩ : Config θ κ σ) = s := by rw [← ht, Function.update_eq_self]
    change Except.ok ([],s) = Except.ok ([],_)
    rw [Sum.getLeft?_inl, hs]
  | succ n ih =>
    rw [List.replicate_succ, Calls.alone]
    cases he : c.exec k s.shared with
    | error e => rw [runAll, Calls.act_fault ht he]; rfl
    | ok out =>
      obtain ⟨way,x⟩ := out
      have hact := Calls.act_step ht he
      cases way with
      | inl k' => rw [summary_quiet hact, ih (Function.update_self t _ s.next), after_update]
      | inr r =>
        have hidle := runAll_idle (c := c) (s := ⟨x,Function.update s.next t none⟩) (Function.update_self t none s.next) n
        rw [runAll, hact]
        simp only [Sum.getLeft?_inr, hidle, Sum.getRight?_inr, Except.map, summary, Config.after, List.filterMap_cons,
          List.filterMap_replicate_of_none, id_eq, Option.toList_some]

/-- A call that no other thread comes between does its sections one after the other. -/
theorem runAll_alone (ht : s.next t = none) (i : ι) (n : Nat) :
    (runAll c.act (.call t i :: List.replicate n (.step t)) s).map summary =
      (c.alone n (c.enter i) s.shared).map (s.after t) := by
  have hact : c.act (.call t i) s = .ok (none,⟨s.shared,Function.update s.next t (some (c.enter i))⟩) := by
    simp only [Calls.act, ht]
  rw [summary_quiet hact, runAll_steps (Function.update_self t _ s.next), after_update]

/-- What is noted of the results returned so far and the data, section by section, holds at the end of a
run of admitted sections, and such a run meets no fault. -/
theorem run_history {C : κ → σ → Prop} {I : List ρ → σ → Prop}
    (hexec : ∀ k x log, I log x → C k x → ∃ way x', c.exec k x = .ok (way,x') ∧ I (log ++ way.getRight?.toList) x')
    (acts : List (Act θ ι)) {log : List ρ} (hI : I log s.shared) (ha : Along (Admitted C) c.act acts s) :
    ∃ out, runAll c.act acts s = .ok out ∧ I (log ++ (summary out).1) out.2.shared := by
  induction acts generalizing s log with
  | nil => exact ⟨([],s),rfl,by rw [summary, List.filterMap_nil, List.append_nil]; exact hI⟩
  | cons a acts ih =>
    have hone : ∃ out s', c.act a s = .ok (out,s') ∧ I (log ++ out.toList) s'.shared := by
      have hquiet : I (log ++ (none : Option ρ).toList) s.shared := by
        rw [Option.toList_none, List.append_nil]
        exact hI
      cases a with
      | call t i =>
        cases hn : s.next t with
        | none => exact ⟨none,⟨s.shared,Function.update s.next t (some (c.enter i))⟩,by simp only [Calls.act, hn],hquiet⟩
        | some k => exact ⟨none,s,by simp only [Calls.act, hn],hquiet⟩
      | step t =>
        cases hn : s.next t with
        | none => exact ⟨none,s,by simp only [Calls.act, hn],hquiet⟩
        | some k =>
          obtain ⟨way,x',he,hI'⟩ := hexec k s.shared log hI (ha.1 k hn)
          exact ⟨_,_,Calls.act_step hn he,hI'⟩
    obtain ⟨out,s',he,hI'⟩ := hone
    obtain ⟨rest,hr,hend⟩ := ih hI' (ha.2 out s' he)
    refine ⟨(out :: rest.1,rest.2),by simp only [runAll, he, hr],?_⟩
    have hlog : (summary (out :: rest.1,rest.2)).1 = out.toList ++ (summary rest).1 := by
      cases out <;> rfl
    rw [hlog, ← List.append_assoc]
    exact hend

/-- A section that is not admitted leads to data that are not related to those before it, or to a
fault in question. -/
def Breaks (c : Calls ι κ σ ρ ε) (R : σ → σ → Prop) (E : ε → Prop) (k : κ) (x : σ) : Prop :=
  (∃ way x', c.exec k x = .ok (way,x') ∧ ¬ R x x') ∨ ∃ e, c.exec k x = .error e ∧ E e

private theorem act_fine_iff {C : κ → σ → Prop} {J : σ → Prop} {R : σ → σ → Prop} {E : ε → Prop} (hrefl : ∀ x, R x x)
    (hkeep : ∀ k x way x', J x → C k x → c.exec k x = .ok (way,x') → R x x')
    (hfault : ∀ k x e, J x → C k x → c.exec k x = .error e → ¬ E e)
    (hbreak : ∀ k x, J x → ¬ C k x → Breaks c R E k x) (a : Act θ ι) (hs : J s.shared) :
    ((∀ out s', c.act a s = .ok (out,s') → R s.shared s'.shared) ∧ ∀ e, c.act a s = .error e → ¬ E e) ↔ Admitted C a s := by
  constructor
  · intro h
    cases a with
    | call t i => trivial
    | step t =>
      intro k hn
      apply Classical.byContradiction
      intro hC
      obtain ⟨way,x',he,hR⟩ | ⟨e,he,hE⟩ := hbreak k s.shared hs hC
      · exact hR (h.1 _ _ (Calls.act_step hn he))
      · exact h.2 e (Calls.act_fault hn he) hE
  · intro h
    constructor
    · intro out s' ha
      obtain ⟨rfl,-⟩ | ⟨-,-,-,-,hx,-⟩ | ⟨t,k,way,rfl,hn,he,-⟩ := Calls.act_cases ha
      · exact hrefl s'.shared
      · rw [hx]
        exact hrefl s.shared
      · exact hkeep k s.shared way s'.shared hs (h k hn) he
    · intro e ha
      obtain ⟨t,k,rfl,hn,he⟩ := Calls.act_error ha
      exact hfault k s.shared e hs (h k hn) he

/-- Where admitted sections relate the data before and after them and the others break this, exactly
the runs of admitted sections keep all their states related and are free of the faults in question. -/
theorem related_iff_admitted {C : κ → σ → Prop} {J : σ → Prop} {R : σ → σ → Prop} {E : ε → Prop} (hrefl : ∀ x, R x x)
    (htrans : ∀ x y z, R x y → R y z → R x z)
    (hinv : ∀ k x way x', J x → C k x → c.exec k x = .ok (way,x') → J x')
    (hkeep : ∀ k x way x', J x → C k x → c.exec k x = .ok (way,x') → R x x')
    (hfault : ∀ k x e, J x → C k x → c.exec k x = .error e → ¬ E e)
    (hbreak : ∀ k x, J x → ¬ C k x → Breaks c R E k x) (acts : List (Act θ ι)) (hs : J s.shared) :
    ((states c.act acts s).Pairwise (fun s s' => R s.shared s'.shared) ∧ ∀ e, runAll c.act acts s = .error e → ¬ E e) ↔
      Along (Admitted C) c.act acts s := by
  have htrans' : ∀ s t u : Config θ κ σ, R s.shared t.shared → R t.shared u.shared → R s.shared u.shared :=
    fun s t u => htrans s.shared t.shared u.shared
  rw [pairwise_states (fun s => hrefl s.shared) htrans', not_error_iff_along E, ← along_and]
  have hpoint : ∀ (a : Act θ ι) (s : Config θ κ σ), J s.shared → _ := fun a s hs => act_fine_iff hrefl hkeep hfault hbreak a hs
  refine along_congr hpoint ?_ acts hs
  intro a s out s' hs hC ha
  exact Calls.act_keeps hinv hs hC ha

end Radixun.Foundation.CriticalSections
