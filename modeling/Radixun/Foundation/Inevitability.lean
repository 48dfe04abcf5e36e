import Radixun.Foundation.CommandRuns

/-! What comes true on every way on, and processes that take their steps among those of others. -/
namespace Radixun.Foundation
open CommandRuns

/-- On every way on from here the property comes true. -/
inductive Inevitable {α : Type*} (R : α → α → Prop) (P : α → Prop) : α → Prop
  | now {a : α} (h : P a) : Inevitable R P a
  | later {a : α} (some : ∃ b, R a b) (all : ∀ b, R a b → Inevitable R P b) : Inevitable R P a

section
universe u
variable {ι σ ε ρ : Type u} {own others : ι → σ → Prop} {step : ι → σ → Except ε (ρ × σ)}

/-- Any number of steps of others, and then a step of one's own. -/
def Turn (own others : ι → σ → Prop) (step : ι → σ → Except ε (ρ × σ)) (s s' : σ) : Prop :=
  ∃ acts rs t a r, Along others step acts s ∧ runAll step acts s = .ok (rs,t) ∧ own a t ∧ step a t = .ok (r,s')

/-- A process that can always take a step, and whose steps bring it nearer to its end: others may come in between as
often as they like, as long as they do not throw it back. -/
theorem Inevitable.of_turns {I P : σ → Prop} (left : σ → Nat)
    (hothers : ∀ a s r s', I s → others a s → step a s = .ok (r,s') → I s' ∧ left s' ≤ left s)
    (hready : ∀ s, I s → ∃ a r s', own a s ∧ step a s = .ok (r,s'))
    (hown : ∀ a s r s', I s → own a s → step a s = .ok (r,s') → P s' ∨ I s' ∧ left s' < left s) {s : σ} (hs : I s) :
    Inevitable (Turn own others step) P s := by
  generalize hn : left s = n
  induction n using Nat.strongRecOn generalizing s with
  | _ n ih =>
    subst hn
    obtain ⟨a,r,s',ha,he⟩ := hready s hs
    refine .later ⟨s',[],[],s,a,r,trivial,rfl,ha,he⟩ ?_
    rintro u ⟨acts,rs,t,b,q,halong,hrun,hb,hu⟩
    have hkeeps : ∀ a t r t', I t ∧ left t ≤ left s → others a t → step a t = .ok (r,t') → I t' ∧ left t' ≤ left s := by
      intro a t r t' ht ho hstep
      obtain ⟨ht',hle⟩ := hothers a t r t' ht.1 ho hstep
      exact ⟨ht',Nat.le_trans hle ht.2⟩
    obtain ⟨ht,hle⟩ := along_keeps hkeeps acts ⟨hs,Nat.le_refl _⟩ halong hrun
    rcases hown b t q u ht hb hu with hp | ⟨hi,hlt⟩
    · exact .now hp
    · exact ih (left u) (Nat.lt_of_lt_of_le hlt hle) hi rfl

end

end Radixun.Foundation
