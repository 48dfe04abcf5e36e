import Radixun.Common.ConfigUpdates
import Radixun.Common.LogIniter

/-! When `setValue` of the variable of the logger definitions notices a new set of them. -/
namespace Radixun.Common.Log
open Config (ConfigVar Bodies)
open Config.ConfigVar (notifyAll)

/-- `operator==` of `std::set`: as many elements, each equal to the one at its place. -/
def LogDefines.equal (s t : LogDefines) : Bool :=
  (elements s).length == (elements t).length && ((elements s).zip (elements t)).all fun p => p.1.equal p.2

/-- `setValue` of `g_log_defines`. -/
def setLogDefines (bodies : Bodies LogDefines) (v : LogDefines) (x : ConfigVar LogDefines) :
    Except Config.Thrown Unit × ConfigVar LogDefines :=
  @ConfigVar.setValue LogDefines ⟨LogDefines.equal⟩ bodies v x

/-- The listeners are called in order, and the new set is stored if none of them throws. -/
structure Noticed (bodies : Bodies LogDefines) (v : LogDefines) (x : ConfigVar LogDefines) : Prop where
  ended : (setLogDefines bodies v x).1 = (notifyAll bodies x.val v x.cbs).1
  called : (setLogDefines bodies v x).2.cbs = (notifyAll bodies x.val v x.cbs).2
  stored : (notifyAll bodies x.val v x.cbs).1 = .ok () → (setLogDefines bodies v x).2.getValue = v

theorem LogDefines.equal_iff {s t : LogDefines} : s.equal t = true ↔ List.Forall₂ LogDefine.Alike (elements s) (elements t) := by
  rw [equal, List.forall₂_iff_zip, Bool.and_eq_true, beq_iff_eq, List.all_eq_true]
  apply and_congr_right
  intro _
  constructor
  · intro h a b hab
    exact LogDefine.equal_iff.mp (h (a,b) hab)
  · intro h p hp
    exact LogDefine.equal_iff.mpr (h hp)

/-- Definitions are told apart by `operator==` except by their appenders. -/
theorem equal_exact_iff (a b : LogDefine) : (a.equal b = true ↔ a = b) ↔ (a.Alike b → a.appenders = b.appenders) := by
  rw [LogDefine.equal_iff]
  constructor
  · intro h halike
    rw [h.mp halike]
  · intro h
    refine ⟨fun halike => ?_,fun he => he ▸ ⟨rfl,rfl,rfl⟩⟩
    have happenders := h halike
    obtain ⟨hname,hlevel,hformatter⟩ := halike
    cases a
    cases b
    cases hname
    cases hlevel
    cases hformatter
    cases happenders
    rfl

variable {bodies : Bodies LogDefines} {v : LogDefines} {x : ConfigVar LogDefines}

theorem setLogDefines_equal (h : v.equal x.val = true) : setLogDefines bodies v x = (.ok (),x) := if_pos h

theorem noticed_of_different (h : v.equal x.val = false) : Noticed bodies v x := by
  have hdiffers : ¬ v.equal x.val = true := by
    rw [h]
    exact Bool.false_ne_true
  cases hr : (notifyAll bodies x.val v x.cbs).1 with
  | error e =>
    have hset : setLogDefines bodies v x = (.error e,{ x with cbs := (notifyAll bodies x.val v x.cbs).2 }) := by
      refine (if_neg hdiffers).trans ?_
      simp only [hr]
    refine ⟨by rw [hset, hr],by rw [hset],fun hok => ?_⟩
    rw [hr] at hok
    cases hok
  | ok u =>
    have hset : setLogDefines bodies v x = (.ok (),⟨v,(notifyAll bodies x.val v x.cbs).2⟩) := by
      refine (if_neg hdiffers).trans ?_
      simp only [hr]
    exact ⟨by rw [hset, hr],by rw [hset],fun _ => by rw [hset]; rfl⟩

private def toFile (file : List UInt8) : LogDefine := ⟨Config.bytes "app",.info,[],[⟨1,.info,[],file⟩]⟩
private theorem only_sorted (d : LogDefine) : [(d,())].Pairwise fun a b => a.1.less b.1 = true := List.pairwise_singleton _ _
private def only (d : LogDefine) : LogDefines := ⟨[(d,())],only_sorted d⟩

end Radixun.Common.Log
