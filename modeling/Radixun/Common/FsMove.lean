import Radixun.Common.FsRemoval

/-! `FSUtil::Mv`: the target is removed first, so a move that fails then has lost it, and when it lies around the
source the source as well. -/
namespace Radixun.Common.FSUtil
open Foundation.FileTree Foundation.PathLookup Foundation.FileCalls

/-- A path as callers give it, without the zero byte at which `c_str` would end. -/
abbrev CPath := {p : Path // 0 ∉ p}

/-- `FSUtil::Mv`. -/
def mv (k : Kernel) (levels : Nat) (t : Tree) (frm dst : CPath) : Option (Bool × Tree) :=
  match rm k levels t dst with
  | none => none
  | some (false,t) => some (false,t)
  | some (true,t) => some (rename k t frm dst)

/-- What was at the one path before is at the other one now. -/
def Moved (k : Kernel) (t s : Tree) (frm dst : Path) : Prop := ∃ source target,
  entryPlace k.toProcess t frm = some source ∧ entryPlace k.toProcess t dst = some target ∧ t source ≠ none ∧
  ∀ rest, s (target ++ rest) = t (source ++ rest)

/-- `Mv` returns, has moved the source if it returns true and has changed nothing if it returns false. -/
def MovesSafely {k : Kernel} (v : Volume k) (frm dst : CPath) : Prop :=
  ∃ r, mv k (v.depth + 1) v.tree frm dst = some r ∧ (r.1 = false → r.2 = v.tree) ∧
    (r.1 = true → Moved k v.tree r.2 frm dst)

/-- A source can be given a name that is free: both paths lead to entries, the source is there and does not contain the
name, nothing but a directory has a slash at the end, and the kernel does not refuse. -/
def Renames (k : Kernel) (t : Tree) (frm dst : Path) (target : Location) : Prop := ∃ source i,
  entryPlace k.toProcess t frm = some source ∧ entryPlace k.toProcess t dst = some target ∧ t source = some i ∧
  ((trailing frm || trailing dst) = true → i.type = .directory) ∧ ¬source <+: target ∧ k.renameRefused frm dst = false

section
variable {k : Kernel} {v : Volume k} {t s : Tree} {l target : Location} {frm dst : Path} {r : Bool × Tree}

theorem Removes.cut (h : Removes k t dst l r) (hgone : r.2 l = none) : r.2 = cut t l := by
  funext m
  by_cases hm : l <+: m
  · rw [cut_inside hm]
    exact h.closed.none_below hgone hm
  · rw [cut_outside hm]
    exact h.outside m hm

/-- A `rename` that does not fail has moved the source as it was before the removal, if that left it alone. -/
theorem rename_moved (hs : Restricts s t) (hkept : ∀ source, entryPlace k.toProcess s frm = some source →
      s source ≠ none → ∀ target, entryPlace k.toProcess s dst = some target → (source <+: target → source = target) →
      ∀ rest, s (source ++ rest) = t (source ++ rest))
    (htrue : (rename k s frm dst).1 = true) : Moved k t (rename k s frm dst).2 frm dst := by
  rcases rename_cases (k := k) (t := s) (p := frm) (q := dst) with hfail | ⟨source,target,i,hsource,htarget,hi,-,hcase⟩
  · rw [hfail] at htrue
    cases htrue
  · have hthere : s source ≠ none := Option.ne_none_iff_exists'.mpr ⟨i,hi⟩
    refine ⟨source,target,entryPlace_mono hs hsource,entryPlace_mono hs htarget,hs.ne_none hthere,?_⟩
    intro rest
    rcases hcase with ⟨rfl,heq⟩ | ⟨hinside,-,heq⟩
    · rw [heq]
      exact hkept source hsource hthere source htarget (fun _ => rfl) rest
    · rw [heq]
      apply (move_target s source target rest).trans
      exact hkept source hsource hthere target htarget (fun h => absurd h hinside) rest

/-- What is left without the target is as it was. -/
theorem cut_kept {source rest : Location} (hthere : cut t l source ≠ none) (h : source <+: l → source = l) :
    cut t l (source ++ rest) = t (source ++ rest) := by
  have hout : ¬l <+: source := fun hin => hthere (cut_inside hin)
  apply cut_outside
  intro hin
  rcases List.prefix_or_prefix_of_prefix hin (List.prefix_append source rest) with hp | hp
  · exact hout hp
  · apply hout
    rw [h hp]

/-- After the removal of the target, `rename` does not fail if and only if the source can be given its name. -/
theorem rename_cut (v : Volume k) (h : Removable k v.tree dst l) :
    (rename k (cut v.tree l) frm dst).1 = true ↔ Renames k (cut v.tree l) frm dst l := by
  have hfree : cut v.tree l l = none := cut_inside (List.prefix_refl l)
  constructor
  · intro htrue
    rcases rename_cases (k := k) (t := cut v.tree l) (p := frm) (q := dst) with
      hfail | ⟨source,target,i,hsource,hdst,hi,htype,hcase⟩
    · rw [hfail] at htrue
      cases htrue
    · have htarget := entryPlace_mono (cut_restricts v.tree l) hdst
      rw [h.entry (.self v)] at htarget
      obtain rfl := Option.some.inj htarget
      rcases hcase with ⟨rfl,-⟩ | ⟨hinside,hallowed,-⟩
      · rw [hi] at hfree
        cases hfree
      · exact ⟨source,i,hsource,hdst,hi,htype,hinside,hallowed⟩
  · rintro ⟨source,i,hsource,hdst,hi,htype,hinside,hallowed⟩
    rw [rename_free hsource hdst hi htype hinside hallowed hfree]

theorem rename_failed (h : (rename k t frm dst).1 = false) : (rename k t frm dst).2 = t := by
  rcases rename_cases (k := k) (t := t) (p := frm) (q := dst) with hfail | ⟨_,_,_,-,-,-,-,⟨-,heq⟩ | ⟨-,-,heq⟩⟩
  · rw [hfail]
  · rw [heq] at h
    cases h
  · rw [heq] at h
    cases h

/-- After `Rm` returned true, a `rename` that does not fail has moved the source as it was before. -/
theorem Removes.moved {v : Volume k} (h : Removes k v.tree dst l r) (hret : r.1 = true)
    (htrue : (rename k r.2 frm dst).1 = true) : Moved k v.tree (rename k r.2 frm dst).2 frm dst := by
  apply rename_moved h.restricts _ htrue
  intro source _ hthere target htarget hinside rest
  by_cases hsame : r.2 = v.tree
  · rw [hsame]
  · -- something was removed, so all of the target was
    have htouched := h.changed.mp hsame
    have hgone : r.2 l = none := by
      apply (h.flag.mp hret).resolve_left
      rw [lstat, htouched.place]
      exact htouched.there
    have hm := entryPlace_mono h.restricts htarget
    rw [((h.gone htouched.there).mp hgone).entry (.self v)] at hm
    rw [← Option.some.inj hm] at hinside
    rw [h.cut hgone] at hthere ⊢
    exact cut_kept hthere hinside

/-- What `Mv` gives after what `Rm` gave. -/
theorem mv_eq {levels : Nat} {frm dst : CPath} (h : rm k levels t dst = some r) :
    mv k levels t frm dst = some (if r.1 then rename k r.2 frm dst else r) := by
  obtain ⟨ret,s⟩ := r
  rw [mv, h]
  cases ret <;> rfl

/-- A move is safe where it changed nothing, and where it did not fail. -/
theorem movesSafely_iff {frm dst : CPath} (h : Removes k v.tree dst l r)
    (hmv : mv k (v.depth + 1) v.tree frm dst = some (if r.1 then rename k r.2 frm dst else r)) :
    MovesSafely v frm dst ↔ r.2 = v.tree ∨ r.1 = true ∧ (rename k r.2 frm dst).1 = true := by
  have hsafe : MovesSafely v frm dst ↔ ((if r.1 then rename k r.2 frm dst else r).1 = false →
        (if r.1 then rename k r.2 frm dst else r).2 = v.tree) ∧
      ((if r.1 then rename k r.2 frm dst else r).1 = true →
        Moved k v.tree (if r.1 then rename k r.2 frm dst else r).2 frm dst) := by
    rw [MovesSafely, hmv]
    simp
  rw [hsafe]
  cases hret : r.1 with
  | false => simp [hret]
  | true =>
    cases htrue : (rename k r.2 frm dst).1 with
    | false => simp [htrue, rename_failed htrue]
    | true => simp [htrue, h.moved hret htrue]

end

section
variable {k : Kernel}

/-- `Mv` keeps its promise where nothing of the target can be removed, and where all of it can be and the source, as it
is then, can be given the name. -/
theorem mv_iff (v : Volume k) (frm dst : CPath) : MovesSafely v frm dst ↔ (∀ l, ¬Touched k v.tree dst l) ∨
    ∃ l, Removable k v.tree dst l ∧ Renames k (cut v.tree l) frm dst l := by
  obtain ⟨l,hl⟩ : ∃ l, ∀ m, lstatPlace k.toProcess v.tree dst = some m → m = l := by
    cases lstatPlace k.toProcess v.tree dst with
    | none => exact ⟨[],fun m hm => by cases hm⟩
    | some l => exact ⟨l,fun m hm => (Option.some.inj hm).symm⟩
  obtain ⟨r,hr,hremoves⟩ := rm_spec v.depth (Nat.le_add_right _ _) (.self v) hl
  rw [movesSafely_iff hremoves (mv_eq hr)]
  constructor
  · rintro (hsame | ⟨hret,htrue⟩)
    · left
      intro m hm
      obtain rfl := hl m hm.place
      exact hremoves.changed.mpr hm hsame
    · by_cases htouched : Touched k v.tree dst l
      · right
        have hnone : r.2 l = none := by
          apply (hremoves.flag.mp hret).resolve_left
          rw [lstat, htouched.place]
          exact htouched.there
        have hremovable := (hremoves.gone htouched.there).mp hnone
        rw [hremoves.cut hnone] at htrue
        exact ⟨l,hremovable,(rename_cut v hremovable).mp htrue⟩
      · left
        intro m hm
        exact htouched (hl m hm.place ▸ hm)
  · rintro (hnone | ⟨m,hremovable,hrenames⟩)
    · left
      by_contra hne
      exact hnone l (hremoves.changed.mp hne)
    · right
      obtain rfl := hl m hremovable.place
      have hnone := (hremoves.gone hremovable.there).mpr hremovable
      constructor
      · exact hremoves.flag.mpr (.inr hnone)
      · rw [hremoves.cut hnone]
        exact (rename_cut v hremovable).mpr hrenames

end

/-! A file that is moved to itself. -/

def loneTree : Tree := fun l =>
  if l = [] then some ⟨.directory,[]⟩ else if l = [[97]] then some ⟨.regular,[120]⟩ else none

def loneKernel : Kernel where
  cwd := []
  searchable := fun _ => true
  order := fun _ => [dot,dotdot,[97]]
  opendirRefused := fun _ => false
  unlinkRefused := fun _ => false
  rmdirRefused := fun _ => false
  renameRefused := fun _ _ => false

theorem loneTree_entry {l : Location} {n : Name} (h : loneTree (l ++ [n]) ≠ none) : l = [] ∧ n = [97] := by
  have hne : l ++ [n] ≠ [] := List.concat_ne_nil n l
  rw [loneTree, if_neg hne] at h
  by_cases heq : l ++ [n] = [[97]]
  · cases l with
    | nil => exact ⟨rfl,(List.cons.inj heq).1⟩
    | cons m l => simp at heq
  · rw [if_neg heq] at h
    exact absurd rfl h

def loneVolume : Volume loneKernel where
  tree := loneTree
  closed := by
    intro l n h
    rw [(loneTree_entry h).1]
    rfl
  root := rfl
  way := by
    intro l hl _
    rw [List.prefix_nil.mp hl]
    rfl
  names := by
    intro l n h
    rw [(loneTree_entry h).2]
    exact ⟨by decide,by decide,by decide,by decide,by decide⟩
  listed := by
    intro l n h
    rw [(loneTree_entry h).2]
    exact List.mem_cons_of_mem dot (List.mem_cons_of_mem dotdot List.mem_cons_self)
  once := fun _ => (by decide : [dot,dotdot,[97]].Nodup)
  depth := 1
  deep := by
    intro l h
    cases l using List.reverseRecOn with
    | nil => decide
    | append_singleton l n => rw [(loneTree_entry h).1, List.nil_append, List.length_singleton]

/-- `Mv` of a file to itself returns false, and the file is gone. -/
theorem mv_loses : ¬MovesSafely loneVolume ⟨[97],by decide⟩ ⟨[97],by decide⟩ := by
  rintro ⟨r,hr,hfalse,-⟩
  have hmv : mv loneKernel 2 loneTree ⟨[97],by decide⟩ ⟨[97],by decide⟩ = some (false,erase loneTree [[97]]) := rfl
  obtain rfl := Option.some.inj (hmv.symm.trans hr)
  have hfile := congrFun (hfalse rfl) [[97]]
  cases hfile

end Radixun.Common.FSUtil
