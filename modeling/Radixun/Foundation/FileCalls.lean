import Radixun.Foundation.PathLookup

/-! The calls of the kernel on a directory tree: `lstat`, `opendir`, `readdir`, `unlink`, `rmdir` and
`rename`. -/
namespace Radixun.Foundation.FileCalls
open FileTree PathLookup

/-- A process, the order in which directories list their entries, and the calls that are refused for reasons other
than the tree, such as permissions, a file system that is busy or read only, or a limit that is reached. -/
structure Kernel extends Process where
  order : Location → List Name
  opendirRefused : Path → Bool
  unlinkRefused : Path → Bool
  rmdirRefused : Path → Bool
  renameRefused : Path → Path → Bool

section
variable (k : Kernel) (t : Tree)

def lstat (p : Path) : Option Inode := (lstatPlace k.toProcess t p).bind t

/-- The directory that is opened; a link at the end of the path is followed. -/
def opendir (p : Path) : Option Location :=
  if k.opendirRefused p then none
  else
    match lstatPlace k.toProcess t p with
    | none => none
    | some l =>
      match t l with
      | none => none
      | some i =>
        if i.type = .directory then some l
        else if i.type = .symlink then (walk k.toProcess t p (components p)).filter fun l => isDirectory t l
        else none

/-- The names that a directory lists when it is opened. -/
def readdir (l : Location) : List Name := (k.order l).filter fun n => n = dot || n = dotdot || (t (l ++ [n])).isSome

def isEmpty (l : Location) : Bool := (readdir k t l).all fun n => n = dot || n = dotdot

def unlink (p : Path) : Bool × Tree :=
  match entryPlace k.toProcess t p with
  | none => (false,t)
  | some l =>
    match t l with
    | none => (false,t)
    | some i => if i.type = .directory || trailing p || k.unlinkRefused p then (false,t) else (true,erase t l)

def rmdir (p : Path) : Bool × Tree :=
  match entryPlace k.toProcess t p with
  | none => (false,t)
  | some l => if isDirectory t l && isEmpty k t l && !k.rmdirRefused p then (true,erase t l) else (false,t)

/-- Whether an entry may take the place of another one. -/
def mayReplace (source target : Inode) (empty : Bool) : Bool :=
  if source.type = .directory then target.type = .directory && empty else target.type ≠ .directory

/-- Two names for one file apart, which `rename` leaves as they are. -/
def rename (oldpath newpath : Path) : Bool × Tree :=
  match entryPlace k.toProcess t oldpath, entryPlace k.toProcess t newpath with
  | some source, some target =>
    match t source with
    | none => (false,t)
    | some i =>
      if (trailing oldpath || trailing newpath) && i.type ≠ .directory then (false,t)
      else if source = target then (true,t)
      else if source <+: target then (false,t)
      else if k.renameRefused oldpath newpath then (false,t)
      else
        match t target with
        | none => (true,move t source target)
        | some j => if mayReplace i j (isEmpty k t target) then (true,move t source target) else (false,t)
  | _, _ => (false,t)

end

/-- A tree as file systems have it, for a process that started in it. -/
structure Volume (k : Kernel) where
  tree : Tree
  closed : Closed tree
  root : isDirectory tree [] = true
  way : Way tree k.cwd
  names : ∀ l n, tree (l ++ [n]) ≠ none → EntryName n
  listed : ∀ l n, tree (l ++ [n]) ≠ none → n ∈ k.order l
  once : ∀ l, (k.order l).Nodup
  depth : Nat
  deep : ∀ l, tree l ≠ none → l.length ≤ depth

/-- What is left of a volume. -/
structure PartOf {k : Kernel} (v : Volume k) (t : Tree) : Prop where
  restricts : Restricts t v.tree
  closed : Closed t

section
variable {k : Kernel} {v : Volume k} {t : Tree} {l : Location} {n : Name} {p : Path}

theorem PartOf.self (v : Volume k) : PartOf v v.tree := ⟨.refl v.tree,v.closed⟩

theorem PartOf.names (ht : PartOf v t) (h : t (l ++ [n]) ≠ none) : EntryName n := v.names l n (ht.restricts.ne_none h)

/-- A directory lists its entries, besides `.` and `..`. -/
theorem mem_readdir (ht : PartOf v t) : n ∈ readdir k t l ∧ n ≠ dot ∧ n ≠ dotdot ↔ t (l ++ [n]) ≠ none := by
  rw [readdir, List.mem_filter, ← Option.isSome_iff_ne_none]
  constructor
  · rintro ⟨⟨-,h⟩,hdot,hdotdot⟩
    simpa [hdot, hdotdot] using h
  · intro h
    have hne := Option.isSome_iff_ne_none.mp h
    have hname := ht.names hne
    refine ⟨⟨v.listed l n (ht.restricts.ne_none hne),?_⟩,hname.not_dot,hname.not_dotdot⟩
    rw [h, Bool.or_true]

theorem readdir_nodup (v : Volume k) (t : Tree) (l : Location) : (readdir k t l).Nodup := (v.once l).filter _

theorem isEmpty_iff (ht : PartOf v t) : isEmpty k t l = true ↔ ∀ n, t (l ++ [n]) = none := by
  rw [isEmpty, List.all_eq_true]
  constructor
  · intro h n
    by_contra hne
    obtain ⟨hmem,hdot,hdotdot⟩ := (mem_readdir ht).mpr hne
    have := h n hmem
    simp [hdot, hdotdot] at this
  · intro h n hmem
    by_contra hnot
    have hdots : n ≠ dot ∧ n ≠ dotdot := by simpa using hnot
    exact (mem_readdir ht).mp ⟨hmem,hdots⟩ (h n)

/-- Nothing but a directory has entries. -/
theorem PartOf.no_entries (ht : PartOf v t) (h : isDirectory t l = false) (n : Name) : t (l ++ [n]) = none := by
  by_contra hne
  rw [ht.closed l n hne] at h
  cases h

theorem opendir_eq_some {m : Location} {i : Inode} (hplace : lstatPlace k.toProcess t p = some l) (hi : t l = some i)
    (hlink : i.type ≠ .symlink) : opendir k t p = some m ↔ isDirectory t l = true ∧ k.opendirRefused p = false ∧ l = m := by
  rw [opendir]
  cases k.opendirRefused p with
  | true => simp
  | false =>
    by_cases hdir : i.type = .directory
    · simp [hplace, hi, hdir, isDirectory]
    · simp [hplace, hi, hdir, hlink, isDirectory]

/-- An empty directory is taken away unless the kernel refuses. -/
theorem rmdir_empty (ht : PartOf v t) (hplace : entryPlace k.toProcess t p = some l) (hdir : isDirectory t l = true)
    (hempty : ∀ n, t (l ++ [n]) = none) (hallowed : k.rmdirRefused p = false) :
    rmdir k t p = (true,FileTree.erase t l) := by
  simp [rmdir, hplace, hdir, (isEmpty_iff ht).mpr hempty, hallowed]

/-- Nothing else is taken away by `rmdir`. -/
theorem rmdir_cases (ht : PartOf v t) : rmdir k t p = (false,t) ∨ ∃ l, entryPlace k.toProcess t p = some l ∧
    isDirectory t l = true ∧ (∀ n, t (l ++ [n]) = none) ∧ k.rmdirRefused p = false ∧
    rmdir k t p = (true,FileTree.erase t l) := by
  cases hplace : entryPlace k.toProcess t p with
  | none => exact .inl (by simp [rmdir, hplace])
  | some l =>
    by_cases h : isDirectory t l = true ∧ isEmpty k t l = true ∧ k.rmdirRefused p = false
    · obtain ⟨hdir,hempty,hallowed⟩ := h
      have hentries := (isEmpty_iff ht).mp hempty
      exact .inr ⟨l,rfl,hdir,hentries,hallowed,rmdir_empty ht hplace hdir hentries hallowed⟩
    · left
      simp only [rmdir, hplace]
      rw [if_neg]
      simpa [and_assoc] using h

/-- What a call of `rename` does that does not fail. -/
theorem rename_cases {q : Path} : rename k t p q = (false,t) ∨ ∃ source target i,
    entryPlace k.toProcess t p = some source ∧ entryPlace k.toProcess t q = some target ∧ t source = some i ∧
    ((trailing p || trailing q) = true → i.type = .directory) ∧
    (source = target ∧ rename k t p q = (true,t) ∨
      ¬source <+: target ∧ k.renameRefused p q = false ∧ rename k t p q = (true,move t source target)) := by
  cases hsource : entryPlace k.toProcess t p with
  | none => exact .inl (by simp [rename, hsource])
  | some source =>
    cases htarget : entryPlace k.toProcess t q with
    | none => exact .inl (by simp [rename, hsource, htarget])
    | some target =>
      cases hi : t source with
      | none => exact .inl (by simp [rename, hsource, htarget, hi])
      | some i =>
        simp only [rename, hsource, htarget, hi]
        cases htype : (trailing p || trailing q) && decide (i.type ≠ .directory) with
        | true => exact .inl rfl
        | false =>
          have htrailing : (trailing p || trailing q) = true → i.type = .directory := by simpa using htype
          by_cases hsame : source = target
          · exact .inr ⟨source,target,i,rfl,rfl,hi,htrailing,.inl ⟨hsame,by simp [hsame]⟩⟩
          by_cases hinside : source <+: target
          · exact .inl (by simp [hsame, hinside])
          cases hrefused : k.renameRefused p q with
          | true => exact .inl (by simp [hsame, hinside])
          | false =>
            cases hj : t target with
            | none =>
              exact .inr ⟨source,target,i,rfl,rfl,hi,htrailing,.inr ⟨hinside,rfl,by simp [hsame, hinside]⟩⟩
            | some j =>
              cases hreplace : mayReplace i j (isEmpty k t target) with
              | true =>
                refine .inr ⟨source,target,i,rfl,rfl,hi,htrailing,.inr ⟨hinside,rfl,?_⟩⟩
                simp [hsame, hinside, hreplace]
              | false => exact .inl (by simp [hsame, hinside, hreplace])

/-- A name is free, and what is renamed is there and does not contain it. -/
theorem rename_free {q : Path} {target : Location} {i : Inode} (hsource : entryPlace k.toProcess t p = some l)
    (htarget : entryPlace k.toProcess t q = some target) (hi : t l = some i)
    (htrailing : (trailing p || trailing q) = true → i.type = .directory) (hinside : ¬l <+: target)
    (hallowed : k.renameRefused p q = false) (hfree : t target = none) : rename k t p q = (true,move t l target) := by
  have hne : l ≠ target := by
    rintro rfl
    exact hinside (List.prefix_refl l)
  have htype : ((trailing p || trailing q) && i.type ≠ .directory) = false := by simpa using htrailing
  simp only [rename, hsource, htarget, hi, htype, hallowed, hfree]
  simp [hne, hinside]

/-- What `lstat` tells about behind anything but a name is a directory. -/
theorem named_of_file (ht : PartOf v t) {i : Inode} (h : lstatPlace k.toProcess t p = some l) (hi : t l = some i)
    (htype : i.type ≠ .directory) : named p = true := by
  by_contra hnamed
  rw [lstatPlace, if_neg hnamed, if_pos] at h
  · have hroot : Way v.tree [] := by
      intro l hl _
      rw [List.prefix_nil.mp hl]
      exact v.root
    have hstart : Way v.tree (start k.toProcess p) := by
      rw [start]
      split
      · exact hroot
      · exact v.way
    have hway := follow_way hroot hstart (follow_mono ht.restricts h)
    have hv := ht.restricts.eq_some hi
    obtain ⟨j,hj,hdir⟩ := isDirectory_iff.mp (hway l (List.prefix_refl l) (Option.ne_none_iff_exists'.mpr ⟨i,hv⟩))
    rw [hv] at hj
    exact htype (Option.some.inj hj ▸ hdir)
  · by_contra husable
    rw [if_neg husable] at h
    cases h

end

end Radixun.Foundation.FileCalls
