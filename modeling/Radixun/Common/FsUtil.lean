import Radixun.Foundation.FileCalls

/-! `FSUtil::Unlink` and `FSUtil::Rm`: what a removal that may fail at any depth leaves of the tree. -/
namespace Radixun.Common.FSUtil
open Foundation.FileTree Foundation.PathLookup Foundation.FileCalls

section
variable (k : Kernel)

/-- With `exist` the file is not looked for first. -/
def unlink (t : Tree) (filename : Path) (exist : Bool) : Bool × Tree :=
  if !exist && (lstat k t filename).isNone then (true,t) else Foundation.FileCalls.unlink k t filename

/-- The test `st_mode & S_IFDIR`, which sockets and block devices pass too. -/
def ifdir (st : Inode) : Bool := st.type.mode &&& FileType.directory.mode ≠ 0

/-- The loop over the entries that `readdir` returns, with the removal of one; `ret` is what the last one gave. -/
def rmEntries (rm : Tree → Path → Option (Bool × Tree)) (path : Path) : List Name → Bool → Tree → Option (Bool × Tree)
  | [], ret, t => some (ret,t)
  | n :: names, ret, t =>
    if n = dot ∨ n = dotdot then rmEntries rm path names ret t
    else
      match rm t (child path n) with
      | none => none
      | some (ret,t) => rmEntries rm path names ret t

/-- `FSUtil::Rm` over so many levels of directories. -/
def rm : Nat → Tree → Path → Option (Bool × Tree)
  | 0, _, _ => none
  | levels + 1, t, path =>
    match lstat k t path with
    | none => some (true,t)
    | some st =>
      if ifdir st then
        match opendir k t path with
        | none => some (false,t)
        | some dir =>
          match rmEntries (rm levels) path (readdir k t dir) true t with
          | none => none
          | some (ret,t) =>
            match rmdir k t path with
            | (true,t) => some (ret,t)
            | (false,t) => some (false,t)
      else some (unlink k t path false)

/-- What a path leads to can be removed as a whole: nothing in it is a socket or a block device, no call on it is
refused, and each path leads there when what is below its place is gone. -/
inductive Removable (t : Tree) : Path → Location → Prop
  | file {p : Path} {l : Location} {i : Inode} (place : lstatPlace k.toProcess t p = some l) (there : t l = some i)
      (type : ifdir i = false) (allowed : k.unlinkRefused p = false) : Removable t p l
  | directory {p : Path} {l : Location} (place : entryPlace k.toProcess (clear t l) p = some l)
      (dir : isDirectory t l = true) (opened : k.opendirRefused p = false) (allowed : k.rmdirRefused p = false)
      (entries : ∀ n, t (l ++ [n]) ≠ none → Removable t (child p n) (l ++ [n])) : Removable t p l

/-- Some file or empty directory can be removed of what a path leads to. -/
inductive Touched (t : Tree) : Path → Location → Prop
  | file {p : Path} {l : Location} {i : Inode} (place : lstatPlace k.toProcess t p = some l) (there : t l = some i)
      (type : ifdir i = false) (allowed : k.unlinkRefused p = false) : Touched t p l
  | empty {p : Path} {l : Location} (place : entryPlace k.toProcess t p = some l) (dir : isDirectory t l = true)
      (opened : k.opendirRefused p = false) (allowed : k.rmdirRefused p = false)
      (none : ∀ n, t (l ++ [n]) = none) : Touched t p l
  | entry {p : Path} {l : Location} {n : Name} (place : lstatPlace k.toProcess t p = some l)
      (dir : isDirectory t l = true) (opened : k.opendirRefused p = false)
      (below : Touched t (child p n) (l ++ [n])) : Touched t p l

end

section
variable {k : Kernel} {v : Volume k} {s t u : Tree} {l m : Location} {n : Name} {p : Path} {i : Inode}

theorem ifdir_of_directory (h : i.type = .directory) : ifdir i = true := by
  rw [ifdir, h]
  decide

theorem not_link_of_ifdir (h : ifdir i = true) : i.type ≠ .symlink := by
  intro htype
  rw [ifdir, htype] at h
  cases h

theorem not_directory_of_ifdir (h : ifdir i = false) : i.type ≠ .directory := by
  intro htype
  rw [ifdir_of_directory htype] at h
  cases h

/-- A place in a tree from which only what is elsewhere was taken. -/
structure SameBelow (s t : Tree) (l : Location) : Prop where
  restricts : Restricts s t
  same : ∀ m, l <+: m → s m = t m

theorem SameBelow.entry (h : SameBelow s t l) (n : Name) : SameBelow s t (l ++ [n]) :=
  ⟨h.restricts,fun m hm => h.same m ((List.prefix_append l [n]).trans hm)⟩

theorem SameBelow.self (h : SameBelow s t l) : s l = t l := h.same l (List.prefix_refl l)

theorem SameBelow.cleared (h : SameBelow s t l) : Restricts (clear s l) (clear t l) := by
  intro m
  rw [clear, clear]
  split
  · exact .inl rfl
  · exact h.restricts m

/-- The path to an entry leads there as it did, while the directory that it is in can be found. -/
theorem entryPlace_cleared (hn : EntryName n) (hplace : entryPlace k.toProcess (clear s l) p = some l)
    (hdir : isDirectory s l = true) (hchild : lstatPlace k.toProcess t (child p n) = some (l ++ [n])) :
    entryPlace k.toProcess (clear s (l ++ [n])) (child p n) = some (l ++ [n]) := by
  have hp := ne_nil_of_usable (entryPlace_eq_some.mp hplace).1
  have hl := entryPlace_mono (clear_restricts_clear s l n) hplace
  have hdir' : isDirectory (clear s (l ++ [n])) l = true := by
    rwa [isDirectory_congr (clear_above s (List.prefix_append l [n]))]
  rw [lstat_child hn] at hchild
  obtain ⟨m,-,husable,hsearch,-,hm⟩ := (entryPlace_child hp hn).mp hchild
  obtain rfl := List.append_cancel_right hm
  exact (entryPlace_child hp hn).mpr ⟨m,walk_of_entry hl hdir',husable,hsearch,hdir',rfl⟩

namespace Removable

theorem place (h : Removable k t p l) : lstatPlace k.toProcess t p = some l := by
  cases h with
  | file place => exact place
  | directory place dir => exact lstat_of_entry (entryPlace_mono (clear_restricts t l) place) dir

/-- What can be removed is the entry that the path names. -/
theorem entry (ht : PartOf v t) (h : Removable k t p l) : entryPlace k.toProcess t p = some l := by
  cases h with
  | file place there type =>
    rwa [lstatPlace, if_pos (named_of_file ht place there (not_directory_of_ifdir type))] at place
  | directory place => exact entryPlace_mono (clear_restricts t l) place

theorem there (h : Removable k t p l) : t l ≠ none := by
  cases h with
  | @file _ _ i _ there => exact Option.ne_none_iff_exists'.mpr ⟨i,there⟩
  | directory place dir => exact ne_none_of_isDirectory dir

theorem opened (h : Removable k t p l) (hi : t l = some i) (htype : ifdir i = true) :
    isDirectory t l = true ∧ k.opendirRefused p = false := by
  cases h with
  | file _ there type =>
    obtain rfl := Option.some.inj (hi.symm.trans there)
    rw [htype] at type
    cases type
  | directory _ dir opened => exact ⟨dir,opened⟩

theorem allowed (h : Removable k t p l) (hdir : isDirectory t l ≠ true) : k.unlinkRefused p = false := by
  cases h with
  | file _ _ _ allowed => exact allowed
  | directory _ dir => exact absurd dir hdir

/-- What can be removed where less is left elsewhere can be removed here. -/
theorem mono (h : Removable k s p l) (hs : SameBelow s t l) : Removable k t p l := by
  induction h with
  | file place there type allowed => exact .file (lstat_mono hs.restricts place) (hs.restricts.eq_some there) type allowed
  | directory place dir opened allowed entries ih =>
    refine .directory (entryPlace_mono hs.cleared place) (hs.restricts.isDirectory dir) opened allowed ?_
    intro n hn
    have hsame := hs.entry n
    exact ih n (by rwa [hsame.self]) hsame

/-- What is gone elsewhere does not matter as long as the path leads there when all below is gone. -/
theorem anti (ht : PartOf v t) (h : Removable k t p l) (hs : SameBelow s t l)
    (hplace : entryPlace k.toProcess (clear s l) p = some l) : Removable k s p l := by
  induction h with
  | @file p l i place there type allowed =>
    refine .file ?_ (hs.self.trans there) type allowed
    rw [lstatPlace, if_pos (named_of_file ht place there (not_directory_of_ifdir type))]
    exact entryPlace_mono (clear_restricts s l) hplace
  | @directory p l place dir opened allowed entries ih =>
    have hdir : isDirectory s l = true := by rwa [isDirectory_congr hs.self]
    refine .directory hplace hdir opened allowed ?_
    intro n hn
    have hsame := hs.entry n
    have hn' : t (l ++ [n]) ≠ none := by rwa [← hsame.self]
    apply ih n hn' hsame
    exact entryPlace_cleared (ht.names hn') hplace hdir (entries n hn').place

end Removable

namespace Touched

theorem place (h : Touched k t p l) : lstatPlace k.toProcess t p = some l := by
  cases h with
  | file place => exact place
  | empty place dir => exact lstat_of_entry place dir
  | entry place => exact place

theorem there (h : Touched k t p l) : t l ≠ none := by
  cases h with
  | @file _ _ i _ there => exact Option.ne_none_iff_exists'.mpr ⟨i,there⟩
  | empty _ dir => exact ne_none_of_isDirectory dir
  | entry _ dir => exact ne_none_of_isDirectory dir

theorem opened (h : Touched k t p l) (hi : t l = some i) (htype : ifdir i = true) :
    isDirectory t l = true ∧ k.opendirRefused p = false := by
  cases h with
  | file _ there type =>
    obtain rfl := Option.some.inj (hi.symm.trans there)
    rw [htype] at type
    cases type
  | empty _ dir opened => exact ⟨dir,opened⟩
  | entry _ dir opened => exact ⟨dir,opened⟩

theorem allowed (h : Touched k t p l) (hdir : isDirectory t l ≠ true) : k.unlinkRefused p = false := by
  cases h with
  | file _ _ _ allowed => exact allowed
  | empty _ dir => exact absurd dir hdir
  | entry _ dir => exact absurd dir hdir

end Touched

end

end Radixun.Common.FSUtil
