import Radixun.Foundation.FileTree

/-! Path lookup: which place of a directory tree a path leads to, over symbolic links, for a process with a
working directory. -/
namespace Radixun.Foundation.PathLookup
open FileTree

abbrev Path := List UInt8

def dot : Name := [46]
def dotdot : Name := [46,46]

/-- Where a process starts from, and the directories it may search. -/
structure Process where
  cwd : Location
  searchable : Location → Bool

def components (p : Path) : List Name := (p.splitOn 47).filter fun n => n ≠ []

def absolute (p : Path) : Bool := p.head? = some 47

/-- A path that has to lead to a directory. -/
def trailing (p : Path) : Bool := p.getLast? = some 47

def start (e : Process) (p : Path) : Location := if absolute p then [] else e.cwd

/-- `path + "/" + name`. -/
def child (p : Path) (n : Name) : Path := p ++ [47] ++ n

/-- Paths have less than `PATH_MAX` bytes, and at least one. -/
def usable (p : Path) : Bool := p ≠ [] && p.length < 4096

section
variable (e : Process) (t : Tree)

/-- The walk along the names of a path, where links lead on with `next`. What it is at is a directory. -/
def followWith (next : Location → List Name → Option Location) : Location → List Name → Option Location
  | l, [] => some l
  | l, n :: rest =>
    if e.searchable l = false then none
    else if n = dot then followWith next l rest
    else if n = dotdot then followWith next l.dropLast rest
    else
      match t (l ++ [n]) with
      | none => none
      | some i =>
        if i.type = .directory then followWith next (l ++ [n]) rest
        else if i.type = .symlink then
          next (if absolute i.content then [] else l) (components i.content ++ rest)
        else none

/-- The walk over at most so many links. -/
def follow : Nat → Location → List Name → Option Location
  | 0 => followWith e t fun _ _ => none
  | links + 1 => followWith e t (follow links)

/-- The walk of a path, over at most 40 links. -/
def walk (p : Path) (names : List Name) : Option Location := follow e t 40 (start e p) names

/-- The place of the entry that a path names, for the calls that make, remove or rename it. A link there is not
followed. -/
def entryPlace (p : Path) : Option Location :=
  if usable p then
    match (components p).getLast? with
    | none => none
    | some n =>
      if n = dot ∨ n = dotdot then none
      else
        match walk e t p (components p).dropLast with
        | none => none
        | some l => if e.searchable l && isDirectory t l then some (l ++ [n]) else none
  else none

/-- A path that ends in a name of an entry. -/
def named (p : Path) : Bool :=
  !trailing p && (components p).getLast?.any fun n => n ≠ dot && n ≠ dotdot

/-- The place of what `lstat` tells about. -/
def lstatPlace (p : Path) : Option Location :=
  if named p then entryPlace e t p
  else if usable p then walk e t p (components p)
  else none

end

/-- A name as directories have it. -/
structure EntryName (n : Name) : Prop where
  nonempty : n ≠ []
  slash : 47 ∉ n
  zero : 0 ∉ n
  not_dot : n ≠ dot
  not_dotdot : n ≠ dotdot

section
variable {p : Path} {n : Name}

theorem components_child (hn : EntryName n) : components (child p n) = components p ++ [n] := by
  rw [components, components, child, List.append_assoc, List.singleton_append, List.splitOn_append_cons_self,
    List.splitOn_eq_singleton hn.slash, List.filter_append, List.filter_singleton]
  simp [hn.nonempty]

theorem absolute_child (hp : p ≠ []) : absolute (child p n) = absolute p := by
  obtain ⟨b,p,rfl⟩ := List.exists_cons_of_ne_nil hp
  rfl

theorem trailing_child (hn : EntryName n) : trailing (child p n) = false := by
  have hlast : (child p n).getLast? = n.getLast? := by
    rw [child, List.getLast?_append_of_ne_nil _ hn.nonempty]
  rw [trailing, hlast, decide_eq_false_iff_not]
  intro h
  exact hn.slash (List.mem_of_getLast? h)

theorem named_child (hn : EntryName n) : named (child p n) = true := by
  rw [named, trailing_child hn, components_child hn, List.getLast?_concat]
  simp [hn.not_dot, hn.not_dotdot]

end

section
variable {e : Process} {s t : Tree} {l m : Location} {p : Path} {n : Name} {names : List Name}
  {next : Location → List Name → Option Location}

/-- The step of a walk over one name. -/
theorem followWith_cons : followWith e t next l (n :: names) = some m ↔ e.searchable l = true ∧
    (n = dot ∧ followWith e t next l names = some m ∨
    n ≠ dot ∧ n = dotdot ∧ followWith e t next l.dropLast names = some m ∨
    n ≠ dot ∧ n ≠ dotdot ∧ ∃ i, t (l ++ [n]) = some i ∧
      (i.type = .directory ∧ followWith e t next (l ++ [n]) names = some m ∨
      i.type = .symlink ∧
        next (if absolute i.content then [] else l) (components i.content ++ names) = some m)) := by
  rw [followWith]
  cases hsearch : e.searchable l with
  | false => simp
  | true =>
    by_cases hdot : n = dot
    · simp [hdot]
    by_cases hdotdot : n = dotdot
    · have hne : dotdot ≠ dot := by decide
      simp [hdotdot, hne]
    cases hi : t (l ++ [n]) with
    | none => simp [hdot, hdotdot]
    | some i =>
      by_cases hdir : i.type = .directory
      · simp [hdot, hdotdot, hdir]
      · simp [hdot, hdotdot, hdir]

/-! What taking entries away does to a walk: it may end it, but it does not lead it anywhere else. -/

theorem followWith_mono (h : Restricts s t) {next' : Location → List Name → Option Location}
    (hnext : ∀ {l names m}, next l names = some m → next' l names = some m)
    (hs : followWith e s next l names = some m) : followWith e t next' l names = some m := by
  induction names generalizing l with
  | nil => exact hs
  | cons n rest ih =>
    obtain ⟨hsearch,hstep⟩ := followWith_cons.mp hs
    apply followWith_cons.mpr
    refine ⟨hsearch,?_⟩
    rcases hstep with ⟨hdot,hrest⟩ | ⟨hdot,hdotdot,hrest⟩ | ⟨hdot,hdotdot,i,hi,hstep⟩
    · exact .inl ⟨hdot,ih hrest⟩
    · exact .inr (.inl ⟨hdot,hdotdot,ih hrest⟩)
    · refine .inr (.inr ⟨hdot,hdotdot,i,h.eq_some hi,?_⟩)
      rcases hstep with ⟨hdir,hrest⟩ | ⟨hlink,hrest⟩
      · exact .inl ⟨hdir,ih hrest⟩
      · exact .inr ⟨hlink,hnext hrest⟩

theorem follow_mono (h : Restricts s t) {links : Nat} (hs : follow e s links l names = some m) :
    follow e t links l names = some m := by
  induction links generalizing l names m with
  | zero => exact followWith_mono h (fun hn => by cases hn) hs
  | succ links ih => exact followWith_mono h ih hs

/-- A walk goes on to a directory within the one it ends at. -/
theorem followWith_concat (hdot : n ≠ dot) (hdotdot : n ≠ dotdot) (hsearch : e.searchable m = true)
    (hdir : isDirectory t (m ++ [n]) = true)
    (hnext : ∀ {l names}, next l names = some m → next l (names ++ [n]) = some (m ++ [n]))
    (h : followWith e t next l names = some m) : followWith e t next l (names ++ [n]) = some (m ++ [n]) := by
  induction names generalizing l with
  | nil =>
    obtain rfl : l = m := Option.some.inj h
    obtain ⟨i,hi,htype⟩ := isDirectory_iff.mp hdir
    exact followWith_cons.mpr ⟨hsearch,.inr (.inr ⟨hdot,hdotdot,i,hi,.inl ⟨htype,rfl⟩⟩)⟩
  | cons n' rest ih =>
    obtain ⟨hl,hstep⟩ := followWith_cons.mp h
    rw [List.cons_append]
    apply followWith_cons.mpr
    refine ⟨hl,?_⟩
    rcases hstep with ⟨hd,hrest⟩ | ⟨hd,hdd,hrest⟩ | ⟨hd,hdd,i,hi,hstep⟩
    · exact .inl ⟨hd,ih hrest⟩
    · exact .inr (.inl ⟨hd,hdd,ih hrest⟩)
    · refine .inr (.inr ⟨hd,hdd,i,hi,?_⟩)
      rcases hstep with ⟨htype,hrest⟩ | ⟨hlink,hrest⟩
      · exact .inl ⟨htype,ih hrest⟩
      · refine .inr ⟨hlink,?_⟩
        rw [← List.append_assoc]
        exact hnext hrest

theorem follow_concat {links : Nat} (hdot : n ≠ dot) (hdotdot : n ≠ dotdot) (hsearch : e.searchable m = true)
    (hdir : isDirectory t (m ++ [n]) = true) (h : follow e t links l names = some m) :
    follow e t links l (names ++ [n]) = some (m ++ [n]) := by
  induction links generalizing l names with
  | zero => exact followWith_concat hdot hdotdot hsearch hdir (fun h => by cases h) h
  | succ links ih => exact followWith_concat hdot hdotdot hsearch hdir ih h

/-- What is there on the way to a place is directories. -/
def Way (t : Tree) (l : Location) : Prop := ∀ k, k <+: l → t k ≠ none → isDirectory t k = true

theorem followWith_way (hroot : Way t [])
    (hnext : ∀ {l names}, Way t l → next l names = some m → Way t m) (hl : Way t l)
    (h : followWith e t next l names = some m) : Way t m := by
  induction names generalizing l with
  | nil =>
    obtain rfl : l = m := Option.some.inj h
    exact hl
  | cons n rest ih =>
    obtain ⟨-,hstep⟩ := followWith_cons.mp h
    rcases hstep with ⟨-,hrest⟩ | ⟨-,-,hrest⟩ | ⟨-,-,i,hi,hstep⟩
    · exact ih hl hrest
    · exact ih (fun k hk => hl k (hk.trans (List.dropLast_prefix l))) hrest
    · rcases hstep with ⟨htype,hrest⟩ | ⟨-,hrest⟩
      · apply ih _ hrest
        intro k hk hne
        rcases List.prefix_concat_iff.mp hk with heq | hk
        · rw [heq]
          exact isDirectory_iff.mpr ⟨i,hi,htype⟩
        · exact hl k hk hne
      · apply hnext _ hrest
        split
        · exact hroot
        · exact hl

/-- Walks go over directories only. -/
theorem follow_way (hroot : Way t []) {links : Nat} (hl : Way t l) (h : follow e t links l names = some m) : Way t m := by
  induction links generalizing l names with
  | zero => exact followWith_way hroot (fun _ hn => by cases hn) hl h
  | succ links ih => exact followWith_way hroot (fun hl hn => ih hl hn) hl h

theorem entryPlace_eq_some : entryPlace e t p = some l ↔ usable p = true ∧ ∃ k n, (components p).getLast? = some n ∧
    n ≠ dot ∧ n ≠ dotdot ∧ walk e t p (components p).dropLast = some k ∧ e.searchable k = true ∧
    isDirectory t k = true ∧ k ++ [n] = l := by
  rw [entryPlace]
  cases husable : usable p with
  | false => simp
  | true =>
    cases hlast : (components p).getLast? with
    | none => simp
    | some n =>
      by_cases hdots : n = dot ∨ n = dotdot
      · rcases hdots with hdot | hdotdot
        · simp [hdot]
        · simp [hdotdot]
      · obtain ⟨hdot,hdotdot⟩ := not_or.mp hdots
        cases hwalk : walk e t p (components p).dropLast with
        | none => simp [hdot, hdotdot]
        | some k => simp [hdot, hdotdot, and_assoc]

theorem entryPlace_mono (h : Restricts s t) (hs : entryPlace e s p = some l) : entryPlace e t p = some l := by
  obtain ⟨husable,k,n,hlast,hdot,hdotdot,hwalk,hsearch,hdir,hl⟩ := entryPlace_eq_some.mp hs
  exact entryPlace_eq_some.mpr
    ⟨husable,k,n,hlast,hdot,hdotdot,follow_mono h hwalk,hsearch,h.isDirectory hdir,hl⟩

/-- A path to the entry of a directory leads into it. -/
theorem walk_of_entry (h : entryPlace e t p = some l) (hdir : isDirectory t l = true) :
    walk e t p (components p) = some l := by
  obtain ⟨-,k,n,hlast,hdot,hdotdot,hwalk,hsearch,-,rfl⟩ := entryPlace_eq_some.mp h
  rw [← List.dropLast_append_getLast? n hlast]
  exact follow_concat hdot hdotdot hsearch hdir hwalk

theorem lstat_of_entry (h : entryPlace e t p = some l) (hdir : isDirectory t l = true) : lstatPlace e t p = some l := by
  rw [lstatPlace]
  split
  · exact h
  · rw [if_pos (entryPlace_eq_some.mp h).1]
    exact walk_of_entry h hdir

theorem walk_of_lstat (h : lstatPlace e t p = some l) (hdir : isDirectory t l = true) :
    walk e t p (components p) = some l := by
  rw [lstatPlace] at h
  split at h
  · exact walk_of_entry h hdir
  · split at h
    · exact h
    · cases h

theorem lstat_mono (h : Restricts s t) (hs : lstatPlace e s p = some l) : lstatPlace e t p = some l := by
  rw [lstatPlace] at hs ⊢
  split
  · rename_i hnamed
    rw [if_pos hnamed] at hs
    exact entryPlace_mono h hs
  · rename_i hnamed
    rw [if_neg hnamed] at hs
    split
    · rename_i husable
      rw [if_pos husable] at hs
      exact follow_mono h hs
    · rename_i husable
      rw [if_neg husable] at hs
      cases hs

theorem usable_of_lstat (h : lstatPlace e t p = some l) : usable p = true := by
  rw [lstatPlace] at h
  split at h
  · exact (entryPlace_eq_some.mp h).1
  · split at h
    · assumption
    · cases h

theorem ne_nil_of_usable (h : usable p = true) : p ≠ [] := of_decide_eq_true (Bool.and_eq_true_iff.mp h).1

/-- An entry of a directory that a path leads to, by the path with its name. -/
theorem entryPlace_child (hp : p ≠ []) (hn : EntryName n) : entryPlace e t (child p n) = some l ↔
    ∃ k, walk e t p (components p) = some k ∧ usable (child p n) = true ∧ e.searchable k = true ∧ isDirectory t k = true ∧
      k ++ [n] = l := by
  have hstart : start e (child p n) = start e p := by rw [start, start, absolute_child hp]
  rw [entryPlace_eq_some, components_child hn, List.getLast?_concat, List.dropLast_concat, walk, hstart]
  constructor
  · rintro ⟨husable,k,n',hlast,-,-,hwalk,hsearch,hdir,hl⟩
    obtain rfl : n = n' := Option.some.inj hlast
    exact ⟨k,hwalk,husable,hsearch,hdir,hl⟩
  · rintro ⟨k,hwalk,husable,hsearch,hdir,hl⟩
    exact ⟨husable,k,n,rfl,hn.not_dot,hn.not_dotdot,hwalk,hsearch,hdir,hl⟩

theorem lstat_child (hn : EntryName n) : lstatPlace e t (child p n) = entryPlace e t (child p n) := if_pos (named_child hn)

end

end Radixun.Foundation.PathLookup
