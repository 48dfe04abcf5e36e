import Radixun.Common.FsUtil

/-! What `FSUtil::Rm` leaves: it takes away nothing but what its path leads to, says so when that is gone, and
which of it goes. -/
namespace Radixun.Common.FSUtil
open Foundation.FileTree Foundation.PathLookup Foundation.FileCalls

/-- What a call of `Rm` leaves of the tree, where its path leads to the place if it leads anywhere. -/
structure Removes (k : Kernel) (t : Tree) (p : Path) (l : Location) (r : Bool × Tree) : Prop where
  restricts : Restricts r.2 t
  closed : Closed r.2
  outside : ∀ m, ¬l <+: m → r.2 m = t m
  flag : r.1 = true ↔ lstat k t p = none ∨ r.2 l = none
  gone : t l ≠ none → (r.2 l = none ↔ Removable k t p l)
  changed : r.2 ≠ t ↔ Touched k t p l

/-- What the loop of `Rm` over some entries of a directory leaves of the tree. -/
structure Empties (k : Kernel) (t : Tree) (p : Path) (l : Location) (names : List Name) (ret : Bool)
    (r : Bool × Tree) : Prop where
  restricts : Restricts r.2 t
  closed : Closed r.2
  outside : ∀ m, (∀ n ∈ names, ¬l ++ [n] <+: m) → r.2 m = t m
  flag : ret = true → (∀ n ∈ names, r.2 (l ++ [n]) = none) → r.1 = true
  gone : ∀ n ∈ names, t (l ++ [n]) ≠ none → r.2 (l ++ [n]) = none → Removable k t (child p n) (l ++ [n])
  emptied : isDirectory t l = true → entryPlace k.toProcess (clear t l) p = some l →
    (∀ n ∈ names, Removable k t (child p n) (l ++ [n])) → ∀ n ∈ names, r.2 (l ++ [n]) = none
  changed : r.2 ≠ t ↔ ∃ n ∈ names, Touched k t (child p n) (l ++ [n])

section
variable {k : Kernel} {v : Volume k} {t u : Tree} {l m : Location} {n : Name} {names : List Name} {p : Path} {ret : Bool}
  {r s : Bool × Tree}

/-- A call on one entry leaves the others as they are. -/
theorem Removes.sameBelow (h : Removes k t p (l ++ [n]) r) {n' : Name} (hne : n' ≠ n) : SameBelow r.2 t (l ++ [n']) :=
  ⟨h.restricts,fun m hm => h.outside m (not_prefix_entry hne hm)⟩

/-- A call on an entry leaves all but what is below the directory. -/
theorem Removes.above (h : Removes k t p (l ++ [n]) r) (hm : ¬(l <+: m ∧ l ≠ m)) : r.2 m = t m := by
  apply h.outside m
  intro hprefix
  exact hm (strictly_below hprefix)

theorem Empties.above (h : Empties k t p l names ret s) (hm : ¬(l <+: m ∧ l ≠ m)) : s.2 m = t m := by
  apply h.outside m
  intro n _ hprefix
  exact hm (strictly_below hprefix)

theorem Empties.cleared (h : Empties k t p l names ret s) (hempty : ∀ n, s.2 (l ++ [n]) = none) : s.2 = clear t l :=
  eq_clear (fun _ hm => h.above hm) fun _ hin hne => h.closed.none_strictly hempty hin hne

theorem Empties.nil (hc : Closed t) : Empties k t p l [] ret (ret,t) where
  restricts := .refl t
  closed := hc
  outside := fun _ _ => rfl
  flag := fun h _ => h
  gone := fun n hn => absurd hn List.not_mem_nil
  emptied := fun _ _ _ n hn => absurd hn List.not_mem_nil
  changed := by simp

theorem Empties.other (h : Empties k t p l names ret s) (hn : n ∉ names) : s.2 (l ++ [n]) = t (l ++ [n]) := by
  apply h.outside
  intro n' hn'
  apply not_prefix_entry _ (List.prefix_refl (l ++ [n]))
  rintro rfl
  exact hn hn'

/-- The call on the first entry and the loop over the others. -/
theorem Empties.cons (ht : PartOf v t) (hn : n ∉ names) (hr : Removes k t (child p n) (l ++ [n]) r)
    (hs : Empties k r.2 p l names r.1 s) : Empties k t p l (n :: names) ret s where
  restricts := hs.restricts.trans hr.restricts
  closed := hs.closed
  outside := by
    intro m hm
    obtain ⟨hhead,htail⟩ := List.forall_mem_cons.mp hm
    rw [hs.outside m htail, hr.outside m hhead]
  flag := by
    intro _ hgone
    obtain ⟨hhead,htail⟩ := List.forall_mem_cons.mp hgone
    apply hs.flag _ htail
    apply hr.flag.mpr
    exact .inr (by rw [← hs.other hn, hhead])
  gone := by
    intro n' hn' hthere hgone
    rcases List.mem_cons.mp hn' with rfl | hn'
    · rw [hs.other hn] at hgone
      exact (hr.gone hthere).mp hgone
    · have hsame := hr.sameBelow (ne_of_mem_of_not_mem hn' hn)
      have hleft := hs.gone n' hn' (by rwa [hsame.self]) hgone
      exact hleft.mono hsame
  emptied := by
    intro hdir hplace hentries
    obtain ⟨hhead,htail⟩ := List.forall_mem_cons.mp hentries
    have hl : r.2 l = t l := hr.above fun h => h.2 rfl
    have hdir' : isDirectory r.2 l = true := by rwa [isDirectory_congr hl]
    have hplace' : entryPlace k.toProcess (clear r.2 l) p = some l := by
      rwa [clear_eq_of_agree fun m hm => hr.above hm]
    refine List.forall_mem_cons.mpr ⟨?_,?_⟩
    · rw [hs.other hn]
      exact (hr.gone hhead.there).mpr hhead
    · apply hs.emptied hdir' hplace'
      intro n' hn'
      have hentry := htail n' hn'
      have hname := ht.names hentry.there
      exact hentry.anti ht (hr.sameBelow (ne_of_mem_of_not_mem hn' hn)) (entryPlace_cleared hname hplace' hdir' hentry.place)
  changed := by
    by_cases hsame : r.2 = t
    · have hnot : ¬Touched k t (child p n) (l ++ [n]) := fun h => hr.changed.mpr h hsame
      have hchanged := hs.changed
      rw [hsame] at hchanged
      rw [hchanged, List.exists_mem_cons_iff]
      exact (or_iff_right hnot).symm
    · have htouched := hr.changed.mp hsame
      constructor
      · intro _
        exact ⟨n,List.mem_cons_self,htouched⟩
      · rintro - heq
        apply hsame
        apply hr.restricts.antisymm
        rw [← heq]
        exact hs.restricts

/-- The loop asks for the removal of every entry but `.` and `..`. -/
theorem rmEntries_filter (call : Tree → Path → Option (Bool × Tree)) (names : List Name) (ret : Bool) (t : Tree) :
    rmEntries call p names ret t = rmEntries call p (names.filter fun n => n ≠ dot && n ≠ dotdot) ret t := by
  induction names generalizing ret t with
  | nil => rfl
  | cons n names ih =>
    by_cases hdots : n = dot ∨ n = dotdot
    · rw [rmEntries, if_pos hdots, ih, List.filter_cons_of_neg]
      simpa [← or_iff_not_imp_left] using hdots
    · rw [List.filter_cons_of_pos]
      · rw [rmEntries, rmEntries, if_neg hdots, if_neg hdots]
        cases call t (child p n) with
        | none => rfl
        | some r => exact ih r.1 r.2
      · simpa using hdots

theorem rmEntries_spec {call : Tree → Path → Option (Bool × Tree)} (ret : Bool) (hnodup : names.Nodup)
    (hnames : ∀ n ∈ names, n ≠ dot ∧ n ≠ dotdot) (ht : PartOf v t)
    (hcall : ∀ u, PartOf v u → Restricts u t → ∀ n ∈ names, ∃ r, call u (child p n) = some r ∧
      Removes k u (child p n) (l ++ [n]) r) :
    ∃ s, rmEntries call p names ret t = some s ∧ Empties k t p l names ret s := by
  induction names generalizing ret t with
  | nil => exact ⟨(ret,t),rfl,.nil ht.closed⟩
  | cons n names ih =>
    obtain ⟨hn,hnodup⟩ := List.nodup_cons.mp hnodup
    obtain ⟨hdots,hnames⟩ := List.forall_mem_cons.mp hnames
    obtain ⟨r,hr,hremoves⟩ := hcall t ht (.refl t) n List.mem_cons_self
    have hpart : PartOf v r.2 := ⟨hremoves.restricts.trans ht.restricts,hremoves.closed⟩
    obtain ⟨s,hs,hempties⟩ := ih r.1 hnodup hnames hpart (by
      intro u hu hrestricts n' hn'
      exact hcall u hu (hrestricts.trans hremoves.restricts) n' (List.mem_cons_of_mem n hn'))
    refine ⟨s,?_,.cons ht hn hremoves hempties⟩
    rw [rmEntries, if_neg (not_or.mpr hdots), hr]
    exact hs

theorem lstat_eq {i : Inode} (hplace : lstatPlace k.toProcess t p = some l) (hi : t l = some i) : lstat k t p = some i := by
  rw [lstat, hplace]
  exact hi

/-- A call that removes nothing of what cannot be removed. -/
theorem Removes.refused (hc : Closed t) (hthere : lstat k t p ≠ none) (hl : t l ≠ none) (hgone : ¬Removable k t p l)
    (hchanged : ¬Touched k t p l) : Removes k t p l (false,t) where
  restricts := .refl t
  closed := hc
  outside := fun _ _ => rfl
  flag := by simp [hthere, hl]
  gone := fun _ => iff_of_false hl hgone
  changed := iff_of_false (fun h => h rfl) hchanged

/-- `Rm` of a path that leads to nothing. -/
theorem Removes.missing (hc : Closed t) (hnone : lstat k t p = none) : Removes k t p l (true,t) where
  restricts := .refl t
  closed := hc
  outside := fun _ _ => rfl
  flag := by simp [hnone]
  gone := by
    intro hl
    apply iff_of_false hl
    intro h
    rw [lstat, h.place] at hnone
    exact hl hnone
  changed := by
    apply iff_of_false fun h => h rfl
    intro h
    rw [lstat, h.place] at hnone
    exact h.there hnone

theorem not_file (hdir : isDirectory t l = true) {i : Inode} (hi : t l = some i) : ifdir i ≠ false := by
  intro htype
  obtain ⟨j,hj,hdir⟩ := isDirectory_iff.mp hdir
  rw [hi] at hj
  exact not_directory_of_ifdir htype (Option.some.inj hj ▸ hdir)

/-- The inode of a file is taken away unless the kernel refuses. -/
theorem unlink_file {i : Inode} (ht : PartOf v t) (hplace : lstatPlace k.toProcess t p = some l) (hi : t l = some i)
    (htype : ifdir i = false) : unlink k t p false = if k.unlinkRefused p then (false,t) else (true,erase t l) := by
  have hdir := not_directory_of_ifdir htype
  have hnamed := named_of_file ht hplace hi hdir
  have htrailing : trailing p = false := by
    rw [named, Bool.and_eq_true_iff] at hnamed
    simpa using hnamed.1
  rw [lstatPlace, if_pos hnamed] at hplace
  simp [unlink, lstat, lstatPlace, hnamed, hplace, hi, Foundation.FileCalls.unlink, hdir, htrailing]

theorem unlink_spec {i : Inode} (ht : PartOf v t) (hplace : lstatPlace k.toProcess t p = some l) (hi : t l = some i)
    (htype : ifdir i = false) : Removes k t p l (unlink k t p false) := by
  have hthere : t l ≠ none := Option.ne_none_iff_exists'.mpr ⟨i,hi⟩
  have hlstat : lstat k t p ≠ none := Option.ne_none_iff_exists'.mpr ⟨i,lstat_eq hplace hi⟩
  have hnodir : isDirectory t l ≠ true := fun h => not_file h hi htype
  rw [unlink_file ht hplace hi htype]
  cases hrefused : k.unlinkRefused p with
  | true =>
    apply Removes.refused ht.closed hlstat hthere
    · intro h
      rw [h.allowed hnodir] at hrefused
      cases hrefused
    · intro h
      rw [h.allowed hnodir] at hrefused
      cases hrefused
  | false =>
    have hgone : erase t l l = none := if_pos rfl
    exact {
      restricts := erase_restricts t l
      closed := ht.closed.erase (ht.no_entries (Bool.eq_false_iff.mpr hnodir))
      outside := by
        intro m hm
        apply if_neg
        rintro rfl
        exact hm (List.prefix_refl m)
      flag := iff_of_true rfl (.inr hgone)
      gone := fun _ => iff_of_true hgone (.file hplace hi htype hrefused)
      changed := by
        apply iff_of_true _ (.file hplace hi htype hrefused)
        intro heq
        apply hthere
        rw [← heq]
        exact hgone }

/-- What is behind the path of a directory and a name is the entry of that name. -/
theorem entry_unique (hplace : lstatPlace k.toProcess t p = some l) (hdir : isDirectory t l = true) (hu : Restricts u t)
    (hn : EntryName n) (h : lstatPlace k.toProcess u (child p n) = some m) : m = l ++ [n] := by
  rw [lstat_child hn] at h
  obtain ⟨l',hwalk,-,-,-,hm⟩ := (entryPlace_child (ne_nil_of_usable (usable_of_lstat hplace)) hn).mp h
  have hl := walk_of_lstat hplace hdir
  rw [walk, follow_mono hu hwalk] at hl
  rw [← hm, Option.some.inj hl]

/-- The entries of a directory, which are what the loop of `Rm` goes over. -/
def entries (k : Kernel) (t : Tree) (l : Location) : List Name :=
  (readdir k t l).filter fun n => n ≠ dot && n ≠ dotdot

theorem mem_entries (ht : PartOf v t) : n ∈ entries k t l ↔ t (l ++ [n]) ≠ none := by
  rw [entries, List.mem_filter, ← mem_readdir ht]
  simp

/-- `rmdir` takes away what was emptied. -/
theorem Removable.rmdir (h : Removable k t p l) (ht : PartOf v t) (hdir : isDirectory t l = true)
    (hs : Empties k t p l (entries k t l) true s) : rmdir k s.2 p = (true,erase s.2 l) := by
  have hpart : PartOf v s.2 := ⟨hs.restricts.trans ht.restricts,hs.closed⟩
  have hdir' : isDirectory s.2 l = true := by rwa [isDirectory_congr (hs.above fun h => h.2 rfl)]
  cases h with
  | file _ there type => exact absurd type (not_file hdir there)
  | directory place _ _ allowed below =>
    have hgone := hs.emptied hdir place fun n hn => below n ((mem_entries ht).mp hn)
    have hempty : ∀ n, s.2 (l ++ [n]) = none := by
      intro n
      by_contra hne
      exact hne (hgone n ((mem_entries ht).mpr (hs.restricts.ne_none hne)))
    apply rmdir_empty hpart _ hdir' hempty allowed
    rwa [hs.cleared hempty]

/-- Where something can be removed, the loop or `rmdir` removes it. -/
theorem Touched.removed (h : Touched k t p l) (ht : PartOf v t) (hdir : isDirectory t l = true)
    (hs : Empties k t p l (entries k t l) true s) : s.2 ≠ t ∨ rmdir k s.2 p = (true,erase s.2 l) := by
  cases h with
  | file _ there type => exact absurd type (not_file hdir there)
  | empty place _ _ allowed hempty =>
    by_cases hsame : s.2 = t
    · rw [hsame]
      exact .inr (rmdir_empty ht place hdir hempty allowed)
    · exact .inl hsame
  | @entry _ _ n _ _ _ below =>
    left
    exact hs.changed.mpr ⟨n,(mem_entries ht).mpr below.there,below⟩

/-- What the loop removes is some of what the path leads to. -/
theorem Empties.touched (hplace : lstatPlace k.toProcess t p = some l) (hdir : isDirectory t l = true)
    (hopened : k.opendirRefused p = false) (hs : Empties k t p l names ret s) (hne : s.2 ≠ t) : Touched k t p l := by
  obtain ⟨n,-,hn⟩ := hs.changed.mp hne
  exact .entry hplace hdir hopened hn

/-- A directory after the loop over its entries and a `rmdir` that failed. -/
theorem Removes.left (ht : PartOf v t) (hplace : lstatPlace k.toProcess t p = some l) (hdir : isDirectory t l = true)
    (hopened : k.opendirRefused p = false) (hs : Empties k t p l (entries k t l) true s)
    (hfail : rmdir k s.2 p = (false,s.2)) : Removes k t p l (false,s.2) := by
  have hnot : rmdir k s.2 p ≠ (true,erase s.2 l) := by
    rw [hfail]
    simp
  have hlstat : lstat k t p ≠ none := by
    rw [lstat, hplace]
    exact ne_none_of_isDirectory hdir
  have hne : s.2 l ≠ none := by
    rw [hs.above fun h => h.2 rfl]
    exact ne_none_of_isDirectory hdir
  have hloop : s.2 ≠ t → Touched k t p l := hs.touched hplace hdir hopened
  exact {
    restricts := hs.restricts
    closed := hs.closed
    outside := fun m hm => hs.above fun h => hm h.1
    flag := by simp [hlstat, hne]
    gone := fun _ => iff_of_false hne fun h => hnot (h.rmdir ht hdir hs)
    changed := ⟨hloop,fun h => (h.removed ht hdir hs).resolve_right hnot⟩ }

/-- A directory after the loop over its entries and a `rmdir` that took it away. -/
theorem Removes.emptied (ht : PartOf v t) (hplace : lstatPlace k.toProcess t p = some l) (hdir : isDirectory t l = true)
    (hopened : k.opendirRefused p = false) (hs : Empties k t p l (entries k t l) true s)
    (hplace' : entryPlace k.toProcess s.2 p = some l) (hempty : ∀ n, s.2 (l ++ [n]) = none)
    (hallowed : k.rmdirRefused p = false) : Removes k t p l (s.1,erase s.2 l) := by
  have hgone : erase s.2 l l = none := if_pos rfl
  exact {
    restricts := (erase_restricts s.2 l).trans hs.restricts
    closed := hs.closed.erase hempty
    outside := by
      intro m hm
      have hne : m ≠ l := by
        rintro rfl
        exact hm (List.prefix_refl m)
      exact (if_neg hne).trans (hs.above fun h => hm h.1)
    flag := iff_of_true (hs.flag rfl fun n _ => hempty n) (.inr hgone)
    gone := by
      intro _
      apply iff_of_true hgone
      apply Removable.directory (hs.cleared hempty ▸ hplace') hdir hopened hallowed
      intro n hn
      exact hs.gone n ((mem_entries ht).mpr hn) hn (hempty n)
    changed := by
      apply iff_of_true
      · intro heq
        apply ne_none_of_isDirectory hdir
        rw [← heq]
        exact hgone
      · by_cases hsame : s.2 = t
        · rw [hsame] at hplace' hempty
          exact .empty hplace' hdir hopened hallowed hempty
        · exact hs.touched hplace hdir hopened hsame }

/-- A directory after the loop over its entries and `rmdir`. -/
theorem rmdir_spec (ht : PartOf v t) (hplace : lstatPlace k.toProcess t p = some l) (hdir : isDirectory t l = true)
    (hopened : k.opendirRefused p = false) (hs : Empties k t p l (entries k t l) true s) :
    Removes k t p l (if (rmdir k s.2 p).1 then s.1 else false,(rmdir k s.2 p).2) := by
  rcases rmdir_cases ⟨hs.restricts.trans ht.restricts,hs.closed⟩ with hfail | ⟨l',hplace',hdir',hempty,hallowed,hok⟩
  · have hleft := Removes.left ht hplace hdir hopened hs hfail
    rw [hfail]
    exact hleft
  · -- the path leads to the directory still, and not to another one
    obtain rfl : l = l' := by
      have := lstat_mono hs.restricts (lstat_of_entry hplace' hdir')
      rw [hplace] at this
      exact Option.some.inj this
    rw [hok]
    exact .emptied ht hplace hdir hopened hs hplace' hempty hallowed

/-- `Rm` of a directory that cannot be opened, or of a socket or a block device, which are not one. -/
theorem Removes.unopened {i : Inode} (hc : Closed t) (hplace : lstatPlace k.toProcess t p = some l) (hi : t l = some i)
    (htype : ifdir i = true) (hopen : opendir k t p = none) : Removes k t p l (false,t) := by
  have hclosed : ¬(isDirectory t l = true ∧ k.opendirRefused p = false) := by
    rintro ⟨hdir,hopened⟩
    have := (opendir_eq_some hplace hi (not_link_of_ifdir htype)).mpr ⟨hdir,hopened,rfl⟩
    rw [hopen] at this
    cases this
  apply Removes.refused hc
  · exact Option.ne_none_iff_exists'.mpr ⟨i,lstat_eq hplace hi⟩
  · exact Option.ne_none_iff_exists'.mpr ⟨i,hi⟩
  · exact fun h => hclosed (h.opened hi htype)
  · exact fun h => hclosed (h.opened hi htype)

/-- `Rm` with what its calls on the entries leave. -/
theorem rm_step (levels : Nat) (ht : PartOf v t) (hplace : ∀ m, lstatPlace k.toProcess t p = some m → m = l)
    (hcall : lstatPlace k.toProcess t p = some l → isDirectory t l = true → ∀ u, PartOf v u → Restricts u t →
      ∀ n ∈ entries k t l, ∃ r, rm k levels u (child p n) = some r ∧ Removes k u (child p n) (l ++ [n]) r) :
    ∃ r, rm k (levels + 1) t p = some r ∧ Removes k t p l r := by
  rw [rm]
  cases hlstat : lstat k t p with
  | none => exact ⟨(true,t),rfl,.missing ht.closed hlstat⟩
  | some i =>
    obtain ⟨m,hm,hi⟩ := Option.bind_eq_some_iff.mp hlstat
    obtain rfl := hplace m hm
    cases htype : ifdir i with
    | false => exact ⟨unlink k t p false,by simp [htype],unlink_spec ht hm hi htype⟩
    | true =>
      cases hopen : opendir k t p with
      | none => exact ⟨(false,t),by simp [htype],.unopened ht.closed hm hi htype hopen⟩
      | some dir =>
        obtain ⟨hdir,hopened,rfl⟩ := (opendir_eq_some hm hi (not_link_of_ifdir htype)).mp hopen
        have hnodup : (entries k t m).Nodup := (readdir_nodup v t m).filter _
        obtain ⟨s,hs,hempties⟩ := rmEntries_spec true hnodup (by simp [entries]) ht (hcall hm hdir)
        refine ⟨_,?_,rmdir_spec ht hm hdir hopened hempties⟩
        rw [entries, ← rmEntries_filter] at hs
        simp only [htype, if_true, hs]
        cases hrmdir : rmdir k s.2 p with
        | mk ok u => cases ok <;> rfl

/-- `Rm` always returns, and what it leaves. -/
theorem rm_spec (levels : Nat) (hlevels : v.depth ≤ levels + l.length) (ht : PartOf v t)
    (hplace : ∀ m, lstatPlace k.toProcess t p = some m → m = l) :
    ∃ r, rm k (levels + 1) t p = some r ∧ Removes k t p l r := by
  induction levels generalizing t p l with
  | zero =>
    apply rm_step 0 ht hplace
    intro _ _ u _ _ n hn
    have := v.deep (l ++ [n]) (ht.restricts.ne_none ((mem_entries ht).mp hn))
    rw [List.length_append, List.length_singleton] at this
    omega
  | succ levels ih =>
    apply rm_step (levels + 1) ht hplace
    intro hp hdir u hu hrestricts n hn
    have hname := ht.names ((mem_entries ht).mp hn)
    apply ih _ hu fun m hm => entry_unique hp hdir hrestricts hname hm
    rw [List.length_append, List.length_singleton]
    omega

end

end Radixun.Common.FSUtil
