import Radixun.Common.LogFormatter

/-! The scanner of log patterns by its indices: what it reads of the pattern, and how it goes on. -/
namespace Radixun.Common.Log

/-- What the scanner takes of the pattern, and the index it sets. The numbers are the ones that unsigned
arithmetic has to give without wrapping. -/
inductive Access where
  | char (place : Int)
  | substr (pos len : Int)
  | index (value : Int)
  deriving DecidableEq, Repr

def Access.Within (size : Nat) : Access → Prop
  | char place => 0 ≤ place ∧ place < size
  | substr pos len => 0 ≤ pos ∧ 0 ≤ len ∧ pos + len ≤ size
  | index value => 0 ≤ value ∧ value < size

namespace ItemScan

/-- A turn of the inner loop on the character `c`. -/
def accesses (pattern : List UInt8) (i : Nat) (c : UInt8) (s : ItemScan) : List Access :=
  .char s.n ::
    if !s.fmtStatus && (!isalpha c && c != 123 && c != 125) then [.substr (i + 1) (s.n - i - 1)]
    else if !s.fmtStatus && c == 123 then [.substr (i + 1) (s.n - i - 1)]
    else if s.fmtStatus && c == 125 then [.substr (s.fmtBegin + 1) (s.n - s.fmtBegin - 1)]
    else if s.n + 1 = pattern.length ∧ s.str = [] then [.substr (i + 1) (pattern.length - (i + 1))]
    else []

def allAccesses (pattern : List UInt8) (i : Nat) : Nat → ItemScan → List Access
  | 0, _ => []
  | fuel + 1, s =>
    if s.n < pattern.length then
      match pattern[s.n]? with
      | none => []
      | some c =>
        s.accesses pattern i c ++
          match s.turn pattern i c with
          | some (.inr s') => allAccesses pattern i fuel s'
          | _ => []
    else []

end ItemScan

namespace Scan

/-- The end of the outer loop's body: the text of the error message, or the new index. -/
def itemAccesses (pattern : List UInt8) (i : Nat) (item : ItemScan) : List Access :=
  if item.fmtStatus then [.substr i (pattern.length - i)] else [.index (item.n - 1)]

/-- A turn of the outer loop at the index `i`. -/
def accesses (pattern : List UInt8) (i : Nat) : List Access :=
  .char i ::
    if pattern[i]? ≠ some 37 then [.char i]
    else
      (if i + 1 < pattern.length then [.char (i + 1)] else []) ++
        if pattern[i + 1]? = some 37 then []
        else
          ItemScan.allAccesses pattern i (pattern.length + 1) ⟨i + 1,false,0,[],[]⟩ ++
            ((ItemScan.loop pattern i (pattern.length + 1) ⟨i + 1,false,0,[],[]⟩).elim [] (itemAccesses pattern i))

/-- The indices of the turns of the outer loop, each with its accesses. -/
def visits (pattern : List UInt8) : Nat → Nat → Scan → List (Nat × List Access)
  | 0, _, _ => []
  | fuel + 1, i, s =>
    if i < pattern.length then
      (i,accesses pattern i) ::
        match s.turn pattern i with
        | none => []
        | some (i',s') => visits pattern fuel (i' + 1) s'
    else []

end Scan

/-- The turns of `init`. -/
def visits (pattern : List UInt8) : List (Nat × List Access) := Scan.visits pattern (pattern.length + 1) 0 ⟨[],[],false⟩

variable {pattern : List UInt8} {i : Nat}

theorem ItemScan.accesses_within {s : ItemScan} (c : UInt8) (h : s.Within pattern i) (hn : s.n < pattern.length) :
    ∀ a ∈ s.accesses pattern i c, a.Within pattern.length := by
  have hi := h.after
  have hitem : (Access.substr (i + 1) (s.n - i - 1)).Within pattern.length := ⟨by omega,by omega,by omega⟩
  rw [accesses, List.forall_mem_cons]
  refine ⟨⟨by omega,by omega⟩,?_⟩
  split
  · exact List.forall_mem_singleton.mpr hitem
  split
  · exact List.forall_mem_singleton.mpr hitem
  split
  · rename_i hs
    have hbrace := h.brace (Bool.and_eq_true_iff.mp hs).1
    exact List.forall_mem_singleton.mpr ⟨by omega,by omega,by omega⟩
  split
  · exact List.forall_mem_singleton.mpr ⟨by omega,by omega,by omega⟩
  · exact List.forall_mem_nil _

theorem ItemScan.allAccesses_within (fuel : Nat) {s : ItemScan} (h : s.Within pattern i) :
    ∀ a ∈ allAccesses pattern i fuel s, a.Within pattern.length := by
  induction fuel generalizing s with
  | zero => exact List.forall_mem_nil _
  | succ fuel ih =>
    rw [allAccesses]
    split
    · rename_i hn
      rw [List.getElem?_eq_getElem hn]
      refine List.forall_mem_append.mpr ⟨accesses_within _ h hn,?_⟩
      obtain ⟨s',he,-⟩ | ⟨s',he,hw,-⟩ := turn_within pattern[s.n] h hn
      · rw [he]
        exact List.forall_mem_nil _
      · rw [he]
        exact ih hw
    · exact List.forall_mem_nil _

namespace Scan

theorem itemAccesses_within {item : ItemScan} (h : item.Within pattern i) (hi : i < pattern.length) :
    ∀ a ∈ itemAccesses pattern i item, a.Within pattern.length := by
  have hafter := h.after
  have hinside := h.inside
  rw [itemAccesses]
  split
  · exact List.forall_mem_singleton.mpr ⟨by omega,by omega,by omega⟩
  · exact List.forall_mem_singleton.mpr ⟨by omega,by omega⟩

theorem accesses_within (hi : i < pattern.length) : ∀ a ∈ accesses pattern i, a.Within pattern.length := by
  have hchar : (Access.char i).Within pattern.length := ⟨by omega,by omega⟩
  have hstart : (⟨i + 1,false,0,[],[]⟩ : ItemScan).Within pattern i :=
    ⟨Nat.lt_succ_self i,hi,fun hs => Bool.noConfusion hs⟩
  rw [accesses, List.forall_mem_cons]
  refine ⟨hchar,?_⟩
  split
  · exact List.forall_mem_singleton.mpr hchar
  refine List.forall_mem_append.mpr ⟨?_,?_⟩
  · split
    · exact List.forall_mem_singleton.mpr ⟨by omega,by omega⟩
    · exact List.forall_mem_nil _
  · split
    · exact List.forall_mem_nil _
    · obtain ⟨item,he,hw⟩ := ItemScan.loop_within (pattern.length + 1) hstart (by omega)
      rw [he]
      exact List.forall_mem_append.mpr ⟨ItemScan.allAccesses_within _ hstart,itemAccesses_within hw hi⟩

/-- From an index on, the turns are at larger and larger indices of the pattern. -/
theorem visits_within (fuel : Nat) (s : Scan) :
    (visits pattern fuel i s).Pairwise (fun v w => v.1 < w.1) ∧
    ∀ v ∈ visits pattern fuel i s, i ≤ v.1 ∧ v.1 < pattern.length ∧ ∀ a ∈ v.2, a.Within pattern.length := by
  induction fuel generalizing i s with
  | zero => exact ⟨.nil,List.forall_mem_nil _⟩
  | succ fuel ih =>
    rw [visits]
    split
    · rename_i hi
      obtain ⟨i',s',he,hge,-⟩ := turn_within s hi
      obtain ⟨hpairwise,hall⟩ := @ih (i' + 1) s'
      rw [he]
      constructor
      · apply List.pairwise_cons.mpr
        refine ⟨?_,hpairwise⟩
        intro v hv
        exact Nat.lt_of_lt_of_le (Nat.lt_succ_of_le hge) (hall v hv).1
      · refine List.forall_mem_cons.mpr ⟨⟨Nat.le_refl i,hi,accesses_within hi⟩,?_⟩
        intro v hv
        obtain ⟨hle,hrest⟩ := hall v hv
        exact ⟨by omega,hrest⟩
    · exact ⟨.nil,List.forall_mem_nil _⟩

/-- There is something that becomes an item. -/
def Pending (s : Scan) : Prop := s.nstr ≠ [] ∨ s.vec ≠ []

theorem addItem_pending (item : ItemScan) (s : Scan) : (s.addItem i item).2.Pending := by
  rw [addItem]
  split
  · exact .inr (List.append_ne_nil_of_right_ne_nil _ (List.cons_ne_nil _ _))
  · exact .inr (List.append_ne_nil_of_right_ne_nil _ (List.cons_ne_nil _ _))

/-- Every turn leaves something. -/
theorem turn_pending {s s' : Scan} {i' : Nat} (h : s.turn pattern i = some (i',s')) : s'.Pending := by
  rw [turn] at h
  cases hc : pattern[i]? with
  | none =>
    rw [hc] at h
    cases h
  | some c =>
    rw [hc] at h
    dsimp only at h
    split at h
    · cases h
      exact .inl (List.append_ne_nil_of_right_ne_nil _ (List.cons_ne_nil _ _))
    split at h
    · cases h
      exact .inl (List.append_ne_nil_of_right_ne_nil _ (List.cons_ne_nil _ _))
    · obtain ⟨item,-,hitem⟩ := Option.map_eq_some_iff.mp h
      have hs : (s.addItem i item).2 = s' := congrArg Prod.snd hitem
      rw [← hs]
      exact addItem_pending item s

theorem loop_pending {fuel : Nat} {s s' : Scan} (h : loop pattern fuel i s = some s')
    (hs : s.Pending ∨ i < pattern.length) : s'.Pending := by
  induction fuel generalizing i s with
  | zero => cases h
  | succ fuel ih =>
    rw [loop] at h
    split at h
    · rename_i hi
      obtain ⟨i',t,he,-⟩ := turn_within s hi
      rw [he] at h
      exact ih h (.inl (turn_pending he))
    · rename_i hi
      cases h
      exact hs.resolve_right hi

theorem flush_vec {s : Scan} (h : s.Pending) : s.flush.vec ≠ [] := by
  rw [flush]
  split
  · rename_i hnil
    exact h.resolve_left fun hne => hne hnil
  · exact List.append_ne_nil_of_right_ne_nil _ (List.cons_ne_nil _ _)

end Scan

/-- A pattern that is not empty has an item. -/
theorem items_ne_nil (h : pattern ≠ []) {r : List FormatItem × Bool} (hr : init pattern = some r) : r.1 ≠ [] := by
  obtain ⟨s,hs,rfl⟩ := Option.map_eq_some_iff.mp hr
  obtain ⟨t,ht,rfl⟩ := Option.map_eq_some_iff.mp hs
  have hvec := Scan.flush_vec (Scan.loop_pending ht (.inr (List.length_pos_iff.mpr h)))
  exact fun hnil => hvec (List.map_eq_nil_iff.mp hnil)

/-- The scanner comes to an end on every pattern, at larger and larger indices, without leaving the pattern,
and with an item if there is a pattern. -/
theorem init_total (pattern : List UInt8) :
    (∃ r, init pattern = some r ∧ (pattern ≠ [] → r.1 ≠ [])) ∧
    (visits pattern).Pairwise (fun v w => v.1 < w.1) ∧
    ∀ v ∈ visits pattern, v.1 < pattern.length ∧ ∀ a ∈ v.2, a.Within pattern.length := by
  obtain ⟨r,hr⟩ := Option.isSome_iff_exists.mp (init_isSome pattern)
  obtain ⟨hpairwise,hall⟩ := @Scan.visits_within pattern 0 (pattern.length + 1) ⟨[],[],false⟩
  exact ⟨⟨r,hr,fun h => items_ne_nil h hr⟩,hpairwise,fun v hv => (hall v hv).2⟩

end Radixun.Common.Log
