import Mathlib.Data.List.Basic
import Mathlib.Data.List.Induction
import Mathlib.Data.List.Pairwise
import Mathlib.Order.Lattice

/-! Maps ordered by a comparison, as the standard library keeps them: one entry for each class of
equivalent keys, in order, under the key that was inserted first. -/
namespace Radixun.Foundation

/-- What a comparison has to satisfy to order a map. -/
class StrictWeakOrder {K : Type} (less : K → K → Bool) : Prop where
  not_self : ∀ a, less a a = false
  trans : ∀ {a b c}, less a b = true → less b c = true → less a c = true
  cotrans : ∀ {a c} (b), less a c = true → less a b = true ∨ less b c = true

/-- A comparison through keys in a linear order. -/
theorem StrictWeakOrder.of_key {K C : Type} [LinearOrder C] {less : K → K → Bool} (key : K → C)
    (h : ∀ a b, less a b = true ↔ key a < key b) : StrictWeakOrder less where
  not_self a := by
    rw [Bool.eq_false_iff, Ne, h]
    exact lt_irrefl _
  trans hab hbc := (h _ _).mpr (lt_trans ((h _ _).mp hab) ((h _ _).mp hbc))
  cotrans b hac := by
    rcases lt_or_ge (key _) (key b) with hlt | hge
    · exact .inl ((h _ _).mpr hlt)
    · exact .inr ((h _ _).mpr (lt_of_le_of_lt hge ((h _ _).mp hac)))

/-- Keys in a linear order are the same for such a comparison if they are equal there. -/
theorem not_less_iff_of_key {K C : Type} [LinearOrder C] {less : K → K → Bool} (key : K → C)
    (h : ∀ a b, less a b = true ↔ key a < key b) (a b : K) : less a b = false ∧ less b a = false ↔ key a = key b := by
  rw [Bool.eq_false_iff, Bool.eq_false_iff, Ne, Ne, h, h, not_lt, not_lt, and_comm]
  exact le_antisymm_iff.symm

structure OrderedMap (K V : Type) (less : K → K → Bool) where
  entries : List (K × V)
  sorted : entries.Pairwise fun a b => less a.1 b.1 = true

namespace OrderedMap
variable {K V : Type} {less : K → K → Bool}

instance [DecidableEq K] [DecidableEq V] : DecidableEq (OrderedMap K V less) := fun m m' =>
  decidable_of_iff (m.entries = m'.entries)
    ⟨fun h => by cases m; cases m'; cases h; rfl,fun h => h ▸ rfl⟩

def empty : OrderedMap K V less := ⟨[],.nil⟩

def insertEntry (less : K → K → Bool) (k : K) (v : V) : List (K × V) → List (K × V)
  | [] => [(k,v)]
  | e :: m =>
    if less k e.1 then (k,v) :: e :: m else if less e.1 k then e :: insertEntry less k v m else (e.1,v) :: m

/-- Keys neither of which is less than the other. -/
def same (less : K → K → Bool) (a b : K) : Bool := !less a b && !less b a

def findEntry (less : K → K → Bool) (k : K) (m : List (K × V)) : Option (K × V) := m.find? fun e => same less k e.1

def find (m : OrderedMap K V less) (k : K) : Option (K × V) := findEntry less k m.entries

/-- Removes the entry of a key, if there is one. -/
def erase (m : OrderedMap K V less) (k : K) : OrderedMap K V less :=
  ⟨m.entries.filter fun e => !same less k e.1,m.sorted.filter _⟩

theorem same_iff {a b : K} : same less a b = true ↔ less a b = false ∧ less b a = false := by simp [same]

theorem same_symm {a b : K} (h : same less a b = true) : same less b a = true := by
  rw [same_iff] at h ⊢
  exact h.symm

theorem insertEntry_keys {k : K} {v : V} {m : List (K × V)} {e : K × V} (he : e ∈ insertEntry less k v m) :
    e.1 = k ∨ ∃ e' ∈ m, e'.1 = e.1 := by
  induction m with
  | nil =>
    obtain rfl : e = (k,v) := by simpa [insertEntry] using he
    exact .inl rfl
  | cons e' m ih =>
    rw [insertEntry] at he
    split_ifs at he
    · rcases List.mem_cons.mp he with rfl | hm
      · exact .inl rfl
      · exact .inr ⟨e,hm,rfl⟩
    · rcases List.mem_cons.mp he with rfl | hm
      · exact .inr ⟨e,List.mem_cons_self ..,rfl⟩
      · rcases ih hm with h | ⟨e'',h'',heq⟩
        · exact .inl h
        · exact .inr ⟨e'',List.mem_cons_of_mem _ h'',heq⟩
    · rcases List.mem_cons.mp he with rfl | hm
      · exact .inr ⟨e',List.mem_cons_self ..,rfl⟩
      · exact .inr ⟨e,List.mem_cons_of_mem _ hm,rfl⟩

private theorem find_none_of_less {k : K} {m : List (K × V)} (h : ∀ e ∈ m, less k e.1 = true) :
    findEntry less k m = none := by
  rw [findEntry, List.find?_eq_none]
  intro e he
  simp [same, h e he]

section
variable [StrictWeakOrder less]
open StrictWeakOrder (not_self cotrans)

theorem same_refl (a : K) : same less a a = true := by simp [same, not_self a]

theorem less_of_same_left {a b c : K} (h : same less a b = true) (hbc : less b c = true) : less a c = true := by
  rcases cotrans a hbc with hlt | hlt
  · simp [(same_iff.mp h).2] at hlt
  · exact hlt

theorem less_of_same_right {a b c : K} (h : same less b c = true) (hab : less a b = true) : less a c = true := by
  rcases cotrans c hab with hlt | hlt
  · exact hlt
  · simp [(same_iff.mp h).2] at hlt

theorem same_trans {a b c : K} (hab : same less a b = true) (hbc : same less b c = true) :
    same less a c = true := by
  rw [same_iff]
  constructor
  · by_contra hlt
    rw [Bool.not_eq_false] at hlt
    have := less_of_same_right (same_symm hbc) hlt
    simp [(same_iff.mp hab).1] at this
  · by_contra hlt
    rw [Bool.not_eq_false] at hlt
    have := less_of_same_left hbc hlt
    simp [(same_iff.mp hab).2] at this

theorem less_asymm {a b : K} (h : less a b = true) : less b a = false := by
  by_contra hlt
  rw [Bool.not_eq_false] at hlt
  have := StrictWeakOrder.trans h hlt
  simp [not_self a] at this

theorem insertEntry_sorted {k : K} {v : V} {m : List (K × V)} (h : m.Pairwise fun a b => less a.1 b.1 = true) :
    (insertEntry less k v m).Pairwise fun a b => less a.1 b.1 = true := by
  induction m with
  | nil => simp [insertEntry]
  | cons e m ih =>
    obtain ⟨he,hm⟩ := List.pairwise_cons.mp h
    rw [insertEntry]
    split_ifs with hlt hgt
    · refine List.pairwise_cons.mpr ⟨fun e' he' => ?_,h⟩
      rcases List.mem_cons.mp he' with rfl | hin
      · exact hlt
      · exact StrictWeakOrder.trans hlt (he e' hin)
    · refine List.pairwise_cons.mpr ⟨fun e' he' => ?_,ih hm⟩
      rcases insertEntry_keys he' with hk | ⟨e'',hin,heq⟩
      · rw [hk]; exact hgt
      · rw [← heq]; exact he e'' hin
    · exact List.pairwise_cons.mpr ⟨he,hm⟩

/-- `m[k] = v`. -/
def put (m : OrderedMap K V less) (k : K) (v : V) : OrderedMap K V less :=
  ⟨insertEntry less k v m.entries,insertEntry_sorted m.sorted⟩

/-- A key greater than all that are there goes to the end. -/
theorem entries_put_last {m : OrderedMap K V less} {k : K} {v : V} (h : ∀ e ∈ m.entries, less e.1 k = true) :
    (m.put k v).entries = m.entries ++ [(k,v)] := by
  have hinsert : ∀ l : List (K × V), (∀ e ∈ l, less e.1 k = true) → insertEntry less k v l = l ++ [(k,v)] := by
    intro l hl
    induction l with
    | nil => rfl
    | cons e l ih =>
      have hlt := hl e List.mem_cons_self
      rw [insertEntry, less_asymm hlt, hlt, ih fun e' he' => hl e' (List.mem_cons_of_mem e he')]
      rfl
  exact hinsert m.entries h

theorem findEntry_congr {k k' : K} (h : same less k k' = true) (m : List (K × V)) :
    findEntry less k m = findEntry less k' m := by
  induction m with
  | nil => rfl
  | cons e m ih =>
    have hiff : same less k e.1 = same less k' e.1 := by
      rw [Bool.eq_iff_iff]
      exact ⟨same_trans (same_symm h),same_trans h⟩
    simp only [findEntry, List.find?_cons, hiff] at ih ⊢
    rw [ih]

/-- An assignment keeps the first spelling of its key and leaves the other keys alone. -/
theorem findEntry_insert {k k' : K} {v : V} {m : List (K × V)}
    (h : m.Pairwise fun a b => less a.1 b.1 = true) :
    findEntry less k' (insertEntry less k v m) =
      if same less k' k then some (((findEntry less k m).map (·.1)).getD k,v) else findEntry less k' m := by
  induction m with
  | nil =>
    by_cases hs : same less k' k = true
    · simp [insertEntry, findEntry, hs]
    · simp [insertEntry, findEntry, hs]
  | cons e m ih =>
    obtain ⟨he,hm⟩ := List.pairwise_cons.mp h
    rw [insertEntry]
    by_cases hlt : less k e.1 = true
    · -- in front of all entries
      rw [if_pos hlt]
      have hnone : findEntry less k (e :: m) = none := by
        refine find_none_of_less fun e' he' => ?_
        rcases List.mem_cons.mp he' with rfl | hin
        · exact hlt
        · exact StrictWeakOrder.trans hlt (he e' hin)
      rw [hnone]
      cases hs : same less k' k <;> simp [findEntry, hs]
    by_cases hgt : less e.1 k = true
    · -- further back
      rw [if_neg hlt, if_pos hgt]
      have hk : same less k e.1 = false := by simp [same, hgt]
      have hrest := ih hm
      cases hs : same less k' k with
      | true =>
        have hk' : same less k' e.1 = false := by
          by_contra hc
          rw [Bool.not_eq_false] at hc
          have := same_trans (same_symm hs) hc
          simp [hk] at this
        simp only [findEntry, List.find?_cons, hk, hk', hs, if_true] at hrest ⊢
        exact hrest
      | false =>
        simp only [findEntry, List.find?_cons, hs] at hrest ⊢
        rw [hrest]
        rfl
    · -- the entry of an equivalent key
      rw [if_neg hlt, if_neg hgt]
      have hk : same less k e.1 = true := same_iff.mpr ⟨by simpa using hlt,by simpa using hgt⟩
      cases hs : same less k' k with
      | true => simp [findEntry, hk, same_trans hs hk]
      | false =>
        have hk' : same less k' e.1 = false := by
          by_contra hc
          rw [Bool.not_eq_false] at hc
          have := same_trans hc (same_symm hk)
          simp [hs] at this
        simp [findEntry, hk']

theorem find_put (m : OrderedMap K V less) (k k' : K) (v : V) :
    (m.put k v).find k' = if same less k' k then some (((m.find k).map (·.1)).getD k,v) else m.find k' :=
  findEntry_insert m.sorted

/-- An erasure takes the entry of its key and leaves the other keys alone. -/
theorem find_erase (m : OrderedMap K V less) (k k' : K) :
    (m.erase k).find k' = if same less k' k then none else m.find k' := by
  simp only [find, findEntry, erase, List.find?_filter]
  split
  · rename_i hs
    apply List.find?_eq_none.mpr
    intro e _ he
    obtain ⟨hne,he⟩ : same less k e.1 = false ∧ same less k' e.1 = true := by simpa using he
    rw [same_trans (same_symm hs) he] at hne
    cases hne
  · rename_i hs
    congr 1
    funext e
    cases he : same less k' e.1 with
    | false => simp
    | true =>
      have hne : same less k e.1 = false := by
        by_contra hk
        rw [Bool.not_eq_false] at hk
        exact hs (same_trans he (same_symm hk))
      simp [hne]

private theorem find_head {e : K × V} {m : List (K × V)} : findEntry less e.1 (e :: m) = some e := by
  simp [findEntry, same_refl]

private theorem entries_ext {m m' : List (K × V)} (h : m.Pairwise fun a b => less a.1 b.1 = true)
    (h' : m'.Pairwise fun a b => less a.1 b.1 = true) (hf : ∀ k, findEntry less k m = findEntry less k m') :
    m = m' := by
  induction m generalizing m' with
  | nil =>
    cases m' with
    | nil => rfl
    | cons e' m' => simpa [findEntry, same_refl] using hf e'.1
  | cons e m ih =>
    cases m' with
    | nil => simpa [findEntry, same_refl] using hf e.1
    | cons e' m' =>
      obtain ⟨he,hm⟩ := List.pairwise_cons.mp h
      obtain ⟨he',hm'⟩ := List.pairwise_cons.mp h'
      -- the heads are the least entries of the same map
      have hhead : ∀ {a b : K × V} {as bs : List (K × V)}, (∀ x ∈ bs, less b.1 x.1 = true) →
          findEntry less a.1 (a :: as) = findEntry less a.1 (b :: bs) → a = b ∨ less b.1 a.1 = true := by
        intro a b as bs hb heq
        rw [find_head, findEntry, List.find?_cons] at heq
        cases hs : same less a.1 b.1 with
        | true => simp only [hs] at heq; exact .inl (Option.some.inj heq)
        | false =>
          simp only [hs] at heq
          exact .inr (hb a (List.mem_of_find?_eq_some heq.symm))
      have heq : e = e' := by
        rcases hhead he' (hf e.1) with h1 | h1
        · exact h1
        · rcases hhead he (hf e'.1).symm with h2 | h2
          · exact h2.symm
          · simp [less_asymm h1] at h2
      subst heq
      congr 1
      refine ih hm hm' fun k => ?_
      cases hs : same less k e.1 with
      | true =>
        have hlt : ∀ x ∈ m, less k x.1 = true := fun x hx => less_of_same_left hs (he x hx)
        have hlt' : ∀ x ∈ m', less k x.1 = true := fun x hx => less_of_same_left hs (he' x hx)
        rw [find_none_of_less hlt, find_none_of_less hlt']
      | false =>
        have := hf k
        simpa only [findEntry, List.find?_cons, hs] using this

/-- An entry is found under every key that is the same as its own. -/
theorem find_of_mem {m : OrderedMap K V less} {e : K × V} {k : K} (he : e ∈ m.entries) (hk : same less k e.1 = true) :
    m.find k = some e := by
  have hown : ∀ {l : List (K × V)}, l.Pairwise (fun a b => less a.1 b.1 = true) → e ∈ l → findEntry less e.1 l = some e := by
    intro l hl hmem
    induction l with
    | nil => cases hmem
    | cons d l ih =>
      obtain ⟨hd,hl⟩ := List.pairwise_cons.mp hl
      obtain rfl | htail := List.mem_cons.mp hmem
      · exact find_head
      · have hne : same less e.1 d.1 = false := by simp [same, hd e htail]
        rw [findEntry, List.find?_cons, hne]
        exact ih hl htail
  exact (findEntry_congr hk m.entries).trans (hown m.sorted he)

theorem find_eq_some_iff {m : OrderedMap K V less} {e : K × V} {k : K} : m.find k = some e ↔ e ∈ m.entries ∧ same less k e.1 = true := by
  refine ⟨fun h => ?_,fun h => find_of_mem h.1 h.2⟩
  rw [find, findEntry] at h
  exact ⟨List.mem_of_find?_eq_some h,List.find?_some (p := fun x : K × V => same less k x.1) h⟩

/-- Maps with the same entry for every key are the same map. -/
theorem ext_find {m m' : OrderedMap K V less} (h : ∀ k, m.find k = m'.find k) : m = m' := by
  have := entries_ext m.sorted m'.sorted h
  cases m
  cases m'
  cases this
  rfl

/-- The assignments of a list, in turn. -/
def putAll (m : OrderedMap K V less) (l : List (K × V)) : OrderedMap K V less := l.foldl (fun m e => m.put e.1 e.2) m

def firstSpelling (less : K → K → Bool) (k : K) (l : List (K × V)) : Option K :=
  (l.find? fun e => same less k e.1).map (·.1)

def lastValue (less : K → K → Bool) (k : K) (l : List (K × V)) : Option V :=
  (l.reverse.find? fun e => same less k e.1).map (·.2)

private theorem putAll_snoc (m : OrderedMap K V less) (l : List (K × V)) (e : K × V) :
    m.putAll (l ++ [e]) = (m.putAll l).put e.1 e.2 := by simp [putAll]

omit [StrictWeakOrder less] in
private theorem last_isSome (k : K) (l : List (K × V)) :
    (lastValue less k l).isSome = (firstSpelling less k l).isSome := by
  rw [Bool.eq_iff_iff]
  simp [firstSpelling, lastValue, List.find?_isSome]

theorem find_putAll (l : List (K × V)) (k : K) :
    (empty.putAll l : OrderedMap K V less).find k =
      (firstSpelling less k l).bind fun s => (lastValue less k l).map fun v => (s,v) := by
  induction l using List.reverseRecOn generalizing k with
  | nil => rfl
  | append_singleton l e ih =>
    rw [putAll_snoc, find_put, ih, ih]
    cases hs : same less k e.1 with
    | true =>
      have hcongr : firstSpelling less e.1 l = firstSpelling less k l := by
        simp only [firstSpelling]
        exact congrArg _ (findEntry_congr (same_symm hs) l)
      simp only [if_true, hcongr]
      have hlast : lastValue less k (l ++ [e]) = some e.2 := by simp [lastValue, hs]
      have hlast' : (lastValue less e.1 l).isSome = (firstSpelling less k l).isSome := by
        rw [← hcongr, last_isSome]
      rw [hlast]
      simp only [firstSpelling, List.find?_append] at hlast' ⊢
      cases hf : l.find? fun e => same less k e.1 with
      | none => simp [hs]
      | some x =>
        rw [hf] at hlast'
        obtain ⟨v,hv⟩ := Option.isSome_iff_exists.mp (by simpa using hlast')
        simp [hv]
    | false => simp [firstSpelling, lastValue, List.find?_append, hs]

theorem find_putAll_value (l : List (K × V)) (k : K) :
    ((empty.putAll l : OrderedMap K V less).find k).map (·.2) = lastValue less k l := by
  rw [find_putAll]
  cases hlast : lastValue less k l with
  | none => cases firstSpelling less k l <;> rfl
  | some v =>
    obtain ⟨e,he,-⟩ := Option.map_eq_some_iff.mp hlast
    have hfirst : (firstSpelling less k l).isSome = true := by
      rw [firstSpelling, Option.isSome_map, List.find?_isSome]
      exact ⟨e,List.mem_reverse.mp (List.mem_of_find?_eq_some he),List.find?_some (p := fun e : K × V => same less k e.1) he⟩
    obtain ⟨s,hs⟩ := Option.isSome_iff_exists.mp hfirst
    rw [hs]
    rfl

/-- Assignments of keys that differ from one another: the last one of a key is the only one. -/
theorem find_putAll_apart {m : OrderedMap K V less} {l : List (K × V)} (hl : l.Pairwise fun a b => same less a.1 b.1 = false)
    (k : K) : (m.putAll l).find k =
      ((findEntry less k l).map fun e => (((m.find e.1).map (·.1)).getD e.1,e.2)).or (m.find k) := by
  induction l generalizing m with
  | nil => rfl
  | cons e l ih =>
    obtain ⟨he,hl⟩ := List.pairwise_cons.mp hl
    have hcons : m.putAll (e :: l) = (m.put e.1 e.2).putAll l := rfl
    rw [hcons, ih hl]
    cases hs : same less k e.1 with
    | true =>
      have hnone : findEntry less k l = none := by
        refine List.find?_eq_none.mpr fun x hx hkx => ?_
        have hex := same_trans (same_symm hs) hkx
        rw [he x hx] at hex
        cases hex
      have hhead : findEntry less k (e :: l) = some e := by
        rw [findEntry, List.find?_cons, hs]
      rw [hnone, hhead, find_put, if_pos hs]
      rfl
    | false =>
      have htail : findEntry less k (e :: l) = findEntry less k l := by
        rw [findEntry, List.find?_cons, hs]
        rfl
      rw [htail, find_put, hs]
      cases hfind : findEntry less k l with
      | none => rfl
      | some x =>
        have hx : same less x.1 e.1 = false := by
          by_contra hc
          rw [Bool.not_eq_false] at hc
          have hex := he x (List.mem_of_find?_eq_some hfind)
          rw [same_symm hc] at hex
          cases hex
        simp [find_put, hx]

/-- What a list of assignments leaves in a map: for each key the first spelling and the last value. -/
theorem putAll_eq_iff (l l' : List (K × V)) :
    (empty.putAll l : OrderedMap K V less) = empty.putAll l' ↔
      ∀ k, firstSpelling less k l = firstSpelling less k l' ∧ lastValue less k l = lastValue less k l' := by
  constructor
  · intro h k
    have hk : (empty.putAll l : OrderedMap K V less).find k = _ := find_putAll l k
    have hk' : (empty.putAll l' : OrderedMap K V less).find k = _ := find_putAll l' k
    rw [h, hk'] at hk
    have hl : (lastValue less k l).isSome = _ := last_isSome k l
    have hl' : (lastValue less k l').isSome = _ := last_isSome k l'
    cases hs : firstSpelling less k l <;> cases hv : lastValue less k l <;>
      cases hs' : firstSpelling less k l' <;> cases hv' : lastValue less k l' <;>
      simp_all
  · intro h
    refine ext_find fun k => ?_
    rw [find_putAll, find_putAll, (h k).1, (h k).2]

end
end OrderedMap
end Radixun.Foundation
