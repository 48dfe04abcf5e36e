import Mathlib.Data.List.Nodup
import Radixun.Common.ConfigStable

/-! Which nodes of a YAML tree reach the variables of the registry. -/
namespace Radixun.Common.Config
open Foundation.CString
variable {τ : Type} {V : τ → Type}

/-- A tree whose nodes are different handles. -/
structure Document where
  root : Yaml
  distinct : ((root.nodes []).map fun n => n.2.id).Nodup

def isUpper (b : UInt8) : Bool := 65 ≤ b.toNat && b.toNat ≤ 90

/-- Lower-case letters, digits, `.` and `_`. -/
def nameChar (b : UInt8) : Bool := 97 ≤ b.toNat && b.toNat ≤ 122 || 48 ≤ b.toNat && b.toNat ≤ 57 || b == 46 || b == 95

/-- The same with upper-case letters: what keys are to be made of. -/
def keyChar (b : UInt8) : Bool := isUpper b || nameChar b

/-- The keys of a path with dots between them. -/
def dotted : List (List UInt8) → List UInt8
  | [] => []
  | key :: keys => key ++ keys.flatMap fun k => 46 :: k

/-- What loading is to do with a node: pass it to the variable that its path names. -/
def expected (r : Registry V) (n : List (List UInt8) × Yaml) : Option (Nat × Yaml) :=
  if n.1 ≠ [] ∧ n.1.all (fun k => k.all keyChar) = true then (r.lookupBase (lower (dotted n.1))).map fun p => (p,n.2) else none

/-- What loading does with it. -/
def loaded (r : Registry V) (n : List (List UInt8) × Yaml) : Option (Nat × Yaml) :=
  if isName (nameOf n.1) = true ∧ nameOf n.1 ≠ [] then (r.lookupBase (lower (nameOf n.1))).map fun p => (p,n.2) else none

/-- A path that names a variable has no upper-case letter and no empty first key, and with an empty first
key it does not name one when it is read without. -/
structure Clear (r : Registry V) (keys : List (List UInt8)) : Prop where
  named : ∀ p, keys ≠ [] → r.lookupBase (lower (dotted keys)) = some p → keys.head? ≠ some [] ∧ ∀ k ∈ keys, ∀ b ∈ k, isUpper b = false
  unnamed : keys.head? = some [] → nameOf keys ≠ [] → r.lookupBase (nameOf keys) = none

/-- Lists picked from one list, each element with the key of what it is picked for, are the same if the
choices are. -/
theorem filterMap_eq_iff {α β κ : Type} {l : List α} {f g : α → Option β} (key : α → κ) (id : β → κ) (hl : (l.map key).Nodup)
    (hf : ∀ a x, f a = some x → id x = key a) (hg : ∀ a x, g a = some x → id x = key a) :
    l.filterMap f = l.filterMap g ↔ ∀ a ∈ l, f a = g a := by
  induction l with
  | nil => exact ⟨fun _ a h => (by cases h),fun _ => rfl⟩
  | cons a l ih =>
    rw [List.map_cons, List.nodup_cons] at hl
    -- an element picked for `a` is not picked again
    have hfresh : ∀ h : α → Option β, (∀ a x, h a = some x → id x = key a) → ∀ x, id x = key a → x ∉ l.filterMap h := by
      intro h hh x hx hmem
      obtain ⟨b,hb,hbx⟩ := List.mem_filterMap.mp hmem
      exact hl.1 (List.mem_map.mpr ⟨b,hb,(hh b x hbx).symm.trans hx⟩)
    rw [List.forall_mem_cons, ← ih hl.2, List.filterMap_cons, List.filterMap_cons]
    cases hfa : f a with
    | none =>
      cases hga : g a with
      | none => exact ⟨fun h => ⟨rfl,h⟩,fun h => h.2⟩
      | some y =>
        refine ⟨fun h => ?_,fun h => (by cases h.1)⟩
        have hlist : l.filterMap f = y :: l.filterMap g := h
        exact absurd (by rw [hlist]; exact List.mem_cons_self) (hfresh f hf y (hg a y hga))
    | some x =>
      cases hga : g a with
      | none =>
        refine ⟨fun h => ?_,fun h => (by cases h.1)⟩
        have hlist : x :: l.filterMap f = l.filterMap g := h
        exact absurd (by rw [← hlist]; exact List.mem_cons_self) (hfresh g hg x (hf a x hfa))
      | some y => simp only [List.cons.injEq, Option.some.injEq]

theorem foldl_memberName {p : List UInt8} (hp : p ≠ []) (keys : List (List UInt8)) :
    keys.foldl memberName p = p ++ keys.flatMap fun k => 46 :: k := by
  induction keys generalizing p with
  | nil => exact (List.append_nil p).symm
  | cons key keys ih =>
    have hne : p ++ 46 :: key ≠ [] := fun h => hp (List.append_eq_nil_iff.mp h).1
    rw [List.foldl_cons, memberName, if_neg hp, ih hne, List.flatMap_cons, List.append_assoc]

/-- Behind a first key that is not empty, the walk's name is the dotted path. -/
theorem nameOf_cons {key : List UInt8} (hk : key ≠ []) (keys : List (List UInt8)) : nameOf (key :: keys) = dotted (key :: keys) :=
  foldl_memberName hk keys

theorem length_nameOf_le (keys : List (List UInt8)) : (nameOf keys).length ≤ (keys.flatMap fun k => 46 :: k).length := by
  induction keys with
  | nil => exact Nat.le_refl 0
  | cons key keys ih =>
    rw [List.flatMap_cons, List.length_append, List.length_cons]
    by_cases hk : key = []
    · have hskip : nameOf (key :: keys) = nameOf keys := by rw [hk]; rfl
      rw [hskip]
      omega
    · rw [nameOf_cons hk, dotted, List.length_append]
      omega

theorem mem_dotted {keys : List (List UInt8)} {k : List UInt8} {b : UInt8} (hk : k ∈ keys) (hb : b ∈ k) : b ∈ dotted keys := by
  cases keys with
  | nil => cases hk
  | cons key keys =>
    rcases List.mem_cons.mp hk with rfl | hk
    · exact List.mem_append_left _ hb
    · exact List.mem_append_right _ (List.mem_flatMap.mpr ⟨k,hk,List.mem_cons_of_mem _ hb⟩)

theorem tolower_of_not_upper {b : UInt8} (h : isUpper b = false) : tolower b = b := by
  rw [tolower, if_neg]
  intro hb
  rw [isUpper, Bool.and_eq_false_iff, decide_eq_false_iff_not, decide_eq_false_iff_not] at h
  omega

theorem keyChar_of_lower {b : UInt8} (h : alphabet.contains (tolower b) = true) : keyChar b = true := by
  cases hb : isUpper b with
  | true => rw [keyChar, hb, Bool.true_or]
  | false =>
    rw [tolower_of_not_upper hb] at h
    have hall : (alphabet.all fun b => nameChar b) = true := rfl
    rw [keyChar, List.all_eq_true.mp hall b (List.contains_iff_mem.mp h), Bool.or_true]

/-- The calls of `fromString` that loading makes, node by node. -/
theorem loadFromYaml_calls (c : Conversions V) (r : Registry V) (root : Yaml) :
    (c.loadFromYaml r root).1 = (root.nodes []).filterMap (loaded r) := by
  -- the calls for the rest of the list, after any calls made so far
  have hfold (members : List (List UInt8 × Yaml)) (s : List (Nat × Yaml) × Registry V) :
      (members.foldl c.loadMember s).1 = s.1 ++ members.filterMap fun m =>
        if m.1 = [] then none else (s.2.lookupBase (lower m.1)).map fun p => (p,m.2) := by
    induction members generalizing s with
    | nil => exact (List.append_nil _).symm
    | cons m members ih =>
      rw [List.foldl_cons, ih, List.filterMap_cons]
      simp only [c.loadMember_lookupBase]
      rw [Conversions.loadMember]
      by_cases hm : m.1 = []
      · simp only [if_pos hm]
      · simp only [if_neg hm]
        cases s.2.lookupBase (lower m.1) with
        | none => rfl
        | some p => rw [Option.map_some, List.append_assoc, List.singleton_append]
  have hmembers : root.listAllMember [] = (root.nodes []).filterMap listedAs := root.listAllMember_eq []
  rw [Conversions.loadFromYaml, hfold, hmembers, List.filterMap_filterMap, List.nil_append]
  congr 1
  funext n
  rw [listedAs, loaded]
  cases isName (nameOf n.1) with
  | false => rfl
  | true =>
    simp only [if_true, Option.bind_some, true_and]
    by_cases hn : nameOf n.1 = []
    · rw [if_pos hn, if_neg (not_not.mpr hn)]
    · rw [if_neg hn, if_pos hn]

/-- A path that names a variable is made of letters, digits, `.` and `_`. -/
theorem expected_some {r : Registry V} {keys : List (List UInt8)} {node : Yaml} (hne : keys ≠ []) :
    expected r (keys,node) = (r.lookupBase (lower (dotted keys))).map fun p => (p,node) := by
  rw [expected]
  cases hl : r.lookupBase (lower (dotted keys)) with
  | none => rw [Option.map_none, ite_self]
  | some p =>
    rw [if_pos]
    refine ⟨hne,List.all_eq_true.mpr fun k hk => List.all_eq_true.mpr fun b hb => ?_⟩
    have hname := (Registry.lookupBase_some hl).1
    exact keyChar_of_lower (List.all_eq_true.mp hname (tolower b) (List.mem_map_of_mem (mem_dotted hk hb)))

theorem of_mem_dotted {keys : List (List UInt8)} {b : UInt8} (h : b ∈ dotted keys) : b = 46 ∨ ∃ k ∈ keys, b ∈ k := by
  cases keys with
  | nil => cases h
  | cons key keys =>
    rcases List.mem_append.mp h with h | h
    · exact .inr ⟨key,List.mem_cons_self,h⟩
    · obtain ⟨k,hk,hb⟩ := List.mem_flatMap.mp h
      rcases List.mem_cons.mp hb with hb | hb
      · exact .inl hb
      · exact .inr ⟨k,List.mem_cons_of_mem _ hk,hb⟩

/-- Of the paths that name a variable, the valid names are those without upper-case letters. -/
theorem isName_iff {r : Registry V} {keys : List (List UInt8)} {p : Nat} (h : r.lookupBase (lower (dotted keys)) = some p) :
    isName (dotted keys) = true ↔ ∀ k ∈ keys, ∀ b ∈ k, isUpper b = false := by
  constructor
  · intro hn k hk b hb
    have hall : (alphabet.all fun b => !isUpper b) = true := rfl
    have hmem := List.contains_iff_mem.mp (List.all_eq_true.mp hn b (mem_dotted hk hb))
    rw [← Bool.not_eq_true', List.all_eq_true.mp hall b hmem]
  · intro hno
    apply List.all_eq_true.mpr
    intro b hb
    have hlow : alphabet.contains (tolower b) = true :=
      List.all_eq_true.mp (Registry.lookupBase_some h).1 (tolower b) (List.mem_map_of_mem hb)
    rcases of_mem_dotted hb with rfl | ⟨k,hk,hbk⟩
    · rfl
    · rwa [tolower_of_not_upper (hno k hk b hbk)] at hlow

/-- Two names of one variable are the same name. -/
theorem name_inj {r : Registry V} {a b : List UInt8} {p : Nat} (ha : r.lookupBase a = some p) (hb : r.lookupBase b = some p) : a = b := by
  obtain ⟨-,v,hv,hva⟩ := Registry.lookupBase_some ha
  obtain ⟨-,w,hw,hwb⟩ := Registry.lookupBase_some hb
  rw [hv] at hw
  cases hw
  exact hva.symm.trans hwb

theorem clear_nonempty {r : Registry V} {key : List UInt8} (hk : key ≠ []) (keys : List (List UInt8)) (node : Yaml) :
    loaded r (key :: keys,node) = expected r (key :: keys,node) ↔ Clear r (key :: keys) := by
  have hhead : (key :: keys).head? ≠ some [] := by
    intro h
    exact hk (Option.some.inj h)
  have hd : dotted (key :: keys) ≠ [] := fun h => hk (List.append_eq_nil_iff.mp h).1
  rw [expected_some (List.cons_ne_nil _ _), loaded, nameOf_cons hk]
  cases hl : r.lookupBase (lower (dotted (key :: keys))) with
  | none =>
    rw [Option.map_none, ite_self]
    refine iff_of_true rfl ⟨?_,fun h => absurd h hhead⟩
    intro p _ hp
    rw [hl] at hp
    cases hp
  | some p =>
    rw [Option.map_some]
    have hclear : Clear r (key :: keys) ↔ isName (dotted (key :: keys)) = true := by
      rw [isName_iff hl]
      constructor
      · intro h
        exact (h.named p (List.cons_ne_nil _ _) hl).2
      · intro h
        exact ⟨fun _ _ _ => ⟨hhead,h⟩,fun h => absurd h hhead⟩
    rw [hclear]
    by_cases hn : isName (dotted (key :: keys)) = true
    · rw [if_pos ⟨hn,hd⟩]
      exact iff_of_true rfl hn
    · rw [if_neg (fun h => hn h.1)]
      exact iff_of_false (by intro h; cases h) hn

/-- The walk's name of a path with an empty first key is too short to be the dotted path. -/
theorem nameOf_ne_dotted {keys : List (List UInt8)} (hne : nameOf keys ≠ []) : nameOf keys ≠ lower (dotted ([] :: keys)) := by
  intro heq
  cases keys with
  | nil => exact hne rfl
  | cons key keys =>
    have hlen := congrArg List.length heq
    have hle := length_nameOf_le keys
    rw [lower, List.length_map, dotted, List.nil_append, List.flatMap_cons, List.length_append, List.length_cons] at hlen
    by_cases hk : key = []
    · have hskip : nameOf (key :: keys) = nameOf keys := by rw [hk]; rfl
      rw [hskip] at hlen
      omega
    · rw [nameOf_cons hk, dotted, List.length_append] at hlen
      omega

theorem loaded_empty (r : Registry V) (keys : List (List UInt8)) (node : Yaml) :
    loaded r ([] :: keys,node) = if nameOf keys = [] then none else (r.lookupBase (nameOf keys)).map fun p => (p,node) := by
  have hskip : nameOf ([] :: keys) = nameOf keys := rfl
  rw [loaded, hskip]
  by_cases hnil : nameOf keys = []
  · rw [if_pos hnil, if_neg (fun h => h.2 hnil)]
  · rw [if_neg hnil]
    by_cases hn : isName (nameOf keys) = true
    · rw [if_pos ⟨hn,hnil⟩, lower_of_isName hn]
    · rw [if_neg (fun h => hn h.1)]
      cases hl : r.lookupBase (nameOf keys) with
      | none => rfl
      | some p => exact absurd (Registry.lookupBase_some hl).1 hn

/-- Under two names the same is found only if nothing is. -/
theorem lookupBase_eq_iff {r : Registry V} {a b : List UInt8} (hab : a ≠ b) (node : Yaml) :
    ((r.lookupBase a).map fun p => (p,node)) = ((r.lookupBase b).map fun p => (p,node)) ↔ r.lookupBase a = none ∧
      r.lookupBase b = none := by
  cases ha : r.lookupBase a with
  | none =>
    rw [Option.map_none, eq_comm, Option.map_eq_none_iff]
    exact (and_iff_right rfl).symm
  | some p =>
    refine iff_of_false ?_ fun h => (by cases h.1)
    intro h
    obtain ⟨q,hq,hqp⟩ := Option.map_eq_some_iff.mp h.symm
    cases hqp
    exact hab (name_inj ha hq)

theorem clear_empty_iff (r : Registry V) (keys : List (List UInt8)) :
    Clear r ([] :: keys) ↔ (nameOf keys ≠ [] → r.lookupBase (nameOf keys) = none) ∧ r.lookupBase (lower (dotted ([] :: keys))) = none := by
  constructor
  · intro h
    refine ⟨h.unnamed rfl,?_⟩
    cases hl : r.lookupBase (lower (dotted ([] :: keys))) with
    | none => rfl
    | some p => exact absurd rfl (h.named p (List.cons_ne_nil _ _) hl).1
  · intro h
    refine ⟨fun p _ hp => ?_,fun _ => h.1⟩
    rw [h.2] at hp
    cases hp

theorem clear_empty (r : Registry V) (keys : List (List UInt8)) (node : Yaml) :
    loaded r ([] :: keys,node) = expected r ([] :: keys,node) ↔ Clear r ([] :: keys) := by
  rw [clear_empty_iff, loaded_empty, expected_some (List.cons_ne_nil _ _)]
  by_cases hnil : nameOf keys = []
  · rw [if_pos hnil, eq_comm, Option.map_eq_none_iff]
    exact (and_iff_right fun hne => absurd hnil hne).symm
  · rw [if_neg hnil, lookupBase_eq_iff (nameOf_ne_dotted hnil)]
    exact and_congr_left fun _ => ⟨fun h _ => h,fun h => h hnil⟩

theorem loaded_eq_iff (r : Registry V) (keys : List (List UInt8)) (node : Yaml) :
    loaded r (keys,node) = expected r (keys,node) ↔ Clear r keys := by
  cases keys with
  | nil => exact iff_of_true rfl ⟨fun _ hne => absurd rfl hne,fun h => by cases h⟩
  | cons key keys =>
    by_cases hk : key = []
    · rw [hk]
      exact clear_empty r keys node
    · exact clear_nonempty hk keys node

theorem loaded_node {r : Registry V} {n : List (List UInt8) × Yaml} {x : Nat × Yaml} (h : loaded r n = some x) : x.2 = n.2 := by
  rw [loaded] at h
  split at h
  · obtain ⟨p,-,rfl⟩ := Option.map_eq_some_iff.mp h
    rfl
  · cases h

theorem expected_node {r : Registry V} {n : List (List UInt8) × Yaml} {x : Nat × Yaml} (h : expected r n = some x) : x.2 = n.2 := by
  rw [expected] at h
  split at h
  · obtain ⟨p,-,rfl⟩ := Option.map_eq_some_iff.mp h
    rfl
  · cases h

/-- A name that there is not yet gets a variable. -/
def Registers [DecidableEq τ] (r : Registry V) (t : τ) (name : List UInt8) (default : V t) (description : List UInt8) : Prop :=
  ∃ p r', r.lookup t name default description = (.ok p,r') ∧ r'.lookupBase name = some p

/-- The alphabet has every letter, `.`, `_` and every digit but the 9. -/
theorem alphabet_iff {b : UInt8} (h : nameChar b = true) : alphabet.contains b = true ↔ b ≠ 57 :=
  forall_byte (P := fun b => nameChar b = true → (alphabet.contains b = true ↔ b ≠ 57)) (by decide +kernel) b h

theorem registers_iff [DecidableEq τ] (r : Registry V) (t : τ) (name : List UInt8) (default : V t) (description : List UInt8)
    (hname : name.all nameChar = true) (hnew : r.lookupBase name = none) : Registers r t name default description ↔ 57 ∉ name := by
  have hvalid : isName name = true ↔ 57 ∉ name := by
    rw [isName, List.all_eq_true]
    constructor
    · intro h h57
      exact (alphabet_iff (List.all_eq_true.mp hname 57 h57)).mp (h 57 h57) rfl
    · intro h b hb
      apply (alphabet_iff (List.all_eq_true.mp hname b hb)).mpr
      rintro rfl
      exact h hb
  rw [← hvalid, Registers, Registry.lookup, hnew]
  constructor
  · rintro ⟨p,r',hp,-⟩
    apply Classical.byContradiction
    intro hn
    have hfail := Registry.register_invalid r t default description hn
    simp only [hfail] at hp
    cases hp
  · intro hn
    obtain ⟨r',he,hr'⟩ := Registry.register_ok r t default description hn
    exact ⟨_,r',he,by rw [hr', if_pos rfl]⟩

/-- An empty registry into which `a` was looked up. -/
private def withA : Registry fun _ : Bool => Nat := (Registry.empty.lookup true (bytes "a") 1 []).2

/-- `A: 7`. -/
private def upperA : Document := ⟨.map 0 (.cons (bytes "A") (.scalar 1 (bytes "7")) .nil),by decide⟩

end Radixun.Common.Config
