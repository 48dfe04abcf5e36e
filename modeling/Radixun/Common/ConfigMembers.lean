import Mathlib.Data.List.Infix
import Radixun.Foundation.CString

/-! YAML trees as the configuration reads them, and the walk that lists their members by dotted name. -/
namespace Radixun.Common.Config
open Foundation.CString

/-- The bytes of an ASCII literal. -/
def bytes (s : String) : List UInt8 := s.toList.map fun c => UInt8.ofNat c.toNat

/-- What the names of variables are made of, as `Lookup` and `ListAllMember` have it. -/
def alphabet : List UInt8 := bytes "abcdefghikjlmnopqrstuvwxyz._012345678"

/-- `find_first_not_of(alphabet) == npos`. -/
def isName (s : List UInt8) : Bool := s.all fun b => alphabet.contains b

def lower (s : List UInt8) : List UInt8 := s.map tolower

/-! A `YAML::Node` is a handle: its number tells it from other nodes that look the same. A key stands for
what `Scalar()` gives for it. -/
mutual

inductive Yaml where
  | null (id : Nat)
  | scalar (id : Nat) (text : List UInt8)
  | sequence (id : Nat) (items : List Yaml)
  | map (id : Nat) (members : Members)

inductive Members where
  | nil
  | cons (key : List UInt8) (value : Yaml) (rest : Members)

end

def Yaml.id : Yaml → Nat
  | .null id | .scalar id _ | .sequence id _ | .map id _ => id

/-- The name of a member: the key alone at the top, else behind a dot. -/
def memberName (pre key : List UInt8) : List UInt8 := if pre = [] then key else pre ++ 46 :: key

/-- The head of `ListAllMember`: a node whose name is not valid is left out with all that is below it. -/
def listed (pre : List UInt8) (node : Yaml) (below : List (List UInt8 × Yaml)) : List (List UInt8 × Yaml) :=
  if isName pre then (pre,node) :: below else []

mutual

/-- `ListAllMember`. -/
def Yaml.listAllMember (pre : List UInt8) : Yaml → List (List UInt8 × Yaml)
  | .null id => listed pre (.null id) []
  | .scalar id text => listed pre (.scalar id text) []
  | .sequence id items => listed pre (.sequence id items) []
  | .map id members => listed pre (.map id members) (members.listAllMember pre)

def Members.listAllMember (pre : List UInt8) : Members → List (List UInt8 × Yaml)
  | .nil => []
  | .cons key value rest => value.listAllMember (memberName pre key) ++ rest.listAllMember pre

end

mutual

/-- All nodes in pre-order, each with the keys on the way to it. -/
def Yaml.nodes (keys : List (List UInt8)) : Yaml → List (List (List UInt8) × Yaml)
  | .null id => [(keys,.null id)]
  | .scalar id text => [(keys,.scalar id text)]
  | .sequence id items => [(keys,.sequence id items)]
  | .map id members => (keys,.map id members) :: members.nodes keys

def Members.nodes (keys : List (List UInt8)) : Members → List (List (List UInt8) × Yaml)
  | .nil => []
  | .cons key value rest => value.nodes (keys ++ [key]) ++ rest.nodes keys

end

/-- The name that the walk gives a node. -/
def nameOf (keys : List (List UInt8)) : List UInt8 := keys.foldl memberName []

theorem nameOf_append (keys : List (List UInt8)) (key : List UInt8) : nameOf (keys ++ [key]) = memberName (nameOf keys) key := by
  rw [nameOf, List.foldl_append]
  rfl

theorem isName_memberName {pre key : List UInt8} (h : isName (memberName pre key) = true) : isName pre = true := by
  rw [memberName] at h
  split at h
  · rename_i hp
    rw [hp]
    rfl
  · rw [isName, List.all_append, Bool.and_eq_true] at h
    exact h.1

/-- A name further down is only valid if the name above is. -/
theorem isName_of_below {keys more : List (List UInt8)} (h : isName (nameOf (keys ++ more)) = true) : isName (nameOf keys) = true := by
  induction more using List.reverseRecOn with
  | nil => rwa [List.append_nil] at h
  | append_singleton more key ih =>
    rw [← List.append_assoc, nameOf_append] at h
    exact ih (isName_memberName h)

mutual

theorem Yaml.keys_of_mem {keys ks : List (List UInt8)} {node n : Yaml} (h : (ks,n) ∈ node.nodes keys) : keys <+: ks := by
  cases node with
  | map id members =>
    rw [Yaml.nodes] at h
    rcases List.mem_cons.mp h with h | h
    · cases h
      exact List.prefix_refl _
    · exact Members.keys_of_mem h
  | null id => cases List.mem_singleton.mp h; exact List.prefix_refl _
  | scalar id text => cases List.mem_singleton.mp h; exact List.prefix_refl _
  | sequence id items => cases List.mem_singleton.mp h; exact List.prefix_refl _

theorem Members.keys_of_mem {keys ks : List (List UInt8)} {members : Members} {n : Yaml} (h : (ks,n) ∈ members.nodes keys) :
    keys <+: ks := by
  cases members with
  | nil => cases h
  | cons key value rest =>
    rw [Members.nodes] at h
    rcases List.mem_append.mp h with h | h
    · exact (List.prefix_append keys [key]).trans (Yaml.keys_of_mem h)
    · exact Members.keys_of_mem h

end

/-- What the walk lists a node as, if it does. -/
def listedAs (n : List (List UInt8) × Yaml) : Option (List UInt8 × Yaml) :=
  if isName (nameOf n.1) then some (nameOf n.1,n.2) else none

theorem listed_single (keys : List (List UInt8)) (node : Yaml) : listed (nameOf keys) node [] = [(keys,node)].filterMap listedAs := by
  rw [listed, List.filterMap_cons, listedAs]
  cases isName (nameOf keys) <;> rfl

mutual

/-- The walk lists, in pre-order, the nodes whose whole name is valid. -/
theorem Yaml.listAllMember_eq (keys : List (List UInt8)) (node : Yaml) :
    node.listAllMember (nameOf keys) = (node.nodes keys).filterMap listedAs := by
  cases node with
  | null id => exact listed_single keys (.null id)
  | scalar id text => exact listed_single keys (.scalar id text)
  | sequence id items => exact listed_single keys (.sequence id items)
  | map id members =>
    rw [Yaml.listAllMember, Yaml.nodes, listed, List.filterMap_cons, listedAs]
    cases hn : isName (nameOf keys) with
    | true =>
      simp only [if_true]
      rw [Members.listAllMember_eq]
    | false =>
      simp only [Bool.false_eq_true, if_false]
      refine (List.filterMap_eq_nil_iff.mpr ?_).symm
      rintro ⟨ks,n⟩ hmem
      obtain ⟨more,rfl⟩ := Members.keys_of_mem hmem
      rw [listedAs, if_neg]
      intro hbelow
      rw [isName_of_below hbelow] at hn
      cases hn

theorem Members.listAllMember_eq (keys : List (List UInt8)) (members : Members) :
    members.listAllMember (nameOf keys) = (members.nodes keys).filterMap listedAs := by
  cases members with
  | nil => rfl
  | cons key value rest =>
    rw [Members.listAllMember, Members.nodes, List.filterMap_append, ← nameOf_append, Yaml.listAllMember_eq, Members.listAllMember_eq]

end

end Radixun.Common.Config
