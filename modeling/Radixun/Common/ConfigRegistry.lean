import Radixun.Common.ConfigMembers
import Radixun.Common.ConfigVar

/-! The registry of configuration variables, whose values are of different types, and loading it from
YAML. Types, values and their conversion from text are arbitrary. -/
namespace Radixun.Common.Config
open Foundation CommandRuns CriticalSections
variable {τ : Type} {V : τ → Type}

/-- `setValue` with nothing between its two parts. -/
def ConfigVar.set {T : Type} [BEq T] (x : ConfigVar T) (v : T) : ConfigVar T :=
  if v == x.val then x else { x.notified v with val := v }

theorem ConfigVar.set_eq {T : Type} [BEq T] (x : ConfigVar T) (v : T) :
    (setValue T).alone 2 (.notify v) x = .ok (.inr (),x.set v) := by
  have hexec : (setValue T).exec (.notify v) x = if v == x.val then .ok (.inr (),x) else .ok (.inl (.assign v),x.notified v) := rfl
  rw [Calls.alone, hexec, set]
  cases v == x.val <;> rfl

/-- A `ConfigVar` behind a pointer to its base, with its type. -/
structure Var (V : τ → Type) where
  type : τ
  name : List UInt8
  description : List UInt8
  data : ConfigVar (V type)

/-- The map from names to pointers into the heap. What is in it has a valid name, and points to a variable
of that name. -/
structure Registry (V : τ → Type) where
  datas : List (List UInt8 × Nat)
  heap : List (Var V)
  named : ∀ e ∈ datas, isName e.1 = true ∧ ∃ v, heap[e.2]? = some v ∧ v.name = e.1

/-- A letter of the alphabet has no upper case. -/
theorem lower_of_isName {s : List UInt8} (h : isName s = true) : lower s = s := by
  have hfix : ∀ b ∈ alphabet, Foundation.CString.tolower b = b := by
    intro b hb
    have hall : (alphabet.all fun b => Foundation.CString.tolower b == b) = true := rfl
    exact eq_of_beq (List.all_eq_true.mp hall b hb)
  rw [lower]
  refine (List.map_congr_left fun b hb => ?_).trans (List.map_id s)
  exact hfix b (List.contains_iff_mem.mp (List.all_eq_true.mp h b hb))

namespace Registry

def empty : Registry V := ⟨[],[],fun _ h => by cases h⟩

/-- `LookupBase`. -/
def lookupBase (r : Registry V) (name : List UInt8) : Option Nat := r.datas.lookup name

variable [DecidableEq τ]

/-- Whether `dynamic_pointer_cast<ConfigVar<T>>` of the pointer succeeds. -/
def casts (r : Registry V) (p : Nat) (t : τ) : Bool := r.heap[p]?.any fun v => v.type = t

omit [DecidableEq τ] in
theorem named_register (r : Registry V) {name : List UInt8} (hn : isName name = true) (t : τ) (default : V t) (description : List UInt8) :
    ∀ e ∈ (name,r.heap.length) :: r.datas.filter (fun e => e.1 != name), isName e.1 = true ∧
      ∃ v, (r.heap ++ [⟨t,lower name,description,.new default⟩])[e.2]? = some v ∧ v.name = e.1 := by
  intro e he
  rcases List.mem_cons.mp he with rfl | he
  · refine ⟨hn,_,List.getElem?_concat_length,?_⟩
    exact lower_of_isName hn
  · obtain ⟨hn',v,hv,hname⟩ := r.named e (List.mem_of_mem_filter he)
    refine ⟨hn',v,?_,hname⟩
    rw [List.getElem?_append_left (List.getElem?_eq_some_iff.mp hv).1]
    exact hv

/-- The end of `Lookup`: a new variable under the name, or `invalid_argument`. -/
def register (r : Registry V) (t : τ) (name : List UInt8) (default : V t) (description : List UInt8) :
    Except (List UInt8) Nat × Registry V :=
  if hn : isName name = true then
    (.ok r.heap.length,⟨(name,r.heap.length) :: r.datas.filter (fun e => e.1 != name),
      r.heap ++ [⟨t,lower name,description,.new default⟩],r.named_register hn t default description⟩)
  else (.error name,r)

/-- `Lookup<T>(name, default_value, description)`. -/
def lookup (r : Registry V) (t : τ) (name : List UInt8) (default : V t) (description : List UInt8) :
    Except (List UInt8) Nat × Registry V :=
  match r.lookupBase name with
  -- a failed cast only falls through to what is done for a new name
  | some p => if r.casts p t then (.ok p,r) else r.register t name default description
  | none => r.register t name default description

/-- `Lookup<T>(name)`. -/
def find (r : Registry V) (t : τ) (name : List UInt8) : Option Nat :=
  (r.lookupBase name).filter fun p => r.casts p t

end Registry

/-- How values are compared and read from text, and how a node that is no scalar is written. -/
structure Conversions (V : τ → Type) where
  eq : (t : τ) → BEq (V t)
  parse : (t : τ) → List UInt8 → Option (V t)
  emit : Yaml → List UInt8

namespace Conversions

def text (c : Conversions V) : Yaml → List UInt8
  | .scalar _ text => text
  | node => c.emit node

/-- `fromString`: text that cannot be converted leaves the value. -/
def fromString (c : Conversions V) (v : Var V) (text : List UInt8) : Var V :=
  match c.parse v.type text with
  | none => v
  | some x => { v with data := @ConfigVar.set _ (c.eq v.type) v.data x }

theorem fromString_name (c : Conversions V) (v : Var V) (text : List UInt8) : (c.fromString v text).name = v.name := by
  rw [fromString]
  split <;> rfl

/-- `fromString` through a pointer. -/
def assign (c : Conversions V) (r : Registry V) (p : Nat) (text : List UInt8) : Registry V where
  datas := r.datas
  heap := r.heap.modify p fun v => c.fromString v text
  named := by
    intro e he
    obtain ⟨hn,v,hv,hname⟩ := r.named e he
    refine ⟨hn,?_⟩
    rw [List.getElem?_modify, hv, Option.map_eq_map, Option.map_some]
    by_cases hp : p = e.2
    · exact ⟨c.fromString v text,by rw [if_pos hp],(c.fromString_name v text).trans hname⟩
    · exact ⟨v,by rw [if_neg hp],hname⟩

/-- The loop body of `LoadFromYaml`, with the calls of `fromString` so far. -/
def loadMember (c : Conversions V) (s : List (Nat × Yaml) × Registry V) (m : List UInt8 × Yaml) : List (Nat × Yaml) × Registry V :=
  if m.1 = [] then s
  else
    match s.2.lookupBase (lower m.1) with
    | none => s
    | some p => (s.1 ++ [(p,m.2)],c.assign s.2 p (c.text m.2))

/-- `LoadFromYaml`, with the variables and nodes it calls `fromString` for. -/
def loadFromYaml (c : Conversions V) (r : Registry V) (root : Yaml) : List (Nat × Yaml) × Registry V :=
  (root.listAllMember []).foldl c.loadMember ([],r)

end Conversions
end Radixun.Common.Config
