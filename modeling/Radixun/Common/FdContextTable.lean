import Mathlib.Data.List.Infix
import Radixun.Foundation.CriticalSections
import Radixun.Foundation.PointerTable
import Radixun.Common.IOManagerModel

/-! The table of fd contexts under concurrent `addEvent` calls. The size check, the resize and the
registration are critical sections of their own: under the read lock, the write lock and the mutex
of the fd context. -/
namespace Radixun.Common.IOManager
open Foundation CommandRuns CriticalSections PointerTable
variable {θ σ φ κ : Type}

def FdContext.new : FdContext σ φ κ := ⟨fun _ => .empty,∅⟩

/-- `m_fdContexts` holds pointers into `heap`, where a context stays once it is made. -/
structure FdTable (σ φ κ : Type) where
  fdContexts : List (Option Nat)
  heap : List (FdContext σ φ κ)
  interest : Nat → Finset Event
  pending : Nat

/-- The arguments of `addEvent`, the scheduler and fiber it is called on, and the outcome of its
`epoll_ctl`. -/
structure AddEvent (σ φ κ : Type) where
  fd : Int32
  event : Event
  this : Option σ
  current : φ
  cb : Option κ
  ctl : Bool

inductive AddSection (σ φ κ : Type) where
  | lookup (a : AddEvent σ φ κ)
  | grow (a : AddEvent σ φ κ)
  | register (a : AddEvent σ φ κ) (fdCtx : Option Nat)

namespace FdTable

/-- The loop of `contextResize`: a new context for each null pointer. -/
def newContexts (heap : List (FdContext σ φ κ)) : List (Option Nat) → List (FdContext σ φ κ) × List (Option Nat)
  | [] => (heap,[])
  | some p :: v =>
    let (heap',v') := newContexts heap v
    (heap',some p :: v')
  | none :: v =>
    let (heap',v') := newContexts (heap ++ [.new]) v
    (heap',some heap.length :: v')

def contextResize (t : FdTable σ φ κ) (size : Nat) : FdTable σ φ κ :=
  let (heap,fdContexts) := newContexts t.heap (resize t.fdContexts size)
  { t with heap := heap, fdContexts := fdContexts }

/-- The table as the constructor of `IOManager` leaves it. -/
def init : FdTable σ φ κ := contextResize ⟨[],[],fun _ => ∅,0⟩ 32

/-- `fd_ctx = m_fdContexts[fd]`, with the registration next. -/
def fetch (t : FdTable σ φ κ) (a : AddEvent σ φ κ) : Except Fault ((AddSection σ φ κ ⊕ Bool) × FdTable σ φ κ) :=
  match slot t.fdContexts a.fd with
  | none => .error .outOfBounds
  | some p => .ok (.inl (.register a p),t)

/-- The part of `addEvent` under the mutex of the fd context. The result is whether 0 is returned. -/
def register (t : FdTable σ φ κ) (a : AddEvent σ φ κ) (fdCtx : Option Nat) :
    Except Fault ((AddSection σ φ κ ⊕ Bool) × FdTable σ φ κ) :=
  match fdCtx with
  | none => .error .nullDeref
  | some p =>
    match t.heap[p]? with
    | none => .error .nullDeref
    | some c =>
      if a.event ∈ c.events then .error .assertion
      else if !a.ctl then .ok (.inr false,t)
      else if !(c.context a.event).isEmpty then .error .assertion
      else
        let c' := ⟨Function.update c.context a.event (.filled a.this a.current a.cb),c.events ∪ {a.event}⟩
        .ok (.inr true,{ t with
          heap := t.heap.set p c'
          interest := Function.update t.interest a.fd.toNatClampNeg (c.events ∪ {a.event})
          pending := t.pending + 1 })

def exec : AddSection σ φ κ → FdTable σ φ κ → Except Fault ((AddSection σ φ κ ⊕ Bool) × FdTable σ φ κ)
  | .lookup a, t => if covers t.fdContexts a.fd then t.fetch a else .ok (.inl (.grow a),t)
  | .grow a, t =>
    match enlarged a.fd with
    | none => .error .outOfBounds
    | some n => (t.contextResize n).fetch a
  | .register a p, t => t.register a p

theorem length_newContexts (heap : List (FdContext σ φ κ)) (v : List (Option Nat)) : (newContexts heap v).2.length = v.length := by
  induction v generalizing heap with
  | nil => rfl
  | cons x v ih => cases x <;> simp only [newContexts, List.length_cons, ih]

/-- The loop only adds to what there is. -/
theorem newContexts_extends (heap : List (FdContext σ φ κ)) (v : List (Option Nat)) : heap <+: (newContexts heap v).1 := by
  induction v generalizing heap with
  | nil => exact List.prefix_refl heap
  | cons x v ih =>
    cases x with
    | some p => exact ih heap
    | none => exact (List.prefix_append heap [.new]).trans (ih (heap ++ [.new]))

/-- A slot keeps its pointer, or gets one to a context of its own. -/
theorem newContexts_slot (heap : List (FdContext σ φ κ)) {v : List (Option Nat)} {i : Nat} (hi : i < v.length) :
    (∃ p, v[i]? = some (some p) ∧ (newContexts heap v).2[i]? = some (some p)) ∨
    ∃ p, v[i]? = some none ∧ (newContexts heap v).2[i]? = some (some p) ∧ heap.length ≤ p ∧
      (newContexts heap v).1[p]? = some .new := by
  induction v generalizing heap i with
  | nil => cases hi
  | cons x v ih =>
    cases x with
    | some q =>
      cases i with
      | zero => exact .inl ⟨q,rfl,rfl⟩
      | succ i => exact ih heap (Nat.lt_of_succ_lt_succ hi)
    | none =>
      cases i with
      | zero =>
        obtain ⟨rest,hr⟩ := newContexts_extends (heap ++ [.new]) v
        refine .inr ⟨heap.length,rfl,rfl,Nat.le_refl _,?_⟩
        rw [newContexts]
        simp only [← hr, List.append_assoc, List.singleton_append, List.getElem?_append_right (Nat.le_refl heap.length),
          Nat.sub_self, List.getElem?_cons_zero]
      | succ i =>
        obtain ⟨p,hp⟩ | ⟨p,hv,hp,hle,hc⟩ := ih (heap ++ [.new]) (Nat.lt_of_succ_lt_succ hi)
        · exact .inl ⟨p,hp⟩
        · refine .inr ⟨p,hv,hp,?_,hc⟩
          rw [List.length_append] at hle
          omega

/-- Slots do not share a context. -/
def Apart (v : List (Option Nat)) : Prop := ∀ i j p : Nat, v[i]? = some (some p) → v[j]? = some (some p) → i = j

theorem Apart.cons {x : Option Nat} {v : List (Option Nat)} (hv : Apart v) (hx : ∀ p j : Nat, x = some p → v[j]? ≠ some (some p)) :
    Apart (x :: v) := by
  intro i j p hi hj
  cases i with
  | zero =>
    cases j with
    | zero => rfl
    | succ j => exact absurd hj (hx p j (Option.some.inj hi))
  | succ i =>
    cases j with
    | zero => exact absurd hi (hx p i (Option.some.inj hj))
    | succ j => exact congrArg Nat.succ (hv i j p hi hj)

theorem Apart.tail {x : Option Nat} {v : List (Option Nat)} (h : Apart (x :: v)) : Apart v := by
  intro i j p hi hj
  exact Nat.succ.inj (h (i + 1) (j + 1) p hi hj)

theorem newContexts_apart (heap : List (FdContext σ φ κ)) {v : List (Option Nat)} (hv : Apart v)
    (hlt : ∀ p, some p ∈ v → p < heap.length) : Apart (newContexts heap v).2 := by
  induction v generalizing heap with
  | nil => intro i j p hi; cases hi
  | cons x v ih =>
    -- a pointer behind the head is an old one of the vector or newer than all of them
    have hlater : ∀ (heap : List (FdContext σ φ κ)) (p j : Nat), (newContexts heap v).2[j]? = some (some p) →
        v[j]? = some (some p) ∨ heap.length ≤ p := by
      intro heap p j hj
      have hjv : j < v.length := by
        rw [← length_newContexts heap v]
        exact (List.getElem?_eq_some_iff.mp hj).1
      obtain ⟨q,hq,hq'⟩ | ⟨q,-,hq',hle,-⟩ := newContexts_slot heap hjv
      · rw [hq'] at hj; cases hj; exact .inl hq
      · rw [hq'] at hj; cases hj; exact .inr hle
    have hrest : ∀ p, some p ∈ v → p < heap.length := fun p hp => hlt p (List.mem_cons_of_mem x hp)
    cases x with
    | some q =>
      refine (ih heap hv.tail hrest).cons ?_
      intro p j hp hj
      cases hp
      rcases hlater heap q j hj with hj | hle
      · cases hv 0 (j + 1) q rfl hj
      · have := hlt q List.mem_cons_self
        omega
    | none =>
      have hrest' : ∀ p, some p ∈ v → p < (heap ++ [FdContext.new]).length := by
        intro p hp
        have := hrest p hp
        rw [List.length_append]
        omega
      refine (ih (heap ++ [.new]) hv.tail hrest').cons ?_
      intro p j hp hj
      cases hp
      rcases hlater _ heap.length j hj with hj | hle
      · exact absurd (hrest heap.length (List.mem_of_getElem? hj)) (Nat.lt_irrefl _)
      · rw [List.length_append, List.length_singleton] at hle
        omega

/-- Every slot has a context, and no two slots the same one. -/
structure Filled (t : FdTable σ φ κ) : Prop where
  slots : ∀ i < t.fdContexts.length, ∃ p, t.fdContexts[i]? = some (some p) ∧ p < t.heap.length
  apart : Apart t.fdContexts

end FdTable

def addEvent : Calls (AddEvent σ φ κ) (AddSection σ φ κ) (FdTable σ φ κ) Bool Fault := ⟨.lookup,FdTable.exec⟩

end Radixun.Common.IOManager
