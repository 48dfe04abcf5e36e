import Radixun.Foundation.CriticalSections
import Radixun.Foundation.PointerTable
import Radixun.Common.FdCtx

/-! `FdManager` under concurrent calls. `get` looks its descriptor up under the read lock and creates
an `FdCtx` under the write lock, so other calls come between the two. -/
namespace Radixun.Common.FdManager
open Foundation CommandRuns CriticalSections PointerTable
variable {θ : Type}

/-- An index outside of the vector. -/
inductive Fault where
  | outOfBounds
  deriving DecidableEq

/-- `m_datas` holds pointers into `heap`, where an `FdCtx` stays once it is made. -/
structure Manager where
  datas : List (Option Nat)
  heap : List FdCtx

/-- A call, with what `fstat` says should the call make an `FdCtx`. -/
inductive FdCall where
  | get (fd : Int32) (autoCreate : Bool) (stat : Option Bool)
  | del (fd : Int32)

inductive FdSection where
  | find (fd : Int32) (autoCreate : Bool) (stat : Option Bool)
  | create (fd : Int32) (stat : Option Bool)
  | erase (fd : Int32)

inductive FdReply where
  | got (fd : Int32) (ctx : Option Nat)
  | deleted (fd : Int32)
  deriving DecidableEq

namespace Manager

def init : Manager := ⟨resize [] 64,[]⟩

/-- The part of `get` up to the end of the read lock. -/
def find (m : Manager) (fd : Int32) (autoCreate : Bool) (stat : Option Bool) : Except Fault ((FdSection ⊕ FdReply) × Manager) :=
  if fd = -1 then .ok (.inr (.got fd none),m)
  else if !covers m.datas fd then
    .ok (if !autoCreate then .inr (.got fd none) else .inl (.create fd stat),m)
  else
    match slot m.datas fd with
    | none => .error .outOfBounds
    | some ctx => .ok (if ctx.isSome || !autoCreate then .inr (.got fd ctx) else .inl (.create fd stat),m)

/-- The part of `get` under the write lock. -/
def create (m : Manager) (fd : Int32) (stat : Option Bool) : Except Fault ((FdSection ⊕ FdReply) × Manager) :=
  let ctx := m.heap.length
  match if covers m.datas fd then some m.datas else (enlarged fd).map (resize m.datas) with
  | none => .error .outOfBounds
  | some datas =>
    match slot datas fd with
    | none => .error .outOfBounds
    | some _ => .ok (.inr (.got fd (some ctx)),⟨datas.set fd.toNatClampNeg (some ctx),m.heap ++ [.new fd stat]⟩)

def erase (m : Manager) (fd : Int32) : Except Fault ((FdSection ⊕ FdReply) × Manager) :=
  if !covers m.datas fd then .ok (.inr (.deleted fd),m)
  else
    match slot m.datas fd with
    | none => .error .outOfBounds
    | some _ => .ok (.inr (.deleted fd),{ m with datas := m.datas.set fd.toNatClampNeg none })

def exec : FdSection → Manager → Except Fault ((FdSection ⊕ FdReply) × Manager)
  | .find fd autoCreate stat, m => m.find fd autoCreate stat
  | .create fd stat, m => m.create fd stat
  | .erase fd, m => m.erase fd

/-- A change that a holder of the pointer makes to the `FdCtx`. -/
def through (m : Manager) (ctx : Nat) (f : FdCtx → FdCtx) : Manager := { m with heap := m.heap.modify ctx f }

/-- The `FdCtx` that the table has for a descriptor. -/
def current (m : Manager) (fd : Int32) : Option Nat := m.datas[fd.toNatClampNeg]?.join

end Manager

def calls : Calls FdCall FdSection Manager FdReply Fault where
  enter
    | .get fd autoCreate stat => .find fd autoCreate stat
    | .del fd => .erase fd
  exec := Manager.exec

/-- What the section needs of the table: no negative descriptor is taken for an index, and an `FdCtx` is
made only for a descriptor that has none, without dropping slots. -/
def Fits : FdSection → Manager → Prop
  | .find fd _ _, m => fd ≠ -1 → covers m.datas fd = true → ¬ fd < 0
  | .create fd _, m =>
    ¬ fd < 0 ∧ m.current fd = none ∧ (covers m.datas fd = true ∨ m.datas.length ≤ fd.toNatClampNeg * 3 / 2)
  | .erase fd, m => covers m.datas fd = true → ¬ fd < 0

instance decidableFits : (k : FdSection) → (m : Manager) → Decidable (Fits k m)
  | .find fd _ _, m => inferInstanceAs (Decidable (fd ≠ -1 → covers m.datas fd = true → ¬ fd < 0))
  | .create fd _, m => inferInstanceAs (Decidable (¬ fd < 0 ∧ m.current fd = none ∧
      (covers m.datas fd = true ∨ m.datas.length ≤ fd.toNatClampNeg * 3 / 2)))
  | .erase fd, m => inferInstanceAs (Decidable (covers m.datas fd = true → ¬ fd < 0))

/-- Between two deletions, all the pointers returned for a descriptor are the same. -/
def OneEach (log : List FdReply) : Prop :=
  ∀ fd p q pre mid post, log = pre ++ .got fd (some p) :: mid ++ .got fd (some q) :: post → .deleted fd ∉ mid → p = q

/-- A setting made through one of them is seen through every other. -/
def SeenThroughAll (log : List FdReply) (m : Manager) : Prop :=
  ∀ fd p q pre mid post, log = pre ++ .got fd (some p) :: mid ++ .got fd (some q) :: post → .deleted fd ∉ mid →
    ∀ f, ∃ c, m.heap[q]? = some c ∧ (m.through p f).heap[q]? = some (f c)

/-- What was returned for a descriptor that is not deleted since is what the table has. -/
structure Traced (log : List FdReply) (m : Manager) : Prop where
  size : 64 ≤ m.datas.length
  made : ∀ fd p, .got fd (some p) ∈ log → p < m.heap.length
  held : ∀ fd p, ¬ fd < 0 → m.current fd = some p → p < m.heap.length
  latest : ∀ fd p pre post, log = pre ++ .got fd (some p) :: post → .deleted fd ∉ post → ¬ fd < 0 ∧ m.current fd = some p
  one : OneEach log

variable {m m' : Manager} {log : List FdReply} {r : FdReply} {fd fd' : Int32} {i n : Nat}

theorem index_inj (h : ¬ fd < 0) (h' : ¬ fd' < 0) (he : fd.toNatClampNeg = fd'.toNatClampNeg) : fd = fd' := by
  rw [not_neg] at h h'
  rw [← Int32.toNat_toInt, ← Int32.toNat_toInt] at he
  exact Int32.toInt_inj.mp (by omega)

/-- A slot that is written: the other descriptors keep what they have. -/
theorem join_set {v : List (Option Nat)} (x : Option Nat) (hi : i < v.length) (j : Nat) :
    (v.set i x)[j]?.join = if i = j then x else v[j]?.join := by
  rw [List.getElem?_set]
  by_cases hij : i = j
  · rw [if_pos hij, if_pos hij, if_pos hi, Option.join_some]
  · rw [if_neg hij, if_neg hij]

theorem join_resize {v : List (Option Nat)} (hn : v.length ≤ n) (j : Nat) : (resize v n)[j]?.join = v[j]?.join := by
  rw [getElem?_resize]
  by_cases hj : j < n
  · rw [if_pos hj, Option.join_some]
  · rw [if_neg hj, List.getElem?_eq_none (by omega)]

/-- `get` under the read lock changes nothing, and returns what the table has or nothing. -/
theorem find_ok {autoCreate : Bool} {stat : Option Bool} (hf : Fits (.find fd autoCreate stat) m) :
    ∃ way, m.find fd autoCreate stat = .ok (way,m) ∧
      ∀ r, way.getRight? = some r → ∃ ctx, r = .got fd ctx ∧ (ctx.isSome → ¬ fd < 0 ∧ m.current fd = ctx) := by
  rw [Manager.find]
  by_cases hm : fd = -1
  · rw [if_pos hm]
    refine ⟨_,rfl,?_⟩
    intro r hr
    cases hr
    exact ⟨none,rfl,fun h => (by cases h)⟩
  · rw [if_neg hm]
    cases hc : covers m.datas fd with
    | false =>
      refine ⟨_,rfl,?_⟩
      intro r hr
      cases autoCreate with
      | false => cases hr; exact ⟨none,rfl,fun h => (by cases h)⟩
      | true => cases hr
    | true =>
      have h0 := hf hm hc
      obtain ⟨ctx,hs⟩ := slot_of_covers hc h0
      simp only [hs, Bool.not_true, Bool.false_eq_true, if_false]
      refine ⟨_,rfl,?_⟩
      intro r hr
      split at hr
      · cases hr
        rw [slot_nonneg h0] at hs
        exact ⟨ctx,rfl,fun _ => ⟨h0,by rw [Manager.current, hs, Option.join_some]⟩⟩
      · cases hr

/-- `get` under the write lock makes one `FdCtx` and leaves what the other descriptors have. -/
theorem create_ok {stat : Option Bool} (hf : Fits (.create fd stat) m) (hsize : 64 ≤ m.datas.length) :
    ∃ m', m.create fd stat = .ok (.inr (.got fd (some m.heap.length)),m') ∧ m'.heap = m.heap ++ [.new fd stat] ∧
      64 ≤ m'.datas.length ∧ m'.current fd = some m.heap.length ∧
      ∀ fd', ¬ fd' < 0 → fd' ≠ fd → m'.current fd' = m.current fd' := by
  obtain ⟨h0,-,hlen⟩ := hf
  -- the vector that is written to: it has a slot for the descriptor and the entries of the old one
  have hv : ∃ v, (if covers m.datas fd then some m.datas else (enlarged fd).map (resize m.datas)) = some v ∧
      m.datas.length ≤ v.length ∧ fd.toNatClampNeg < v.length ∧ ∀ j : Nat, v[j]?.join = m.datas[j]?.join := by
    cases hc : covers m.datas fd with
    | true =>
      have hlt := lt_of_covers hc
      have hnat := Int32.toNat_toInt fd
      have hge := not_neg.mp h0
      exact ⟨m.datas,rfl,Nat.le_refl _,by omega,fun _ => rfl⟩
    | false =>
      have hle := hlen.resolve_left (by rw [hc]; exact Bool.false_ne_true)
      refine ⟨resize m.datas (fd.toNatClampNeg * 3 / 2),?_,?_,?_,join_resize hle⟩
      · rw [enlarged_nonneg h0]
        rfl
      · rw [length_resize]
        exact hle
      · rw [length_resize]
        omega
  obtain ⟨v,hsome,hgrown,hin,hjoin⟩ := hv
  have hslot : slot v fd = some v[fd.toNatClampNeg] := by rw [slot_nonneg h0, List.getElem?_eq_getElem hin]
  refine ⟨⟨v.set fd.toNatClampNeg (some m.heap.length),m.heap ++ [.new fd stat]⟩,by simp only [Manager.create, hsome, hslot],rfl,?_,?_,?_⟩
  · rw [List.length_set]
    omega
  · rw [Manager.current, join_set _ hin, if_pos rfl]
  · intro fd' h0' hne
    rw [Manager.current, join_set _ hin, if_neg (fun he => hne (index_inj h0' h0 he.symm)), hjoin]
    rfl

theorem erase_ok (hf : Fits (.erase fd) m) :
    ∃ m', m.erase fd = .ok (.inr (.deleted fd),m') ∧ m'.heap = m.heap ∧ m'.datas.length = m.datas.length ∧
      ∀ fd', ¬ fd' < 0 → m'.current fd' = m.current fd' ∨ fd' = fd ∧ m'.current fd' = none := by
  rw [Manager.erase]
  cases hc : covers m.datas fd with
  | false => exact ⟨m,rfl,rfl,rfl,fun _ _ => .inl rfl⟩
  | true =>
    have h0 := hf hc
    obtain ⟨x,hs⟩ := slot_of_covers hc h0
    have hin : fd.toNatClampNeg < m.datas.length := by
      rw [slot_nonneg h0] at hs
      exact (List.getElem?_eq_some_iff.mp hs).1
    simp only [hs, Bool.not_true, Bool.false_eq_true, if_false]
    refine ⟨_,rfl,rfl,List.length_set,?_⟩
    intro fd' h0'
    rw [Manager.current, join_set _ hin]
    by_cases he : fd.toNatClampNeg = fd'.toNatClampNeg
    · exact .inr ⟨index_inj h0' h0 he.symm,if_pos he⟩
    · exact .inl (if_neg he)

theorem concat_split {pre post : List FdReply} {x : FdReply} (h : log ++ [r] = pre ++ x :: post) :
    (post = [] ∧ r = x ∧ log = pre) ∨ ∃ post', post = post' ++ [r] ∧ log = pre ++ x :: post' := by
  rcases List.eq_nil_or_concat post with rfl | ⟨post',y,rfl⟩
  · obtain ⟨hlog,hr⟩ := List.append_inj' h rfl
    exact .inl ⟨rfl,List.singleton_inj.mp hr,hlog⟩
  · rw [List.concat_eq_append, ← List.cons_append, ← List.append_assoc] at h
    obtain ⟨hlog,hr⟩ := List.append_inj' h rfl
    exact .inr ⟨post',by rw [List.concat_eq_append, List.singleton_inj.mp hr],hlog⟩

/-- A reply keeps the log traced if it is of what the table has afterwards, and only a deletion takes a
descriptor what it had. -/
theorem Traced.snoc (h : Traced log m) (hsize : 64 ≤ m'.datas.length) (hheap : m.heap.length ≤ m'.heap.length)
    (hheld : ∀ fd p, ¬ fd < 0 → m'.current fd = some p → p < m'.heap.length)
    (hkeep : ∀ fd p, ¬ fd < 0 → r ≠ .deleted fd → m.current fd = some p → m'.current fd = some p)
    (hnew : ∀ fd p, r = .got fd (some p) → ¬ fd < 0 ∧ m'.current fd = some p) : Traced (log ++ [r]) m' := by
  refine ⟨hsize,?_,hheld,?_,?_⟩
  · intro fd p hp
    rcases List.mem_append.mp hp with hp | hp
    · exact Nat.lt_of_lt_of_le (h.made fd p hp) hheap
    · obtain ⟨h0,hcur⟩ := hnew fd p (List.mem_singleton.mp hp).symm
      exact hheld fd p h0 hcur
  · intro fd p pre post hlog hdel
    obtain ⟨-,hr,-⟩ | ⟨post',rfl,hlog'⟩ := concat_split hlog
    · exact hnew fd p hr
    · rw [List.mem_append, not_or] at hdel
      obtain ⟨h0,hcur⟩ := h.latest fd p pre post' hlog' hdel.1
      exact ⟨h0,hkeep fd p h0 (fun hr => hdel.2 (List.mem_singleton.mpr hr.symm)) hcur⟩
  · intro fd p q pre mid post hlog hdel
    obtain ⟨-,hr,hmid⟩ | ⟨post',-,hlog'⟩ := concat_split hlog
    · -- the later pointer is the one just returned
      obtain ⟨h0,hcur⟩ := h.latest fd p pre mid hmid hdel
      have hcur' := hkeep fd p h0 (by rw [hr]; intro hd; cases hd) hcur
      rw [(hnew fd q hr).2] at hcur'
      exact (Option.some.inj hcur').symm
    · exact h.one fd p q pre mid post' hlog' hdel

theorem traced_init : Traced [] .init := by
  refine ⟨Nat.le_refl 64,fun fd p hp => (by cases hp),?_,?_,?_⟩
  · intro fd p _ hp
    rw [Manager.current, Manager.init, join_resize (Nat.zero_le 64)] at hp
    cases hp
  · intro fd p pre post h
    cases pre <;> cases h
  · intro fd p q pre mid post h
    cases pre <;> cases h

/-- One section that fits, with what it returns. -/
theorem exec_traced (k : FdSection) (h : Traced log m) (hf : Fits k m) :
    ∃ way m', calls.exec k m = .ok (way,m') ∧ Traced (log ++ way.getRight?.toList) m' := by
  cases k with
  | find fd autoCreate stat =>
    obtain ⟨way,he,hr⟩ := find_ok hf
    refine ⟨way,m,he,?_⟩
    cases hw : way.getRight? with
    | none =>
      rw [Option.toList_none, List.append_nil]
      exact h
    | some r =>
      obtain ⟨ctx,rfl,hctx⟩ := hr r hw
      refine h.snoc h.size (Nat.le_refl _) h.held (fun _ _ _ _ hcur => hcur) ?_
      intro fd' p hp
      cases hp
      exact hctx rfl
  | create fd stat =>
    obtain ⟨m',he,hheap,hsize,hcur,hother⟩ := create_ok hf h.size
    have hlen : m'.heap.length = m.heap.length + 1 := by rw [hheap, List.length_append, List.length_singleton]
    refine ⟨_,m',he,h.snoc hsize (by omega) ?_ ?_ ?_⟩
    · intro fd' p h0 hp
      by_cases hfd : fd' = fd
      · rw [hfd, hcur] at hp
        cases hp
        omega
      · rw [hother fd' h0 hfd] at hp
        have := h.held fd' p h0 hp
        omega
    · intro fd' p h0 _ hp
      rw [hother fd' h0]
      · exact hp
      · rintro rfl
        rw [hf.2.1] at hp
        cases hp
    · intro fd' p hp
      cases hp
      exact ⟨hf.1,hcur⟩
  | erase fd =>
    obtain ⟨m',he,hheap,hlen,hother⟩ := erase_ok hf
    refine ⟨_,m',he,h.snoc (by rw [hlen]; exact h.size) (by rw [hheap]) ?_ ?_ (fun _ _ hp => by cases hp)⟩
    · intro fd' p h0 hp
      rcases hother fd' h0 with hsame | ⟨-,hnone⟩
      · rw [hheap]
        exact h.held fd' p h0 (hsame ▸ hp)
      · rw [hnone] at hp
        cases hp
    · intro fd' p h0 hne hp
      rcases hother fd' h0 with hsame | ⟨rfl,-⟩
      · rw [hsame]
        exact hp
      · exact absurd rfl hne

theorem SeenThroughAll.timeout (h : SeenThroughAll log m) {p q : Nat} {pre mid post : List FdReply}
    (hlog : log = pre ++ .got fd (some p) :: mid ++ .got fd (some q) :: post) (hdel : .deleted fd ∉ mid) (type : TimeoutType)
    (v : UInt64) : ((m.through p (·.setTimeout type v)).heap[q]?).map (·.getTimeout type) = some v := by
  obtain ⟨c,-,hc⟩ := h fd p q pre mid post hlog hdel (·.setTimeout type v)
  rw [hc, Option.map_some, FdCtx.getTimeout_setTimeout, if_pos rfl]

theorem Traced.seen (h : Traced log m) : SeenThroughAll log m := by
  intro fd p q pre mid post hlog hdel f
  obtain rfl := h.one fd p q pre mid post hlog hdel
  have hmem : .got fd (some p) ∈ log := by
    rw [hlog]
    exact List.mem_append_right _ List.mem_cons_self
  have hc := List.getElem?_eq_getElem (h.made fd p hmem)
  refine ⟨_,hc,?_⟩
  rw [Manager.through, List.getElem?_modify_eq, hc]
  rfl

/-- In a run whose sections all fit, the pointers returned for a descriptor between two deletions are
the same, so what is set through one is seen through all. -/
theorem get_one_each [DecidableEq θ] (acts : List (Act θ FdCall)) (h : Along (Admitted Fits) calls.act acts (.idle .init)) :
    ∃ out, runAll calls.act acts (.idle .init) = .ok out ∧ OneEach (summary out).1 ∧
      SeenThroughAll (summary out).1 out.2.shared := by
  obtain ⟨out,hr,ht⟩ := run_history (fun k m log => exec_traced k) acts traced_init h
  exact ⟨out,hr,ht.one,ht.seen⟩

private def twoGets : List (Act Bool FdCall) :=
  [.call false (.get 5 true (some true)),.step false,.step false,.call true (.get 5 true (some true)),.step true]

theorem get_one_each_sequential : ∃ out, runAll calls.act twoGets (.idle .init) = .ok out ∧ OneEach (summary out).1 ∧
    SeenThroughAll (summary out).1 out.2.shared := by
  exact get_one_each twoGets (by decide)

/-- Both threads look for 5 before one of them makes an `FdCtx`. -/
private def bothCreate : List (Act Bool FdCall) :=
  [.call false (.get 5 true (some true)),.call true (.get 5 true (some true)),.step false,.step true,.step false,.step true]

/-- Then each makes its own, and the two calls return different pointers. -/
theorem get_two : ¬ ∀ acts : List (Act Bool FdCall), ∀ out, runAll calls.act acts (.idle .init) = .ok out →
    OneEach (summary out).1 := by
  intro h
  have hone := h bothCreate _ rfl
  cases hone 5 0 1 [] [] [] rfl (by intro hd; cases hd)

end Radixun.Common.FdManager
