import Mathlib.Algebra.Order.Ring.Int
import Mathlib.Algebra.Order.Group.Multiset
import Radixun.Http.ConnectionPool

/-! What a step of `getConnection` or `ReleasePtr` does with connections, with `m_total` and with records. -/
namespace Radixun.Http.HttpConnectionPool
open Radixun.Foundation CommandRuns CallsInProgress

/-- The connections that a call has taken and not passed on. -/
def Call.owns : Call → Multiset Nat
  | .popping _ => 0
  | .deleting _ left ptr => left + ptr.toList
  | .connecting => 0
  | .counting p => {p}
  | .returning p => {p}
  | .releasing p => {p}
  | .destroying p => {p}
  | .uncounting => 0
  | .pushing p => {p}

/-- The deletions that a call has not yet taken off `m_total`. -/
def Call.owed : Call → Nat
  | .deleting deleted _ _ => deleted.length
  | .uncounting => 1
  | _ => 0

/-- The connections that a call has made and not yet added to `m_total`. -/
def Call.uncounted : Call → Nat
  | .counting _ => 1
  | _ => 0

variable {pool : HttpConnectionPool} {env : Env} {now : UInt64} {k : Call} {next : Option Call} {x x' : Pool} {p : Nat}
  {ps : List Nat} {r : Popped} {events : List Event} {s s' : System} {a : Act}

theorem Pool.deref_ok {c : HttpConnection} (h : x.deref p = .ok c) : p ∈ x.live ∧ c = x.data p := by
  rw [deref] at h
  split at h
  · cases h
    exact ⟨‹_›,rfl⟩
  · cases h

theorem Pool.deref_live (h : p ∈ x.live) : x.deref p = .ok (x.data p) := if_pos h

theorem Pool.destroy_ok (h : x.destroy p = .ok x') : p ∈ x.live ∧ x' = { x with live := x.live.erase p } := by
  rw [destroy] at h
  split at h
  · cases h
    exact ⟨‹_›,rfl⟩
  · cases h

/-- A step that deletes a connection. -/
theorem Pool.deleted {β : Type} {f : Pool → β} {y : β} (h : (x.destroy p).map f = .ok y) :
    p ∈ x.live ∧ f { x with live := x.live.erase p } = y := by
  obtain ⟨x₁,hd,he⟩ := map_ok h
  obtain ⟨hp,rfl⟩ := Pool.destroy_ok hd
  exact ⟨hp,he⟩

theorem Pool.destroy_live (h : p ∈ x.live) : x.destroy p = .ok { x with live := x.live.erase p } := if_pos h

/-- One connection less. -/
theorem erase_add (h : p ∈ x.live) : ((x.live.erase p : List Nat) : Multiset Nat) + {p} = x.live := by
  rw [← Multiset.coe_erase, add_comm, Multiset.singleton_add, Multiset.cons_erase (Multiset.mem_coe.mpr h)]

/-- The loop takes connections off the list, and leaves the rest. -/
theorem popConns_owned (h : pool.popConns env now x ps = .ok r) :
    (r.invalid : Multiset Nat) + r.ptr.toList + r.rest = ps := by
  induction ps generalizing r with
  | nil => cases h; rfl
  | cons p ps ih =>
    rw [popConns] at h
    split at h
    · cases h
    · have hdiscard : ∀ (ev : List Event) (r₀ : Popped), (r₀.invalid : Multiset Nat) + r₀.ptr.toList + r₀.rest = ps →
          ((r₀.discard p ev).invalid : Multiset Nat) + (r₀.discard p ev).ptr.toList + (r₀.discard p ev).rest =
            (p :: ps : List Nat) := by
        intro ev r₀ h₀
        rw [← Multiset.cons_coe, ← h₀, Popped.discard, ← Multiset.cons_coe, Multiset.cons_add, Multiset.cons_add]
      split at h
      · obtain ⟨r₀,h₀,rfl⟩ := map_ok h
        exact hdiscard [] r₀ (ih h₀)
      · split at h
        · obtain ⟨r₀,h₀,rfl⟩ := map_ok h
          exact hdiscard _ r₀ (ih h₀)
        · cases h
          rfl

/-- The checks of `ReleasePtr` change the count in the record of the connection and nothing else, and it is
pushed back only below the limit of requests. -/
theorem releaseChecks_ok (h : pool.releaseChecks env x p = .ok (events,next,x')) :
    x' = { x with data := Function.update x.data p (x.data p).countRequest } ∧
      (next = some (.destroying p) ∨
        next = some (.pushing p) ∧ (x'.data p).request.toNat < pool.maxRequest.toNat) := by
  rw [releaseChecks] at h
  split at h
  · cases h
  · rename_i c hc
    obtain ⟨-,rfl⟩ := Pool.deref_ok hc
    dsimp only at h
    split at h
    · cases h
      exact ⟨rfl,.inl rfl⟩
    · split at h
      · cases h
        exact ⟨rfl,.inl rfl⟩
      · split at h
        · cases h
          exact ⟨rfl,.inl rfl⟩
        · rename_i hlow
          cases h
          refine ⟨rfl,.inr ⟨rfl,?_⟩⟩
          simpa [UInt64.le_iff_toNat_le] using hlow

/-- Without a pooled connection the call returns nothing or makes one. -/
theorem exec_connecting (h : pool.exec env .connecting x = .ok (events,next,x')) :
    (next = none ∧ x' = x) ∨ (next = some (.counting x.created) ∧ x' = x.make env.now) := by
  rw [exec] at h
  split at h
  · cases h; exact .inl ⟨rfl,rfl⟩
  · split at h
    · cases h; exact .inl ⟨rfl,rfl⟩
    · split at h
      · cases h; exact .inl ⟨rfl,rfl⟩
      · cases h; exact .inr ⟨rfl,rfl⟩

theorem exec_connecting_events (h : pool.exec env .connecting x = .ok (events,next,x')) : events = [] := by
  rw [exec] at h
  split at h
  · cases h; rfl
  · split at h
    · cases h; rfl
    · split at h <;> (cases h; rfl)

/-- A step passes on what the call has, makes connections and deletes them. -/
theorem exec_owned (h : pool.exec env k x = .ok (events,next,x')) :
    (x'.conns : Multiset Nat) + x'.held + share Call.owns next + x.live = x.conns + x.held + k.owns + x'.live := by
  cases k with
  | popping now =>
    obtain ⟨r,hr,he⟩ := map_ok h
    cases he
    have hpop := popConns_owned hr
    simp only [share, Option.map_some, Option.getD_some, Call.owns, add_zero]
    rw [← hpop]
    abel
  | deleting deleted left ptr =>
    cases left with
    | cons p left =>
      obtain ⟨hp,he⟩ := Pool.deleted h
      cases he
      simp only [share, Option.map_some, Option.getD_some, Call.owns]
      rw [← erase_add hp, ← Multiset.cons_coe, ← Multiset.singleton_add]
      abel
    | nil =>
      cases ptr with
      | none => cases h; rfl
      | some p => cases h; rfl
  | connecting =>
    obtain ⟨rfl,rfl⟩ | ⟨rfl,rfl⟩ := exec_connecting h
    · rfl
    · simp only [share, Option.map_some, Option.getD_some, Call.owns, Pool.make, ← Multiset.coe_add,
        Multiset.coe_singleton]
      abel
  | counting p => cases h; rfl
  | returning p =>
    cases h
    simp only [share, Option.map_none, Option.getD_none, Call.owns, ← Multiset.coe_add, Multiset.coe_singleton]
    abel
  | releasing p =>
    obtain ⟨rfl,rfl | ⟨rfl,-⟩⟩ := releaseChecks_ok h <;> rfl
  | destroying p =>
    obtain ⟨hp,he⟩ := Pool.deleted h
    cases he
    simp only [share, Option.map_some, Option.getD_some, Call.owns]
    rw [← erase_add hp]
    abel
  | uncounting => cases h; rfl
  | pushing p =>
    cases h
    simp only [share, Option.map_none, Option.getD_none, Call.owns, ← Multiset.coe_add, Multiset.coe_singleton]
    abel

/-- A step brings `m_total` and what the call has still to do to it in line with the number of connections. -/
theorem exec_books (h : pool.exec env k x = .ok (events,next,x')) :
    ∃ d : Int, x'.total = x.total + Int32.ofInt d ∧
      d + x.live.length + k.owed + share Call.uncounted next = x'.live.length + share Call.owed next + k.uncounted := by
  have hsame : x.total = x.total + Int32.ofInt 0 := by simp
  cases k with
  | popping now =>
    obtain ⟨r,hr,he⟩ := map_ok h
    cases he
    exact ⟨0,hsame,by simp [share, Call.owed, Call.uncounted]⟩
  | deleting deleted left ptr =>
    cases left with
    | cons p left =>
      obtain ⟨hp,he⟩ := Pool.deleted h
      cases he
      have hlen := List.length_erase_add_one hp
      refine ⟨0,hsame,?_⟩
      simp only [share, Option.map_some, Option.getD_some, Call.owed, Call.uncounted, List.length_append,
        List.length_singleton]
      omega
    | nil =>
      have hlast : (x.uncount deleted.length).total = x.total + Int32.ofInt (-deleted.length) := by
        rw [Pool.uncount, Int32.ofInt_neg, Int32.ofInt_eq_ofNat, Int32.sub_eq_add_neg]
      cases ptr with
      | none =>
        cases h
        refine ⟨_,hlast,?_⟩
        simp only [share, Option.map_some, Option.getD_some, Call.owed, Call.uncounted, Pool.uncount]
        omega
      | some p =>
        cases h
        refine ⟨_,hlast,?_⟩
        simp only [share, Option.map_some, Option.getD_some, Call.owed, Call.uncounted, Pool.uncount]
        omega
  | connecting =>
    obtain ⟨rfl,rfl⟩ | ⟨rfl,rfl⟩ := exec_connecting h
    · exact ⟨0,hsame,by simp [share, Call.owed, Call.uncounted]⟩
    · exact ⟨0,hsame,by simp [share, Call.owed, Call.uncounted, Pool.make]⟩
  | counting p =>
    cases h
    exact ⟨1,rfl,by simp [share, Call.owed, Call.uncounted, Pool.count]; omega⟩
  | returning p => cases h; exact ⟨0,hsame,by simp [share, Call.owed, Call.uncounted]⟩
  | releasing p =>
    obtain ⟨rfl,rfl | ⟨rfl,-⟩⟩ := releaseChecks_ok h <;>
      exact ⟨0,hsame,by simp [share, Call.owed, Call.uncounted]⟩
  | destroying p =>
    obtain ⟨hp,he⟩ := Pool.deleted h
    cases he
    have hlen := List.length_erase_add_one hp
    refine ⟨0,hsame,?_⟩
    simp only [share, Option.map_some, Option.getD_some, Call.owed, Call.uncounted]
    omega
  | uncounting =>
    cases h
    refine ⟨-1,?_,by simp [share, Call.owed, Call.uncounted, Pool.uncount]⟩
    rw [Pool.uncount, Int32.ofInt_neg, Int32.sub_eq_add_neg]
    rfl
  | pushing p => cases h; exact ⟨0,hsame,by simp [share, Call.owed, Call.uncounted]⟩

/-- The connections that exist, each once and each made before. -/
def Pool.Fresh (x : Pool) : Prop := x.live.Nodup ∧ ∀ p ∈ x.live, p < x.created

theorem Pool.fresh_erase (h : x.Fresh) (p : Nat) : Fresh { x with live := x.live.erase p } :=
  ⟨h.1.erase p,fun q hq => h.2 q (List.mem_of_mem_erase hq)⟩

theorem Pool.fresh_make (h : x.Fresh) (now : UInt64) : (x.make now).Fresh := by
  constructor
  · apply List.Nodup.append h.1 (List.nodup_singleton x.created)
    intro p hp hq
    have hlt := h.2 p hp
    rw [List.mem_singleton.mp hq] at hlt
    exact Nat.lt_irrefl _ hlt
  · intro p hp
    rcases List.mem_append.mp hp with hp | hp
    · exact Nat.lt_succ_of_lt (h.2 p hp)
    · rw [List.mem_singleton.mp hp]
      exact Nat.lt_succ_self _

theorem exec_fresh (hx : x.Fresh) (h : pool.exec env k x = .ok (events,next,x')) : x'.Fresh := by
  cases k with
  | popping now =>
    obtain ⟨r,-,he⟩ := map_ok h
    cases he
    exact hx
  | deleting deleted left ptr =>
    cases left with
    | cons p left =>
      obtain ⟨-,he⟩ := Pool.deleted h
      cases he
      exact Pool.fresh_erase hx p
    | nil => cases ptr <;> (cases h; exact hx)
  | connecting =>
    obtain ⟨-,rfl⟩ | ⟨-,rfl⟩ := exec_connecting h
    · exact hx
    · exact Pool.fresh_make hx env.now
  | counting p => cases h; exact hx
  | returning p => cases h; exact hx
  | releasing p =>
    obtain ⟨rfl,-⟩ := releaseChecks_ok h
    exact hx
  | destroying p =>
    obtain ⟨-,he⟩ := Pool.deleted h
    cases he
    exact Pool.fresh_erase hx p
  | uncounting => cases h; exact hx
  | pushing p => cases h; exact hx

/-- The loop meets no deleted connection on a list of those that exist. -/
theorem popConns_safe (hlive : ∀ p ∈ ps, p ∈ x.live) : ∃ r, pool.popConns env now x ps = .ok r := by
  induction ps with
  | nil => exact ⟨_,rfl⟩
  | cons p ps ih =>
    obtain ⟨r,hr⟩ := ih fun q hq => hlive q (List.mem_cons_of_mem p hq)
    simp only [popConns, Pool.deref_live (hlive p List.mem_cons_self), hr]
    split
    · exact ⟨_,rfl⟩
    · split <;> exact ⟨_,rfl⟩

/-- No step meets a deleted connection where the list and the call hold those that exist. -/
theorem exec_safe (hconns : ∀ p ∈ x.conns, p ∈ x.live) (howns : ∀ p ∈ k.owns, p ∈ x.live) :
    ∃ out, pool.exec env k x = .ok out := by
  cases k with
  | popping now =>
    have hpop : ∃ r, pool.popConns env now x x.conns = .ok r := popConns_safe hconns
    obtain ⟨r,hr⟩ := hpop
    rw [exec, hr]
    exact ⟨_,rfl⟩
  | deleting deleted left ptr =>
    cases left with
    | cons p left =>
      rw [exec, Pool.destroy_live (howns p (Multiset.mem_add.mpr (.inl (Multiset.mem_coe.mpr List.mem_cons_self))))]
      exact ⟨_,rfl⟩
    | nil => cases ptr <;> exact ⟨_,rfl⟩
  | connecting =>
    rw [exec]
    split
    · exact ⟨_,rfl⟩
    · split
      · exact ⟨_,rfl⟩
      · split <;> exact ⟨_,rfl⟩
  | counting p => exact ⟨_,rfl⟩
  | returning p => exact ⟨_,rfl⟩
  | releasing p =>
    rw [exec, releaseChecks, Pool.deref_live (howns p (Multiset.mem_singleton_self p))]
    dsimp only
    split
    · exact ⟨_,rfl⟩
    · split
      · exact ⟨_,rfl⟩
      · split <;> exact ⟨_,rfl⟩
  | destroying p =>
    rw [exec, Pool.destroy_live (howns p (Multiset.mem_singleton_self p))]
    exact ⟨_,rfl⟩
  | uncounting => exact ⟨_,rfl⟩
  | pushing p => exact ⟨_,rfl⟩

/-- The connection may serve another request. -/
def Low (pool : HttpConnectionPool) (x : Pool) (p : Nat) : Prop := (x.data p).request.toNat < pool.maxRequest.toNat

/-- The record of a connection changes when it is made and when it is released. -/
theorem exec_data (h : pool.exec env k x = .ok (events,next,x')) {q : Nat} (hq : k ≠ .connecting ∨ q ≠ x.created)
    (hk : k ≠ .releasing q) : x'.data q = x.data q := by
  cases k with
  | popping now =>
    obtain ⟨r,-,he⟩ := map_ok h
    cases he
    rfl
  | deleting deleted left ptr =>
    cases left with
    | cons p left =>
      obtain ⟨-,he⟩ := Pool.deleted h
      cases he
      rfl
    | nil => cases ptr <;> (cases h; rfl)
  | connecting =>
    obtain ⟨-,rfl⟩ | ⟨-,rfl⟩ := exec_connecting h
    · rfl
    · exact Function.update_of_ne (hq.resolve_left fun hne => hne rfl) _ _
  | counting p => cases h; rfl
  | returning p => cases h; rfl
  | releasing p =>
    obtain ⟨rfl,-⟩ := releaseChecks_ok h
    apply Function.update_of_ne
    rintro rfl
    exact hk rfl
  | destroying p =>
    obtain ⟨-,he⟩ := Pool.deleted h
    cases he
    rfl
  | uncounting => cases h; rfl
  | pushing p => cases h; rfl

/-- `m_createTime` keeps the zero of its initializer. -/
theorem exec_createTime (hx : ∀ q, (x.data q).createTime = 0) (h : pool.exec env k x = .ok (events,next,x')) (q : Nat) :
    (x'.data q).createTime = 0 := by
  by_cases hk : k = .releasing q
  · subst hk
    obtain ⟨rfl,-⟩ := releaseChecks_ok h
    dsimp only
    rw [Function.update_self]
    exact hx q
  · by_cases hq : q = x.created
    · subst hq
      by_cases hmake : k = .connecting
      · subst hmake
        obtain ⟨-,rfl⟩ | ⟨-,rfl⟩ := exec_connecting h
        · exact hx _
        · dsimp only [Pool.make]
          rw [Function.update_self]
      · rw [exec_data h (.inl hmake) hk, hx]
    · rw [exec_data h (.inr hq) hk, hx]

/-- A connection comes into the list by the push. -/
theorem exec_conns (h : pool.exec env k x = .ok (events,next,x')) {q : Nat} (hq : q ∈ x'.conns) :
    q ∈ x.conns ∨ k = .pushing q := by
  cases k with
  | popping now =>
    obtain ⟨r,hr,he⟩ := map_ok h
    cases he
    have hmem : q ∈ (x.conns : Multiset Nat) := by
      rw [← popConns_owned hr]
      exact Multiset.mem_add.mpr (.inr hq)
    exact .inl hmem
  | deleting deleted left ptr =>
    cases left with
    | cons p left =>
      obtain ⟨-,he⟩ := Pool.deleted h
      cases he
      exact .inl hq
    | nil => cases ptr <;> (cases h; exact .inl hq)
  | connecting =>
    obtain ⟨-,rfl⟩ | ⟨-,rfl⟩ := exec_connecting h
    · exact .inl hq
    · exact .inl hq
  | counting p => cases h; exact .inl hq
  | returning p => cases h; exact .inl hq
  | releasing p =>
    obtain ⟨rfl,-⟩ := releaseChecks_ok h
    exact .inl hq
  | destroying p =>
    obtain ⟨-,he⟩ := Pool.deleted h
    cases he
    exact .inl hq
  | uncounting => cases h; exact .inl hq
  | pushing p =>
    cases h
    rcases List.mem_append.mp hq with hq | hq
    · exact .inl hq
    · exact .inr (congrArg Call.pushing (List.mem_singleton.mp hq).symm)

/-- A call goes on to the push with a connection below the limit. -/
theorem exec_pushing (h : pool.exec env k x = .ok (events,next,x')) {q : Nat} (hq : next = some (.pushing q)) :
    Low pool x' q := by
  subst hq
  cases k with
  | releasing p =>
    obtain ⟨-,hn | ⟨hn,hlow⟩⟩ := releaseChecks_ok h
    · cases hn
    · cases hn
      exact hlow
  | popping now =>
    obtain ⟨r,-,he⟩ := map_ok h
    cases he
  | deleting deleted left ptr =>
    cases left with
    | cons p left =>
      obtain ⟨x₁,-,he⟩ := map_ok h
      cases he
    | nil => cases ptr <;> cases h
  | connecting => obtain ⟨hn,-⟩ | ⟨hn,-⟩ := exec_connecting h <;> cases hn
  | counting p => cases h
  | returning p => cases h
  | destroying p =>
    obtain ⟨x₁,-,he⟩ := map_ok h
    cases he
  | uncounting => cases h
  | pushing p => cases h

/-- A connection taken off the list to be handed out again is one that was on it. -/
theorem popConns_reused (h : pool.popConns env now x ps = .ok r) {c : HttpConnection} {t : UInt64}
    (hc : .reused c t ∈ r.events) : ∃ p ∈ ps, c = x.data p := by
  induction ps generalizing r with
  | nil => cases h; cases hc
  | cons p ps ih =>
    rw [popConns] at h
    split at h
    · cases h
    · rename_i c₀ hp
      split at h
      · obtain ⟨r₀,h₀,rfl⟩ := map_ok h
        obtain ⟨q,hq,hdata⟩ := ih h₀ hc
        exact ⟨q,List.mem_cons_of_mem p hq,hdata⟩
      · split at h
        · obtain ⟨r₀,h₀,rfl⟩ := map_ok h
          rcases List.mem_append.mp hc with hc | hc
          · cases List.mem_singleton.mp hc
          · obtain ⟨q,hq,hdata⟩ := ih h₀ hc
            exact ⟨q,List.mem_cons_of_mem p hq,hdata⟩
        · cases h
          cases List.mem_singleton.mp hc
          exact ⟨p,List.mem_cons_self,(Pool.deref_ok hp).2⟩

theorem releaseChecks_reused (h : pool.releaseChecks env x p = .ok (events,next,x')) {c : HttpConnection} {t : UInt64} :
    .reused c t ∉ events := by
  intro hc
  rw [releaseChecks] at h
  split at h
  · cases h
  · dsimp only at h
    split at h
    · cases h; cases hc
    · split at h
      · cases h
        split at hc
        · cases List.mem_singleton.mp hc
        · cases hc
      · split at h <;> (cases h; cases hc)

theorem exec_reused (h : pool.exec env k x = .ok (events,next,x')) {c : HttpConnection} {t : UInt64}
    (hc : .reused c t ∈ events) : ∃ p ∈ x.conns, c = x.data p := by
  cases k with
  | popping now =>
    obtain ⟨r,hr,he⟩ := map_ok h
    cases he
    exact popConns_reused hr hc
  | releasing p => exact absurd hc (releaseChecks_reused h)
  | deleting deleted left ptr =>
    cases left with
    | cons p left =>
      obtain ⟨x₁,-,he⟩ := map_ok h
      cases he
      cases hc
    | nil => cases ptr <;> (cases h; cases hc)
  | connecting => rw [exec_connecting_events h] at hc; cases hc
  | destroying p =>
    obtain ⟨x₁,-,he⟩ := map_ok h
    cases he
    cases hc
  | counting p => cases h; cases hc
  | returning p => cases h; cases hc
  | uncounting => cases h; cases hc
  | pushing p => cases h; cases hc

end Radixun.Http.HttpConnectionPool
