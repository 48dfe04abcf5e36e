import Radixun.Http.ConnectionPoolSteps

/-! Where the connections of an `HttpConnectionPool` are, and what `m_total` says of their number. -/
namespace Radixun.Http.HttpConnectionPool
open Radixun.Foundation CommandRuns CallsInProgress

variable {pool : HttpConnectionPool} {env : Env} {now : UInt64} {k : Call} {next : Option Call} {x x' : Pool} {p : Nat}
  {ps : List Nat} {r : Popped} {events : List Event} {s s' : System} {a : Act}

namespace System

/-- How often a connection is in the list, with users and in the hands of calls. -/
def places (s : System) (p : Nat) : Nat :=
  s.pool.conns.count p + s.pool.held.count p + (s.calls.map fun k => k.owns.count p).sum

/-- Deletions still to be taken off `m_total`. -/
def owed (s : System) : Nat := (s.calls.map Call.owed).sum

/-- New connections still to be added to it. -/
def uncounted (s : System) : Nat := (s.calls.map Call.uncounted).sum

structure Sound (pool : HttpConnectionPool) (s : System) : Prop where
  owned : (s.pool.conns : Multiset Nat) + s.pool.held + (s.calls.map Call.owns).sum = s.pool.live
  fresh : s.pool.Fresh
  books : s.pool.total = Int32.ofInt (s.pool.live.length + s.owed - s.uncounted)
  low : ∀ p ∈ s.pool.conns, Low pool s.pool p
  pushed : ∀ p, .pushing p ∈ s.calls → Low pool s.pool p

theorem sound_init (pool : HttpConnectionPool) : Sound pool init where
  owned := rfl
  fresh := ⟨List.nodup_nil,fun p hp => by cases hp⟩
  books := rfl
  low p hp := by cases hp
  pushed p hp := by cases hp

/-- The places of a connection are those of the connections that exist. -/
theorem Sound.places_eq (h : Sound pool s) (p : Nat) : s.places p = s.pool.live.count p := by
  have hcount := congrArg (Multiset.countAddMonoidHom p) h.owned
  rw [map_add, map_add, map_list_sum, List.map_map, Multiset.coe_countAddMonoidHom] at hcount
  simp only [Multiset.coe_count] at hcount
  exact hcount

theorem Sound.places_le (h : Sound pool s) (p : Nat) : s.places p ≤ 1 := by
  rw [h.places_eq]
  exact List.nodup_iff_count_le_one.mp h.fresh.1 p

theorem Sound.mem_live (h : Sound pool s) {p : Nat} (hp : 0 < s.places p) : p ∈ s.pool.live := by
  rw [h.places_eq] at hp
  exact List.count_pos_iff.mp hp

theorem places_conns (hp : p ∈ s.pool.conns) : 0 < s.places p := by
  have := List.count_pos_iff.mpr hp
  rw [places]
  omega

theorem places_held (hp : p ∈ s.pool.held) : 0 < s.places p := by
  have := List.count_pos_iff.mpr hp
  rw [places]
  omega

theorem places_call (hk : k ∈ s.calls) (hp : p ∈ k.owns) : 0 < s.places p := by
  have hle := List.le_sum_of_mem (List.mem_map_of_mem (f := fun k : Call => k.owns.count p) hk)
  have := Multiset.count_pos.mpr hp
  rw [places]
  omega

/-- A step of a call keeps the books of the pool. -/
theorem sound_exec {i : Nat} (hs : Sound pool s) (hk : s.calls[i]? = some k)
    (h : pool.exec env k s.pool = .ok (events,next,x')) : Sound pool ⟨x',advance s.calls i next⟩ := by
  have hmem : k ∈ s.calls := List.mem_of_getElem? hk
  constructor
  · have hmove := exec_owned h
    have hsum := sum_advance Call.owns hk next
    have hold := hs.owned
    have hall : (x'.conns : Multiset Nat) + x'.held + ((advance s.calls i next).map Call.owns).sum +
        (k.owns + s.pool.live) = x'.live + (k.owns + s.pool.live) := by
      calc
        _ = (x'.conns : Multiset Nat) + x'.held + s.pool.live + (((advance s.calls i next).map Call.owns).sum + k.owns) := by
          abel
        _ = (x'.conns : Multiset Nat) + x'.held + share Call.owns next + s.pool.live + (s.calls.map Call.owns).sum := by
          rw [hsum]
          abel
        _ = x'.live + (k.owns + (s.pool.conns + s.pool.held + (s.calls.map Call.owns).sum)) := by
          rw [hmove]
          abel
        _ = _ := by rw [hold]
    exact add_right_cancel hall
  · exact exec_fresh hs.fresh h
  · obtain ⟨d,htotal,hd⟩ := exec_books h
    have howed := sum_advance Call.owed hk next
    have hun := sum_advance Call.uncounted hk next
    change x'.total = Int32.ofInt (x'.live.length + (((advance s.calls i next).map Call.owed).sum : Nat) -
      (((advance s.calls i next).map Call.uncounted).sum : Nat))
    rw [htotal, hs.books, ← Int32.ofInt_add]
    congr 1
    rw [owed, uncounted]
    omega
  · intro q hq
    have hlive : q ∈ s.pool.live ∧ k ≠ .releasing q := by
      rcases exec_conns h hq with hq | rfl
      · refine ⟨hs.mem_live (places_conns hq),?_⟩
        rintro rfl
        have hle := hs.places_le q
        have hcalls := List.le_sum_of_mem (List.mem_map_of_mem (f := fun k : Call => k.owns.count q) hmem)
        have hone : (Call.releasing q).owns.count q = 1 := Multiset.count_singleton_self q
        have hcount := List.count_pos_iff.mpr hq
        rw [places] at hle
        omega
      · exact ⟨hs.mem_live (places_call hmem (Multiset.mem_singleton_self q)),Call.noConfusion⟩
    have hdata := exec_data h (.inr (Nat.ne_of_lt (hs.fresh.2 q hlive.1))) hlive.2
    rw [Low, hdata]
    rcases exec_conns h hq with hq | rfl
    · exact hs.low q hq
    · exact hs.pushed q hmem
  · intro q hq
    rcases mem_advance hq with hnext | hother
    · exact exec_pushing h hnext
    · have hcall := mem_of_others hother
      have hlive := hs.mem_live (places_call hcall (Multiset.mem_singleton_self q))
      have hne : k ≠ .releasing q := by
        rintro rfl
        have hle := hs.places_le q
        have htwo := others_le (fun k : Call => k.owns.count q) hk hother
        have hone : (Call.releasing q).owns.count q = 1 := Multiset.count_singleton_self q
        have hone' : (Call.pushing q).owns.count q = 1 := Multiset.count_singleton_self q
        rw [places] at hle
        omega
      rw [Low, exec_data h (.inr (Nat.ne_of_lt (hs.fresh.2 q hlive))) hne]
      exact hs.pushed q hcall

theorem sound_getConnection (hs : Sound pool s) (now : UInt64) : Sound pool ⟨s.pool,s.calls ++ [.popping now]⟩ where
  owned := by
    rw [sum_begin, Call.owns, add_zero]
    exact hs.owned
  fresh := hs.fresh
  books := by
    rw [hs.books, owed, uncounted, owed, uncounted, sum_begin, sum_begin]
    rfl
  low := hs.low
  pushed q hq := by
    rcases List.mem_append.mp hq with hq | hq
    · exact hs.pushed q hq
    · cases List.mem_singleton.mp hq

/-- The user who drops a connection passes it on to `ReleasePtr`. -/
theorem sound_release (hs : Sound pool s) (hp : p ∈ s.pool.held) :
    Sound pool ⟨{ s.pool with held := s.pool.held.erase p },s.calls ++ [.releasing p]⟩ where
  owned := by
    have hheld : (s.pool.held : Multiset Nat) = ((s.pool.held.erase p : List Nat) : Multiset Nat) + {p} := by
      rw [← Multiset.coe_erase, add_comm, Multiset.singleton_add, Multiset.cons_erase (Multiset.mem_coe.mpr hp)]
    change (s.pool.conns : Multiset Nat) + (s.pool.held.erase p : List Nat) + _ = s.pool.live
    rw [sum_begin, Call.owns, ← hs.owned, hheld]
    abel
  fresh := hs.fresh
  books := by
    rw [owed, uncounted, sum_begin, sum_begin]
    exact hs.books
  low := hs.low
  pushed q hq := by
    rcases List.mem_append.mp hq with hq | hq
    · exact hs.pushed q hq
    · cases List.mem_singleton.mp hq

/-- Whatever happens next, it meets no deleted connection and keeps the books. -/
theorem act_sound (hs : Sound pool s) (a : Act) : ∃ events s', act pool a s = .ok (events,s') ∧ Sound pool s' := by
  rw [act]
  split
  · exact ⟨_,_,rfl,sound_getConnection hs a.now⟩
  · split
    · rename_i p hp
      rw [Pool.deref_live (hs.mem_live (places_held hp))]
      exact ⟨_,_,rfl,hs⟩
    · exact ⟨_,_,rfl,hs⟩
  · split
    · rename_i p hp
      exact ⟨_,_,rfl,sound_release hs hp⟩
    · exact ⟨_,_,rfl,hs⟩
  · split
    · exact ⟨_,_,rfl,hs⟩
    · rename_i k hk
      have hconns : ∀ p ∈ s.pool.conns, p ∈ s.pool.live := fun p hp => hs.mem_live (places_conns hp)
      have howns : ∀ p ∈ k.owns, p ∈ s.pool.live := fun p hp => hs.mem_live (places_call (List.mem_of_getElem? hk) hp)
      have hsafe : ∃ out, pool.exec a.toEnv k s.pool = .ok out := exec_safe hconns howns
      obtain ⟨out,he⟩ := hsafe
      rw [he]
      exact ⟨_,_,rfl,sound_exec hs hk he⟩

/-- The step that a call in progress makes meets the condition. -/
def Admitted (C : Env → Call → Pool → Prop) (a : Act) (s : System) : Prop :=
  ∀ i k, a.op = .step i → s.calls[i]? = some k → C a.toEnv k s.pool

/-- An act is one that does no step of a call, raises no event and leaves list and records, or such a step. -/
theorem act_cases (h : act pool a s = .ok (events,s')) :
    (events = [] ∧ s'.pool.conns = s.pool.conns ∧ s'.pool.data = s.pool.data ∧ ∀ C, Admitted C a s) ∨
      ∃ k next x', (∀ C, Admitted C a s ↔ C a.toEnv k s.pool) ∧ pool.exec a.toEnv k s.pool = .ok (events,next,x') ∧
        s'.pool = x' := by
  have hother : ∀ {op}, a.op = op → (∀ i, op ≠ .step i) → ∀ C, Admitted C a s := by
    rintro op rfl hne C i k hop
    exact absurd hop (hne i)
  rw [act] at h
  split at h
  · rename_i hop
    cases h
    exact .inl ⟨rfl,rfl,rfl,hother hop fun _ => Op.noConfusion⟩
  · rename_i hop
    have hquiet := hother hop fun _ => Op.noConfusion
    split at h
    · obtain ⟨-,-,he⟩ := map_ok h
      cases he
      exact .inl ⟨rfl,rfl,rfl,hquiet⟩
    · cases h
      exact .inl ⟨rfl,rfl,rfl,hquiet⟩
  · rename_i hop
    have hquiet := hother hop fun _ => Op.noConfusion
    split at h <;> (cases h; exact .inl ⟨rfl,rfl,rfl,hquiet⟩)
  · rename_i i hop
    split at h
    · rename_i hnone
      cases h
      refine .inl ⟨rfl,rfl,rfl,?_⟩
      intro C j k hj hk
      rw [hop] at hj
      cases hj
      rw [hnone] at hk
      cases hk
    · rename_i k hk
      obtain ⟨out,he,heq⟩ := map_ok h
      cases heq
      refine .inr ⟨k,out.2.1,out.2.2,?_,he,rfl⟩
      intro C
      constructor
      · intro hC
        exact hC i k hop hk
      · intro hC j k' hj hk'
        rw [hop] at hj
        cases hj
        rw [hk] at hk'
        cases hk'
        exact hC

/-- What is handed out again came from the list. -/
theorem act_reused (h : act pool a s = .ok (events,s')) {c : HttpConnection} {t : UInt64} (hc : .reused c t ∈ events) :
    ∃ p ∈ s.pool.conns, c = s.pool.data p := by
  obtain ⟨rfl,-⟩ | ⟨k,next,x',-,he,-⟩ := act_cases h
  · cases hc
  · exact exec_reused he hc

/-- Every connection that exists is in one place, and `m_total` is right as long as the number it should
show is within the limit. -/
structure Accounted (pool : HttpConnectionPool) (limit : Nat → Prop) (s : System) : Prop where
  exclusive : ∀ p, s.places p = if p ∈ s.pool.live then 1 else 0
  nonnegative : limit (s.pool.live.length + s.owed) → 0 ≤ s.pool.total.toInt
  exact : s.calls = [] → limit s.pool.live.length → s.pool.total.toInt = s.pool.live.length
  low : ∀ p ∈ s.pool.conns, Low pool s.pool p

theorem uncounted_le_card (k : Call) : k.uncounted ≤ k.owns.card := by
  cases k <;> first | exact Nat.zero_le _ | exact Nat.le_refl 1

/-- The connections not yet counted are in the hands of the calls that made them. -/
theorem Sound.uncounted_le (h : Sound pool s) : s.uncounted ≤ s.pool.live.length := by
  have hcard := congrArg Multiset.cardHom h.owned
  rw [map_add, map_add, map_list_sum, List.map_map] at hcard
  have hle : s.uncounted ≤ (s.calls.map (Multiset.cardHom ∘ Call.owns)).sum := by
    apply List.sum_le_sum
    intro k _
    exact uncounted_le_card k
  have hlive : Multiset.cardHom (s.pool.live : Multiset Nat) = s.pool.live.length := rfl
  omega

/-- The number that `m_total` has modulo `2^32`. -/
theorem Sound.total_toInt (h : Sound pool s) (hlimit : s.pool.live.length + s.owed < 2^31) :
    s.pool.total.toInt = s.pool.live.length + s.owed - s.uncounted := by
  have hle := h.uncounted_le
  rw [h.books]
  apply Int32.toInt_ofInt_of_le <;> omega

theorem Sound.accounted (h : Sound pool s) : Accounted pool (· < 2^31) s where
  exclusive p := by
    rw [h.places_eq, h.fresh.1.count]
  nonnegative hlimit := by
    have hle := h.uncounted_le
    rw [h.total_toInt hlimit]
    omega
  exact hcalls hlimit := by
    have howed : s.owed = 0 := by rw [owed, hcalls]; rfl
    have hun : s.uncounted = 0 := by rw [uncounted, hcalls]; rfl
    rw [h.total_toInt (by rw [howed]; exact hlimit), howed, hun]
    omega
  low := h.low

/-- Over any run of calls and users the connections are accounted for, none is used behind its deletion, and
none is handed out again that has served the requests allowed. -/
theorem pool_accounting (pool : HttpConnectionPool) (acts : List Act) :
    (∃ out, runAll (act pool) acts init = .ok out ∧
      ∀ events ∈ out.1, ∀ c now, .reused c now ∈ events → c.request.toNat < pool.maxRequest.toNat) ∧
    ∀ s ∈ states (act pool) acts init, s.Accounted pool (· < 2^31) := by
  have hstep : ∀ a s, Sound pool s → True → ∃ events s', act pool a s = .ok (events,s') ∧
      (∀ c now, .reused c now ∈ events → c.request.toNat < pool.maxRequest.toNat) ∧ Sound pool s' := by
    intro a s hs _
    obtain ⟨events,s',he,hs'⟩ := act_sound hs a
    refine ⟨events,s',he,?_,hs'⟩
    intro c now hc
    obtain ⟨p,hp,rfl⟩ := act_reused he hc
    exact hs.low p hp
  have halong := along_true (act pool) acts init
  constructor
  · obtain ⟨rs,t,hr,hgood,-⟩ := runAll_along hstep acts (sound_init pool) halong
    exact ⟨(rs,t),hr,hgood⟩
  · intro s hs
    have hsound : ∀ t ∈ states (act pool) acts init, Sound pool t := by
      rw [forall_states_iff]
      refine ⟨sound_init pool,along_imp (I := Sound pool) ?_ ?_ acts (sound_init pool) halong⟩
      · intro a t ht _ events t' he
        obtain ⟨events₁,t₁,he₁,ht₁⟩ := act_sound ht a
        rw [he] at he₁
        cases he₁
        exact ht₁
      · intro a t events t' ht _ he
        obtain ⟨events₁,t₁,he₁,ht₁⟩ := act_sound ht a
        rw [he] at he₁
        cases he₁
        exact ht₁
    exact (hsound s hs).accounted

/-- One user after another gets a new connection, closes it and keeps the pointer. -/
def hoard (p : Nat) : List Act :=
  [.getConnection,.step 0,.step 0,.step 0,.step 0,.step 0,.use p].map (⟨⟨0,fun _ => true,true,true,true⟩,·⟩)

def hoards (n : Nat) : List Act := (List.range n).flatMap hoard

/-- Such a round from a state without pooled connections or calls. -/
theorem hoard_run (pool : HttpConnectionPool) (x : Pool) (h : x.conns = []) :
    runAll (act pool) (hoard x.created) ⟨x,[]⟩ =
      .ok ([[],[],[],[],[],[],[]],⟨{ ((x.uncount 0).make 0).count 1 with held := x.held ++ [x.created] },[]⟩) := by
  obtain ⟨conns,total,live,data,held,created⟩ := x
  subst h
  simp [hoard, runAll, act, exec, popConns, advance, Except.map, Pool.uncount, Pool.make, Pool.count, Pool.deref]

theorem hoards_run (pool : HttpConnectionPool) (n : Nat) :
    ∃ rs x, runAll (act pool) (hoards n) init = .ok (rs,⟨x,[]⟩) ∧ x.conns = [] ∧ x.created = n ∧ x.total = Int32.ofNat n := by
  induction n with
  | zero => exact ⟨[],.init,rfl,rfl,rfl,rfl⟩
  | succ n ih =>
    obtain ⟨rs,x,hr,hconns,hcreated,htotal⟩ := ih
    have hround := hoard_run pool x hconns
    rw [hcreated] at hround
    have hrun := runAll_append (hoards n) (hoard n) hr hround
    have hsnoc : hoards n ++ hoard n = hoards (n + 1) := by
      rw [hoards, hoards, List.range_succ, List.flatMap_append, List.flatMap_singleton]
    rw [hsnoc] at hrun
    refine ⟨_,_,hrun,hconns,?_,?_⟩
    · exact congrArg (· + 1) hcreated
    · rw [Int32.ofNat_add, ← htotal]
      simp [Pool.count, Pool.make, Pool.uncount]

/-- With `2^31` connections in the hands of users `m_total` is negative. -/
theorem total_wraps :
    ¬ ∀ (pool : HttpConnectionPool) (acts : List Act), ∀ s ∈ states (act pool) acts init, s.Accounted pool fun _ => True := by
  intro h
  obtain ⟨rs,x,hr,-,-,htotal⟩ := hoards_run ⟨10,1000,10⟩ (2^31)
  have hlast := (h ⟨10,1000,10⟩ (hoards (2^31)) _ (last_mem_states _ hr)).nonnegative trivial
  rw [show (⟨x,[]⟩ : System).pool.total = Int32.ofNat (2^31) from htotal] at hlast
  revert hlast
  decide

end System
end Radixun.Http.HttpConnectionPool
