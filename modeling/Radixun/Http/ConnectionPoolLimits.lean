import Radixun.Http.ConnectionPoolAccounting

/-! The limits of an `HttpConnectionPool`: the age of its connections, against a creation time that is never
set and two comparisons, and the number of pooled ones, which nothing checks. -/
namespace Radixun.Http.HttpConnectionPool
open Radixun.Foundation CommandRuns CallsInProgress

/-- A connection handed out again is not older than the limit, one given up for its age is not younger. -/
def Event.Fine (pool : HttpConnectionPool) : Event → Prop
  | .reused c now => now.toNat ≤ c.born.toNat + pool.maxAliveTime.toNat
  | .aged c now => c.born.toNat + pool.maxAliveTime.toNat ≤ now.toNat

instance (pool : HttpConnectionPool) : (e : Event) → Decidable (e.Fine pool)
  | .reused _ _ => Nat.decLe _ _
  | .aged _ _ => Nat.decLe _ _

variable {pool : HttpConnectionPool} {env : Env} {now : UInt64} {k : Call} {next : Option Call} {x x' : Pool} {p : Nat}
  {ps : List Nat} {r : Popped} {events : List Event} {s s' : System} {a : Act} {c : HttpConnection}

/-- No record has a creation time. -/
def Pool.Timeless (x : Pool) : Prop := ∀ p, (x.data p).createTime = 0

theorem expiredOnGet_iff (hc : c.createTime = 0) (now : UInt64) :
    pool.expiredOnGet c now = true ↔ now.toNat < pool.maxAliveTime.toNat := by
  rw [expiredOnGet, hc, UInt64.zero_add, decide_eq_true_iff, gt_iff_lt, UInt64.lt_iff_toNat_lt, UInt32.toNat_toUInt64]

theorem expiredOnRelease_iff (hc : c.createTime = 0) (now : UInt64) :
    pool.expiredOnRelease c now = true ↔ now.toNat ≤ pool.maxAliveTime.toNat := by
  rw [expiredOnRelease, hc, UInt64.zero_add, decide_eq_true_iff, ge_iff_le, UInt64.le_iff_toNat_le, UInt32.toNat_toUInt64]

/-- While the clock itself is below the limit `getConnection` gives up whatever is connected; later it takes
the first such connection, however old. -/
def PopAdmits (pool : HttpConnectionPool) (env : Env) (now : UInt64) (x : Pool) (ps : List Nat) : Prop :=
  if now.toNat < pool.maxAliveTime.toNat then ∀ p ∈ ps, ¬ env.isConnected p = true
  else ∀ p, ps.find? env.isConnected = some p → now.toNat ≤ (x.data p).born.toNat + pool.maxAliveTime.toNat

theorem discard_fine (p : Nat) (events : List Event) (r : Popped) :
    (∀ e ∈ (r.discard p events).events, e.Fine pool) ↔ (∀ e ∈ events, e.Fine pool) ∧ ∀ e ∈ r.events, e.Fine pool :=
  List.forall_mem_append

theorem popAdmits_skip (h : ¬ env.isConnected p = true) :
    PopAdmits pool env now x (p :: ps) ↔ PopAdmits pool env now x ps := by
  rw [PopAdmits, PopAdmits, List.find?_cons_of_neg h, List.forall_mem_cons, and_iff_right h]

/-- What the loop hands out or gives up for its age is in order exactly where the list allows it. -/
theorem popConns_fine_iff (hx : x.Timeless) (h : pool.popConns env now x ps = .ok r) :
    (∀ e ∈ r.events, e.Fine pool) ↔ PopAdmits pool env now x ps := by
  induction ps generalizing r with
  | nil =>
    cases h
    refine iff_of_true (fun e he => by cases he) ?_
    rw [PopAdmits]
    split
    · intro p hp; cases hp
    · intro p hp; cases hp
  | cons p ps ih =>
    rw [popConns] at h
    split at h
    · cases h
    · rename_i c hp
      obtain ⟨-,rfl⟩ := Pool.deref_ok hp
      by_cases hconn : env.isConnected p = true
      · simp only [hconn, Bool.not_true, Bool.false_eq_true, if_false, expiredOnGet_iff (hx p)] at h
        rw [PopAdmits]
        by_cases hnow : now.toNat < pool.maxAliveTime.toNat
        · -- the connection is given up, and with so early a clock it is always too young for that
          rw [if_pos hnow] at h ⊢
          obtain ⟨r₀,-,rfl⟩ := map_ok h
          rw [discard_fine]
          refine iff_of_false ?_ fun hall => hall p List.mem_cons_self hconn
          intro hfine
          have hthis := hfine.1 _ List.mem_cons_self
          rw [Event.Fine] at hthis
          omega
        · rw [if_neg hnow] at h ⊢
          cases h
          rw [List.find?_cons_of_pos hconn]
          simp only [List.mem_singleton, forall_eq, Option.some.injEq, forall_eq', Event.Fine]
      · simp only [hconn, Bool.not_false, if_true] at h
        obtain ⟨r₀,h₀,rfl⟩ := map_ok h
        rw [discard_fine, and_iff_right (fun e he => by cases he), ih h₀, popAdmits_skip hconn]

/-- A step whose tests of age, the wrong way round and without a creation time, come out right. -/
def AgesKept (pool : HttpConnectionPool) (env : Env) (k : Call) (x : Pool) : Prop :=
  match k with
  | .popping now => PopAdmits pool env now x x.conns
  | .releasing p =>
    env.isConnected p = true → env.now.toNat ≤ pool.maxAliveTime.toNat →
      (x.data p).countRequest.request < pool.maxRequest.toUInt64 →
      (x.data p).born.toNat + pool.maxAliveTime.toNat ≤ env.now.toNat
  | _ => True

theorem releaseChecks_fine_iff (hx : x.Timeless) (h : pool.releaseChecks env x p = .ok (events,next,x')) :
    (∀ e ∈ events, e.Fine pool) ↔ AgesKept pool env (.releasing p) x := by
  rw [releaseChecks] at h
  split at h
  · cases h
  · rename_i c hp
    obtain ⟨-,rfl⟩ := Pool.deref_ok hp
    have hexpired : pool.expiredOnRelease (x.data p).countRequest env.now = true ↔ env.now.toNat ≤ pool.maxAliveTime.toNat :=
      expiredOnRelease_iff (hx p) env.now
    rw [AgesKept]
    simp only [hexpired] at h
    by_cases hconn : env.isConnected p = true
    · simp only [hconn, Bool.not_true, Bool.false_eq_true, if_false] at h
      by_cases hnow : env.now.toNat ≤ pool.maxAliveTime.toNat
      · rw [if_pos hnow] at h
        cases h
        by_cases hlow : (x.data p).countRequest.request < pool.maxRequest.toUInt64
        · rw [if_pos hlow, List.forall_mem_singleton]
          exact ⟨fun hfine _ _ _ => hfine,fun hkept => hkept hconn hnow hlow⟩
        · rw [if_neg hlow]
          exact iff_of_true (fun e he => by cases he) fun _ _ hlow' => absurd hlow' hlow
      · rw [if_neg hnow] at h
        refine iff_of_true ?_ fun _ hnow' => absurd hnow' hnow
        split at h <;> (cases h; exact fun e he => by cases he)
    · simp only [hconn, Bool.not_false, if_true] at h
      cases h
      exact iff_of_true (fun e he => by cases he) fun hconn' => absurd hconn' hconn

theorem exec_fine_iff (hx : x.Timeless) (h : pool.exec env k x = .ok (events,next,x')) :
    (∀ e ∈ events, e.Fine pool) ↔ AgesKept pool env k x := by
  have hquiet : events = [] → ((∀ e ∈ events, e.Fine pool) ↔ True) := by
    rintro rfl
    exact iff_of_true (fun e he => by cases he) trivial
  cases k with
  | popping now =>
    obtain ⟨r,hr,he⟩ := map_ok h
    cases he
    exact popConns_fine_iff hx hr
  | releasing p => exact releaseChecks_fine_iff hx h
  | deleting deleted left ptr =>
    cases left with
    | cons p left =>
      obtain ⟨x₁,-,he⟩ := map_ok h
      cases he
      exact hquiet rfl
    | nil => cases ptr <;> (cases h; exact hquiet rfl)
  | connecting => exact hquiet (exec_connecting_events h)
  | destroying p =>
    obtain ⟨x₁,-,he⟩ := map_ok h
    cases he
    exact hquiet rfl
  | counting p => cases h; exact hquiet rfl
  | returning p => cases h; exact hquiet rfl
  | uncounting => cases h; exact hquiet rfl
  | pushing p => cases h; exact hquiet rfl

/-- A step that leaves the list within the size. Only the push makes it longer. -/
def RoomLeft (pool : HttpConnectionPool) (k : Call) (x : Pool) : Prop :=
  match k with
  | .pushing _ => x.conns.length < pool.maxSize.toNat
  | _ => True

theorem exec_room_iff (hsize : x.conns.length ≤ pool.maxSize.toNat) (h : pool.exec env k x = .ok (events,next,x')) :
    x'.conns.length ≤ pool.maxSize.toNat ↔ RoomLeft pool k x := by
  have hsame : x'.conns = x.conns → (x'.conns.length ≤ pool.maxSize.toNat ↔ True) := fun heq =>
    iff_of_true (by rw [heq]; exact hsize) trivial
  cases k with
  | popping now =>
    obtain ⟨r,hr,he⟩ := map_ok h
    cases he
    have hcard := congrArg Multiset.card (popConns_owned hr)
    simp only [Multiset.card_add, Multiset.coe_card] at hcard
    refine iff_of_true ?_ trivial
    change r.rest.length ≤ pool.maxSize.toNat
    omega
  | releasing p =>
    obtain ⟨rfl,-⟩ := releaseChecks_ok h
    exact hsame rfl
  | deleting deleted left ptr =>
    cases left with
    | cons p left =>
      obtain ⟨-,he⟩ := Pool.deleted h
      cases he
      exact hsame rfl
    | nil => cases ptr <;> (cases h; exact hsame rfl)
  | connecting => obtain ⟨-,rfl⟩ | ⟨-,rfl⟩ := exec_connecting h <;> exact hsame rfl
  | destroying p =>
    obtain ⟨-,he⟩ := Pool.deleted h
    cases he
    exact hsame rfl
  | counting p => cases h; exact hsame rfl
  | returning p => cases h; exact hsame rfl
  | uncounting => cases h; exact hsame rfl
  | pushing p =>
    cases h
    change (x.conns ++ [p]).length ≤ pool.maxSize.toNat ↔ x.conns.length < pool.maxSize.toNat
    rw [List.length_append, List.length_singleton, Nat.succ_le_iff]

namespace System

/-- The acts whose step keeps the ages and finds room. -/
def Admits (pool : HttpConnectionPool) (a : Act) (s : System) : Prop :=
  Admitted (AgesKept pool) a s ∧ Admitted (fun _ => RoomLeft pool) a s

theorem act_timeless (hs : s.pool.Timeless) (h : act pool a s = .ok (events,s')) : s'.pool.Timeless := by
  obtain ⟨-,-,hdata,-⟩ | ⟨k,next,x',-,he,rfl⟩ := act_cases h
  · intro p
    rw [hdata]
    exact hs p
  · exact exec_createTime hs he

theorem act_fine_iff (hs : s.pool.Timeless) (h : act pool a s = .ok (events,s')) :
    (∀ e ∈ events, e.Fine pool) ↔ Admitted (AgesKept pool) a s := by
  obtain ⟨rfl,-,-,hquiet⟩ | ⟨k,next,x',hat,he,-⟩ := act_cases h
  · exact iff_of_true (fun e he => by cases he) (hquiet _)
  · rw [hat]
    exact exec_fine_iff hs he

theorem act_room_iff (hsize : s.pool.conns.length ≤ pool.maxSize.toNat) (h : act pool a s = .ok (events,s')) :
    s'.pool.conns.length ≤ pool.maxSize.toNat ↔ Admitted (fun _ => RoomLeft pool) a s := by
  obtain ⟨-,hconns,-,hquiet⟩ | ⟨k,next,x',hat,he,rfl⟩ := act_cases h
  · rw [hconns]
    exact iff_of_true hsize (hquiet _)
  · rw [hat fun _ => RoomLeft pool]
    exact exec_room_iff hsize he

theorem act_keeps (hs : Sound pool s ∧ s.pool.Timeless) (h : act pool a s = .ok (events,s')) :
    Sound pool s' ∧ s'.pool.Timeless := by
  obtain ⟨events₁,s₁,he,hsound⟩ := act_sound hs.1 a
  rw [h] at he
  cases he
  exact ⟨hsound,act_timeless hs.2 h⟩

theorem init_keeps (pool : HttpConnectionPool) : Sound pool init ∧ init.pool.Timeless := ⟨sound_init pool,fun _ => rfl⟩

/-- The ages come out right over a run exactly where they do at each step. -/
theorem ages_iff (pool : HttpConnectionPool) (acts : List Act) :
    Succeeds (fun events => ∀ e ∈ events, e.Fine pool) (act pool) acts init ↔
      Along (Admitted (AgesKept pool)) (act pool) acts init := by
  refine succeeds_iff_along (I := fun s => Sound pool s ∧ s.pool.Timeless) ?_ ?_ acts (init_keeps pool)
  · intro a s hs hadmitted
    obtain ⟨events,s',he,-⟩ := act_sound hs.1 a
    exact ⟨events,s',he,(act_fine_iff hs.2 he).mpr hadmitted,act_keeps hs he⟩
  · intro a s hs hnot events s' he hfine
    exact hnot ((act_fine_iff hs.2 he).mp hfine)

/-- The list stays within its size over a run exactly where each push finds room. -/
theorem size_iff (pool : HttpConnectionPool) (acts : List Act) :
    (∀ s ∈ states (act pool) acts init, s.pool.conns.length ≤ pool.maxSize.toNat) ↔
      Along (Admitted fun _ => RoomLeft pool) (act pool) acts init := by
  have hinit : init.pool.conns.length ≤ pool.maxSize.toNat := Nat.zero_le _
  rw [forall_states_iff, and_iff_right hinit]
  refine along_congr (I := fun s => Sound pool s ∧ s.pool.conns.length ≤ pool.maxSize.toNat) ?_ ?_ acts
    ⟨sound_init pool,hinit⟩
  · intro a s hs
    obtain ⟨events,s',he,-⟩ := act_sound hs.1 a
    rw [← act_room_iff hs.2 he]
    constructor
    · intro h
      exact h events s' he
    · intro h events₁ s₁ he₁
      rw [he] at he₁
      cases he₁
      exact h
  · intro a s events s' hs hadmitted he
    obtain ⟨events₁,s₁,he₁,hsound⟩ := act_sound hs.1 a
    rw [he] at he₁
    cases he₁
    exact ⟨hsound,(act_room_iff hs.2 he).mpr hadmitted⟩

/-- Over a run the limits hold exactly where each step of a call is one that does not test them wrong. -/
theorem limits_enforced_iff (pool : HttpConnectionPool) (acts : List Act) :
    (Succeeds (fun events => ∀ e ∈ events, e.Fine pool) (act pool) acts init ∧
      ∀ s ∈ states (act pool) acts init, s.pool.conns.length ≤ pool.maxSize.toNat) ↔
    Along (Admits pool) (act pool) acts init := by
  rw [ages_iff, size_iff]
  exact (along_and acts).symm

/-- A connection is made at the given time, released and asked for again later. -/
def reuse (made later : UInt64) : List Act :=
  [⟨⟨made,fun _ => true,true,true,true⟩,.getConnection⟩] ++
    [.step 0,.step 0,.step 0,.step 0,.step 0,.release 0,.step 0,.step 0].map (⟨⟨made,fun _ => true,true,true,true⟩,·⟩) ++
    [.getConnection,.step 0].map (⟨⟨later,fun _ => true,true,true,true⟩,·⟩)

/-- The connection handed out again is two seconds old, where one is allowed. -/
theorem old_connection_reused :
    ¬ ∀ (pool : HttpConnectionPool) (acts : List Act), acts.Pairwise (·.now ≤ ·.now) →
      Succeeds (fun events => ∀ e ∈ events, e.Fine pool) (act pool) acts init ∧
        ∀ s ∈ states (act pool) acts init, s.pool.conns.length ≤ pool.maxSize.toNat := by
  intro h
  obtain ⟨⟨rs,t,hr,hfine⟩,-⟩ := h ⟨10,1000,10⟩ (reuse 1700000000000 1700000002000) (by decide +kernel)
  have hevents : (runAll (act ⟨10,1000,10⟩) (reuse 1700000000000 1700000002000) init).map (·.1) =
      .ok [[],[],[],[],[],[],[],[],[],[],[.reused ⟨0,1,1700000000000⟩ 1700000002000]] := by
    decide +kernel
  rw [hr] at hevents
  cases hevents
  have hlast := hfine [.reused ⟨0,1,1700000000000⟩ 1700000002000] (by simp) _ List.mem_cons_self
  revert hlast
  decide +kernel

end System
end Radixun.Http.HttpConnectionPool
