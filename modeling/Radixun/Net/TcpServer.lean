import Mathlib.Data.List.Basic

/-! `TcpServer::bind`: the sockets that the server gets and the addresses reported as failed, over one call
and over calls one after another. -/
namespace Radixun.Net
variable {Addr Sock : Type}

/-- An address of a call, the socket `CreateTCP` makes for it, and whether the socket's `bind` and `listen`
work. -/
structure Attempt (Addr Sock : Type) where
  addr : Addr
  sock : Sock
  binds : Bool
  listens : Bool
  deriving DecidableEq, Repr

def Attempt.listening (t : Attempt Addr Sock) : Bool := t.binds && t.listens

/-- `m_socks`, and the caller's `fails`. -/
structure Binding (Addr Sock : Type) where
  socks : List Sock
  fails : List Addr
  deriving DecidableEq, Repr

namespace Binding

/-- The body of the loop over `addrs`. -/
def attempt (s : Binding Addr Sock) (t : Attempt Addr Sock) : Binding Addr Sock :=
  if !t.binds then { s with fails := s.fails ++ [t.addr] }
  else if !t.listens then { s with fails := s.fails ++ [t.addr] }
  else { s with socks := s.socks ++ [t.sock] }

def bind (s : Binding Addr Sock) (addrs : List (Attempt Addr Sock)) : Bool × Binding Addr Sock :=
  let s := addrs.foldl attempt s
  if s.fails ≠ [] then (false,{ s with socks := [] }) else (true,s)

end Binding

/-- The overload for one address. -/
def bindOne (socks : List Sock) (addr : Attempt Addr Sock) : Bool × List Sock :=
  let result := Binding.bind ⟨socks,[]⟩ [addr]
  (result.1,result.2.socks)

section
variable (s : Binding Addr Sock) (addrs : List (Attempt Addr Sock))

def AllListening : Prop := ∀ t ∈ addrs, t.listening = true

instance : Decidable (AllListening addrs) := List.decidableBAll _ addrs

def failing : List Addr := (addrs.filter fun t => !t.listening).map Attempt.addr

/-- Either every address of the call is bound and its socket is added, or none is and the failing addresses
are added. -/
structure AllOrNothing : Prop where
  all : AllListening addrs → (s.bind addrs).1 = true ∧ (s.bind addrs).2.socks = s.socks ++ addrs.map Attempt.sock
  nothing : ¬AllListening addrs → (s.bind addrs).1 = false ∧ (s.bind addrs).2.fails = s.fails ++ failing addrs ∧
    (s.bind addrs).2.socks = s.socks

/-- A call with nothing to lose: no old failures if it works, no old sockets if it does not. -/
def NothingBefore : Prop := if AllListening addrs then s.fails = [] else s.socks = []

instance [DecidableEq Addr] [DecidableEq Sock] : Decidable (NothingBefore s addrs) := by
  unfold NothingBefore
  infer_instance

end

namespace Binding

theorem attempt_listening {t : Attempt Addr Sock} (h : t.listening = true) (s : Binding Addr Sock) :
    s.attempt t = { s with socks := s.socks ++ [t.sock] } := by
  obtain ⟨hb,hl⟩ := Bool.and_eq_true_iff.mp h
  rw [attempt, hb, hl]
  rfl

theorem attempt_failing {t : Attempt Addr Sock} (h : t.listening = false) (s : Binding Addr Sock) :
    s.attempt t = { s with fails := s.fails ++ [t.addr] } := by
  rw [attempt]
  rcases Bool.and_eq_false_iff.mp h with hb | hl
  · rw [hb]
    rfl
  · rw [hl]
    split
    · rfl
    · rfl

/-- The loop adds the sockets that listen and the addresses that fail. -/
theorem foldl_attempt (s : Binding Addr Sock) (addrs : List (Attempt Addr Sock)) :
    addrs.foldl attempt s =
      ⟨s.socks ++ (addrs.filter Attempt.listening).map Attempt.sock,s.fails ++ failing addrs⟩ := by
  induction addrs generalizing s with
  | nil =>
    simp only [List.foldl_nil, failing, List.filter_nil, List.map_nil, List.append_nil]
  | cons t addrs ih =>
    rw [List.foldl_cons, ih]
    cases h : t.listening with
    | true =>
      rw [attempt_listening h, failing, failing, List.filter_cons_of_pos h, List.filter_cons_of_neg (by simp [h]),
        List.map_cons, List.append_assoc, List.singleton_append]
    | false =>
      rw [attempt_failing h, failing, failing, List.filter_cons_of_neg (by simp [h]), List.filter_cons_of_pos (by simp [h]),
        List.map_cons, List.append_assoc, List.singleton_append]

end Binding

theorem failing_eq_nil_iff (addrs : List (Attempt Addr Sock)) : failing addrs = [] ↔ AllListening addrs := by
  rw [failing, List.map_eq_nil_iff, List.filter_eq_nil_iff]
  apply forall₂_congr
  intro t _
  rw [Bool.not_eq_true', Bool.not_eq_false]

section
variable (s : Binding Addr Sock) (addrs : List (Attempt Addr Sock))

theorem bind_failed (h : s.fails ++ failing addrs ≠ []) :
    s.bind addrs = (false,⟨[],s.fails ++ failing addrs⟩) := by
  rw [Binding.bind, Binding.foldl_attempt]
  exact if_pos h

theorem bind_worked (h : AllListening addrs) (hfails : s.fails = []) :
    s.bind addrs = (true,⟨s.socks ++ addrs.map Attempt.sock,[]⟩) := by
  have hnil := (failing_eq_nil_iff addrs).mpr h
  have hfilter : addrs.filter Attempt.listening = addrs := List.filter_eq_self.mpr h
  rw [Binding.bind, Binding.foldl_attempt, hnil, hfails, hfilter]
  exact if_neg fun hne => hne rfl

/-- A call is all or nothing exactly where there is nothing before it that it could lose. -/
theorem bind_iff : AllOrNothing s addrs ↔ NothingBefore s addrs := by
  rw [NothingBefore]
  by_cases h : AllListening addrs
  · rw [if_pos h]
    constructor
    · intro hbind
      by_contra hfails
      have hret := (hbind.all h).1
      rw [bind_failed s addrs (List.append_ne_nil_of_left_ne_nil hfails _)] at hret
      cases hret
    · intro hfails
      refine ⟨fun _ => ?_,fun hnot => absurd h hnot⟩
      rw [bind_worked s addrs h hfails]
      exact ⟨rfl,rfl⟩
  · rw [if_neg h]
    have hne : s.fails ++ failing addrs ≠ [] :=
      List.append_ne_nil_of_right_ne_nil _ fun hnil => h ((failing_eq_nil_iff addrs).mp hnil)
    constructor
    · intro hbind
      have hsocks := (hbind.nothing h).2.2
      rw [bind_failed s addrs hne] at hsocks
      exact hsocks.symm
    · intro hsocks
      refine ⟨fun hall => absurd hall h,fun _ => ?_⟩
      rw [bind_failed s addrs hne]
      exact ⟨rfl,rfl,hsocks.symm⟩

end

/-- A second address that cannot be bound takes the first one's socket away; trying it again with the same
`fails` takes its own away. -/
theorem bind_loses :
    ¬(∀ (s : Binding Nat Nat) (addrs : List (Attempt Nat Nat)), AllOrNothing s addrs) ∧
    Binding.bind ⟨[1],([] : List Nat)⟩ [⟨9,2,false,false⟩] = (false,⟨[],[9]⟩) ∧
    Binding.bind ⟨([] : List Nat),[9]⟩ [⟨9,2,true,true⟩] = (false,⟨[],[9]⟩) := by
  refine ⟨?_,by decide,by decide⟩
  intro h
  have hlost := ((h ⟨[1],[]⟩ [⟨9,2,false,false⟩]).nothing (by decide)).2.2
  revert hlost
  decide

/-- The overload has no old failures, so only a failure after a success is not safe. -/
theorem bindOne_socks (socks : List Sock) (addr : Attempt Addr Sock) :
    bindOne socks addr = if addr.listening then (true,socks ++ [addr.sock]) else (false,[]) := by
  cases h : addr.listening with
  | true =>
    have hall : AllListening [addr] := fun t ht => by rw [List.mem_singleton.mp ht, h]
    rw [bindOne, bind_worked _ _ hall rfl]
    rfl
  | false =>
    have hne : ([] : List Addr) ++ failing [addr] ≠ [] := by
      rw [List.nil_append, Ne, failing_eq_nil_iff]
      intro hall
      rw [hall addr (List.mem_singleton_self addr)] at h
      cases h
    rw [bindOne, bind_failed _ _ hne]
    rfl

/-! Calls one after another. -/

/-- A call with an empty `fails`, or with the one the call before left. -/
structure BindCall (Addr Sock : Type) where
  addrs : List (Attempt Addr Sock)
  fresh : Bool

def Binding.call (s : Binding Addr Sock) (c : BindCall Addr Sock) : Binding Addr Sock :=
  (Binding.bind (if c.fresh then { s with fails := [] } else s) c.addrs).2

/-- The sockets of the calls that worked as a whole. -/
def boundSocks (calls : List (BindCall Addr Sock)) : List Sock :=
  (calls.filter fun c => decide (AllListening c.addrs)).flatMap fun c => c.addrs.map Attempt.sock

/-- Every call of a run has nothing to lose. -/
def SafeRun : Binding Addr Sock → List (BindCall Addr Sock) → Prop
  | _, [] => True
  | s, c :: calls => NothingBefore (if c.fresh then { s with fails := [] } else s) c.addrs ∧ SafeRun (s.call c) calls

theorem call_socks {s : Binding Addr Sock} {c : BindCall Addr Sock}
    (h : NothingBefore (if c.fresh then { s with fails := [] } else s) c.addrs) :
    (s.call c).socks = s.socks ++ boundSocks [c] := by
  have hold : (if c.fresh then { s with fails := [] } else s).socks = s.socks := by
    split
    · rfl
    · rfl
  rw [NothingBefore] at h
  rw [Binding.call]
  by_cases hl : AllListening c.addrs
  · rw [if_pos hl] at h
    rw [bind_worked _ _ hl h, hold]
    simp [boundSocks, hl]
  · rw [if_neg hl, hold] at h
    rw [bind_failed _ _ (List.append_ne_nil_of_right_ne_nil _ fun hnil => hl ((failing_eq_nil_iff _).mp hnil)), h]
    simp [boundSocks, hl]

/-- Over a run of such calls the server keeps the sockets of all calls that worked. -/
theorem run_socks {s : Binding Addr Sock} {calls : List (BindCall Addr Sock)} (h : SafeRun s calls) :
    (calls.foldl Binding.call s).socks = s.socks ++ boundSocks calls := by
  induction calls generalizing s with
  | nil => exact (List.append_nil s.socks).symm
  | cons c calls ih =>
    obtain ⟨hc,hrest⟩ := h
    have hsplit : boundSocks (c :: calls) = boundSocks [c] ++ boundSocks calls := by
      rw [boundSocks, boundSocks, boundSocks, ← List.flatMap_append, ← List.filter_append, List.singleton_append]
    rw [List.foldl_cons, ih hrest, call_socks hc, hsplit, List.append_assoc]

end Radixun.Net
