import Radixun.Common.HookNonblock
import Radixun.Net.SocketAddresses

/-! The descriptors of a process: the kernel's table, the contexts that the hooks keep of it, and the `Socket`
objects that hold them, over runs in which the kernel picks any free descriptor. -/
namespace Radixun.Net
open Foundation CommandRuns Common

/-- An open descriptor with its status flags; `ours` where a `Socket` opened it. -/
structure OpenFile where
  isSocket : Bool
  flags : BitVec 32
  ours : Bool

/-- `ctxs` is the table of `FdMgr`; the sockets are the objects that live. -/
structure Process where
  files : Nat → Option OpenFile
  ctxs : Nat → Option FdCtx
  sockets : Nat → Option Socket
  next : Nat

namespace Process

/-- Before the first socket, with what is open of other parts of the process. -/
def start (others : Nat → Option (Bool × BitVec 32)) : Process :=
  ⟨fun fd => (others fd).map fun f => ⟨f.1,f.2,false⟩,fun _ => none,fun _ => none,0⟩

/-- What a call that opens a descriptor returns: a free one, or -1. -/
def granted (p : Process) (fd : Int) : Int := if 0 ≤ fd ∧ p.files fd.toNat = none then fd else -1

def setSocket (p : Process) (i : Nat) (s : Option Socket) : Process := { p with sockets := Function.update p.sockets i s }

/-- `FdMgr::GetInstance()->get(fd, true)`. -/
def manage (k : Settable) (p : Process) (fd : Nat) : Process :=
  match p.ctxs fd, p.files fd with
  | none, some f => { p with
      ctxs := Function.update p.ctxs fd (some (.new (.ofNat fd) (some f.isSocket)))
      files := Function.update p.files fd (some { f with flags := FdCtx.initFlags k (.raw (.ofNat fd)) (some f.isSocket) f.flags }) }
  | none, none => { p with ctxs := Function.update p.ctxs fd (some (.new (.ofNat fd) none)) }
  | some _, _ => p

/-- `socket` and `accept` with the descriptor that they get. `socket` makes a context only on a thread with hooks. -/
def opened (k : Settable) (managed : Bool) (fd : Int) (flags : BitVec 32) (p : Process) : Process :=
  if fd = -1 then p
  else
    let p := { p with files := Function.update p.files fd.toNat (some ⟨true,flags,true⟩) }
    if managed then p.manage k fd.toNat else p

/-- `::close`, hooked or not. -/
def closed (hooked : Bool) (fd : Int) (p : Process) : Process :=
  if fd = -1 then p
  else { p with
    ctxs := if hooked then Function.update p.ctxs fd.toNat none else p.ctxs
    files := Function.update p.files fd.toNat none }

/-- One more object. -/
def add (p : Process) (s : Socket) : Process := { p.setSocket p.next (some s) with next := p.next + 1 }

/-- The constructor and the functions that call it. -/
def create (family : Int) (p : Process) : Process := p.add (.new family)

variable (k : Settable)

def bind (i : Nat) (addrFamily : Int) (c : Socket.Syscalls) (flags : BitVec 32) (hooked : Bool) (p : Process) : Process :=
  match p.sockets i with
  | none => p
  | some s =>
    let c := { c with opened := p.granted c.opened }
    let p := if s.isValid then p else p.opened k hooked c.opened flags
    p.setSocket i (some (s.bind addrFamily c).2)

/-- Where `m_sock` is -1 in the end and was not, `close()` has closed the descriptor. -/
def connect (i : Nat) (addrFamily : Int) (c : Socket.Syscalls) (flags : BitVec 32) (hooked : Bool) (p : Process) : Process :=
  match p.sockets i with
  | none => p
  | some s =>
    let c := { c with opened := p.granted c.opened }
    let p := if s.isValid then p else p.opened k hooked c.opened flags
    let s' := (s.connect addrFamily c).2
    let p := if s'.sock = -1 then p.closed hooked (s.ensureSock c).sock else p
    p.setSocket i (some s')

/-- `init` of the object that `accept` makes, which lives on if this goes well. -/
def adopt (family newsock : Int) (reports : Reports) (nameAnswers peerAnswers : Bool) (p : Process) : Process :=
  match p.ctxs newsock.toNat with
  | none => p
  | some ctx =>
    if ctx.isSocket && !ctx.isClosed then p.add (.init family newsock reports nameAnswers peerAnswers) else p

def accept (i : Nat) (fd : Int) (flags : BitVec 32) (reports : Reports) (nameAnswers peerAnswers : Bool) (p : Process) : Process :=
  match p.sockets i with
  | none => p
  | some s =>
    let newsock := if s.isValid then p.granted fd else -1
    -- the hooked `accept` asks for the context whatever `t_hook_enable` is
    let p := p.opened k true newsock flags
    if newsock = -1 then p else p.adopt s.family newsock reports nameAnswers peerAnswers

def close (i : Nat) (hooked : Bool) (p : Process) : Process :=
  match p.sockets i with
  | none => p
  | some s => (p.closed hooked s.sock).setSocket i (some s.close.2)

/-- The destructor, which calls `close()`. -/
def destroy (i : Nat) (hooked : Bool) (p : Process) : Process :=
  match p.sockets i with
  | none => p
  | some s => (p.closed hooked s.sock).setSocket i none

/-- Another part of the process opens a descriptor. -/
def openOther (fd : Int) (isSocket : Bool) (flags : BitVec 32) (p : Process) : Process :=
  if p.granted fd = -1 then p else { p with files := Function.update p.files fd.toNat (some ⟨isSocket,flags,false⟩) }

/-- Another part of the process closes a descriptor, one of its own. -/
def closeOther (fd : Nat) (hooked : Bool) (p : Process) : Process :=
  if (p.files fd).any (!·.ours) then p.closed hooked fd else p

end Process

/-- What is done to sockets and descriptors; `hooked` is `t_hook_enable` of the thread. -/
inductive DescriptorCall where
  | create (family : Int)
  | bind (i : Nat) (addrFamily : Int) (c : Socket.Syscalls) (flags : BitVec 32) (hooked : Bool)
  | connect (i : Nat) (addrFamily : Int) (c : Socket.Syscalls) (flags : BitVec 32) (hooked : Bool)
  | accept (i : Nat) (fd : Int) (flags : BitVec 32) (reports : Reports) (nameAnswers peerAnswers : Bool)
  | close (i : Nat) (hooked : Bool)
  | destroy (i : Nat) (hooked : Bool)
  | openOther (fd : Int) (isSocket : Bool) (flags : BitVec 32)
  | closeOther (fd : Nat) (hooked : Bool)

namespace Process
variable (k : Settable)

def step (p : Process) : DescriptorCall → Process
  | .create family => p.create family
  | .bind i addrFamily c flags hooked => p.bind k i addrFamily c flags hooked
  | .connect i addrFamily c flags hooked => p.connect k i addrFamily c flags hooked
  | .accept i fd flags reports nameAnswers peerAnswers => p.accept k i fd flags reports nameAnswers peerAnswers
  | .close i hooked => p.close i hooked
  | .destroy i hooked => p.destroy i hooked
  | .openOther fd isSocket flags => p.openOther fd isSocket flags
  | .closeOther fd hooked => p.closeOther fd hooked

def perform (c : DescriptorCall) (p : Process) : Except Empty (Unit × Process) := .ok ((),p.step k c)

/-- A thread without hooks closes a descriptor that has a context. -/
def Strands (c : DescriptorCall) (p : Process) : Prop :=
  match c with
  | .connect i addrFamily c _ hooked =>
    ∃ s, p.sockets i = some s ∧ s.isValid = true ∧ addrFamily = s.family ∧ c.done = false ∧ hooked = false ∧ p.ctxs s.sock.toNat ≠ none
  | .close i hooked | .destroy i hooked => ∃ s, p.sockets i = some s ∧ s.isValid = true ∧ hooked = false ∧ p.ctxs s.sock.toNat ≠ none
  | _ => False

/-- A socket that has a descriptor has one that is open and that a `Socket` opened, and no two have the same. -/
structure Owned (p : Process) : Prop where
  held : ∀ i s, p.sockets i = some s → s.isValid = true → 0 ≤ s.sock ∧ ∃ f, p.files s.sock.toNat = some f ∧ f.ours = true
  one : ∀ i j s t, p.sockets i = some s → p.sockets j = some t → s.isValid = true → s.sock = t.sock → i = j
  fresh : ∀ i, p.next ≤ i → p.sockets i = none
  ctxs : ∀ fd c, p.ctxs fd = some c → c.isSocket = true ∧ c.isClosed = false

/-- Every descriptor that a `Socket` opened is held by one. -/
def NoneLost (p : Process) : Prop := ∀ fd f, p.files fd = some f → f.ours = true → ∃ i s, p.sockets i = some s ∧ s.sock = fd

/-- Every context is that of an open socket, which is nonblocking as the context says. -/
def Managed (p : Process) : Prop :=
  ∀ fd c, p.ctxs fd = some c → ∃ f, p.files fd = some f ∧ f.ours = true ∧ f.flags &&& nonblockFlag = nonblockFlag

/-- What a call can do to the process; `stranded` tells the changes that leave a context without a descriptor. -/
inductive Change (p : Process) : (stranded : Prop) → Process → Prop
  | same : Change p False p
  | touch {i : Nat} {s s' : Socket} (hs : p.sockets i = some s) (hsock : s'.sock = s.sock) :
      Change p False (p.setSocket i (some s'))
  | take {i : Nat} {s s' : Socket} {fd : Int} {flags : BitVec 32} {hooked : Bool} (hs : p.sockets i = some s) (hnone : s.isValid = false)
      (hfree : 0 ≤ fd ∧ p.files fd.toNat = none) (hsock : s'.sock = fd) :
      Change p False ((p.opened k hooked fd flags).setSocket i (some s'))
  | attempt {i : Nat} {s s' : Socket} {fd : Int} {flags : BitVec 32} {hooked : Bool} (hs : p.sockets i = some s)
      (hnone : s.isValid = false) (hfree : 0 ≤ fd ∧ p.files fd.toNat = none) (hsock : s'.isValid = false) :
      Change p False (((p.opened k hooked fd flags).closed hooked fd).setSocket i (some s'))
  | drop {i : Nat} {s : Socket} {o : Option Socket} {hooked : Bool} (hs : p.sockets i = some s) (hvalid : s.isValid = true)
      (ho : ∀ s' ∈ o, s'.isValid = false) :
      Change p (hooked = false ∧ p.ctxs s.sock.toNat ≠ none) ((p.closed hooked s.sock).setSocket i o)
  | empty {i : Nat} {s : Socket} {o : Option Socket} (hs : p.sockets i = some s) (hnone : s.isValid = false)
      (ho : ∀ s' ∈ o, s'.isValid = false) : Change p False (p.setSocket i o)
  | make {s : Socket} (hsock : s.isValid = false) : Change p False (p.add s)
  | adopt {s : Socket} {fd : Int} {flags : BitVec 32} (hfree : 0 ≤ fd ∧ p.files fd.toNat = none) (hsock : s.sock = fd) :
      Change p False ((p.opened k true fd flags).add s)
  | openOther {fd : Int} {isSocket : Bool} {flags : BitVec 32} (hfree : 0 ≤ fd ∧ p.files fd.toNat = none) :
      Change p False { p with files := Function.update p.files fd.toNat (some ⟨isSocket,flags,false⟩) }
  | closeOther {fd : Nat} {f : OpenFile} {hooked : Bool} (hf : p.files fd = some f) (hours : f.ours = false) :
      Change p False (p.closed hooked fd)

variable {k} {p p' : Process} {i : Nat} {fd : Int} {flags : BitVec 32} {hooked : Bool} {stranded : Prop}

theorem granted_free (h : p.granted fd ≠ -1) : p.granted fd = fd ∧ 0 ≤ fd ∧ p.files fd.toNat = none := by
  rw [granted] at h ⊢
  split at h
  · rename_i hfree
    exact ⟨if_pos hfree,hfree⟩
  · exact absurd rfl h

theorem isValid_iff {s : Socket} : s.isValid = true ↔ s.sock ≠ -1 := by rw [Socket.isValid, decide_eq_true_iff]

theorem not_isValid_iff {s : Socket} : s.isValid = false ↔ s.sock = -1 := by rw [Socket.isValid, decide_eq_false_iff_not, not_not]

theorem opened_none : p.opened k hooked (-1) flags = p := if_pos rfl

theorem closed_none : p.closed hooked (-1) = p := if_pos rfl

theorem setSocket_self (i : Nat) (o : Option Socket) : (p.setSocket i o).sockets i = o := Function.update_self ..

theorem setSocket_of_ne {j : Nat} (hj : j ≠ i) (o : Option Socket) : (p.setSocket i o).sockets j = p.sockets j :=
  Function.update_of_ne hj ..

/-- What `bind` leaves of `m_sock`. -/
theorem bind_sock (addrFamily : Int) (c : Socket.Syscalls) (s : Socket) : (s.bind addrFamily c).2.sock = (s.ensureSock c).sock := by
  rw [Socket.bind]
  simp only [Socket.getLocalAddress]
  split
  · rfl
  · split
    · rfl
    · split <;> rfl

/-- What `connect` leaves of it. -/
theorem connect_sock (addrFamily : Int) (c : Socket.Syscalls) (s : Socket) : (s.connect addrFamily c).2.sock =
    if (s.ensureSock c).isValid = true ∧ addrFamily = s.family ∧ c.done = false then -1 else (s.ensureSock c).sock := by
  rw [Socket.connect, ← Socket.ensureSock_family c s]
  generalize s.ensureSock c = t
  cases hv : t.isValid with
  | false => simp
  | true =>
    have hsock := isValid_iff.mp hv
    by_cases hfamily : addrFamily = t.family
    · cases hdone : c.done with
      | false => simp [hfamily, Socket.close, hsock]
      | true => simp [hfamily, Socket.getLocalAddress, Socket.getRemoteAddress]
    · simp [hfamily]

theorem ensureSock_sock (c : Socket.Syscalls) (s : Socket) : (s.ensureSock c).sock = if s.isValid then s.sock else c.opened := by
  rw [Socket.ensureSock]
  split <;> rfl

theorem close_isValid (s : Socket) : s.close.2.isValid = false := by
  rw [not_isValid_iff, Socket.close]
  split
  · rename_i h
    simp only [Bool.and_eq_true, beq_iff_eq] at h
    exact h.2
  · rfl

theorem bind_change (addrFamily : Int) (c : Socket.Syscalls) : Change k p False (p.bind k i addrFamily c flags hooked) := by
  rw [bind]
  split
  · exact .same
  · rename_i s hs
    have hsock := bind_sock addrFamily { c with opened := p.granted c.opened } s
    rw [ensureSock_sock] at hsock
    cases hv : s.isValid with
    | true =>
      simp only [hv, if_true] at hsock ⊢
      exact .touch hs hsock
    | false =>
      simp only [hv, Bool.false_eq_true, if_false] at hsock ⊢
      by_cases hgot : p.granted c.opened = -1
      · rw [hgot, opened_none]
        rw [hgot] at hsock
        refine .touch hs ?_
        rw [hsock]
        exact (not_isValid_iff.mp hv).symm
      · obtain ⟨heq,hfree⟩ := granted_free hgot
        rw [heq] at hsock ⊢
        exact .take hs hv hfree hsock

theorem connect_change (addrFamily : Int) (c : Socket.Syscalls) (flags : BitVec 32) (hooked : Bool) :
    ∃ stranded, Change k p stranded (p.connect k i addrFamily c flags hooked) ∧
      (stranded ↔ p.Strands (.connect i addrFamily c flags hooked)) := by
  rw [connect]
  cases hs : p.sockets i with
  | none =>
    refine ⟨False,.same,?_⟩
    simp [Strands, hs]
  | some s =>
    have hsock := connect_sock addrFamily { c with opened := p.granted c.opened } s
    simp only [isValid_iff, ensureSock_sock] at hsock ⊢
    generalize (s.connect addrFamily { c with opened := p.granted c.opened }).2 = s' at hsock
    cases hv : s.isValid with
    | true =>
      have hne := isValid_iff.mp hv
      simp only [ne_eq, hne, not_false_eq_true, if_true] at hsock ⊢
      by_cases hfail : addrFamily = s.family ∧ c.done = false
      · rw [if_pos ⟨trivial,hfail⟩] at hsock
        rw [if_pos hsock]
        refine ⟨_,.drop hs hv ?_,?_⟩
        · intro s₁ h₁
          cases h₁
          exact not_isValid_iff.mpr hsock
        · simp [Strands, hs, hv, hfail]
      · rw [if_neg fun h => hfail h.2] at hsock
        rw [if_neg (hsock ▸ hne)]
        refine ⟨False,.touch hs hsock,?_⟩
        simp only [Strands, hs]
        constructor
        · exact False.elim
        · rintro ⟨s₁,h₁,-,hfamily,hdone,-⟩
          cases h₁
          exact hfail ⟨hfamily,hdone⟩
    | false =>
      have hstranded : False ↔ p.Strands (.connect i addrFamily c flags hooked) := by
        simp [Strands, hs, hv]
      have hnone := not_isValid_iff.mp hv
      simp only [ne_eq, hnone, not_true_eq_false, if_false] at hsock ⊢
      by_cases hgot : p.granted c.opened = -1
      · rw [hgot] at hsock ⊢
        rw [opened_none, closed_none, ite_self]
        refine ⟨False,.touch hs ?_,hstranded⟩
        rw [hsock, hnone, ite_self]
      · obtain ⟨heq,hfree⟩ := granted_free hgot
        rw [heq] at hsock hgot ⊢
        by_cases hfail : addrFamily = s.family ∧ c.done = false
        · rw [if_pos ⟨hgot,hfail⟩] at hsock
          rw [if_pos hsock]
          exact ⟨False,.attempt hs hv hfree (not_isValid_iff.mpr hsock),hstranded⟩
        · rw [if_neg fun h => hfail h.2] at hsock
          rw [if_neg (hsock ▸ hgot)]
          exact ⟨False,.take hs hv hfree hsock,hstranded⟩

/-- On a thread with hooks an opened descriptor has a context. -/
theorem opened_ctxs (hfd : 0 ≤ fd) : (p.opened k hooked fd flags).ctxs =
    if hooked = true ∧ p.ctxs fd.toNat = none then Function.update p.ctxs fd.toNat (some (.new (.ofNat fd.toNat) (some true)))
    else p.ctxs := by
  have hne : fd ≠ -1 := by omega
  rw [opened, if_neg hne]
  cases hooked with
  | false => rfl
  | true =>
    cases hctx : p.ctxs fd.toNat with
    | none => simp [manage, hctx]
    | some c => simp [manage, hctx]

/-- A descriptor that `accept` gets always has the context that `init` looks for. -/
theorem accept_change (hp : p.Owned) (reports : Reports) (nameAnswers peerAnswers : Bool) :
    Change k p False (p.accept k i fd flags reports nameAnswers peerAnswers) := by
  rw [accept]
  cases hs : p.sockets i with
  | none => exact .same
  | some s =>
    cases hv : s.isValid with
    | false =>
      simp only [hv, Bool.false_eq_true, if_false, if_true, opened_none]
      exact .same
    | true =>
      simp only [hv, if_true]
      by_cases hgot : p.granted fd = -1
      · rw [if_pos hgot, hgot, opened_none]
        exact .same
      · obtain ⟨heq,hfree⟩ := granted_free hgot
        rw [if_neg hgot, heq]
        obtain ⟨c,hc,hsocket,hclosed⟩ :
            ∃ c, (p.opened k true fd flags).ctxs fd.toNat = some c ∧ c.isSocket = true ∧ c.isClosed = false := by
          rw [opened_ctxs hfree.1]
          cases hctx : p.ctxs fd.toNat with
          | none => exact ⟨_,by rw [if_pos ⟨rfl,rfl⟩, Function.update_self],rfl,rfl⟩
          | some c => exact ⟨c,by rw [if_neg (by simp), hctx],hp.ctxs _ c hctx⟩
        rw [adopt, hc]
        simp only [hsocket, hclosed, Bool.not_false, Bool.and_self, if_true]
        exact .adopt hfree rfl

/-- A socket without a descriptor comes in the place of one, whose descriptor is closed. -/
theorem drop_change {s : Socket} {o : Option Socket} (hooked : Bool) (hs : p.sockets i = some s) (ho : ∀ s' ∈ o, s'.isValid = false) :
    ∃ stranded, Change k p stranded ((p.closed hooked s.sock).setSocket i o) ∧
      (stranded ↔ ∃ s, p.sockets i = some s ∧ s.isValid = true ∧ hooked = false ∧ p.ctxs s.sock.toNat ≠ none) := by
  cases hv : s.isValid with
  | true =>
    refine ⟨_,.drop hs hv ho,?_⟩
    simp [hs, hv]
  | false =>
    rw [not_isValid_iff.mp hv, closed_none]
    refine ⟨False,.empty hs hv ho,?_⟩
    simp [hs, hv]

theorem none_stranded (hs : p.sockets i = none) :
    False ↔ ∃ s, p.sockets i = some s ∧ s.isValid = true ∧ hooked = false ∧ p.ctxs s.sock.toNat ≠ none := by
  simp [hs]

/-- What a call does. -/
theorem step_change (hp : p.Owned) (c : DescriptorCall) :
    ∃ stranded, Change k p stranded (p.step k c) ∧ (stranded ↔ p.Strands c) := by
  cases c with
  | create family => exact ⟨False,.make rfl,Iff.rfl⟩
  | bind i addrFamily c flags hooked => exact ⟨False,bind_change addrFamily c,Iff.rfl⟩
  | connect i addrFamily c flags hooked =>
    obtain ⟨stranded,hchange,hiff⟩ := connect_change (k := k) (p := p) (i := i) addrFamily c flags hooked
    exact ⟨stranded,hchange,hiff⟩
  | accept i fd flags reports nameAnswers peerAnswers => exact ⟨False,accept_change hp reports nameAnswers peerAnswers,Iff.rfl⟩
  | close i hooked =>
    rw [step, close]
    cases hs : p.sockets i with
    | none => exact ⟨False,.same,none_stranded hs⟩
    | some s =>
      obtain ⟨stranded,hchange,hiff⟩ := drop_change (k := k) (o := some s.close.2) hooked hs (by simp [close_isValid])
      exact ⟨stranded,hchange,hiff⟩
  | destroy i hooked =>
    rw [step, destroy]
    cases hs : p.sockets i with
    | none => exact ⟨False,.same,none_stranded hs⟩
    | some s =>
      obtain ⟨stranded,hchange,hiff⟩ := drop_change (k := k) (o := none) hooked hs (by simp)
      exact ⟨stranded,hchange,hiff⟩
  | openOther fd isSocket flags =>
    rw [step, openOther]
    by_cases hgot : p.granted fd = -1
    · rw [if_pos hgot]
      exact ⟨False,.same,Iff.rfl⟩
    · rw [if_neg hgot]
      exact ⟨False,.openOther (granted_free hgot).2,Iff.rfl⟩
  | closeOther fd hooked =>
    rw [step, closeOther]
    cases hf : p.files fd with
    | none => exact ⟨False,.same,Iff.rfl⟩
    | some f =>
      cases hours : f.ours with
      | true =>
        rw [if_neg (by simp [hours])]
        exact ⟨False,.same,Iff.rfl⟩
      | false =>
        rw [if_pos (by simp [hours])]
        exact ⟨False,.closeOther hf hours,Iff.rfl⟩

@[simp] theorem opened_sockets : (p.opened k hooked fd flags).sockets = p.sockets := by
  simp only [opened, manage]
  (repeat' split) <;> rfl

@[simp] theorem opened_next : (p.opened k hooked fd flags).next = p.next := by
  simp only [opened, manage]
  (repeat' split) <;> rfl

@[simp] theorem closed_sockets : (p.closed hooked fd).sockets = p.sockets := by
  rw [closed]
  split <;> rfl

@[simp] theorem closed_next : (p.closed hooked fd).next = p.next := by
  rw [closed]
  split <;> rfl

theorem closed_files (hfd : 0 ≤ fd) : (p.closed hooked fd).files = Function.update p.files fd.toNat none := by
  rw [closed, if_neg (by omega)]

theorem closed_ctxs (hfd : 0 ≤ fd) : (p.closed hooked fd).ctxs = if hooked then Function.update p.ctxs fd.toNat none else p.ctxs := by
  rw [closed, if_neg (by omega)]

theorem closed_setSocket {o : Option Socket} : (p.closed hooked fd).setSocket i o = (p.setSocket i o).closed hooked fd := by
  simp only [closed, setSocket]
  split <;> rfl

/-- The hooks have `O_NONBLOCK` set for a socket they begin to manage. -/
theorem initFlags_nonblock (fd : Int32) (flags : BitVec 32) :
    FdCtx.initFlags k (.raw fd) (some true) flags &&& nonblockFlag = nonblockFlag :=
  (Hook.has_iff _).mpr (Hook.inv_managed fd flags).kernel

/-- The descriptor that was opened is the socket's, and the others are as they were. -/
theorem opened_files (k : Settable) (p : Process) (hooked : Bool) (flags : BitVec 32) (hfd : 0 ≤ fd) : ∃ flags',
    (p.opened k hooked fd flags).files = Function.update p.files fd.toNat (some ⟨true,flags',true⟩) ∧
    (hooked = true → p.ctxs fd.toNat = none → flags' &&& nonblockFlag = nonblockFlag) := by
  have hne : fd ≠ -1 := by omega
  rw [opened, if_neg hne]
  cases hooked with
  | false => exact ⟨flags,rfl,fun h => by cases h⟩
  | true =>
    cases hctx : p.ctxs fd.toNat with
    | none =>
      refine ⟨FdCtx.initFlags k (.raw (.ofNat fd.toNat)) (some true) flags,?_,fun _ _ => initFlags_nonblock _ _⟩
      simp [manage, hctx]
    | some c =>
      refine ⟨flags,?_,fun _ h => by cases h⟩
      simp [manage, hctx]

namespace Owned

theorem opened (hp : p.Owned) (hfree : 0 ≤ fd ∧ p.files fd.toNat = none) : (p.opened k hooked fd flags).Owned := by
  obtain ⟨flags',hfiles,-⟩ := opened_files k p hooked flags hfree.1
  refine ⟨?_,?_,?_,?_⟩
  · intro i s hs hv
    rw [opened_sockets] at hs
    obtain ⟨hnonneg,f,hf,hours⟩ := hp.held i s hs hv
    refine ⟨hnonneg,f,?_,hours⟩
    have hne : s.sock.toNat ≠ fd.toNat := by
      intro heq
      rw [heq, hfree.2] at hf
      cases hf
    rw [hfiles, Function.update_of_ne hne]
    exact hf
  · intro i j s t hs ht
    rw [opened_sockets] at hs ht
    exact hp.one i j s t hs ht
  · intro i hi
    rw [opened_sockets]
    rw [opened_next] at hi
    exact hp.fresh i hi
  · intro fd' c hc
    rw [opened_ctxs hfree.1] at hc
    split at hc
    · by_cases heq : fd' = fd.toNat
      · subst heq
        rw [Function.update_self] at hc
        cases hc
        exact ⟨rfl,rfl⟩
      · rw [Function.update_of_ne heq] at hc
        exact hp.ctxs fd' c hc
    · exact hp.ctxs fd' c hc

/-- No socket has the descriptor that is closed. -/
theorem closed (hp : p.Owned) (hfd : 0 ≤ fd) (hother : ∀ i s, p.sockets i = some s → s.sock ≠ fd) : (p.closed hooked fd).Owned := by
  refine ⟨?_,?_,?_,?_⟩
  · intro i s hs hv
    rw [closed_sockets] at hs
    obtain ⟨hnonneg,f,hf,hours⟩ := hp.held i s hs hv
    refine ⟨hnonneg,f,?_,hours⟩
    have hne : s.sock.toNat ≠ fd.toNat := fun heq => hother i s hs (by omega)
    rw [closed_files hfd, Function.update_of_ne hne]
    exact hf
  · intro i j s t hs ht
    rw [closed_sockets] at hs ht
    exact hp.one i j s t hs ht
  · intro i hi
    rw [closed_sockets]
    rw [closed_next] at hi
    exact hp.fresh i hi
  · intro fd' c hc
    rw [closed_ctxs hfd] at hc
    split at hc
    · by_cases heq : fd' = fd.toNat
      · rw [heq, Function.update_self] at hc
        cases hc
      · rw [Function.update_of_ne heq] at hc
        exact hp.ctxs fd' c hc
    · exact hp.ctxs fd' c hc

/-- A socket that comes with a descriptor has one that is open and no other socket's. -/
theorem setSocket (hp : p.Owned) {o : Option Socket} (hi : i < p.next)
    (ho : ∀ s ∈ o, s.isValid = true → (0 ≤ s.sock ∧ ∃ f, p.files s.sock.toNat = some f ∧ f.ours = true) ∧
      ∀ j t, j ≠ i → p.sockets j = some t → t.sock ≠ s.sock) : (p.setSocket i o).Owned := by
  have hlook : ∀ j s, (p.setSocket i o).sockets j = some s → j = i ∧ o = some s ∨ j ≠ i ∧ p.sockets j = some s := by
    intro j s hs
    by_cases hj : j = i
    · subst hj
      exact .inl ⟨rfl,(setSocket_self j o).symm.trans hs⟩
    · exact .inr ⟨hj,(setSocket_of_ne hj o).symm.trans hs⟩
  refine ⟨?_,?_,?_,hp.ctxs⟩
  · intro j s hs hv
    obtain ⟨-,hmem⟩ | ⟨-,hold⟩ := hlook j s hs
    · exact (ho s hmem hv).1
    · exact hp.held j s hold hv
  · intro j j' s t hs ht hv heq
    obtain ⟨rfl,hmem⟩ | ⟨hj,hold⟩ := hlook j s hs
    · obtain ⟨rfl,-⟩ | ⟨hj',hold'⟩ := hlook j' t ht
      · rfl
      · exact absurd heq.symm ((ho s hmem hv).2 j' t hj' hold')
    · obtain ⟨rfl,hmem'⟩ | ⟨hj',hold'⟩ := hlook j' t ht
      · have hv' : t.isValid = true := by rw [isValid_iff, ← heq]; exact isValid_iff.mp hv
        exact absurd heq ((ho t hmem' hv').2 j s hj hold)
      · exact hp.one j j' s t hold hold' hv heq
  · intro j hj
    have hne : j ≠ i := Nat.ne_of_gt (Nat.lt_of_lt_of_le hi hj)
    exact (setSocket_of_ne hne o).trans (hp.fresh j hj)

theorem add (hp : p.Owned) {s : Socket}
    (hs : s.isValid = true → (0 ≤ s.sock ∧ ∃ f, p.files s.sock.toNat = some f ∧ f.ours = true) ∧ ∀ j t, p.sockets j = some t →
      t.sock ≠ s.sock) :
    (p.add s).Owned := by
  have hgrown : ({ p with next := p.next + 1 } : Process).Owned := ⟨hp.held,hp.one,fun j hj => hp.fresh j (Nat.le_of_succ_le hj),hp.ctxs⟩
  refine hgrown.setSocket (Nat.lt_succ_self _) ?_
  intro s' hs' hv
  cases hs'
  exact ⟨(hs hv).1,fun j t _ => (hs hv).2 j t⟩

theorem lt_next (hp : p.Owned) {s : Socket} (hs : p.sockets i = some s) : i < p.next := by
  apply Nat.lt_of_not_le
  intro hi
  rw [hp.fresh i hi] at hs
  cases hs

/-- A free descriptor is no socket's. -/
theorem ne_free (hp : p.Owned) (hfree : 0 ≤ fd ∧ p.files fd.toNat = none) {s : Socket} (hs : p.sockets i = some s) : s.sock ≠ fd := by
  intro heq
  have hv : s.isValid = true := isValid_iff.mpr (by omega)
  obtain ⟨-,f,hf,-⟩ := hp.held i s hs hv
  rw [heq, hfree.2] at hf
  cases hf

theorem invalid {o : Option Socket} (ho : ∀ s ∈ o, s.isValid = false) {P : Socket → Prop} : ∀ s ∈ o, s.isValid = true → P s := by
  intro s hs hv
  rw [ho s hs] at hv
  cases hv

/-- The step lemma. -/
theorem change (hp : p.Owned) (h : Change k p stranded p') : p'.Owned := by
  cases h with
  | same => exact hp
  | @touch i s s' hs hsock =>
    refine hp.setSocket (hp.lt_next hs) ?_
    intro s₁ h₁ hv
    cases h₁
    have hv' : s.isValid = true := by rw [isValid_iff, ← hsock]; exact isValid_iff.mp hv
    rw [hsock]
    exact ⟨hp.held i s hs hv',fun j t hj ht heq => hj (hp.one i j s t hs ht hv' heq.symm).symm⟩
  | @take i s s' fd flags hooked hs hnone hfree hsock =>
    have hopened : (p.opened k hooked fd flags).Owned := hp.opened hfree
    refine hopened.setSocket (by rw [opened_next]; exact hp.lt_next hs) ?_
    intro s₁ h₁ hv
    cases h₁
    obtain ⟨flags',hfiles,-⟩ := opened_files k p hooked flags hfree.1
    rw [hsock, hfiles, Function.update_self, opened_sockets]
    exact ⟨⟨hfree.1,_,rfl,rfl⟩,fun j t _ ht => hp.ne_free hfree ht⟩
  | @attempt i s s' fd flags hooked hs hnone hfree hsock =>
    have hopened : (p.opened k hooked fd flags).Owned := hp.opened hfree
    have hclosed : ((p.opened k hooked fd flags).closed hooked fd).Owned := hopened.closed hfree.1 (by
      intro j t ht
      rw [opened_sockets] at ht
      exact hp.ne_free hfree ht)
    refine hclosed.setSocket (by rw [closed_next, opened_next]; exact hp.lt_next hs) (invalid ?_)
    intro s₁ h₁
    cases h₁
    exact hsock
  | @drop i s o hooked hs hvalid ho =>
    rw [closed_setSocket]
    refine (hp.setSocket (hp.lt_next hs) (invalid ho)).closed (hp.held i s hs hvalid).1 ?_
    intro j t ht heq
    by_cases hj : j = i
    · subst hj
      have hmem : t ∈ o := (setSocket_self j o).symm.trans ht
      have hne := not_isValid_iff.mp (ho t hmem)
      rw [heq] at hne
      exact isValid_iff.mp hvalid hne
    · have ht' : p.sockets j = some t := (setSocket_of_ne hj o).symm.trans ht
      exact hj (hp.one i j s t hs ht' hvalid heq.symm).symm
  | @empty i s o hs hnone ho => exact hp.setSocket (hp.lt_next hs) (invalid ho)
  | @make s hsock => exact hp.add fun hv => by rw [hsock] at hv; cases hv
  | @adopt s fd flags hfree hsock =>
    refine (hp.opened hfree).add fun _ => ?_
    obtain ⟨flags',hfiles,-⟩ := opened_files k p true flags hfree.1
    rw [hsock, hfiles, Function.update_self, opened_sockets]
    exact ⟨⟨hfree.1,_,rfl,rfl⟩,fun j t ht => hp.ne_free hfree ht⟩
  | @openOther fd isSocket flags hfree =>
    refine ⟨?_,hp.one,hp.fresh,hp.ctxs⟩
    intro i s hs hv
    obtain ⟨hnonneg,f,hf,hours⟩ := hp.held i s hs hv
    have hne : s.sock.toNat ≠ fd.toNat := by
      intro heq
      rw [heq, hfree.2] at hf
      cases hf
    exact ⟨hnonneg,f,(Function.update_of_ne hne ..).trans hf,hours⟩
  | @closeOther fd f hooked hf hours =>
    refine hp.closed (Int.natCast_nonneg fd) ?_
    intro i s hs heq
    obtain ⟨-,f',hf',hours'⟩ := hp.held i s hs (isValid_iff.mpr (by omega))
    rw [heq, Int.toNat_natCast, hf] at hf'
    cases hf'
    rw [hours] at hours'
    cases hours'

end Owned

namespace NoneLost

/-- A socket that keeps its descriptor, or had none, in the place of another. -/
theorem setSocket (hp : p.NoneLost) {o : Option Socket}
    (ho : ∀ s, p.sockets i = some s → s.isValid = true → ∃ s' ∈ o, s'.sock = s.sock) : (p.setSocket i o).NoneLost := by
  intro fd f hf hours
  obtain ⟨j,s,hs,hsock⟩ := hp fd f hf hours
  by_cases hj : j = i
  · subst hj
    obtain ⟨s',hs',hsame⟩ := ho s hs (isValid_iff.mpr (by omega))
    exact ⟨j,s',(setSocket_self j o).trans hs',hsame.trans hsock⟩
  · exact ⟨j,s,(setSocket_of_ne hj o).trans hs,hsock⟩

/-- What is open beside the descriptor has sockets, and so has the descriptor. -/
theorem of_files {q : Process} (hp : p.NoneLost) (hsockets : q.sockets = p.sockets)
    (hfiles : ∀ fd' f, q.files fd' = some f → f.ours = true → p.files fd' = some f ∨ ∃ i s, p.sockets i = some s ∧ s.sock = fd') :
    q.NoneLost := by
  intro fd' f hf hours
  rw [hsockets]
  obtain hold | hheld := hfiles fd' f hf hours
  · exact hp fd' f hold hours
  · exact hheld

private theorem update_files {files : Nat → Option OpenFile} {fd fd' : Nat} {f : OpenFile} {o : Option OpenFile}
    (h : Function.update files fd o fd' = some f) : fd' = fd ∧ o = some f ∨ fd' ≠ fd ∧ files fd' = some f := by
  by_cases heq : fd' = fd
  · subst heq
    rw [Function.update_self] at h
    exact .inl ⟨rfl,h⟩
  · rw [Function.update_of_ne heq] at h
    exact .inr ⟨heq,h⟩

/-- The step lemma. -/
theorem change (hp : p.NoneLost) (howned : p.Owned) (h : Change k p stranded p') : p'.NoneLost := by
  cases h with
  | same => exact hp
  | @touch i s s' hs hsock =>
    refine hp.setSocket fun s₁ h₁ _ => ⟨s',rfl,?_⟩
    rw [hs] at h₁
    cases h₁
    exact hsock
  | @take i s s' fd flags hooked hs hnone hfree hsock =>
    obtain ⟨flags',hfiles,-⟩ := opened_files k p hooked flags hfree.1
    intro fd' f hf hours
    rw [show ((p.opened k hooked fd flags).setSocket i (some s')).files = (p.opened k hooked fd flags).files from rfl, hfiles] at hf
    obtain ⟨rfl,-⟩ | ⟨-,hold⟩ := update_files hf
    · refine ⟨i,s',setSocket_self i _,?_⟩
      rw [hsock, Int.toNat_of_nonneg hfree.1]
    · obtain ⟨j,t,ht,heq⟩ := hp fd' f hold hours
      have hj : j ≠ i := by
        rintro rfl
        rw [hs] at ht
        cases ht
        rw [not_isValid_iff.mp hnone] at heq
        omega
      refine ⟨j,t,(setSocket_of_ne hj _).trans ?_,heq⟩
      rw [opened_sockets]
      exact ht
  | @attempt i s s' fd flags hooked hs hnone hfree hsock =>
    refine setSocket (hp.of_files (by simp) ?_) ?_
    · intro fd' f hf _
      obtain ⟨flags',hfiles,-⟩ := opened_files k p hooked flags hfree.1
      rw [closed_files hfree.1, hfiles] at hf
      obtain ⟨-,hnone⟩ | ⟨hne,hf⟩ := update_files hf
      · cases hnone
      · obtain ⟨heq,-⟩ | ⟨-,hold⟩ := update_files hf
        · exact absurd heq hne
        · exact .inl hold
    · intro s₁ h₁ hv
      rw [closed_sockets, opened_sockets, hs] at h₁
      cases h₁
      rw [hnone] at hv
      cases hv
  | @drop i s o hooked hs hvalid ho =>
    have hnonneg := (howned.held i s hs hvalid).1
    intro fd' f hf hours
    rw [show ((p.closed hooked s.sock).setSocket i o).files = (p.closed hooked s.sock).files from rfl, closed_files hnonneg] at hf
    obtain ⟨-,hnone⟩ | ⟨hne,hold⟩ := update_files hf
    · cases hnone
    · obtain ⟨j,t,ht,heq⟩ := hp fd' f hold hours
      have hj : j ≠ i := by
        rintro rfl
        rw [hs] at ht
        cases ht
        omega
      refine ⟨j,t,(setSocket_of_ne hj _).trans ?_,heq⟩
      rw [closed_sockets]
      exact ht
  | @empty i s o hs hnone ho =>
    refine hp.setSocket fun s₁ h₁ hv => ?_
    rw [hs] at h₁
    cases h₁
    rw [hnone] at hv
    cases hv
  | @make s hsock =>
    have hgrown : ({ p with next := p.next + 1 } : Process).NoneLost := hp
    refine hgrown.setSocket fun s₁ h₁ _ => ?_
    rw [show ({ p with next := p.next + 1 } : Process).sockets p.next = none from howned.fresh _ le_rfl] at h₁
    cases h₁
  | @adopt s fd flags hfree hsock =>
    obtain ⟨flags',hfiles,-⟩ := opened_files k p true flags hfree.1
    intro fd' f hf hours
    rw [show ((p.opened k true fd flags).add s).files = (p.opened k true fd flags).files from rfl, hfiles] at hf
    obtain ⟨rfl,-⟩ | ⟨-,hold⟩ := update_files hf
    · refine ⟨_,s,setSocket_self _ _,?_⟩
      rw [hsock, Int.toNat_of_nonneg hfree.1]
    · obtain ⟨j,t,ht,heq⟩ := hp fd' f hold hours
      have hj : j ≠ (p.opened k true fd flags).next := by
        rw [opened_next]
        exact Nat.ne_of_lt (howned.lt_next ht)
      refine ⟨j,t,(setSocket_of_ne hj _).trans ?_,heq⟩
      rw [opened_sockets]
      exact ht
  | @openOther fd isSocket flags hfree =>
    refine hp.of_files rfl ?_
    intro fd' f hf hours
    obtain ⟨-,hnew⟩ | ⟨-,hold⟩ := update_files hf
    · cases hnew
      cases hours
    · exact .inl hold
  | @closeOther fd f hooked hf hours =>
    refine hp.of_files (by simp) ?_
    intro fd' f' hf' _
    rw [closed_files (Int.natCast_nonneg fd)] at hf'
    obtain ⟨-,hnone⟩ | ⟨-,hold⟩ := update_files hf'
    · cases hnone
    · exact .inl hold

end NoneLost

namespace Managed

/-- A free descriptor has no context. -/
theorem ctx_free (hp : p.Managed) (hfree : 0 ≤ fd ∧ p.files fd.toNat = none) : p.ctxs fd.toNat = none := by
  cases hc : p.ctxs fd.toNat with
  | none => rfl
  | some c =>
    obtain ⟨f,hf,-⟩ := hp fd.toNat c hc
    rw [hfree.2] at hf
    cases hf

theorem opened (hp : p.Managed) (hfree : 0 ≤ fd ∧ p.files fd.toNat = none) : (p.opened k hooked fd flags).Managed := by
  obtain ⟨flags',hfiles,hflags⟩ := opened_files k p hooked flags hfree.1
  have hctx := hp.ctx_free hfree
  intro fd' c hc
  rw [opened_ctxs hfree.1] at hc
  rw [hfiles]
  by_cases heq : fd' = fd.toNat
  · subst heq
    rw [Function.update_self]
    split at hc
    · rename_i h
      exact ⟨_,rfl,rfl,hflags h.1 hctx⟩
    · rw [hctx] at hc
      cases hc
  · rw [Function.update_of_ne heq]
    split at hc
    · rw [Function.update_of_ne heq] at hc
      exact hp fd' c hc
    · exact hp fd' c hc

/-- A close leaves a context behind exactly where it is not hooked and there is one. -/
theorem closed_iff (hp : p.Managed) (hfd : 0 ≤ fd) : (p.closed hooked fd).Managed ↔ ¬ (hooked = false ∧ p.ctxs fd.toNat ≠ none) := by
  constructor
  · rintro h ⟨rfl,hne⟩
    obtain ⟨c,hc⟩ := Option.ne_none_iff_exists'.mp hne
    obtain ⟨f,hf,-⟩ := h fd.toNat c (by rw [closed_ctxs hfd]; exact hc)
    rw [closed_files hfd, Function.update_self] at hf
    cases hf
  · intro h fd' c hc
    rw [closed_ctxs hfd] at hc
    have hne : fd' ≠ fd.toNat := by
      rintro rfl
      cases hooked with
      | true =>
        rw [if_pos rfl, Function.update_self] at hc
        cases hc
      | false =>
        apply h
        refine ⟨rfl,fun hnone => ?_⟩
        rw [if_neg Bool.false_ne_true, hnone] at hc
        cases hc
    rw [closed_files hfd, Function.update_of_ne hne]
    cases hooked with
    | true =>
      rw [if_pos rfl, Function.update_of_ne hne] at hc
      exact hp fd' c hc
    | false =>
      rw [if_neg Bool.false_ne_true] at hc
      exact hp fd' c hc

/-- The step lemma: only a close without hooks strands a context. -/
theorem change_iff (hp : p.Managed) (howned : p.Owned) (h : Change k p stranded p') : p'.Managed ↔ ¬ stranded := by
  cases h with
  | same | touch | empty | make => exact iff_of_true hp not_false
  | @take i s s' fd flags hooked hs hnone hfree hsock => exact iff_of_true (hp.opened hfree) not_false
  | @attempt i s s' fd flags hooked hs hnone hfree hsock =>
    refine iff_of_true (((hp.opened hfree).closed_iff hfree.1).mpr ?_) not_false
    rintro ⟨rfl,hne⟩
    rw [opened_ctxs hfree.1, if_neg (by simp)] at hne
    exact hne (hp.ctx_free hfree)
  | @drop i s o hooked hs hvalid ho => exact hp.closed_iff (howned.held i s hs hvalid).1
  | @adopt s fd flags hfree hsock => exact iff_of_true (hp.opened hfree) not_false
  | @openOther fd isSocket flags hfree =>
    refine iff_of_true ?_ not_false
    intro fd' c hc
    have hne : fd' ≠ fd.toNat := by
      rintro rfl
      rw [show p.ctxs fd.toNat = none from hp.ctx_free hfree] at hc
      cases hc
    obtain ⟨f,hf,hrest⟩ := hp fd' c hc
    exact ⟨f,(Function.update_of_ne hne ..).trans hf,hrest⟩
  | @closeOther fd f hooked hf hours =>
    refine iff_of_true ((hp.closed_iff (Int.natCast_nonneg fd)).mpr ?_) not_false
    rintro ⟨-,hne⟩
    obtain ⟨c,hc⟩ := Option.ne_none_iff_exists'.mp hne
    obtain ⟨f',hf',hours',-⟩ := hp _ c hc
    rw [Int.toNat_natCast, hf] at hf'
    cases hf'
    rw [hours] at hours'
    cases hours'

end Managed

variable (k) (others : Nat → Option (Bool × BitVec 32)) (calls : List DescriptorCall)

theorem owned_start : (start others).Owned := by
  refine ⟨?_,?_,fun _ _ => rfl,?_⟩
  · intro i s hs
    cases hs
  · intro i j s t hs
    cases hs
  · intro fd c hc
    cases hc

theorem noneLost_start : (start others).NoneLost := by
  intro fd f hf hours
  obtain ⟨o,-,rfl⟩ := Option.map_eq_some_iff.mp hf
  cases hours

theorem managed_start : (start others).Managed := by
  intro fd c hc
  cases hc

variable {k} in
theorem perform_held (hp : p.Owned ∧ p.NoneLost) {c : DescriptorCall} {r : Unit} (h : perform k c p = .ok (r,p')) :
    p'.Owned ∧ p'.NoneLost := by
  cases h
  obtain ⟨stranded,hchange,-⟩ := step_change (k := k) hp.1 c
  exact ⟨hp.1.change hchange,hp.2.change hp.1 hchange⟩

/-- In every run each socket with a descriptor has one that is open, that a `Socket` opened and that no other socket has, and
every descriptor that a `Socket` opened has a socket. -/
theorem descriptors_held : ∀ p ∈ states (perform k) calls (start others), p.Owned ∧ p.NoneLost := by
  have hstart : (start others).Owned ∧ (start others).NoneLost := ⟨owned_start others,noneLost_start others⟩
  apply (forall_states_iff (fun p : Process => p.Owned ∧ p.NoneLost) calls).mpr
  refine ⟨hstart,?_⟩
  refine along_imp (I := fun p => p.Owned ∧ p.NoneLost) (P := fun _ _ => True) ?_ ?_ calls hstart (along_true _ _ _)
  · intro c p hp _ r p' h
    exact perform_held hp h
  · intro c p r p' hp _ h
    exact perform_held hp h

/-- Descriptor 5 is bound with hooks, and 6 is accepted on a thread without them. -/
private def served : List DescriptorCall :=
  [.create 2,.bind 0 2 ⟨5,⟨none,none⟩,true,⟨none,none⟩,false,false⟩ 0 true,.accept 0 6 0 ⟨none,none⟩ false false]

theorem descriptors_held_accepted : ∃ rs p, runAll (perform Hook.linux) served (start fun _ => none) = .ok (rs,p) ∧
    (p.sockets 1).map (·.sock) = some 6 ∧ p.Owned ∧ p.NoneLost :=
  ⟨_,_,rfl,by decide,descriptors_held Hook.linux _ served _ (last_mem_states served rfl)⟩

end Process
end Radixun.Net
