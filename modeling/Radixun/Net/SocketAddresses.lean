import Mathlib.Data.List.Basic
import Radixun.Foundation.CommandRuns

/-! `Socket`: the addresses it keeps of its two ends, against what the kernel reports for its
descriptor. -/
namespace Radixun.Net
open Radixun.Foundation CommandRuns

/-- A socket address as the bytes that pass between program and kernel. -/
abbrev Sockaddr := List UInt8

inductive AddressClass where
  | ipv4Address | ipv6Address | unixAddress | unknownAddress
  deriving DecidableEq, Repr

/-- `getAddr()` points to `buffer`, `getAddrLen()` is `length`. -/
structure Address where
  kind : AddressClass
  buffer : List UInt8
  length : Nat
  deriving DecidableEq, Repr

/-- The address the object stands for. -/
def Address.bytes (a : Address) : Sockaddr := a.buffer.take a.length

def Address.Known (a : Address) : Prop := a.kind ≠ .unknownAddress

instance (a : Address) : Decidable a.Known := inferInstanceAs (Decidable (_ ≠ _))

def afUnix : Int := 1
def afInet : Int := 2
def afInet6 : Int := 10

/-- The `sockaddr` of the given size after `memset` and with its family set. -/
def blank (family : Int) (size : Nat) : Sockaddr :=
  UInt8.ofNat (family % 256).toNat :: UInt8.ofNat (family / 256 % 256).toNat :: List.replicate (size - 2) 0

def unknownAddress (family : Int) : Address := ⟨.unknownAddress,blank family 16,16⟩

/-- The switch over `m_family`. `UnixAddress()` leaves out the last byte of `sun_path`. -/
def newAddress (family : Int) : Address :=
  if family = afInet then ⟨.ipv4Address,blank afInet 16,16⟩
  else if family = afInet6 then ⟨.ipv6Address,blank afInet6 28,28⟩
  else if family = afUnix then ⟨.unixAddress,blank afUnix 110,109⟩
  else unknownAddress family

/-- What `getpeername` and `getsockname` make of the object: as much of the report as the length offered
takes goes to the buffer, and `addrlen` becomes the report's own length, which only a `UnixAddress` is told. -/
def readAddress (family : Int) (report : Sockaddr) : Address :=
  let result := newAddress family
  let written := report.take result.length
  { result with
    buffer := written ++ result.buffer.drop written.length
    length := if family = afUnix then report.length else result.length }

/-- `getRemoteAddress` and `getLocalAddress` on their member and their system call's answer: what they return
and the member after it. -/
def cachedOr (family : Int) (cache : Option Address) (answer : Option Sockaddr) : Address × Option Address :=
  match cache with
  | some a => (a,some a)
  | none =>
    match answer with
    | none => (unknownAddress family,none)
    | some report => (readAddress family report,some (readAddress family report))

/-- What the kernel reports for a descriptor. -/
structure Reports where
  peername : Option Sockaddr
  sockname : Option Sockaddr
  deriving DecidableEq, Repr

/-- The last field is the kernel's. -/
structure Socket where
  sock : Int
  family : Int
  isConnected : Bool
  localAddress : Option Address
  remoteAddress : Option Address
  reports : Reports
  deriving DecidableEq, Repr

/-- The reports that the object for them takes in whole. The last byte of a `sockaddr_un` is taken as
zero. -/
def Fits (family : Int) (report : Sockaddr) : Prop :=
  if family = afInet then report.length = 16
  else if family = afInet6 then report.length = 28
  else if family = afUnix then report.length ≤ 109 ∨ report.length = 110 ∧ report.getLast? = some 0
  else True

instance (family : Int) (report : Sockaddr) : Decidable (Fits family report) := by
  unfold Fits
  infer_instance

theorem blank_length (family : Int) {size : Nat} (h : 2 ≤ size) : (blank family size).length = size := by
  rw [blank, List.length_cons, List.length_cons, List.length_replicate]
  omega

/-- A buffer as long as the length offered is the report exactly where that has this length. -/
theorem written_eq_iff {buffer report : List UInt8} {n : Nat} (h : buffer.length = n) :
    (report.take n ++ buffer.drop (report.take n).length).take n = report ↔ report.length = n := by
  have hlen : (report.take n ++ buffer.drop (report.take n).length).length = n := by
    rw [List.length_append, List.length_drop, List.length_take, h]
    omega
  rw [List.take_of_length_le (Nat.le_of_eq hlen)]
  constructor
  · intro heq
    rw [heq] at hlen
    exact hlen
  · intro hr
    rw [List.take_of_length_le (Nat.le_of_eq hr), hr, List.drop_of_length_le (Nat.le_of_eq h), List.append_nil]

/-- One byte of the buffer is beyond the length offered. -/
theorem written_unix_iff {buffer report : List UInt8} {n : Nat} (h : buffer.drop n = [0]) :
    (report.take n ++ buffer.drop (report.take n).length).take report.length = report ↔
      report.length ≤ n ∨ report.length = n + 1 ∧ report.getLast? = some 0 := by
  by_cases hr : report.length ≤ n
  · rw [List.take_of_length_le hr, List.take_left]
    exact iff_of_true rfl (.inl hr)
  · have hlen : (report.take n).length = n := by
      rw [List.length_take]
      omega
    have hfull : (report.take n ++ [0]).length ≤ report.length := by
      rw [List.length_append, hlen, List.length_singleton]
      omega
    rw [hlen, h, List.take_of_length_le hfull, or_iff_right hr]
    constructor
    · intro heq
      refine ⟨?_,?_⟩
      · rw [← heq, List.length_append, hlen, List.length_singleton]
      · rw [← heq, List.getLast?_concat]
    · intro hlast
      have hdrop : report.dropLast = report.take n := by
        rw [List.dropLast_eq_take, hlast.1, Nat.add_sub_cancel]
      rw [← hdrop]
      exact List.dropLast_append_getLast? 0 hlast.2

/-- Reading a report gives back what was reported exactly where it fits. -/
theorem readAddress_iff (family : Int) (report : Sockaddr) :
    ((readAddress family report).Known → some report = some (readAddress family report).bytes) ↔ Fits family report := by
  rw [Option.some_inj, eq_comm (a := report)]
  by_cases h4 : family = afInet
  · subst h4
    rw [Fits, if_pos rfl]
    have hknown : (readAddress afInet report).Known := by intro h; cases h
    exact (forall_prop_of_true hknown).trans (written_eq_iff (blank_length afInet (by decide)))
  by_cases h6 : family = afInet6
  · subst h6
    rw [Fits, if_neg h4, if_pos rfl]
    have hknown : (readAddress afInet6 report).Known := by intro h; cases h
    exact (forall_prop_of_true hknown).trans (written_eq_iff (blank_length afInet6 (by decide)))
  by_cases hu : family = afUnix
  · subst hu
    rw [Fits, if_neg h4, if_neg h6, if_pos rfl]
    have hknown : (readAddress afUnix report).Known := by intro h; cases h
    exact (forall_prop_of_true hknown).trans (written_unix_iff rfl)
  · rw [Fits, if_neg h4, if_neg h6, if_neg hu]
    refine iff_of_true (fun hknown => ?_) trivial
    refine absurd ?_ hknown
    rw [readAddress, newAddress, if_neg h4, if_neg h6, if_neg hu]
    rfl

/-- A cached address that is known is the one reported; with none cached, what is reported fits. -/
def Agrees (family : Int) (cache : Option Address) (report : Option Sockaddr) : Prop :=
  match cache with
  | some a => a.Known → report = some a.bytes
  | none => ∀ r ∈ report, Fits family r

instance (family : Int) : (cache : Option Address) → (report : Option Sockaddr) → Decidable (Agrees family cache report)
  | some a, report => inferInstanceAs (Decidable (a.Known → report = some a.bytes))
  | none, report => inferInstanceAs (Decidable (∀ r ∈ report, Fits family r))

theorem agrees_none (family : Int) (cache : Option Address) :
    Agrees family cache none ↔ ∀ a ∈ cache, ¬ a.Known := by
  cases cache with
  | none => exact iff_of_true (fun r hr => by cases hr) (fun a ha => by cases ha)
  | some a =>
    constructor
    · intro h b hb hk
      cases hb
      cases h hk
    · intro h hk
      exact absurd hk (h a rfl)

/-- A query neither spoils nor mends the agreement. -/
theorem agrees_cachedOr (family : Int) (cache : Option Address) (report : Option Sockaddr) (answers : Bool) :
    Agrees family (cachedOr family cache (if answers then report else none)).2 report ↔ Agrees family cache report := by
  cases cache with
  | some a => exact Iff.rfl
  | none =>
    cases answers with
    | false => exact Iff.rfl
    | true =>
      cases report with
      | none => exact Iff.rfl
      | some r => exact (readAddress_iff family r).trans (by simp [Agrees])

/-- What the query returns is right, answered or not, exactly where cache and report agree. -/
theorem cachedOr_right_iff (family : Int) (cache : Option Address) (report : Option Sockaddr) :
    (∀ answers : Bool, (cachedOr family cache (if answers then report else none)).1.Known →
      report = some (cachedOr family cache (if answers then report else none)).1.bytes) ↔ Agrees family cache report := by
  have hunknown : ¬ (unknownAddress family).Known := fun h => h rfl
  cases cache with
  | some a => exact ⟨fun h => h true,fun h _ => h⟩
  | none =>
    cases report with
    | none =>
      refine iff_of_true (fun answers => ?_) (fun r hr => by cases hr)
      rw [ite_self]
      exact fun h => absurd h hunknown
    | some r =>
      rw [Bool.forall_bool]
      refine Iff.trans ⟨fun h => h.2,fun h => ⟨fun hk => absurd hk hunknown,h⟩⟩ ((readAddress_iff family r).trans ?_)
      simp [Agrees]

namespace Socket

def new (family : Int) : Socket := ⟨-1,family,false,none,none,⟨none,none⟩⟩

def isValid (s : Socket) : Bool := s.sock ≠ -1

/-- There is nothing to report for the descriptor -1. -/
def peername (s : Socket) : Option Sockaddr := if s.isValid then s.reports.peername else none

def sockname (s : Socket) : Option Sockaddr := if s.isValid then s.reports.sockname else none

/-- `answers` is whether `getpeername` goes well where there is a report. -/
def getRemoteAddress (answers : Bool) (s : Socket) : Address × Socket :=
  let r := cachedOr s.family s.remoteAddress (if answers then s.peername else none)
  (r.1,{ s with remoteAddress := r.2 })

def getLocalAddress (answers : Bool) (s : Socket) : Address × Socket :=
  let r := cachedOr s.family s.localAddress (if answers then s.sockname else none)
  (r.1,{ s with localAddress := r.2 })

/-- How the system calls under one `bind` or `connect` end: the descriptor `::socket` returns and what the
kernel reports for it, whether `::bind` or `::connect` returns zero and what the kernel reports then, and
whether the two queries are answered. -/
structure Syscalls where
  opened : Int
  fresh : Reports
  done : Bool
  after : Reports
  peerAnswers : Bool
  nameAnswers : Bool

def newSock (k : Syscalls) (s : Socket) : Socket := { s with sock := k.opened, reports := k.fresh }

/-- How `bind` and `connect` begin. -/
def ensureSock (k : Syscalls) (s : Socket) : Socket := if s.isValid then s else s.newSock k

def bind (addrFamily : Int) (k : Syscalls) (s : Socket) : Bool × Socket :=
  let s := s.ensureSock k
  if !s.isValid then (false,s)
  else if addrFamily ≠ s.family then (false,s)
  else
    let s := { s with reports := k.after }
    if !k.done then (false,s) else (true,(s.getLocalAddress k.nameAnswers).2)

def close (s : Socket) : Bool × Socket :=
  if !s.isConnected && s.sock == -1 then (true,s)
  else (false,{ s with isConnected := false, sock := -1 })

/-- With and without a timeout. -/
def connect (addrFamily : Int) (k : Syscalls) (s : Socket) : Bool × Socket :=
  let s := s.ensureSock k
  if !s.isValid then (false,s)
  else if addrFamily ≠ s.family then (false,s)
  else
    let s := { s with reports := k.after }
    if !k.done then (false,s.close.2)
    else
      let s := { s with isConnected := true }
      (true,((s.getRemoteAddress k.peerAnswers).2.getLocalAddress k.nameAnswers).2)

/-- `init` on the socket that `accept` makes for the descriptor it got. -/
def init (family sock : Int) (reports : Reports) (nameAnswers peerAnswers : Bool) : Socket :=
  let s := { new family with sock := sock, isConnected := true, reports := reports }
  ((s.getLocalAddress nameAnswers).2.getRemoteAddress peerAnswers).2

inductive Command where
  | bind (addrFamily : Int) (k : Syscalls)
  | connect (addrFamily : Int) (k : Syscalls)
  | close
  | getRemoteAddress (answers : Bool)
  | getLocalAddress (answers : Bool)
  /-- No call: the kernel changes what it reports, as when the peer resets the connection. -/
  | kernel (after : Reports)

inductive Reply where
  | done (b : Bool)
  | address (a : Address)
  | nothing

def step (c : Command) (s : Socket) : Reply × Socket :=
  match c with
  | .bind addrFamily k => (s.bind addrFamily k).map .done id
  | .connect addrFamily k => (s.connect addrFamily k).map .done id
  | .close => s.close.map .done id
  | .getRemoteAddress answers => (s.getRemoteAddress answers).map .address id
  | .getLocalAddress answers => (s.getLocalAddress answers).map .address id
  | .kernel after => (.nothing,{ s with reports := after })

/-- No command throws. -/
def perform (c : Command) (s : Socket) : Except Empty (Reply × Socket) := .ok (step c s)

/-- Where the socket comes from: the constructor, or `accept` on another one. -/
inductive Start where
  | constructed
  | accepted (sock : Int) (reports : Reports) (nameAnswers peerAnswers : Bool)

def Start.socket (family : Int) : Start → Socket
  | .constructed => new family
  | .accepted sock reports nameAnswers peerAnswers => init family sock reports nameAnswers peerAnswers

def RemoteRight (s : Socket) : Prop :=
  ∀ answers, (s.getRemoteAddress answers).1.Known → s.peername = some (s.getRemoteAddress answers).1.bytes

def LocalRight (s : Socket) : Prop :=
  ∀ answers, (s.getLocalAddress answers).1.Known → s.sockname = some (s.getLocalAddress answers).1.bytes

/-- A known address that either query returns now is what the kernel reports now. -/
def Right (s : Socket) : Prop := s.RemoteRight ∧ s.LocalRight

instance (s : Socket) : Decidable s.Right := inferInstanceAs (Decidable ((∀ _ : Bool, _) ∧ ∀ _ : Bool, _))

/-- The two members against such reports. -/
def AgreesWith (s : Socket) (r : Reports) : Prop :=
  Agrees s.family s.remoteAddress r.peername ∧ Agrees s.family s.localAddress r.sockname

/-- No known address is kept. -/
def Forgotten (s : Socket) : Prop := (∀ a ∈ s.remoteAddress, ¬ a.Known) ∧ ∀ a ∈ s.localAddress, ¬ a.Known

theorem right_iff (s : Socket) : s.Right ↔ s.AgreesWith ⟨s.peername,s.sockname⟩ :=
  and_congr (cachedOr_right_iff s.family s.remoteAddress s.peername) (cachedOr_right_iff s.family s.localAddress s.sockname)

theorem right_of_valid {s : Socket} (h : s.isValid = true) : s.Right ↔ s.AgreesWith s.reports := by
  rw [right_iff, peername, sockname, if_pos h, if_pos h]

theorem right_of_invalid {s : Socket} (h : ¬ s.isValid = true) : s.Right ↔ s.Forgotten := by
  rw [right_iff, peername, sockname, if_neg h, if_neg h]
  exact and_congr (agrees_none s.family s.remoteAddress) (agrees_none s.family s.localAddress)

theorem right_getRemoteAddress (answers : Bool) (s : Socket) : (s.getRemoteAddress answers).2.Right ↔ s.Right := by
  rw [right_iff, right_iff]
  exact and_congr_left' (agrees_cachedOr s.family s.remoteAddress s.peername answers)

theorem right_getLocalAddress (answers : Bool) (s : Socket) : (s.getLocalAddress answers).2.Right ↔ s.Right := by
  rw [right_iff, right_iff]
  exact and_congr_right' (agrees_cachedOr s.family s.localAddress s.sockname answers)

/-- New reports on a descriptor are judged against the members kept. -/
theorem right_reports {s : Socket} (h : s.isValid = true) (r : Reports) :
    ({ s with reports := r } : Socket).Right ↔ s.AgreesWith r :=
  right_of_valid (s := { s with reports := r }) h

theorem forgotten_new (family : Int) : (new family).Forgotten := by
  constructor <;> (intro a ha; cases ha)

/-- The socket that a call opens keeps the members it has. -/
theorem right_ensureSock {s : Socket} {k : Syscalls} (h : (s.ensureSock k).isValid = true) :
    (s.ensureSock k).Right ↔ s.AgreesWith (s.ensureSock k).reports := by
  rw [right_of_valid h, ensureSock]
  split <;> exact Iff.rfl

/-- A call that gets no descriptor leaves the addresses as right as they were. -/
theorem right_unopened {s : Socket} {k : Syscalls} (h : ¬ (s.ensureSock k).isValid = true) (hs : s.Right) :
    (s.ensureSock k).Right := by
  have hv : ¬ s.isValid = true := by
    intro hv
    rw [ensureSock, if_pos hv] at h
    exact h hv
  rw [right_of_invalid h, ensureSock, if_neg hv]
  exact (right_of_invalid hv).mp hs

/-- The commands that do not move an end whose address is kept, nor bring a report that does not fit. -/
def Admits (c : Command) (s : Socket) : Prop :=
  match c with
  | .bind addrFamily k =>
    if !(s.ensureSock k).isValid then True
    else if addrFamily ≠ s.family then s.AgreesWith (s.ensureSock k).reports
    else s.AgreesWith k.after
  | .connect addrFamily k =>
    if !(s.ensureSock k).isValid then True
    else if addrFamily ≠ s.family then s.AgreesWith (s.ensureSock k).reports
    else if k.done then s.AgreesWith k.after else s.Forgotten
  | .close => s.sock = -1 ∨ s.Forgotten
  | .getRemoteAddress _ => True
  | .getLocalAddress _ => True
  | .kernel after => s.sock = -1 ∨ s.AgreesWith after

def Start.Admits (family : Int) : Start → Prop
  | .constructed => True
  | .accepted sock reports _ _ => sock = -1 ∨ (new family).AgreesWith reports

theorem ensureSock_family (k : Syscalls) (s : Socket) : (s.ensureSock k).family = s.family := by
  rw [ensureSock]
  split <;> rfl

/-- The members in front of `::bind` or `::connect` are those before the call. -/
theorem agreesWith_ensureSock (k : Syscalls) (s : Socket) (r : Reports) :
    (s.ensureSock k).AgreesWith r ↔ s.AgreesWith r := by
  rw [ensureSock]
  split <;> exact Iff.rfl

theorem forgotten_ensureSock (k : Syscalls) (s : Socket) : (s.ensureSock k).Forgotten ↔ s.Forgotten := by
  rw [ensureSock]
  split <;> exact Iff.rfl

theorem close_right_iff {s : Socket} (h : s.Right) : s.close.2.Right ↔ s.sock = -1 ∨ s.Forgotten := by
  rw [close]
  by_cases hsock : s.sock = -1
  · have hv : ¬ s.isValid = true := by simp [isValid, hsock]
    refine iff_of_true ?_ (.inl hsock)
    split
    · exact h
    · exact (right_of_invalid (by simp [isValid])).mpr ((right_of_invalid hv).mp h)
  · rw [if_neg (by simp [hsock]), or_iff_right hsock]
    exact right_of_invalid (by simp [isValid])

theorem bind_right_iff (addrFamily : Int) (k : Syscalls) {s : Socket} (h : s.Right) :
    (s.bind addrFamily k).2.Right ↔ Admits (.bind addrFamily k) s := by
  rw [bind, Admits]
  by_cases hv : (s.ensureSock k).isValid = true
  · rw [← ensureSock_family k s]
    simp only [hv, Bool.not_true, Bool.false_eq_true, if_false]
    split
    · exact right_ensureSock hv
    · have hafter : ({ s.ensureSock k with reports := k.after } : Socket).Right ↔ s.AgreesWith k.after :=
        (right_reports hv k.after).trans (agreesWith_ensureSock k s k.after)
      split
      · exact hafter
      · exact (right_getLocalAddress _ _).trans hafter
  · simp only [hv, Bool.not_false, if_true, iff_true]
    exact right_unopened hv h

theorem connect_right_iff (addrFamily : Int) (k : Syscalls) {s : Socket} (h : s.Right) :
    (s.connect addrFamily k).2.Right ↔ Admits (.connect addrFamily k) s := by
  rw [connect, Admits]
  by_cases hv : (s.ensureSock k).isValid = true
  · rw [← ensureSock_family k s]
    simp only [hv, Bool.not_true, Bool.false_eq_true, if_false]
    split
    · exact right_ensureSock hv
    · cases hd : k.done with
      | false =>
        -- a connection that fails takes the descriptor with it
        have hsock : ¬ (s.ensureSock k).sock = -1 := by simpa [isValid] using hv
        simp only [Bool.not_false, if_true, Bool.false_eq_true, if_false]
        rw [close, if_neg (by simp [hsock]), right_of_invalid (by simp [isValid])]
        exact forgotten_ensureSock k s
      | true =>
        simp only [Bool.not_true, Bool.false_eq_true, if_false, if_true]
        rw [right_getLocalAddress, right_getRemoteAddress]
        exact (right_of_valid (s := { s.ensureSock k with reports := k.after, isConnected := true }) hv).trans
          (agreesWith_ensureSock k s k.after)
  · simp only [hv, Bool.not_false, if_true, iff_true]
    exact right_unopened hv h

theorem kernel_right_iff (after : Reports) {s : Socket} (h : s.Right) :
    ({ s with reports := after } : Socket).Right ↔ s.sock = -1 ∨ s.AgreesWith after := by
  by_cases hv : s.isValid = true
  · have hsock : ¬ s.sock = -1 := by simpa [isValid] using hv
    rw [or_iff_right hsock]
    exact right_reports hv after
  · have hsock : s.sock = -1 := by simpa [isValid] using hv
    refine iff_of_true ?_ (.inl hsock)
    exact (right_of_invalid (s := { s with reports := after }) hv).mpr ((right_of_invalid hv).mp h)

/-- One command: right addresses stay right exactly where it is admitted. -/
theorem step_right_iff (c : Command) {s : Socket} (h : s.Right) : (step c s).2.Right ↔ Admits c s := by
  cases c with
  | bind addrFamily k => exact bind_right_iff addrFamily k h
  | connect addrFamily k => exact connect_right_iff addrFamily k h
  | close => exact close_right_iff h
  | getRemoteAddress answers => exact iff_of_true ((right_getRemoteAddress answers s).mpr h) trivial
  | getLocalAddress answers => exact iff_of_true ((right_getLocalAddress answers s).mpr h) trivial
  | kernel after => exact kernel_right_iff after h

theorem start_right_iff (family : Int) (start : Start) : (start.socket family).Right ↔ start.Admits family := by
  cases start with
  | constructed => exact iff_of_true ((right_of_invalid (by simp [Start.socket, isValid, new])).mpr (forgotten_new family)) trivial
  | accepted sock reports nameAnswers peerAnswers =>
    refine (right_getRemoteAddress peerAnswers _).trans ((right_getLocalAddress nameAnswers _).trans ?_)
    rw [Start.Admits]
    by_cases hsock : sock = -1
    · refine iff_of_true ?_ (.inl hsock)
      exact (right_of_invalid (by simp [isValid, hsock])).mpr (forgotten_new family)
    · rw [or_iff_right hsock]
      exact right_of_valid (by simpa [isValid] using hsock)

/-- Through a run the addresses returned are those of the current descriptor exactly where each command
that moves an end finds no other address of it kept. -/
theorem addresses_current_iff (family : Int) (start : Start) (commands : List Command) :
    (∀ s ∈ states perform commands (start.socket family), s.Right) ↔
      start.Admits family ∧ Along Admits perform commands (start.socket family) := by
  rw [forall_states_iff, ← start_right_iff]
  refine and_congr_right fun hstart => ?_
  have hperform : ∀ c s, Right s → ((∀ r s', perform c s = .ok (r,s') → s'.Right) ↔ Admits c s) := by
    intro c s hs
    refine Iff.trans ⟨fun h => h _ _ rfl,?_⟩ (step_right_iff c hs)
    intro h r s' he
    rw [← show (step c s).2 = s' from congrArg Prod.snd (Except.ok.inj he)]
    exact h
  refine along_congr hperform ?_ commands hstart
  intro c s r s' hs hc he
  exact (hperform c s hs).mpr hc r s' he

/-- `127.0.0.1` with the given port, as `sockaddr_in`. -/
def loopback (port : UInt8) : Sockaddr := [2,0,0,port,127,0,0,1,0,0,0,0,0,0,0,0]

/-- A successful connection to the port, everything answered. -/
def connected (port : UInt8) : Command :=
  .connect afInet ⟨3,⟨none,none⟩,true,⟨some (loopback port),some (loopback 1)⟩,true,true⟩

/-- Connected, closed and connected to another peer. -/
theorem remote_address_stale :
    ¬ ∀ (family : Int) (start : Start) (commands : List Command), ∀ s ∈ states perform commands (start.socket family), s.Right := by
  intro h
  have hlast := h afInet .constructed [connected 80,.close,connected 81] _
    (List.mem_cons_of_mem _ (List.mem_cons_of_mem _ (List.mem_cons_of_mem _ List.mem_cons_self)))
  revert hlast
  decide +kernel

end Socket
end Radixun.Net
