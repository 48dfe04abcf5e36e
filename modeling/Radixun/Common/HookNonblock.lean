import Mathlib.Data.List.Infix
import Radixun.Common.FdCtx

/-! The hooked `fcntl` and `ioctl` on a socket: the kernel's `O_NONBLOCK` and the one the user sees. -/
namespace Radixun.Common.Hook

/-- What the hooks and the kernel have of a descriptor. -/
structure Socket where
  ctx : Option FdCtx
  flags : BitVec 32

/-- A call with its argument and whether the kernel takes what the hook passes on. -/
inductive HookCall where
  | setfl (arg : BitVec 32) (ok : Bool)
  | getfl
  | fionbio (arg : BitVec 32) (ok : Bool)

/-- `ioctl_f(d, FIONBIO, arg)` on the status flags. -/
def ioctlNonblock (flags arg : BitVec 32) : BitVec 32 := if arg = 0 then flags &&& ~~~nonblockFlag else flags ||| nonblockFlag

/-- What a system call returns that has nothing else to say. -/
def outcome (ok : Bool) : BitVec 32 := if ok then 0 else -1

variable (k : Settable)

namespace Socket

/-- The context the hooks work with: `!ctx || ctx->isClose() || !ctx->isSocket()` leaves the call to the kernel. -/
def hooked (s : Socket) : Option FdCtx := s.ctx.filter fun c => !(c.isClosed || !c.isSocket)

/-- `fcntl` with `F_SETFL`. -/
def setfl (s : Socket) (arg : BitVec 32) (ok : Bool) : BitVec 32 × Socket :=
  match s.hooked with
  | none => (outcome ok,{ s with flags := if ok then k.setfl s.flags arg else s.flags })
  | some c =>
    let c := c.setUserNonblock (arg &&& nonblockFlag ≠ 0)
    let arg := if c.sysNonblock then arg ||| nonblockFlag else arg &&& ~~~nonblockFlag
    (outcome ok,⟨some c,if ok then k.setfl s.flags arg else s.flags⟩)

/-- `fcntl` with `F_GETFL`. -/
def getfl (s : Socket) : BitVec 32 :=
  match s.hooked with
  | none => s.flags
  | some c => if c.userNonblock then s.flags ||| nonblockFlag else s.flags &&& ~~~nonblockFlag

/-- `ioctl` with `FIONBIO`. -/
def fionbio (s : Socket) (arg : BitVec 32) (ok : Bool) : BitVec 32 × Socket :=
  let flags := if ok then ioctlNonblock s.flags arg else s.flags
  match s.hooked with
  | none => (outcome ok,{ s with flags := flags })
  | some c => (outcome ok,⟨some (c.setUserNonblock (arg ≠ 0)),flags⟩)

def step (s : Socket) : HookCall → BitVec 32 × Socket
  | .setfl arg ok => s.setfl k arg ok
  | .getfl => (s.getfl,s)
  | .fionbio arg ok => s.fionbio arg ok

/-- A socket as `FdManager::get` begins to manage it. -/
def managed (fd : Int32) (flags : BitVec 32) : Socket :=
  ⟨some (.new fd (some true)),FdCtx.initFlags k (.raw fd) (some true) flags⟩

def after (s : Socket) (calls : List HookCall) : Socket := calls.foldl (fun s c => (s.step k c).2) s

end Socket

/-- What the user is to see: the `O_NONBLOCK` asked for last, and the flags of a descriptor that has no
hooks. -/
structure Seen where
  asked : Bool
  flags : BitVec 32

def Seen.step (v : Seen) : HookCall → Seen
  | .setfl arg ok => ⟨arg &&& nonblockFlag ≠ 0,if ok then k.setfl v.flags arg else v.flags⟩
  | .getfl => v
  | .fionbio arg ok => ⟨arg ≠ 0,if ok then ioctlNonblock v.flags arg else v.flags⟩

def Seen.after (v : Seen) (calls : List HookCall) : Seen := calls.foldl (Seen.step k) v

/-- The kernel has `O_NONBLOCK` set as `getSysNonblock` says, and `F_GETFL` shows what the user asked for
and the other flags as they are without hooks. -/
structure Virtual (v : Seen) (s : Socket) : Prop where
  kernel : s.flags &&& nonblockFlag = nonblockFlag
  sys : ∃ c, s.ctx = some c ∧ c.sysNonblock = true
  shown : s.getfl &&& nonblockFlag ≠ 0 ↔ v.asked = true
  others : s.getfl &&& ~~~nonblockFlag = v.flags &&& ~~~nonblockFlag

/-- `FIONBIO` with a zero argument, taken by the kernel. -/
def Unblocks (c : HookCall) : Prop := c = .fionbio 0 true

theorem getLsbD_nonblockFlag (i : Nat) : nonblockFlag.getLsbD i = decide (i = 11) := by
  have hflag : nonblockFlag = BitVec.twoPow 32 11 := rfl
  rw [hflag, BitVec.getLsbD_twoPow]
  by_cases hi : i = 11
  · rw [hi]; rfl
  · have hi' : ¬ 11 = i := fun h => hi h.symm
    rw [decide_eq_false hi, decide_eq_false hi', Bool.and_false]

theorem and_nonblockFlag (x : BitVec 32) : x &&& nonblockFlag = if x.getLsbD 11 = true then nonblockFlag else 0 := by
  apply BitVec.eq_of_getLsbD_eq
  intro i _
  rw [BitVec.getLsbD_and, getLsbD_nonblockFlag]
  by_cases hi : i = 11
  · rw [hi]
    cases x.getLsbD 11 <;> rfl
  · rw [decide_eq_false hi, Bool.and_false]
    split
    · rw [getLsbD_nonblockFlag, decide_eq_false hi]
    · rw [BitVec.ofNat_eq_ofNat, BitVec.getLsbD_zero]

theorem shows_iff (x : BitVec 32) : x &&& nonblockFlag ≠ 0 ↔ x.getLsbD 11 = true := by
  rw [and_nonblockFlag]
  cases x.getLsbD 11 with
  | true => exact ⟨fun _ => rfl,fun _ => (by decide)⟩
  | false => exact ⟨fun h => absurd rfl h,fun h => (by cases h)⟩

theorem has_iff (x : BitVec 32) : x &&& nonblockFlag = nonblockFlag ↔ x.getLsbD 11 = true := by
  rw [and_nonblockFlag]
  cases x.getLsbD 11 with
  | true => exact ⟨fun _ => rfl,fun _ => rfl⟩
  | false => exact ⟨fun h => absurd h (by decide),fun h => (by cases h)⟩

/-- Flags that agree but for `O_NONBLOCK`. -/
def Agree (x y : BitVec 32) : Prop := ∀ i < 32, i ≠ 11 → x.getLsbD i = y.getLsbD i

theorem Agree.masked {x y : BitVec 32} (h : Agree x y) : x &&& ~~~nonblockFlag = y &&& ~~~nonblockFlag := by
  apply BitVec.eq_of_getLsbD_eq
  intro i hi
  rw [BitVec.getLsbD_and, BitVec.getLsbD_and, BitVec.getLsbD_not, getLsbD_nonblockFlag]
  by_cases h11 : i = 11
  · rw [h11]
    simp only [decide_true, Bool.not_true, Bool.and_false]
  · rw [h i hi h11]

theorem agree_set (x : BitVec 32) : Agree (x ||| nonblockFlag) x := by
  intro i _ h11
  rw [BitVec.getLsbD_or, getLsbD_nonblockFlag, decide_eq_false h11, Bool.or_false]

theorem agree_cleared (x : BitVec 32) : Agree (x &&& ~~~nonblockFlag) x := by
  intro i hi h11
  rw [BitVec.getLsbD_and, BitVec.getLsbD_not, getLsbD_nonblockFlag, decide_eq_false h11, decide_eq_true hi]
  exact Bool.and_true _

theorem Agree.symm {x y : BitVec 32} (h : Agree x y) : Agree y x := fun i hi h11 => (h i hi h11).symm

theorem Agree.trans {x y z : BitVec 32} (h : Agree x y) (h' : Agree y z) : Agree x z :=
  fun i hi h11 => (h i hi h11).trans (h' i hi h11)

theorem agree_ioctlNonblock (flags arg : BitVec 32) : Agree (ioctlNonblock flags arg) flags := by
  rw [ioctlNonblock]
  split
  · exact agree_cleared flags
  · exact agree_set flags

theorem getLsbD_setfl (flags arg : BitVec 32) {i : Nat} (hi : i < 32) : (k.setfl flags arg).getLsbD i =
    if k.mask.getLsbD i = true then arg.getLsbD i else flags.getLsbD i := by
  rw [Settable.setfl, BitVec.getLsbD_or, BitVec.getLsbD_and, BitVec.getLsbD_and, BitVec.getLsbD_not, decide_eq_true hi]
  cases k.mask.getLsbD i <;> simp only [Bool.not_true, Bool.not_false, Bool.and_true, Bool.and_false, Bool.or_false,
    Bool.false_or, Bool.false_eq_true, if_true, if_false]

/-- What `F_SETFL` makes of the other flags does not depend on `O_NONBLOCK`. -/
theorem agree_setfl {flags flags' arg arg' : BitVec 32} (h : Agree flags flags') (ha : Agree arg arg') :
    Agree (k.setfl flags arg) (k.setfl flags' arg') := by
  intro i hi h11
  rw [getLsbD_setfl k _ _ hi, getLsbD_setfl k _ _ hi, h i hi h11, ha i hi h11]

theorem setfl_nonblock (flags : BitVec 32) {arg : BitVec 32} (h : arg.getLsbD 11 = true) : (k.setfl flags arg).getLsbD 11 = true := by
  rw [getLsbD_setfl k _ _ (by decide), if_pos ((has_iff _).mp k.nonblock), h]

/-- The books between the socket and what the user is to see. -/
structure Inv (v : Seen) (s : Socket) : Prop where
  hooked : ∃ c, s.ctx = some c ∧ s.hooked = some c ∧ c.sysNonblock = true ∧ c.userNonblock = v.asked
  kernel : s.flags.getLsbD 11 = true
  agree : Agree s.flags v.flags

variable {k} {v : Seen} {s : Socket} {call : HookCall}

theorem Inv.virtual (h : Inv v s) : Virtual v s := by
  obtain ⟨c,hctx,hh,hsys,huser⟩ := h.hooked
  refine ⟨(has_iff _).mpr h.kernel,⟨c,hctx,hsys⟩,?_,?_⟩
  · rw [shows_iff, Socket.getfl, hh]
    cases hu : c.userNonblock with
    | true =>
      simp only [hu, if_true, BitVec.getLsbD_or, h.kernel, Bool.true_or, ← huser]
    | false =>
      simp only [hu, Bool.false_eq_true, if_false, ← huser, iff_false]
      rw [BitVec.getLsbD_and, BitVec.getLsbD_not, getLsbD_nonblockFlag, decide_eq_true rfl, Bool.not_true, Bool.and_false, Bool.and_false]
      exact Bool.false_ne_true
  · refine Agree.masked (Agree.trans ?_ h.agree)
    rw [Socket.getfl, hh]
    cases hu : c.userNonblock with
    | true => simp only [hu, if_true]; exact agree_set s.flags
    | false => simp only [hu, Bool.false_eq_true, if_false]; exact agree_cleared s.flags

/-- A change of the user's flag leaves the hooks at work. -/
theorem hooked_setUserNonblock {c : FdCtx} (hctx : s.ctx = some c) (hh : s.hooked = some c) (b : Bool) (flags : BitVec 32) :
    (⟨some (c.setUserNonblock b),flags⟩ : Socket).hooked = some (c.setUserNonblock b) := by
  rw [Socket.hooked, hctx, Option.filter_eq_some_iff] at hh
  rw [Socket.hooked, Option.filter_eq_some_iff]
  exact ⟨rfl,hh.2⟩

theorem step_inv (h : Inv v s) (hu : ¬ Unblocks call) : Inv (v.step k call) (s.step k call).2 := by
  obtain ⟨c,hctx,hh,hsys,huser⟩ := h.hooked
  cases call with
  | getfl => exact h
  | setfl arg ok =>
    have hsys' : (c.setUserNonblock (arg &&& nonblockFlag ≠ 0)).sysNonblock = true := hsys
    simp only [Socket.step, Socket.setfl, hh, hsys', if_true, Seen.step]
    refine ⟨⟨_,rfl,hooked_setUserNonblock hctx hh _ _,hsys,rfl⟩,?_,?_⟩
    · cases ok with
      | true =>
        refine setfl_nonblock k s.flags ?_
        rw [BitVec.getLsbD_or, getLsbD_nonblockFlag, decide_eq_true rfl, Bool.or_true]
      | false => exact h.kernel
    · cases ok with
      | true => exact agree_setfl k h.agree (agree_set arg)
      | false => exact h.agree
  | fionbio arg ok =>
    simp only [Socket.step, Socket.fionbio, hh, Seen.step]
    refine ⟨⟨_,rfl,hooked_setUserNonblock hctx hh _ _,hsys,rfl⟩,?_,?_⟩
    · cases ok with
      | true =>
        have harg : arg ≠ 0 := by
          rintro rfl
          exact hu rfl
        rw [if_pos rfl, ioctlNonblock, if_neg harg, BitVec.getLsbD_or, h.kernel, Bool.true_or]
      | false => exact h.kernel
    · cases ok with
      | true =>
        simp only [if_true]
        exact ((agree_ioctlNonblock s.flags arg).trans h.agree).trans (agree_ioctlNonblock v.flags arg).symm
      | false => exact h.agree

theorem inv_managed (fd : Int32) (flags : BitVec 32) : Inv ⟨false,flags⟩ (.managed k fd flags) := by
  have hflags : FdCtx.initFlags k (.raw fd) (some true) flags =
      if flags &&& nonblockFlag = 0 then k.setfl flags (flags ||| nonblockFlag) else flags := rfl
  refine ⟨⟨_,rfl,rfl,rfl,rfl⟩,?_,?_⟩
  · rw [Socket.managed, hflags]
    split
    · refine setfl_nonblock k flags ?_
      rw [BitVec.getLsbD_or, getLsbD_nonblockFlag, decide_eq_true rfl, Bool.or_true]
    · rename_i hne
      exact (shows_iff flags).mp hne
  · rw [Socket.managed, hflags]
    split
    · intro i hi h11
      rw [getLsbD_setfl k _ _ hi, agree_set flags i hi h11, ite_self]
    · exact fun _ _ _ => rfl

theorem after_inv {calls : List HookCall} (h : Inv v s) (hu : ∀ c ∈ calls, ¬ Unblocks c) : Inv (v.after k calls) (s.after k calls) := by
  induction calls generalizing v s with
  | nil => exact h
  | cons c calls ih =>
    exact ih (step_inv h (hu c List.mem_cons_self)) (fun d hd => hu d (List.mem_cons_of_mem c hd))

/-- After the call that clears it, the kernel's `O_NONBLOCK` is off. -/
theorem step_unblocks (s : Socket) (h : Unblocks call) : (s.step k call).2.flags.getLsbD 11 = false := by
  rw [Unblocks] at h
  subst h
  have hflags : (s.step k (.fionbio 0 true)).2.flags = s.flags &&& ~~~nonblockFlag := by
    rw [Socket.step, Socket.fionbio]
    cases s.hooked <;> rfl
  rw [hflags, BitVec.getLsbD_and, BitVec.getLsbD_not, getLsbD_nonblockFlag, decide_eq_true rfl, Bool.not_true, Bool.and_false,
    Bool.and_false]

/-- The socket stays non-blocking for the kernel, and shows the user what the user asked for, behind
every call exactly if no `FIONBIO` with a zero argument is among the calls. -/
theorem nonblock_virtual_iff (k : Settable) (fd : Int32) (flags : BitVec 32) (calls : List HookCall) :
    (∀ pre, pre <+: calls → Virtual (Seen.after k ⟨false,flags⟩ pre) (.after k (.managed k fd flags) pre)) ↔
      ∀ c ∈ calls, ¬ Unblocks c := by
  constructor
  · intro h c hc hu
    obtain ⟨pre,post,rfl⟩ := List.append_of_mem hc
    have hpre : pre ++ [c] <+: pre ++ c :: post := ⟨post,by rw [List.append_assoc, List.singleton_append]⟩
    have hk := (has_iff _).mp (h _ hpre).kernel
    rw [Socket.after, List.foldl_append, List.foldl_cons, List.foldl_nil, step_unblocks _ hu] at hk
    cases hk
  · intro h pre hpre
    exact (after_inv (inv_managed fd flags) fun c hc => h c (hpre.subset hc)).virtual

/-- The flags that Linux lets `F_SETFL` change: `O_APPEND`, `O_ASYNC`, `O_DIRECT`, `O_NOATIME` and
`O_NONBLOCK`. -/
def linux : Settable := ⟨0x46c00#32,rfl⟩

/-- `ioctl(fd, FIONBIO, &zero)` on a socket that was just accepted. -/
theorem fionbio_unblocks : ¬ ∀ calls pre, pre <+: calls →
    Virtual (Seen.after linux ⟨false,2⟩ pre) (.after linux (.managed linux 5 2) pre) := by
  intro h
  have hv := h [.fionbio 0 true] _ (List.prefix_refl _)
  exact absurd hv.kernel (by decide)

end Radixun.Common.Hook
