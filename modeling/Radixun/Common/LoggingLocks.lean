import Radixun.Common.LogDefine
import Radixun.Foundation.RankedLocks

/-! The calls on loggers, appenders and their manager as threads do them: which locks they take, and what they
read and write between them. -/
namespace Radixun.Common.Log
open Foundation RankedLocks

/-- The `m_mutex` of the manager, of a logger and of an appender. -/
inductive Lock where
  | manager
  | logger (l : Nat)
  | appender (a : Nat)
  deriving DecidableEq

/-- What `getFormatter` and `getLogger` return. -/
inductive Reply where
  | formatter (f : Option FormatterRef)
  | logger (l : Nat)

/-- The objects, `m_lastTime` of the file appenders, the lines that were written and what was returned. -/
structure LogState where
  manager : LoggerManager
  lastTime : Nat → Nat
  lines : List Line
  replies : List Reply

/-- What a thread does between taking and freeing locks. -/
inductive LogWork where
  | checkLevel (l : Nat) (level : Level)
  | dispatch (l : Nat) (level : Level)
  | logEach (l : Nat) (level : Level) (as : List Nat)
  | checkAppender (a : Nat) (level : Level)
  | checkTime (a : Nat)
  | setTime (a now : Nat)
  | reopen (a : Nat)
  | write (a : Nat)
  | storeFormatter (l : Nat) (val : Option FormatterRef)
  | inheritEach (l : Nat) (as : List Nat)
  | inherit (l a : Nat)
  | readFormatter (l : Nat)
  | printLogger (l : Nat)
  | printEach (l : Nat) (as : List Nat)
  | printAppender (a : Nat)
  | adopt (l a : Nat)
  | giveFormatter (l a : Nat)
  | pushAppender (l a : Nat)
  | eraseAppender (l a : Nat)
  | clear (l : Nat)
  | setLevel (l : Nat) (val : Level)
  | setAppenderLevel (a : Nat) (val : Level)
  | setOwnFormatter (a : Nat) (val : Option FormatterRef)
  | readOwnFormatter (a : Nat)
  | findLogger (name : List UInt8)
  | printManager
  | printLoggers (ls : List Nat)
  deriving DecidableEq

/-- `m_formatter->format` of a null pointer. -/
inductive LogCrash where
  | nullFormatter

abbrev LogOp := Op Lock LogWork

/-- `MutexType::Lock lock(k);` in front of the operations of a block. -/
def locked (k : Lock) (ops : List LogOp) : List LogOp := .acquire k :: (ops ++ [.release k])

namespace LogState

def memory (y : LogState) : Memory := y.manager.memory
def setMemory (y : LogState) (m : Memory) : LogState := { y with manager := { y.manager with memory := m } }
def setAppender (y : LogState) (a : Nat) (v : LogAppender) : LogState := y.setMemory (y.memory.setAppender a v)
def setLogger (y : LogState) (l : Nat) (v : Logger) : LogState := y.setMemory (y.memory.setLogger l v)
def reply (y : LogState) (r : Reply) : LogState := { y with replies := y.replies ++ [r] }

end LogState

/-- A work at the time that `time(0)` gives. -/
def LogWork.exec (now : Nat) : LogWork → LogState → Except LogCrash (List LogOp × LogState)
  | .checkLevel l level, y =>
    if (y.memory.logger l).level ≤ level then .ok (locked (.logger l) [.work (.dispatch l level)],y) else .ok ([],y)
  | .dispatch l level, y =>
    if (y.memory.logger l).appenders ≠ [] then .ok ([.work (.logEach l level (y.memory.logger l).appenders)],y)
    else
      match (y.memory.logger l).root with
      | none => .ok ([],y)
      | some root => .ok ([.work (.checkLevel root level)],y)
  | .logEach _ _ [], y => .ok ([],y)
  | .logEach l level (a :: as), y => .ok ([.work (.checkAppender a level),.work (.logEach l level as)],y)
  | .checkAppender a level, y =>
    if (y.memory.appender a).level ≤ level then
      match (y.memory.appender a).kind with
      | .file _ => .ok (.work (.checkTime a) :: locked (.appender a) [.work (.write a)],y)
      | .stdout => .ok (locked (.appender a) [.work (.write a)],y)
    else .ok ([],y)
  | .checkTime a, y =>
    if now ≠ y.lastTime a then .ok (locked (.appender a) [.work (.reopen a)] ++ [.work (.setTime a now)],y) else .ok ([],y)
  | .setTime a now, y => .ok ([],{ y with lastTime := Function.update y.lastTime a now })
  | .reopen _, y => .ok ([],y)
  | .write a, y =>
    match (y.memory.appender a).formatter with
    | none => .error .nullFormatter
    | some f => .ok ([],{ y with lines := y.lines ++ [⟨a,f⟩] })
  | .storeFormatter l val, y =>
    .ok ([.work (.inheritEach l (y.memory.logger l).appenders)],y.setLogger l { y.memory.logger l with formatter := val })
  | .inheritEach _ [], y => .ok ([],y)
  | .inheritEach l (a :: as), y => .ok (locked (.appender a) [.work (.inherit l a)] ++ [.work (.inheritEach l as)],y)
  | .inherit l a, y => .ok ([],y.setAppender a ((y.memory.appender a).inherit (y.memory.logger l).formatter))
  | .readFormatter l, y => .ok ([],y.reply (.formatter (y.memory.logger l).formatter))
  | .printLogger l, y => .ok ([.work (.printEach l (y.memory.logger l).appenders)],y)
  | .printEach _ [], y => .ok ([],y)
  | .printEach l (a :: as), y => .ok (locked (.appender a) [.work (.printAppender a)] ++ [.work (.printEach l as)],y)
  | .printAppender _, y => .ok ([],y)
  | .adopt l a, y =>
    -- the lock of `getFormatter` is free again before its result is looked at
    if (y.memory.appender a).formatter = none then .ok (.release (.appender a) :: locked (.appender a) [.work (.giveFormatter l a)],y)
    else .ok ([.release (.appender a)],y)
  | .giveFormatter l a, y => .ok ([],y.setAppender a { y.memory.appender a with formatter := (y.memory.logger l).formatter })
  | .pushAppender l a, y => .ok ([],y.setLogger l { y.memory.logger l with appenders := (y.memory.logger l).appenders ++ [a] })
  | .eraseAppender l a, y => .ok ([],y.setMemory (y.memory.delAppender l a))
  | .clear l, y => .ok ([],y.setMemory (y.memory.clearAppenders l))
  | .setLevel l val, y => .ok ([],y.setMemory (y.memory.setLevel l val))
  | .setAppenderLevel a val, y => .ok ([],y.setAppender a { y.memory.appender a with level := val })
  | .setOwnFormatter a val, y => .ok ([],y.setAppender a ((y.memory.appender a).setFormatter val))
  | .readOwnFormatter a, y => .ok ([],y.reply (.formatter (y.memory.appender a).formatter))
  | .findLogger name, y => .ok ([],{ y with manager := (y.manager.getLogger name).2 }.reply (.logger (y.manager.getLogger name).1))
  | .printManager, y => .ok ([.work (.printLoggers (y.manager.loggers.entries.map (·.2)))],y)
  | .printLoggers [], y => .ok ([],y)
  | .printLoggers (l :: ls), y => .ok (locked (.logger l) [.work (.printLogger l)] ++ [.work (.printLoggers ls)],y)

/-- The calls on loggers and on the manager, and those on appenders that loggers share. A direct `log`, `toYamlString`,
`reopen` or `getLevel` of an appender is not among them. -/
inductive LogCall where
  | log (l : Nat) (level : Level)
  | setFormatter (l : Nat) (val : Option FormatterRef)
  | setPattern (l : Nat) (val : List UInt8) (address : Nat)
  | getFormatter (l : Nat)
  | toYamlString (l : Nat)
  | addAppender (l a : Nat)
  | delAppender (l a : Nat)
  | clearAppenders (l : Nat)
  | setLevel (l : Nat) (val : Level)
  | setAppenderFormatter (a : Nat) (val : Option FormatterRef)
  | getAppenderFormatter (a : Nat)
  | setAppenderLevel (a : Nat) (val : Level)
  | getLogger (name : List UInt8)
  | managerToYamlString

/-- The operations of each call. The `lock(Mutex)` of `delAppender` declares a function and takes no lock. -/
def LogCall.enter : LogCall → List LogOp
  | .log l level => [.work (.checkLevel l level)]
  | .setFormatter l val => locked (.logger l) [.work (.storeFormatter l val)]
  | .setPattern l val address =>
    if (LogFormatter.make val).isError then [] else locked (.logger l) [.work (.storeFormatter l (some ⟨address,.make val⟩))]
  | .getFormatter l => locked (.logger l) [.work (.readFormatter l)]
  | .toYamlString l => locked (.logger l) [.work (.printLogger l)]
  | .addAppender l a => locked (.logger l) [.acquire (.appender a),.work (.adopt l a),.work (.pushAppender l a)]
  | .delAppender l a => [.work (.eraseAppender l a)]
  | .clearAppenders l => locked (.logger l) [.work (.clear l)]
  | .setLevel l val => [.work (.setLevel l val)]
  | .setAppenderFormatter a val => locked (.appender a) [.work (.setOwnFormatter a val)]
  | .getAppenderFormatter a => locked (.appender a) [.work (.readOwnFormatter a)]
  | .setAppenderLevel a val => [.work (.setAppenderLevel a val)]
  | .getLogger name => locked .manager [.work (.findLogger name)]
  | .managerToYamlString => locked .manager [.work .printManager]

def logging : Program LogCall Nat Lock LogWork LogState LogCrash := ⟨LogCall.enter,LogWork.exec⟩

/-- The manager's lock comes first, then those of the loggers, the root logger's behind the others', then those of
the appenders. -/
def Lock.rank (root : Nat) : Lock → Nat
  | .manager => 0
  | .logger l => if l = root then 2 else 1
  | .appender _ => 3

/-- Only the root logger is an `m_root`, and it has none. -/
structure Rooted (root : Nat) (y : LogState) : Prop where
  manager : y.manager.root = root
  fresh : root < y.manager.nextLogger
  above : ∀ l r, (y.memory.logger l).root = some r → r = root ∧ l ≠ root

/-- Locks of the manager and of loggers. -/
def BelowAppenders (root : Nat) (H : List Lock) : Prop := ∀ h ∈ H, h.rank root < 3

/-- The locks that a thread holds when it does a work, and behind what the work goes on to; `erases` where the works
of `delAppender` are among them. -/
def LogWork.allowed (root : Nat) (erases : Prop) : LogWork → List Lock → List Lock → Prop
  | .checkLevel l _, H, H' => H = H' ∧ ∀ h ∈ H, h.rank root < (Lock.logger l).rank root
  | .dispatch l _, H, H' => H = H' ∧ .logger l ∈ H ∧ ∀ h ∈ H, h.rank root ≤ (Lock.logger l).rank root
  | .logEach l _ _, H, H' | .storeFormatter l _, H, H' | .inheritEach l _, H, H' | .printLogger l, H, H' | .printEach l _, H, H' =>
    H = H' ∧ .logger l ∈ H ∧ BelowAppenders root H
  | .checkAppender _ _, H, H' | .checkTime _, H, H' | .setTime _ _, H, H' =>
    H = H' ∧ (∃ l, .logger l ∈ H) ∧ BelowAppenders root H
  | .reopen a, H, H' | .write a, H, H' | .printAppender a, H, H' | .setOwnFormatter a _, H, H' | .readOwnFormatter a, H, H' =>
    H = H' ∧ .appender a ∈ H
  | .inherit l a, H, H' | .giveFormatter l a, H, H' => H = H' ∧ .appender a ∈ H ∧ .logger l ∈ H
  | .adopt l a, H, H' => H = .appender a :: H' ∧ .logger l ∈ H' ∧ BelowAppenders root H'
  | .readFormatter l, H, H' | .pushAppender l _, H, H' | .clear l, H, H' => H = H' ∧ .logger l ∈ H
  | .eraseAppender _ _, H, H' => H = H' ∧ erases
  | .setLevel _ _, H, H' | .setAppenderLevel _ _, H, H' => H = H'
  | .findLogger _, H, H' => H = H' ∧ .manager ∈ H
  | .printManager, H, H' | .printLoggers _, H, H' => H = H' ∧ .manager ∈ H ∧ ∀ h ∈ H, h.rank root < 1

/-- `delAppender` is among the calls only where it may be. -/
def LogCall.admitted (erases : Prop) : LogCall → Prop
  | .delAppender _ _ => erases
  | _ => True

variable {root : Nat} {erases : Prop} {k : Lock} {H H' : List Lock}

abbrev KeepsOrder (root : Nat) (erases : Prop) : List Lock → List LogOp → List Lock → Prop :=
  Follows (Lock.rank root) (LogWork.allowed root erases)

theorem rank_logger (root l : Nat) : 1 ≤ (Lock.logger l).rank root ∧ (Lock.logger l).rank root < 3 := by
  rw [Lock.rank]
  split <;> decide

theorem BelowAppenders.nil : BelowAppenders root [] := by
  intro h hmem
  cases hmem

theorem BelowAppenders.cons (hk : k.rank root < 3) (h : BelowAppenders root H) : BelowAppenders root (k :: H) :=
  List.forall_mem_cons.mpr ⟨hk,h⟩

/-- A block with one work in it. -/
theorem keeps_locked {w : LogWork} (habove : ∀ h ∈ H, h.rank root < k.rank root) (hw : w.allowed root erases (k :: H) (k :: H)) :
    KeepsOrder root erases H (locked k [.work w]) H :=
  .acquire habove (.work hw (.release .nil))

/-- A block of an appender's. -/
theorem keeps_appender {a : Nat} {w : LogWork} (hbelow : BelowAppenders root H)
    (hw : w.allowed root erases (.appender a :: H) (.appender a :: H)) : KeepsOrder root erases H (locked (.appender a) [.work w]) H :=
  keeps_locked hbelow hw

theorem keeps_one {w : LogWork} (hw : w.allowed root erases H H') : KeepsOrder root erases H [.work w] H' := .work hw .nil

/-- A block at the beginning of a call. -/
theorem keeps_first {w : LogWork} (hw : w.allowed root erases [k] [k]) : KeepsOrder root erases [] (locked k [.work w]) [] := by
  apply keeps_locked _ hw
  intro h hmem
  cases hmem

theorem keeps_enter (call : LogCall) (h : call.admitted erases) : KeepsOrder root erases [] call.enter [] := by
  have hlogger (l : Nat) : BelowAppenders root [.logger l] := .cons (rank_logger root l).2 .nil
  cases call with
  | log l level => exact keeps_one ⟨rfl,by simp⟩
  | setFormatter l val => exact keeps_first ⟨rfl,List.mem_cons_self,hlogger l⟩
  | setPattern l val address =>
    rw [LogCall.enter]
    split
    · exact .nil
    · exact keeps_first ⟨rfl,List.mem_cons_self,hlogger l⟩
  | getFormatter l => exact keeps_first ⟨rfl,List.mem_cons_self⟩
  | toYamlString l => exact keeps_first ⟨rfl,List.mem_cons_self,hlogger l⟩
  | addAppender l a =>
    refine .acquire (by simp) (.acquire ?_ (.work ⟨rfl,List.mem_cons_self,hlogger l⟩ (.work ⟨rfl,List.mem_cons_self⟩ (.release .nil))))
    exact hlogger l
  | delAppender l a => exact keeps_one ⟨rfl,h⟩
  | clearAppenders l => exact keeps_first ⟨rfl,List.mem_cons_self⟩
  | setLevel l val => exact keeps_one rfl
  | setAppenderFormatter a val => exact keeps_first ⟨rfl,List.mem_cons_self⟩
  | getAppenderFormatter a => exact keeps_first ⟨rfl,List.mem_cons_self⟩
  | setAppenderLevel a val => exact keeps_one rfl
  | getLogger name => exact keeps_first ⟨rfl,List.mem_cons_self⟩
  | managerToYamlString => exact keeps_first ⟨rfl,List.mem_cons_self,by simp [Lock.rank]⟩

/-- The operations that a work goes on to. -/
theorem keeps_exec {now : Nat} {w : LogWork} {y y' : LogState} {ops : List LogOp} (hy : Rooted root y)
    (he : w.exec now y = .ok (ops,y')) (hw : w.allowed root erases H H') : KeepsOrder root erases H ops H' := by
  cases w with
  | checkLevel l level =>
    obtain ⟨rfl,hbelow⟩ := hw
    rw [LogWork.exec] at he
    split at he
    · cases he
      refine keeps_locked hbelow ⟨rfl,List.mem_cons_self,?_⟩
      exact List.forall_mem_cons.mpr ⟨le_rfl,fun h hmem => (hbelow h hmem).le⟩
    · cases he
      exact .nil
  | dispatch l level =>
    obtain ⟨rfl,hmem,hbelow⟩ := hw
    rw [LogWork.exec] at he
    split at he
    · cases he
      exact keeps_one ⟨rfl,hmem,fun h hh => lt_of_le_of_lt (hbelow h hh) (rank_logger root l).2⟩
    · split at he
      · cases he
        exact .nil
      · rename_i r hr
        cases he
        obtain ⟨rfl,hne⟩ := hy.above l r hr
        refine keeps_one ⟨rfl,fun h hh => lt_of_le_of_lt (hbelow h hh) ?_⟩
        simp [Lock.rank, hne]
  | logEach l level as =>
    obtain ⟨rfl,hmem,hbelow⟩ := hw
    cases as with
    | nil =>
      cases he
      exact .nil
    | cons a as =>
      cases he
      exact .work ⟨rfl,⟨l,hmem⟩,hbelow⟩ (keeps_one ⟨rfl,hmem,hbelow⟩)
  | checkAppender a level =>
    obtain ⟨rfl,hlogger,hbelow⟩ := hw
    have hwrite : KeepsOrder root erases H (locked (.appender a) [.work (.write a)]) H := keeps_appender hbelow ⟨rfl,List.mem_cons_self⟩
    rw [LogWork.exec] at he
    split at he
    · split at he
      · cases he
        exact .work ⟨rfl,hlogger,hbelow⟩ hwrite
      · cases he
        exact hwrite
    · cases he
      exact .nil
  | checkTime a =>
    obtain ⟨rfl,hlogger,hbelow⟩ := hw
    rw [LogWork.exec] at he
    split at he
    · cases he
      exact Follows.append (keeps_appender hbelow ⟨rfl,List.mem_cons_self⟩) (keeps_one ⟨rfl,hlogger,hbelow⟩)
    · cases he
      exact .nil
  | write a =>
    obtain ⟨rfl,-⟩ := hw
    rw [LogWork.exec] at he
    split at he
    · cases he
    · cases he
      exact .nil
  | storeFormatter l val =>
    cases he
    exact keeps_one hw
  | inheritEach l as =>
    obtain ⟨rfl,hmem,hbelow⟩ := hw
    cases as with
    | nil =>
      cases he
      exact .nil
    | cons a as =>
      cases he
      exact Follows.append (keeps_appender hbelow ⟨rfl,List.mem_cons_self,List.mem_cons_of_mem _ hmem⟩) (keeps_one ⟨rfl,hmem,hbelow⟩)
  | printLogger l =>
    cases he
    exact keeps_one hw
  | printEach l as =>
    obtain ⟨rfl,hmem,hbelow⟩ := hw
    cases as with
    | nil =>
      cases he
      exact .nil
    | cons a as =>
      cases he
      exact Follows.append (keeps_appender hbelow ⟨rfl,List.mem_cons_self⟩) (keeps_one ⟨rfl,hmem,hbelow⟩)
  | adopt l a =>
    obtain ⟨rfl,hmem,hbelow⟩ := hw
    rw [LogWork.exec] at he
    split at he
    · cases he
      exact .release (keeps_appender hbelow ⟨rfl,List.mem_cons_self,List.mem_cons_of_mem _ hmem⟩)
    · cases he
      exact .release .nil
  | printManager =>
    cases he
    exact keeps_one hw
  | printLoggers ls =>
    obtain ⟨rfl,hmem,hbelow⟩ := hw
    cases ls with
    | nil =>
      cases he
      exact .nil
    | cons l ls =>
      cases he
      have habove : ∀ h ∈ H, h.rank root < (Lock.logger l).rank root := fun h hh => lt_of_lt_of_le (hbelow h hh) (rank_logger root l).1
      refine Follows.append (keeps_locked habove ⟨rfl,List.mem_cons_self,?_⟩) (keeps_one ⟨rfl,hmem,hbelow⟩)
      exact .cons (rank_logger root l).2 fun h hh => (habove h hh).trans (rank_logger root l).2
  | eraseAppender l a | reopen a | setTime a now | inherit l a | readFormatter l | printAppender a | giveFormatter l a | pushAppender l a
  | clear l | setOwnFormatter a val | readOwnFormatter a | findLogger name =>
    cases he
    rw [hw.1]
    exact .nil
  | setLevel l val | setAppenderLevel a val =>
    cases he
    rw [show H = H' from hw]
    exact .nil

end Radixun.Common.Log
