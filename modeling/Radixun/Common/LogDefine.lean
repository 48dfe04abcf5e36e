import Mathlib.Data.List.Lex
import Mathlib.Data.List.Forall2
import Radixun.Foundation.OrderedMap
import Radixun.Common.Logger

/-! Definitions of loggers in the configuration, the manager of the loggers, and the listener that applies a
new set of definitions. -/
namespace Radixun.Common.Log
open Foundation
open Config (bytes)

/-- `operator<` of `std::string`. -/
def stringLess (a b : List UInt8) : Bool := decide (a.map UInt8.toNat < b.map UInt8.toNat)

instance : StrictWeakOrder stringLess := .of_key (List.map UInt8.toNat) fun _ _ => decide_eq_true_iff

theorem same_string {a b : List UInt8} : OrderedMap.same stringLess a b = true ↔ a = b := by
  refine (OrderedMap.same_iff.trans (not_less_iff_of_key (List.map UInt8.toNat) (fun _ _ => decide_eq_true_iff) a b)).trans ?_
  exact (List.map_injective_iff.mpr fun _ _ => UInt8.toNat_inj.mp).eq_iff

structure LogAppenderDefine where
  type : Int
  level : Level
  formatter : List UInt8
  file : List UInt8
  deriving DecidableEq

structure LogDefine where
  name : List UInt8
  level : Level
  formatter : List UInt8
  appenders : List LogAppenderDefine
  deriving DecidableEq

namespace LogDefine

/-- `operator==`, which compares the appenders with themselves. -/
def equal (a b : LogDefine) : Bool := a.name == b.name && a.level == b.level && a.formatter == b.formatter && a.appenders == a.appenders

def less (a b : LogDefine) : Bool := stringLess a.name b.name

end LogDefine

/-- `std::set<LogDefine>`. -/
abbrev LogDefines := OrderedMap LogDefine Unit LogDefine.less

def elements (s : LogDefines) : List LogDefine := s.entries.map (·.1)

def LogDefines.lookup (s : LogDefines) (d : LogDefine) : Option LogDefine := (s.find d).map (·.1)

instance : StrictWeakOrder LogDefine.less := .of_key (fun d => d.name.map UInt8.toNat) fun _ _ => decide_eq_true_iff

theorem mem_elements {s : LogDefines} {d : LogDefine} : d ∈ elements s ↔ (d,()) ∈ s.entries := by
  rw [elements, List.mem_map]
  constructor
  · rintro ⟨e,he,rfl⟩
    exact he
  · intro h
    exact ⟨_,h,rfl⟩

theorem lookup_eq_some_iff {s : LogDefines} {d o : LogDefine} : s.lookup d = some o ↔ o ∈ elements s ∧ d.name = o.name := by
  rw [mem_elements, ← same_string]
  constructor
  · intro h
    obtain ⟨e,he,rfl⟩ := Option.map_eq_some_iff.mp h
    exact OrderedMap.find_eq_some_iff.mp he
  · intro h
    rw [LogDefines.lookup, OrderedMap.find_eq_some_iff.mpr h]
    rfl

theorem lookup_eq_none_iff {s : LogDefines} {d : LogDefine} : s.lookup d = none ↔ ∀ o ∈ elements s, o.name ≠ d.name := by
  constructor
  · intro h o ho hname
    rw [lookup_eq_some_iff.mpr ⟨ho,hname.symm⟩] at h
    cases h
  · intro h
    cases hl : s.lookup d with
    | none => rfl
    | some o =>
      obtain ⟨ho,hname⟩ := lookup_eq_some_iff.mp hl
      exact absurd hname.symm (h o ho)

/-- No two definitions of a set have one name. -/
theorem elements_different (s : LogDefines) : (elements s).Pairwise fun a b => a.name ≠ b.name := by
  rw [elements, List.pairwise_map]
  refine s.sorted.imp ?_
  intro a b hlt hname
  have hself : stringLess b.1.name b.1.name = false := StrictWeakOrder.not_self b.1.name
  rw [LogDefine.less, hname, hself] at hlt
  cases hlt

/-- `std::map<std::string,Logger::ptr>`. -/
abbrev Loggers := OrderedMap (List UInt8) Nat stringLess

/-- The manager with all that its loggers point to. The last three are numbers that no appender, logger and
formatter has yet. -/
structure LoggerManager where
  memory : Memory
  loggers : Loggers
  root : Nat
  nextAppender : Nat
  nextLogger : Nat
  nextFormatter : Nat

namespace LoggerManager

/-- The constructor. -/
def init : LoggerManager :=
  ⟨(⟨fun _ => .new .stdout,fun _ => .new (bytes "root") 0⟩ : Memory).addAppender 0 0,OrderedMap.empty.put (bytes "root") 0,0,1,1,1⟩

def named (m : LoggerManager) (name : List UInt8) : Option Nat := (m.loggers.find name).map (·.2)

def getLogger (m : LoggerManager) (name : List UInt8) : Nat × LoggerManager :=
  match m.named name with
  | some l => (l,m)
  | none => (m.nextLogger,{ m with
      memory := m.memory.setLogger m.nextLogger { Logger.new name m.nextFormatter with root := some m.root }
      loggers := m.loggers.put name m.nextLogger
      nextLogger := m.nextLogger + 1
      nextFormatter := m.nextFormatter + 1 })

end LoggerManager

/-- The appender of a definition up to the point where it is attached, or null where the definition has
neither type. -/
def LogAppenderDefine.make (a : LogAppenderDefine) (address : Nat) : Option LogAppender :=
  let ap := if a.type = 1 then some (LogAppender.new (.file a.file)) else if a.type = 2 then some (.new .stdout) else none
  ap.map fun ap =>
    let ap := { ap with level := a.level }
    if a.formatter ≠ [] then
      let fmt := LogFormatter.make a.formatter
      if !fmt.isError then ap.setFormatter (some ⟨address,fmt⟩) else ap
    else ap

namespace LoggerManager

/-- The body of the loop over the appenders of a definition. It fails if it follows a null `ap`. -/
def addDefined (l : Nat) (m : LoggerManager) (a : LogAppenderDefine) : Option LoggerManager :=
  (a.make m.nextFormatter).map fun ap => { m with
    memory := (m.memory.setAppender m.nextAppender ap).addAppender l m.nextAppender
    nextAppender := m.nextAppender + 1
    nextFormatter := m.nextFormatter + 1 }

/-- Which logger a definition is applied to: one that is new or not equal to the old one, else null. -/
def loggerOf (old : LogDefines) (m : LoggerManager) (i : LogDefine) : Option Nat × LoggerManager :=
  match old.lookup i with
  | none => (some (m.getLogger i.name).1,(m.getLogger i.name).2)
  | some it => if !i.equal it then (some (m.getLogger i.name).1,(m.getLogger i.name).2) else (none,m)

/-- The logger's own part of a definition, up to `clearAppenders`. -/
def prepare (l : Nat) (m : LoggerManager) (i : LogDefine) : LoggerManager :=
  let memory := m.memory.setLevel l i.level
  let memory := if i.formatter ≠ [] then memory.setPattern l i.formatter m.nextFormatter else memory
  { m with memory := memory.clearAppenders l, nextFormatter := m.nextFormatter + 1 }

/-- The body of the loop over the new definitions. It fails if it follows a null `logger`. -/
def configure (old : LogDefines) (m : LoggerManager) (i : LogDefine) : Option LoggerManager :=
  match m.loggerOf old i with
  | (none,_) => none
  | (some l,m) => i.appenders.foldlM (addDefined l) (m.prepare l i)

/-- The body of the loop over the old definitions. -/
def remove (new : LogDefines) (m : LoggerManager) (i : LogDefine) : LoggerManager :=
  match new.lookup i with
  | some _ => m
  | none =>
    let l := (m.getLogger i.name).1
    let m := (m.getLogger i.name).2
    { m with memory := (m.memory.setLevel l .unknow).clearAppenders l }

/-- `RADIXUN_LOG_INFO(RADIXUN_LOG_ROOT())`. -/
def greet (m : LoggerManager) : Option (List Line) :=
  if (m.memory.logger m.root).level ≤ .info then m.memory.log m.root .info else some []

/-- The listener of `LogIniter`. -/
def onLogDefines (old new : LogDefines) (m : LoggerManager) : Option LoggerManager :=
  match m.greet with
  | none => none
  | some _ => ((elements new).foldlM (configure old) m).map fun m => (elements old).foldl (remove new) m

end LoggerManager

/-! What the listener is to do. -/

/-- A pattern that a formatter is set from. -/
def Valid (pattern : List UInt8) : Prop := pattern ≠ [] ∧ (LogFormatter.make pattern).isError = false

/-- An appender as its definition has it. The formatter is the logger's where the definition has no valid one. -/
structure Built (d : LogAppenderDefine) (inherited : Option FormatterRef) (a : LogAppender) : Prop where
  kind : d.type = 1 ∧ a.kind = .file d.file ∨ d.type = 2 ∧ a.kind = .stdout
  level : a.level = d.level
  own : Valid d.formatter → a.hasFormatter = true ∧ ∃ address, a.formatter = some ⟨address,.make d.formatter⟩
  inherited : ¬ Valid d.formatter → a.hasFormatter = false ∧ a.formatter = inherited

namespace LoggerManager

/-- A logger as its definition has it. -/
structure Configured (m : LoggerManager) (d : LogDefine) (l : Nat) : Prop where
  level : (m.memory.logger l).level = d.level
  formatter : Valid d.formatter → ∃ address, (m.memory.logger l).formatter = some ⟨address,.make d.formatter⟩
  appenders : List.Forall₂ (fun d a => Built d (m.memory.logger l).formatter a) d.appenders
    ((m.memory.logger l).appenders.map m.memory.appender)

/-- Loggers that are new or changed are configured, others are left alone and those without a definition silenced. -/
structure Applied (old new : LogDefines) (m m' : LoggerManager) : Prop where
  changed : ∀ d ∈ elements new, d ∉ elements old → ∃ l, m'.named d.name = some l ∧ m'.Configured d l
  same : ∀ d ∈ elements new, d ∈ elements old → m'.named d.name = m.named d.name ∧
    ∀ l, m.named d.name = some l → m'.memory.logger l = m.memory.logger l ∧
      ∀ a ∈ (m.memory.logger l).appenders, m'.memory.appender a = m.memory.appender a
  removed : ∀ d ∈ elements old, (∀ d' ∈ elements new, d'.name ≠ d.name) →
    ∃ l, m'.named d.name = some l ∧ (m'.memory.logger l).level.value = 0 ∧ (m'.memory.logger l).appenders = []

/-- The class keeps different loggers under different names, numbers in use are below the next ones, and the
root logger is at the top. -/
structure Sound (m : LoggerManager) : Prop where
  different : ∀ n n' l, m.named n = some l → m.named n' = some l → n = n'
  logger : ∀ n l, m.named n = some l → l < m.nextLogger
  appender : ∀ l, ∀ a ∈ (m.memory.logger l).appenders, a < m.nextAppender
  root : m.root < m.nextLogger ∧ (m.memory.logger m.root).root = none

end LoggerManager

end Radixun.Common.Log
