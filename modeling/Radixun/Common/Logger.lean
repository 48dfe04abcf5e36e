import Mathlib.Data.List.Basic
import Mathlib.Logic.Function.Basic
import Radixun.Common.LogFormatter

/-! Loggers, their appenders and the formatters that both point to. -/
namespace Radixun.Common.Log
open Config (bytes)

/-- `LogLevel::Level`. -/
inductive Level where
  | unknow | debug | info | warn | error | fatal
  deriving DecidableEq

def Level.value : Level → Nat
  | .unknow => 0
  | .debug => 1
  | .info => 2
  | .warn => 3
  | .error => 4
  | .fatal => 5

instance : LE Level := ⟨fun a b => a.value ≤ b.value⟩
instance (a b : Level) : Decidable (a ≤ b) := inferInstanceAs (Decidable (a.value ≤ b.value))

/-- `LogLevel::ToString`. -/
def Level.toString : Level → List UInt8
  | .unknow => bytes "UNKNOW"
  | .debug => bytes "DEBUG"
  | .info => bytes "INFO"
  | .warn => bytes "WARN"
  | .error => bytes "ERROR"
  | .fatal => bytes "FATAL"

def levelNames : List (List UInt8 × Level) :=
  [(bytes "DEBUG",.debug),(bytes "INFO",.info),(bytes "WARN",.warn),(bytes "ERROR",.error),(bytes "FATAL",.fatal),
    (bytes "debug",.debug),(bytes "info",.info),(bytes "warn",.warn),(bytes "error",.error),(bytes "fatal",.fatal)]

/-- `LogLevel::FormString`. -/
def Level.formString (str : List UInt8) : Level := (levelNames.lookup str).getD .unknow

theorem formString_toString (level : Level) : Level.formString level.toString = level := by cases level <;> decide

/-- A `LogFormatter::ptr` that is not null: the object's address and the object. -/
structure FormatterRef where
  address : Nat
  object : LogFormatter
  deriving DecidableEq

/-- The class of an appender. -/
inductive AppenderKind where
  | file (filename : List UInt8)
  | stdout
  deriving DecidableEq

structure LogAppender where
  kind : AppenderKind
  level : Level
  hasFormatter : Bool
  formatter : Option FormatterRef
  deriving DecidableEq

namespace LogAppender

def new (kind : AppenderKind) : LogAppender := ⟨kind,.debug,false,none⟩

def setFormatter (a : LogAppender) (val : Option FormatterRef) : LogAppender := { a with hasFormatter := val.isSome, formatter := val }

/-- What `Logger::setFormatter` does with an attached appender, which keeps a formatter of its own. -/
def inherit (a : LogAppender) (val : Option FormatterRef) : LogAppender := if !a.hasFormatter then { a with formatter := val } else a

/-- `log` of either class: the formatter of the line it writes, if it writes one. It fails if it follows a
null `m_formatter`. -/
def log (a : LogAppender) (level : Level) : Option (Option FormatterRef) := if a.level ≤ level then a.formatter.map some else some none

end LogAppender

namespace LogAppender
variable {a : LogAppender}

theorem inherit_own (val : Option FormatterRef) (h : a.hasFormatter = true) : a.inherit val = a := by
  rw [inherit, h]
  rfl

theorem inherit_formatter (val : Option FormatterRef) (h : a.hasFormatter = false) : (a.inherit val).formatter = val := by
  rw [inherit, h]
  rfl

@[simp] theorem inherit_hasFormatter (val : Option FormatterRef) : (a.inherit val).hasFormatter = a.hasFormatter := by
  rw [inherit]
  split <;> rfl

theorem inherit_inherit (val : Option FormatterRef) : (a.inherit val).inherit val = a.inherit val := by
  cases h : a.hasFormatter with
  | false =>
    rw [inherit, inherit_hasFormatter, h, inherit, h]
    rfl
  | true => rw [inherit_own val h, inherit_own val h]

end LogAppender

/-- Appenders and other loggers are pointed to by their numbers. -/
structure Logger where
  name : List UInt8
  level : Level
  appenders : List Nat
  formatter : Option FormatterRef
  root : Option Nat
  deriving DecidableEq

def defaultPattern : List UInt8 := bytes "%d\x7b%Y-%m-%d %H:%M:%S\x7d%T%t%T%N%T%F%T[%p]%T[%c]%T%f:%l%T%m%n"

/-- The constructor, with the address of the formatter that it makes. -/
def Logger.new (name : List UInt8) (address : Nat) : Logger := ⟨name,.debug,[],some ⟨address,.make defaultPattern⟩,none⟩

/-- All appenders and loggers. -/
structure Memory where
  appender : Nat → LogAppender
  logger : Nat → Logger

/-- A line that an appender wrote, by the formatter that made its text. -/
structure Line where
  appender : Nat
  formatter : FormatterRef
  deriving DecidableEq

namespace Memory

def setAppender (m : Memory) (a : Nat) (v : LogAppender) : Memory := { m with appender := Function.update m.appender a v }
def setLogger (m : Memory) (l : Nat) (v : Logger) : Memory := { m with logger := Function.update m.logger l v }

def setLevel (m : Memory) (l : Nat) (val : Level) : Memory := m.setLogger l { m.logger l with level := val }

/-- `Logger::setFormatter` of a pointer. -/
def setFormatter (m : Memory) (l : Nat) (val : Option FormatterRef) : Memory :=
  (m.logger l).appenders.foldl (fun m a => m.setAppender a ((m.appender a).inherit val))
    (m.setLogger l { m.logger l with formatter := val })

/-- `Logger::setFormatter` of a pattern, with the address of the formatter that it makes. -/
def setPattern (m : Memory) (l : Nat) (val : List UInt8) (address : Nat) : Memory :=
  if (LogFormatter.make val).isError then m else m.setFormatter l (some ⟨address,.make val⟩)

def addAppender (m : Memory) (l a : Nat) : Memory :=
  let m' := if (m.appender a).formatter = none then m.setAppender a { m.appender a with formatter := (m.logger l).formatter } else m
  m'.setLogger l { m.logger l with appenders := (m.logger l).appenders ++ [a] }

def delAppender (m : Memory) (l a : Nat) : Memory := m.setLogger l { m.logger l with appenders := (m.logger l).appenders.erase a }

def clearAppenders (m : Memory) (l : Nat) : Memory := m.setLogger l { m.logger l with appenders := [] }

/-- The appenders of a list log one after the other. -/
def write (m : Memory) (level : Level) : List Nat → Option (List Line)
  | [] => some []
  | a :: as =>
    match (m.appender a).log level with
    | none => none
    | some line => (m.write level as).map fun lines => (line.map (Line.mk a)).toList ++ lines

/-- `Logger::log`, by what `log` of `m_root` does. -/
def logBelow (m : Memory) (below : Nat → Option (List Line)) (l : Nat) (level : Level) : Option (List Line) :=
  if (m.logger l).level ≤ level then
    if (m.logger l).appenders ≠ [] then m.write level (m.logger l).appenders
    else
      match (m.logger l).root with
      | none => some []
      | some root => below root
  else some []

/-- `Logger::log`. Where there is an `m_root` it is the root logger, which has none. -/
def log (m : Memory) (l : Nat) (level : Level) : Option (List Line) :=
  m.logBelow (fun root => m.logBelow (fun _ => some []) root level) l level

variable {m : Memory} {l l' a a' : Nat}

@[simp] theorem setAppender_self (v : LogAppender) : (m.setAppender a v).appender a = v := Function.update_self ..
@[simp] theorem setAppender_logger (v : LogAppender) : (m.setAppender a v).logger = m.logger := rfl
@[simp] theorem setLogger_self (v : Logger) : (m.setLogger l v).logger l = v := Function.update_self ..
@[simp] theorem setLogger_appender (v : Logger) : (m.setLogger l v).appender = m.appender := rfl

theorem setAppender_of_ne (v : LogAppender) (h : a' ≠ a) : (m.setAppender a v).appender a' = m.appender a' := Function.update_of_ne h ..
theorem setLogger_of_ne (v : Logger) (h : l' ≠ l) : (m.setLogger l v).logger l' = m.logger l' := Function.update_of_ne h ..

theorem inheritAll_logger (val : Option FormatterRef) (as : List Nat) (m : Memory) :
    (as.foldl (fun m a => m.setAppender a ((m.appender a).inherit val)) m).logger = m.logger := by
  induction as generalizing m with
  | nil => rfl
  | cons a as ih => rw [List.foldl_cons, ih, setAppender_logger]

/-- The loop over the attached appenders comes to each of them, to some more than once. -/
theorem inheritAll_appender (val : Option FormatterRef) (as : List Nat) (m : Memory) :
    (as.foldl (fun m a => m.setAppender a ((m.appender a).inherit val)) m).appender a' =
      if a' ∈ as then (m.appender a').inherit val else m.appender a' := by
  induction as generalizing m with
  | nil => rfl
  | cons a as ih =>
    rw [List.foldl_cons, ih]
    by_cases ha : a' = a
    · subst ha
      rw [setAppender_self, LogAppender.inherit_inherit, ite_self, if_pos List.mem_cons_self]
    · rw [setAppender_of_ne _ ha]
      simp only [List.mem_cons, ha, false_or]

theorem setFormatter_logger (val : Option FormatterRef) : (m.setFormatter l val).logger l = { m.logger l with formatter := val } := by
  rw [setFormatter, inheritAll_logger, setLogger_self]

theorem setFormatter_logger_of_ne (val : Option FormatterRef) (h : l' ≠ l) : (m.setFormatter l val).logger l' = m.logger l' := by
  rw [setFormatter, inheritAll_logger, setLogger_of_ne _ h]

theorem setFormatter_appender (val : Option FormatterRef) : (m.setFormatter l val).appender a =
    if a ∈ (m.logger l).appenders then (m.appender a).inherit val else m.appender a := by
  rw [setFormatter, inheritAll_appender, setLogger_appender]

theorem addAppender_logger : (m.addAppender l a).logger l = { m.logger l with appenders := (m.logger l).appenders ++ [a] } :=
  setLogger_self _

theorem addAppender_logger_of_ne (h : l' ≠ l) : (m.addAppender l a).logger l' = m.logger l' := by
  rw [addAppender, setLogger_of_ne _ h]
  split <;> rfl

theorem addAppender_appender : (m.addAppender l a).appender a =
    if (m.appender a).formatter = none then { m.appender a with formatter := (m.logger l).formatter } else m.appender a := by
  rw [addAppender, setLogger_appender]
  split
  · exact setAppender_self _
  · rfl

theorem addAppender_appender_of_ne (h : a' ≠ a) : (m.addAppender l a).appender a' = m.appender a' := by
  rw [addAppender, setLogger_appender]
  split
  · exact setAppender_of_ne _ h
  · rfl

theorem addAppender_formatter : ((m.addAppender l a).logger l').formatter = (m.logger l').formatter := by
  by_cases h : l' = l
  · rw [h, addAppender_logger]
  · rw [addAppender_logger_of_ne h]

/-- An appender that is attached has a formatter if the logger does. -/
theorem addAppender_formatter_ne (h : (m.logger l).formatter ≠ none) : ((m.addAppender l a).appender a).formatter ≠ none := by
  rw [addAppender_appender]
  split
  · exact h
  · assumption

/-- Attaching an appender changes none that has a formatter. -/
theorem addAppender_appender_of_some (h : (m.appender a').formatter ≠ none) : (m.addAppender l a).appender a' = m.appender a' := by
  by_cases ha : a' = a
  · rw [ha] at h ⊢
    rw [addAppender_appender, if_neg h]
  · exact addAppender_appender_of_ne ha

theorem mem_addAppender : a' ∈ ((m.addAppender l a).logger l').appenders ↔ a' ∈ (m.logger l').appenders ∨ l' = l ∧ a' = a := by
  by_cases h : l' = l
  · rw [h, addAppender_logger, List.mem_append, List.mem_singleton]
    simp only [true_and]
  · rw [addAppender_logger_of_ne h]
    simp only [h, false_and, or_false]

theorem setFormatter_appenders (val : Option FormatterRef) : ((m.setFormatter l val).logger l').appenders = (m.logger l').appenders := by
  by_cases h : l' = l
  · rw [h, setFormatter_logger]
  · rw [setFormatter_logger_of_ne val h]

theorem setFormatter_hasFormatter (val : Option FormatterRef) :
    ((m.setFormatter l val).appender a).hasFormatter = (m.appender a).hasFormatter := by
  rw [setFormatter_appender]
  split
  · exact LogAppender.inherit_hasFormatter val
  · rfl

/-- An appender with a formatter of its own is left alone. -/
theorem setFormatter_appender_own (val : Option FormatterRef) (h : (m.appender a).hasFormatter = true) :
    (m.setFormatter l val).appender a = m.appender a := by
  rw [setFormatter_appender, LogAppender.inherit_own val h, ite_self]

end Memory

end Radixun.Common.Log
