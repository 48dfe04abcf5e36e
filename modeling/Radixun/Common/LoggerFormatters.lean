import Radixun.Foundation.CommandRuns
import Radixun.Common.Logger

/-! Which formatter an attached appender writes with, while appenders are attached, detached and given to
other loggers and formatters are set in any order. -/
namespace Radixun.Common.Log
open Foundation CommandRuns

/-- Where a pattern is set, `address` is that of the formatter made from it. -/
inductive Command where
  | addAppender (l a : Nat)
  | delAppender (l a : Nat)
  | clearAppenders (l : Nat)
  | setFormatter (l : Nat) (val : FormatterRef)
  | setPattern (l : Nat) (val : List UInt8) (address : Nat)
  | setAppenderFormatter (a : Nat) (val : Option FormatterRef)
  | log (l : Nat) (level : Level)

inductive Fault where
  | nullFormatter

/-- The memory, and beside it what `LogAppender::setFormatter` last gave each appender. -/
structure Setting where
  memory : Memory
  own : Nat → Option FormatterRef

namespace Setting

/-- Loggers and appenders as their constructors make them. -/
def start (names : Nat → List UInt8) (addresses : Nat → Nat) (roots : Nat → Option Nat) (kinds : Nat → AppenderKind) : Setting :=
  ⟨⟨fun a => .new (kinds a),fun l => { Logger.new (names l) (addresses l) with root := roots l }⟩,fun _ => none⟩

/-- The formatter that an appender is to write the lines of a logger with. -/
def expected (s : Setting) (l a : Nat) : Option FormatterRef := (s.own a).or (s.memory.logger l).formatter

/-- Each attached appender has the formatter it is to write with. -/
def Inherits (s : Setting) : Prop :=
  ∀ l, ∀ a ∈ (s.memory.logger l).appenders, (s.memory.appender a).formatter ≠ none ∧ (s.memory.appender a).formatter = s.expected l a

def update : Command → Setting → Setting
  | .addAppender l a, s => { s with memory := s.memory.addAppender l a }
  | .delAppender l a, s => { s with memory := s.memory.delAppender l a }
  | .clearAppenders l, s => { s with memory := s.memory.clearAppenders l }
  | .setFormatter l val, s => { s with memory := s.memory.setFormatter l (some val) }
  | .setPattern l val address, s => { s with memory := s.memory.setPattern l val address }
  | .setAppenderFormatter a val, s =>
    ⟨s.memory.setAppender a ((s.memory.appender a).setFormatter val),Function.update s.own a val⟩
  | .log _ _, s => s

end Setting

/-- A command replies with the lines that it has written. -/
def step (c : Command) (s : Setting) : Except Fault (List Line × Setting) :=
  match c with
  | .log l level =>
    match s.memory.log l level with
    | none => .error .nullFormatter
    | some lines => .ok (lines,s)
  | c => .ok ([],s.update c)

/-- Giving a logger this formatter takes none away from what another logger shares with it. -/
def Unshared (l : Nat) (val : FormatterRef) (s : Setting) : Prop :=
  ∀ l' a, l' ≠ l → a ∈ (s.memory.logger l).appenders → a ∈ (s.memory.logger l').appenders → s.own a = none →
    (s.memory.logger l').formatter = some val

/-- A command that leaves each appender with the formatter it is to write with. -/
def Keeps : Command → Setting → Prop
  | .addAppender l a, s => s.own a = none →
    (s.memory.appender a).formatter = none ∨ (s.memory.appender a).formatter = (s.memory.logger l).formatter
  | .setFormatter l val, s => Unshared l val s
  | .setPattern l val address, s => (LogFormatter.make val).isError = false → Unshared l ⟨address,.make val⟩ s
  | .setAppenderFormatter a none, s => ∀ l, a ∉ (s.memory.logger l).appenders
  | _, _ => True

/-- What the code's flag says: whether there is a formatter of its own, which is then the one in use. -/
structure Tracked (s : Setting) : Prop where
  flag : ∀ a, (s.memory.appender a).hasFormatter = (s.own a).isSome
  own : ∀ a f, s.own a = some f → (s.memory.appender a).formatter = some f
  logger : ∀ l, (s.memory.logger l).formatter ≠ none

variable {s : Setting} {l a : Nat}

/-- Attaching an appender without a formatter gives it one that is not its own. -/
theorem tracked_addAppender (l a : Nat) (h : Tracked s) : Tracked { s with memory := s.memory.addAppender l a } := by
  refine ⟨fun b => ?_,fun b f hb => ?_,fun l' => ?_⟩
  · refine Eq.trans ?_ (h.flag b)
    by_cases hb : b = a
    · rw [hb, Memory.addAppender_appender]
      split <;> rfl
    · rw [Memory.addAppender_appender_of_ne hb]
  · have hf := h.own b f hb
    rw [Memory.addAppender_appender_of_some (by rw [hf]; exact Option.some_ne_none f)]
    exact hf
  · rw [Memory.addAppender_formatter]
    exact h.logger l'

theorem tracked_setFormatter (l : Nat) (val : FormatterRef) (h : Tracked s) :
    Tracked { s with memory := s.memory.setFormatter l (some val) } := by
  refine ⟨fun a => ?_,fun a f ha => ?_,fun l' => ?_⟩
  · rw [Memory.setFormatter_hasFormatter]
    exact h.flag a
  · rw [Memory.setFormatter_appender_own _ (by rw [h.flag, ha]; rfl)]
    exact h.own a f ha
  · by_cases hl : l' = l
    · rw [hl, Memory.setFormatter_logger]
      exact Option.some_ne_none val
    · rw [Memory.setFormatter_logger_of_ne _ hl]
      exact h.logger l'

theorem tracked_setLogger (l : Nat) (v : Logger) (hv : v.formatter = (s.memory.logger l).formatter) (h : Tracked s) :
    Tracked { s with memory := s.memory.setLogger l v } := by
  refine ⟨h.flag,h.own,fun l' => ?_⟩
  by_cases hl : l' = l
  · rw [hl, Memory.setLogger_self, hv]
    exact h.logger l
  · rw [Memory.setLogger_of_ne _ hl]
    exact h.logger l'

theorem tracked_setAppenderFormatter (a : Nat) (val : Option FormatterRef) (h : Tracked s) :
    Tracked ⟨s.memory.setAppender a ((s.memory.appender a).setFormatter val),Function.update s.own a val⟩ := by
  refine ⟨fun b => ?_,fun b f hb => ?_,h.logger⟩
  · by_cases hba : b = a
    · simp only [hba, Memory.setAppender_self, Function.update_self]
      rfl
    · simp only [Memory.setAppender_of_ne _ hba, Function.update_of_ne hba]
      exact h.flag b
  · by_cases hba : b = a
    · simp only [hba, Function.update_self] at hb
      simp only [hba, Memory.setAppender_self]
      exact hb
    · simp only [Function.update_of_ne hba] at hb
      simp only [Memory.setAppender_of_ne _ hba]
      exact h.own b f hb

theorem tracked_update (c : Command) (h : Tracked s) : Tracked (s.update c) := by
  cases c with
  | addAppender l a => exact tracked_addAppender l a h
  | delAppender l a => exact tracked_setLogger l _ rfl h
  | clearAppenders l => exact tracked_setLogger l _ rfl h
  | setFormatter l val => exact tracked_setFormatter l val h
  | setPattern l val address =>
    rw [Setting.update, Memory.setPattern]
    split
    · exact h
    · exact tracked_setFormatter l _ h
  | setAppenderFormatter a val => exact tracked_setAppenderFormatter a val h
  | log l level => exact h

theorem tracked_start (names : Nat → List UInt8) (addresses : Nat → Nat) (roots : Nat → Option Nat) (kinds : Nat → AppenderKind) :
    Tracked (.start names addresses roots kinds) :=
  ⟨fun _ => rfl,fun _ _ h => (by cases h),fun _ => Option.some_ne_none _⟩

theorem inherits_start (names : Nat → List UInt8) (addresses : Nat → Nat) (roots : Nat → Option Nat) (kinds : Nat → AppenderKind) :
    (Setting.start names addresses roots kinds).Inherits := by
  intro l a h
  cases h

/-- Attaching an appender hurts only if it brings along a formatter that is neither its own nor the logger's. -/
theorem inherits_addAppender_iff (ht : Tracked s) (hs : s.Inherits) :
    ({ s with memory := s.memory.addAppender l a } : Setting).Inherits ↔ Keeps (.addAppender l a) s := by
  constructor
  · intro h hown
    have hafter := (h l a (Memory.mem_addAppender.mpr (.inr ⟨rfl,rfl⟩))).2
    simp only [Setting.expected, hown, Option.none_or, Memory.addAppender_formatter, Memory.addAppender_appender] at hafter
    by_cases hf : (s.memory.appender a).formatter = none
    · exact .inl hf
    · rw [if_neg hf] at hafter
      exact .inr hafter
  · intro hk l' a' ha'
    simp only [Setting.expected, Memory.addAppender_formatter]
    obtain hold | ⟨rfl,rfl⟩ := Memory.mem_addAppender.mp ha'
    · rw [Memory.addAppender_appender_of_some (hs l' a' hold).1]
      exact hs l' a' hold
    · cases hown : s.own a' with
      | some f =>
        have hf := ht.own a' f hown
        rw [Memory.addAppender_appender_of_some (by rw [hf]; exact Option.some_ne_none f), hf]
        exact ⟨Option.some_ne_none f,rfl⟩
      | none =>
        have hl := ht.logger l'
        rw [Memory.addAppender_appender]
        obtain hf | hf := hk hown
        · rw [if_pos hf]
          exact ⟨hl,rfl⟩
        · rw [if_neg (by rw [hf]; exact hl), hf]
          exact ⟨hl,rfl⟩

/-- Detaching appenders hurts nothing. -/
theorem inherits_detach {appenders : List Nat} (hsub : ∀ a ∈ appenders, a ∈ (s.memory.logger l).appenders) (hs : s.Inherits) :
    ({ s with memory := s.memory.setLogger l { s.memory.logger l with appenders } } : Setting).Inherits := by
  intro l' a ha
  by_cases hl : l' = l
  · simp only [hl, Memory.setLogger_self] at ha
    simp only [Setting.expected, hl, Memory.setLogger_self]
    exact hs l a (hsub a ha)
  · simp only [Memory.setLogger_of_ne _ hl] at ha
    simp only [Setting.expected, Memory.setLogger_of_ne _ hl]
    exact hs l' a ha

theorem inherits_setFormatter_iff {val : FormatterRef} (ht : Tracked s) (hs : s.Inherits) :
    ({ s with memory := s.memory.setFormatter l (some val) } : Setting).Inherits ↔ Unshared l val s := by
  have hformatter : ∀ a, s.own a = none → a ∈ (s.memory.logger l).appenders →
      ((s.memory.setFormatter l (some val)).appender a).formatter = some val := by
    intro a hown ha
    rw [Memory.setFormatter_appender, if_pos ha]
    exact LogAppender.inherit_formatter _ (by rw [ht.flag, hown]; rfl)
  constructor
  · intro h l' a hl ha ha' hown
    have hafter := (h l' a (by simp only [Memory.setFormatter_appenders]; exact ha')).2
    simp only [Setting.expected, hformatter a hown ha, hown, Option.none_or, Memory.setFormatter_logger_of_ne _ hl] at hafter
    exact hafter.symm
  · intro hu l' a ha'
    simp only [Memory.setFormatter_appenders] at ha'
    have hbefore := hs l' a ha'
    cases hown : s.own a with
    | some f =>
      have hflag : (s.memory.appender a).hasFormatter = true := by rw [ht.flag, hown]; rfl
      simp only [Setting.expected, hown, Option.some_or] at hbefore
      simp only [Setting.expected, hown, Option.some_or, Memory.setFormatter_appender_own _ hflag]
      exact hbefore
    | none =>
      simp only [Setting.expected, hown, Option.none_or] at hbefore
      simp only [Setting.expected, hown, Option.none_or]
      by_cases ha : a ∈ (s.memory.logger l).appenders
      · simp only [hformatter a hown ha]
        refine ⟨Option.some_ne_none val,?_⟩
        by_cases hl : l' = l
        · rw [hl, Memory.setFormatter_logger]
        · rw [Memory.setFormatter_logger_of_ne _ hl, hu l' a hl ha ha' hown]
      · -- an appender of another logger only
        have hl : l' ≠ l := fun h => ha (h ▸ ha')
        simp only [Memory.setFormatter_appender, if_neg ha, Memory.setFormatter_logger_of_ne _ hl]
        exact hbefore

/-- Taking its formatter from an attached appender leaves it with none. -/
theorem inherits_setAppenderFormatter_iff {val : Option FormatterRef} (hs : s.Inherits) :
    (s.update (.setAppenderFormatter a val)).Inherits ↔ Keeps (.setAppenderFormatter a val) s := by
  have hother : ∀ l b, b ≠ a → b ∈ (s.memory.logger l).appenders →
      ((s.update (.setAppenderFormatter a val)).memory.appender b).formatter ≠ none ∧
      ((s.update (.setAppenderFormatter a val)).memory.appender b).formatter = (s.update (.setAppenderFormatter a val)).expected l b := by
    intro l b hb hmem
    simp only [Setting.update, Setting.expected, Memory.setAppender_of_ne _ hb, Function.update_of_ne hb, Memory.setAppender_logger]
    exact hs l b hmem
  have hself : ((s.update (.setAppenderFormatter a val)).memory.appender a).formatter = val := by
    simp only [Setting.update, Memory.setAppender_self, LogAppender.setFormatter]
  cases val with
  | none => exact ⟨fun h l ha => (h l a ha).1 hself,fun hk l b hb => hother l b (fun hba => hk l (hba ▸ hb)) hb⟩
  | some f =>
    refine ⟨fun _ => trivial,fun _ l b hb => ?_⟩
    by_cases hba : b = a
    · rw [hba, hself]
      refine ⟨Option.some_ne_none f,?_⟩
      simp only [Setting.update, Setting.expected, Function.update_self, Option.some_or]
    · exact hother l b hba hb

/-- What a command does to the formatters of attached appenders. -/
theorem inherits_update_iff (c : Command) (ht : Tracked s) (hs : s.Inherits) : (s.update c).Inherits ↔ Keeps c s := by
  cases c with
  | addAppender l a => exact inherits_addAppender_iff ht hs
  | delAppender l a => exact iff_of_true (inherits_detach (fun b hb => List.mem_of_mem_erase hb) hs) trivial
  | clearAppenders l => exact iff_of_true (inherits_detach (fun b hb => (by cases hb)) hs) trivial
  | setFormatter l val => exact inherits_setFormatter_iff ht hs
  | setPattern l val address =>
    rw [Setting.update, Memory.setPattern]
    cases he : (LogFormatter.make val).isError with
    | true => exact iff_of_true hs fun h => (by rw [he] at h; cases h)
    | false =>
      refine (inherits_setFormatter_iff ht hs).trans ?_
      rw [Keeps, he]
      exact ⟨fun h _ => h,fun h => h rfl⟩
  | setAppenderFormatter a val => exact inherits_setAppenderFormatter_iff hs
  | log l level => exact iff_of_true hs trivial

theorem step_update {c : Command} {s' : Setting} {lines : List Line} (h : step c s = .ok (lines,s')) : s' = s.update c := by
  cases c with
  | log l level =>
    rw [step] at h
    cases hl : s.memory.log l level with
    | none => rw [hl] at h; cases h
    | some lines => rw [hl] at h; cases h; rfl
  | _ => cases h; rfl

/-- A command that completes leaves each appender with the right formatter if and only if it keeps it so. -/
theorem step_inherits_iff (c : Command) (ht : Tracked s) (hs : s.Inherits) :
    (∀ lines s', step c s = .ok (lines,s') → s'.Inherits) ↔ Keeps c s := by
  constructor
  · intro h
    cases c with
    | log l level => trivial
    | _ => exact (inherits_update_iff _ ht hs).mp (h [] _ rfl)
  · intro h lines s' he
    rw [step_update he]
    exact (inherits_update_iff c ht hs).mpr h

theorem write_inherited {appenders : List Nat} (level : Level) (hsub : ∀ a ∈ appenders, a ∈ (s.memory.logger l).appenders)
    (hs : s.Inherits) :
    ∃ lines, s.memory.write level appenders = some lines ∧
      ∀ line ∈ lines, line.appender ∈ (s.memory.logger l).appenders ∧ s.expected l line.appender = some line.formatter := by
  induction appenders with
  | nil => exact ⟨[],rfl,fun line h => (by cases h)⟩
  | cons a as ih =>
    have ha := hsub a List.mem_cons_self
    obtain ⟨lines,he,hlines⟩ := ih fun b hb => hsub b (List.mem_cons_of_mem a hb)
    obtain ⟨hne,hf⟩ := hs l a ha
    obtain ⟨f,hsome⟩ := Option.ne_none_iff_exists'.mp hne
    rw [Memory.write]
    by_cases hlevel : (s.memory.appender a).level ≤ level
    · have hlog : (s.memory.appender a).log level = some (some f) := by rw [LogAppender.log, if_pos hlevel, hsome]; rfl
      rw [hlog, he]
      refine ⟨⟨a,f⟩ :: lines,rfl,?_⟩
      rw [List.forall_mem_cons]
      exact ⟨⟨ha,hf.symm.trans hsome⟩,hlines⟩
    · have hlog : (s.memory.appender a).log level = some none := if_neg hlevel
      rw [hlog, he]
      exact ⟨lines,rfl,hlines⟩

theorem logBelow_inherited {below : Nat → Option (List Line)} (l : Nat) (level : Level) (hs : s.Inherits)
    (hbelow : ∀ root, ∃ lines, below root = some lines ∧
      ∀ line ∈ lines, ∃ l', line.appender ∈ (s.memory.logger l').appenders ∧ s.expected l' line.appender = some line.formatter) :
    ∃ lines, s.memory.logBelow below l level = some lines ∧
      ∀ line ∈ lines, ∃ l', line.appender ∈ (s.memory.logger l').appenders ∧ s.expected l' line.appender = some line.formatter := by
  rw [Memory.logBelow]
  split
  · split
    · obtain ⟨lines,he,hlines⟩ := write_inherited (l := l) level (fun a h => h) hs
      exact ⟨lines,he,fun line h => ⟨l,hlines line h⟩⟩
    · split
      · exact ⟨[],rfl,fun line h => (by cases h)⟩
      · exact hbelow _
  · exact ⟨[],rfl,fun line h => (by cases h)⟩

/-- Where the formatters are right a call of `Logger::log` follows no null pointer, and each of its lines is
written with the formatter of the appender or of the logger it is attached to. -/
theorem log_inherited (l : Nat) (level : Level) (hs : s.Inherits) :
    ∃ lines, s.memory.log l level = some lines ∧
      ∀ line ∈ lines, ∃ l', line.appender ∈ (s.memory.logger l').appenders ∧ s.expected l' line.appender = some line.formatter := by
  refine logBelow_inherited l level hs ?_
  intro root
  refine logBelow_inherited root level hs ?_
  intro _
  exact ⟨[],rfl,fun line h => (by cases h)⟩

/-- In every state of a run each attached appender has its own formatter or the one of its logger, exactly
where each command of the run keeps it so. -/
theorem formatters_inherited_iff (names : Nat → List UInt8) (addresses : Nat → Nat) (roots : Nat → Option Nat)
    (kinds : Nat → AppenderKind) (commands : List Command) :
    (∀ s ∈ states step commands (.start names addresses roots kinds), s.Inherits) ↔
      Along Keeps step commands (.start names addresses roots kinds) := by
  rw [forall_states_iff]
  refine (and_iff_right (inherits_start names addresses roots kinds)).trans ?_
  refine along_congr (I := fun s => Tracked s ∧ s.Inherits) (fun c s h => step_inherits_iff c h.1 h.2) ?_ commands
    ⟨tracked_start names addresses roots kinds,inherits_start names addresses roots kinds⟩
  intro c s lines s' h hk he
  rw [step_update he]
  exact ⟨tracked_update c h.1,(inherits_update_iff c h.1 h.2).mpr hk⟩

/-- The formatter of an attached appender is set to null. -/
theorem formatter_lost : ¬ ∀ (names : Nat → List UInt8) (addresses : Nat → Nat) (roots : Nat → Option Nat)
    (kinds : Nat → AppenderKind) (commands : List Command),
    ∀ s ∈ states step commands (.start names addresses roots kinds), s.Inherits := by
  intro h
  have hend := h (fun _ => []) id (fun _ => none) (fun _ => .stdout) [.addAppender 0 0,.setAppenderFormatter 0 none] _
    (.tail _ (.tail _ (.head _)))
  exact (hend 0 0 (.head _)).1 rfl

end Radixun.Common.Log
