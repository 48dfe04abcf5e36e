import Radixun.Common.LogDefine

/-! The listener on the definitions of loggers: what a step on one logger leaves alone, and the two loops. -/
namespace Radixun.Common.Log
open Foundation
open Config (bytes)

theorem Memory.setPattern_valid {m : Memory} {l address : Nat} {pattern : List UInt8} (h : Valid pattern) :
    (if pattern ≠ [] then m.setPattern l pattern address else m) = m.setFormatter l (some ⟨address,.make pattern⟩) := by
  rw [if_pos h.1, setPattern, if_neg (by rw [h.2]; exact Bool.false_ne_true)]

theorem Memory.setPattern_invalid {m : Memory} {l address : Nat} {pattern : List UInt8} (h : ¬ Valid pattern) :
    (if pattern ≠ [] then m.setPattern l pattern address else m) = m := by
  split
  · rename_i hne
    cases he : (LogFormatter.make pattern).isError with
    | false => exact absurd ⟨hne,he⟩ h
    | true => rw [setPattern, if_pos he]
  · rfl

/-- The part of the appender's making that is about its formatter. -/
theorem LogAppender.formatted {a : LogAppender} (pattern : List UInt8) (address : Nat) (hflag : a.hasFormatter = false)
    (hnone : a.formatter = none) :
    ∃ b : LogAppender, (if pattern ≠ [] then
        if !(LogFormatter.make pattern).isError then a.setFormatter (some ⟨address,.make pattern⟩) else a
      else a) = b ∧ b.kind = a.kind ∧ b.level = a.level ∧
    (Valid pattern → b.hasFormatter = true ∧ b.formatter = some ⟨address,.make pattern⟩) ∧
    (¬ Valid pattern → b.hasFormatter = false ∧ b.formatter = none) := by
  by_cases hv : Valid pattern
  · rw [if_pos hv.1, hv.2]
    exact ⟨_,rfl,rfl,rfl,fun _ => ⟨rfl,rfl⟩,fun hn => absurd hv hn⟩
  · refine ⟨a,?_,rfl,rfl,fun h => absurd h hv,fun _ => ⟨hflag,hnone⟩⟩
    split
    · rename_i hne
      exact if_neg fun he => hv ⟨hne,by simpa using he⟩
    · rfl

/-- A definition of either type makes an appender, without a formatter if it has no valid one. -/
theorem LogAppenderDefine.make_typed {d : LogAppenderDefine} (h : d.type = 1 ∨ d.type = 2) (address : Nat) :
    ∃ a, d.make address = some a ∧ (d.type = 1 ∧ a.kind = .file d.file ∨ d.type = 2 ∧ a.kind = .stdout) ∧ a.level = d.level ∧
      (Valid d.formatter → a.hasFormatter = true ∧ a.formatter = some ⟨address,.make d.formatter⟩) ∧
      (¬ Valid d.formatter → a.hasFormatter = false ∧ a.formatter = none) := by
  obtain htype | htype := h
  · obtain ⟨b,he,hkind,hlevel,hb⟩ :=
      LogAppender.formatted (a := { LogAppender.new (.file d.file) with level := d.level }) d.formatter address rfl rfl
    refine ⟨b,?_,.inl ⟨htype,hkind⟩,hlevel,hb⟩
    rw [make, if_pos htype, ← he]
    rfl
  · obtain ⟨b,he,hkind,hlevel,hb⟩ :=
      LogAppender.formatted (a := { LogAppender.new .stdout with level := d.level }) d.formatter address rfl rfl
    refine ⟨b,?_,.inr ⟨htype,hkind⟩,hlevel,hb⟩
    rw [make, if_neg (by rw [htype]; decide), if_pos htype, ← he]
    rfl

namespace LoggerManager
variable {m m₁ m' : LoggerManager} {l : Nat} {n : List UInt8}

/-- Appenders that were made one after the other and attached to a logger. -/
structure Adds (l : Nat) (refs : List Nat) (m m' : LoggerManager) : Prop where
  self : m'.memory.logger l = { m.memory.logger l with appenders := (m.memory.logger l).appenders ++ refs }
  other : ∀ l', l' ≠ l → m'.memory.logger l' = m.memory.logger l'
  appender : ∀ a < m.nextAppender, m'.memory.appender a = m.memory.appender a
  fresh : ∀ a ∈ refs, m.nextAppender ≤ a ∧ a < m'.nextAppender
  grows : m.nextAppender ≤ m'.nextAppender
  manager : m'.loggers = m.loggers ∧ m'.root = m.root ∧ m'.nextLogger = m.nextLogger

theorem Adds.trans {refs₁ refs₂ : List Nat} (h₁ : Adds l refs₁ m m₁) (h₂ : Adds l refs₂ m₁ m') : Adds l (refs₁ ++ refs₂) m m' where
  self := by rw [h₂.self, h₁.self, List.append_assoc]
  other l' hl := (h₂.other l' hl).trans (h₁.other l' hl)
  appender a ha := (h₂.appender a (Nat.lt_of_lt_of_le ha h₁.grows)).trans (h₁.appender a ha)
  fresh a ha := by
    obtain ha | ha := List.mem_append.mp ha
    · exact ⟨(h₁.fresh a ha).1,Nat.lt_of_lt_of_le (h₁.fresh a ha).2 h₂.grows⟩
    · exact ⟨Nat.le_trans h₁.grows (h₂.fresh a ha).1,(h₂.fresh a ha).2⟩
  grows := Nat.le_trans h₁.grows h₂.grows
  manager := ⟨h₂.manager.1.trans h₁.manager.1,h₂.manager.2.1.trans h₁.manager.2.1,h₂.manager.2.2.trans h₁.manager.2.2⟩

theorem Adds.formatter {refs : List Nat} (h : Adds l refs m m') : (m'.memory.logger l).formatter = (m.memory.logger l).formatter := by
  rw [h.self]

theorem addDefined_adds {d : LogAppenderDefine} (m : LoggerManager) (l : Nat) (h : d.type = 1 ∨ d.type = 2) :
    ∃ m', m.addDefined l d = some m' ∧ Adds l [m.nextAppender] m m' ∧
      Built d (m.memory.logger l).formatter (m'.memory.appender m.nextAppender) := by
  obtain ⟨a,he,hkind,hlevel,hvalid,hinvalid⟩ := LogAppenderDefine.make_typed h m.nextFormatter
  rw [addDefined, he]
  refine ⟨_,rfl,⟨Memory.addAppender_logger,?_,?_,?_,Nat.le_succ _,rfl,rfl,rfl⟩,?_⟩
  · intro l' hl
    exact Memory.addAppender_logger_of_ne hl
  · intro b hb
    exact (Memory.addAppender_appender_of_ne (Nat.ne_of_lt hb)).trans (Memory.setAppender_of_ne _ (Nat.ne_of_lt hb))
  · intro b hb
    rw [List.mem_singleton.mp hb]
    exact ⟨Nat.le_refl _,Nat.lt_succ_self _⟩
  · simp only [Memory.addAppender_appender, Memory.setAppender_self, Memory.setAppender_logger]
    by_cases hv : Valid d.formatter
    · obtain ⟨hflag,hf⟩ := hvalid hv
      rw [if_neg (by rw [hf]; exact Option.some_ne_none _)]
      exact ⟨hkind,hlevel,fun _ => ⟨hflag,_,hf⟩,fun hn => absurd hv hn⟩
    · obtain ⟨hflag,hf⟩ := hinvalid hv
      rw [if_pos hf]
      exact ⟨hkind,hlevel,fun h => absurd h hv,fun _ => ⟨hflag,rfl⟩⟩

/-- The loop over the appenders of a definition attaches one for each. -/
theorem addAll_adds (l : Nat) {ds : List LogAppenderDefine} (m : LoggerManager) (h : ∀ d ∈ ds, d.type = 1 ∨ d.type = 2) :
    ∃ m' refs, ds.foldlM (addDefined l) m = some m' ∧ Adds l refs m m' ∧
      List.Forall₂ (fun d a => Built d (m.memory.logger l).formatter a) ds (refs.map m'.memory.appender) := by
  induction ds generalizing m with
  | nil =>
    refine ⟨m,[],rfl,⟨?_,fun _ _ => rfl,fun _ _ => rfl,fun a ha => (by cases ha),Nat.le_refl _,rfl,rfl,rfl⟩,.nil⟩
    rw [List.append_nil]
  | cons d ds ih =>
    obtain ⟨m₁,he₁,hadds₁,hbuilt₁⟩ := addDefined_adds m l (h d List.mem_cons_self)
    obtain ⟨m',refs,he,hadds,hbuilt⟩ := ih m₁ fun d' hd' => h d' (List.mem_cons_of_mem d hd')
    refine ⟨m',m.nextAppender :: refs,?_,hadds₁.trans hadds,.cons ?_ ?_⟩
    · rw [List.foldlM_cons, he₁]
      exact he
    · rw [hadds.appender _ (hadds₁.fresh _ List.mem_cons_self).2]
      exact hbuilt₁
    · rw [← hadds₁.formatter]
      exact hbuilt

/-- A change to one logger and to the appenders that are attached to it. -/
structure Changes (l : Nat) (m m' : LoggerManager) : Prop where
  other : ∀ l', l' ≠ l → m'.memory.logger l' = m.memory.logger l'
  appender : ∀ a < m.nextAppender, a ∉ (m.memory.logger l).appenders → m'.memory.appender a = m.memory.appender a
  grows : m.nextAppender ≤ m'.nextAppender
  root : (m'.memory.logger l).root = (m.memory.logger l).root
  manager : m'.loggers = m.loggers ∧ m'.root = m.root ∧ m'.nextLogger = m.nextLogger

theorem prepare_changes (l : Nat) (m : LoggerManager) (d : LogDefine) : Changes l m (m.prepare l d) ∧
    ((m.prepare l d).memory.logger l).level = d.level ∧ ((m.prepare l d).memory.logger l).appenders = [] ∧
    (Valid d.formatter → ∃ address, ((m.prepare l d).memory.logger l).formatter = some ⟨address,.make d.formatter⟩) := by
  by_cases hv : Valid d.formatter
  · rw [prepare, Memory.setPattern_valid hv, Memory.setLevel]
    refine ⟨⟨fun l' hl => ?_,fun a _ ha => ?_,Nat.le_refl _,?_,rfl,rfl,rfl⟩,?_,?_,fun _ => ⟨m.nextFormatter,?_⟩⟩
    · simp only [Memory.clearAppenders, Memory.setLogger_of_ne _ hl, Memory.setFormatter_logger_of_ne _ hl]
    · simp only [Memory.clearAppenders, Memory.setLogger_appender, Memory.setFormatter_appender, Memory.setLogger_self, if_neg ha]
    all_goals simp only [Memory.clearAppenders, Memory.setLogger_self, Memory.setFormatter_logger]
  · rw [prepare, Memory.setPattern_invalid hv, Memory.setLevel]
    refine ⟨⟨fun l' hl => ?_,fun a _ ha => rfl,Nat.le_refl _,?_,rfl,rfl,rfl⟩,?_,?_,fun h => absurd h hv⟩
    · simp only [Memory.clearAppenders, Memory.setLogger_of_ne _ hl]
    all_goals simp only [Memory.clearAppenders, Memory.setLogger_self]

theorem Adds.changes {refs : List Nat} (h : Adds l refs m₁ m') (h₁ : Changes l m m₁) : Changes l m m' where
  other l' hl := (h.other l' hl).trans (h₁.other l' hl)
  appender a hlt ha := (h.appender a (Nat.lt_of_lt_of_le hlt h₁.grows)).trans (h₁.appender a hlt ha)
  grows := Nat.le_trans h₁.grows h.grows
  root := (congrArg Logger.root h.self).trans h₁.root
  manager := ⟨h.manager.1.trans h₁.manager.1,h.manager.2.1.trans h₁.manager.2.1,h.manager.2.2.trans h₁.manager.2.2⟩

/-- The logger of a name after it was asked for. -/
structure Gets (n : List UInt8) (l : Nat) (m m' : LoggerManager) : Prop where
  named : m'.named n = some l
  others : ∀ n', n' ≠ n → m'.named n' = m.named n'
  logger : ∀ l', l' ≠ l → m'.memory.logger l' = m.memory.logger l'
  appenders : ∀ a ∈ (m'.memory.logger l).appenders, a ∈ (m.memory.logger l).appenders
  appender : m'.memory.appender = m.memory.appender
  manager : m'.root = m.root ∧ m'.nextAppender = m.nextAppender

theorem getLogger_found (h : m.named n = some l) : m.getLogger n = (l,m) := by
  rw [getLogger, h]

/-- Names after one was asked for that there was not. -/
theorem named_getLogger (h : m.named n = none) (n' : List UInt8) :
    (m.getLogger n).2.named n' = if n' = n then some m.nextLogger else m.named n' := by
  rw [getLogger, h]
  simp only [named, OrderedMap.find_put, same_string]
  split <;> rfl

theorem logger_getLogger (h : m.named n = none) : (m.getLogger n).2.memory =
    m.memory.setLogger m.nextLogger { Logger.new n m.nextFormatter with root := some m.root } := by
  rw [getLogger, h]

theorem getLogger_gets (m : LoggerManager) (n : List UInt8) : Gets n (m.getLogger n).1 m (m.getLogger n).2 := by
  cases hn : m.named n with
  | some l =>
    rw [getLogger_found hn]
    exact ⟨hn,fun _ _ => rfl,fun _ _ => rfl,fun _ ha => ha,rfl,rfl,rfl⟩
  | none =>
    have hnumber : (m.getLogger n).1 = m.nextLogger := by rw [getLogger, hn]
    refine ⟨?_,fun n' h => ?_,fun l' hl => ?_,fun a ha => ?_,?_,?_⟩
    · rw [named_getLogger hn, if_pos rfl, hnumber]
    · rw [named_getLogger hn, if_neg h]
    · rw [hnumber] at hl
      rw [logger_getLogger hn, Memory.setLogger_of_ne _ hl]
    · rw [hnumber, logger_getLogger hn, Memory.setLogger_self] at ha
      cases ha
    · rw [logger_getLogger hn, Memory.setLogger_appender]
    · rw [getLogger, hn]
      exact ⟨rfl,rfl⟩

theorem sound_getLogger (hs : m.Sound) (n : List UInt8) : (m.getLogger n).2.Sound := by
  cases hn : m.named n with
  | some l =>
    rw [getLogger_found hn]
    exact hs
  | none =>
    -- no logger has the number of the new one
    have hfresh : ∀ n', m.named n' ≠ some m.nextLogger := fun n' h => Nat.lt_irrefl _ (hs.logger n' _ h)
    have hnext : (m.getLogger n).2.nextLogger = m.nextLogger + 1 ∧ (m.getLogger n).2.nextAppender = m.nextAppender ∧
        (m.getLogger n).2.root = m.root := by
      rw [getLogger, hn]
      exact ⟨rfl,rfl,rfl⟩
    refine ⟨fun n₁ n₂ l h₁ h₂ => ?_,fun n' l h => ?_,fun l a ha => ?_,?_⟩
    · rw [named_getLogger hn] at h₁ h₂
      by_cases hn₁ : n₁ = n <;> by_cases hn₂ : n₂ = n
      · rw [hn₁, hn₂]
      · rw [if_pos hn₁] at h₁
        rw [if_neg hn₂, ← h₁] at h₂
        exact absurd h₂ (hfresh n₂)
      · rw [if_pos hn₂] at h₂
        rw [if_neg hn₁, ← h₂] at h₁
        exact absurd h₁ (hfresh n₁)
      · rw [if_neg hn₁] at h₁
        rw [if_neg hn₂] at h₂
        exact hs.different n₁ n₂ l h₁ h₂
    · rw [named_getLogger hn] at h
      rw [hnext.1]
      split at h
      · cases h
        exact Nat.lt_succ_self _
      · exact Nat.lt_succ_of_lt (hs.logger n' l h)
    · rw [hnext.2.1]
      rw [logger_getLogger hn] at ha
      by_cases hl : l = m.nextLogger
      · rw [hl, Memory.setLogger_self] at ha
        cases ha
      · rw [Memory.setLogger_of_ne _ hl] at ha
        exact hs.appender l a ha
    · rw [hnext.1, hnext.2.2, logger_getLogger hn, Memory.setLogger_of_ne _ (Nat.ne_of_lt hs.root.1)]
      exact ⟨Nat.lt_succ_of_lt hs.root.1,hs.root.2⟩

/-- A turn of either loop: what it may have changed for loggers with other names. -/
structure Touches (n : List UInt8) (m m' : LoggerManager) : Prop where
  sound : m'.Sound
  named : ∀ n', n' ≠ n → m'.named n' = m.named n'
  logger : ∀ l, m'.named n ≠ some l → m'.memory.logger l = m.memory.logger l
  fresh : ∀ l, m'.named n = some l → ∀ a ∈ (m'.memory.logger l).appenders, m.nextAppender ≤ a
  appender : ∀ a < m.nextAppender, (∀ l, m'.named n = some l → a ∉ (m.memory.logger l).appenders) →
    m'.memory.appender a = m.memory.appender a

theorem Changes.named (hc : Changes l m₁ m') (n : List UInt8) : m'.named n = m₁.named n := by
  rw [LoggerManager.named, LoggerManager.named, hc.manager.1]

/-- A change that leaves only new appenders keeps the manager sound. -/
theorem Changes.sound (hs : m₁.Sound) (hc : Changes l m₁ m') (hnew : ∀ a ∈ (m'.memory.logger l).appenders, a < m'.nextAppender) :
    m'.Sound := by
  refine ⟨fun n₁ n₂ l' h₁ h₂ => ?_,fun n' l' h => ?_,fun l' a ha => ?_,?_⟩
  · rw [hc.named] at h₁ h₂
    exact hs.different n₁ n₂ l' h₁ h₂
  · rw [hc.named] at h
    rw [hc.manager.2.2]
    exact hs.logger n' l' h
  · by_cases hl : l' = l
    · rw [hl] at ha
      exact hnew a ha
    · rw [hc.other l' hl] at ha
      exact Nat.lt_of_lt_of_le (hs.appender l' a ha) hc.grows
  · rw [hc.manager.2.1, hc.manager.2.2]
    refine ⟨hs.root.1,?_⟩
    by_cases hl : m₁.root = l
    · rw [hl, hc.root, ← hl]
      exact hs.root.2
    · rw [hc.other _ hl]
      exact hs.root.2

/-- A logger that is asked for by its name and changed, with none but new appenders left. -/
theorem touches_of_changes (hg : Gets n l m m₁) (hs₁ : m₁.Sound) (hc : Changes l m₁ m')
    (hnew : ∀ a ∈ (m'.memory.logger l).appenders, m₁.nextAppender ≤ a ∧ a < m'.nextAppender) :
    m'.named n = some l ∧ Touches n m m' := by
  have hself : m'.named n = some l := (hc.named n).trans hg.named
  refine ⟨hself,hc.sound hs₁ fun a ha => (hnew a ha).2,fun n' hn' => ?_,fun l' hne => ?_,fun l' h a ha => ?_,fun a hlt ha => ?_⟩
  · exact (hc.named n').trans (hg.others n' hn')
  · rw [hself] at hne
    have hl : l' ≠ l := fun h => hne (congrArg some h.symm)
    exact (hc.other l' hl).trans (hg.logger l' hl)
  · rw [hself] at h
    cases h
    exact hg.manager.2 ▸ (hnew a ha).1
  · have hmem : a ∉ (m₁.memory.logger l).appenders := fun h => ha l hself (hg.appenders a h)
    rw [hc.appender a (hg.manager.2.symm ▸ hlt) hmem, hg.appender]

/-- A definition that is applied to its logger, whose appenders no other logger has. -/
def Settled (m : LoggerManager) (d : LogDefine) : Prop :=
  ∃ l, m.named d.name = some l ∧ m.Configured d l ∧ ∀ l', l' ≠ l → ∀ a ∈ (m.memory.logger l).appenders, a ∉ (m.memory.logger l').appenders

theorem settled_touches {d : LogDefine} (hs : m.Sound) (ht : Touches n m m') (hn : d.name ≠ n) (h : m.Settled d) : m'.Settled d := by
  obtain ⟨l,hl,hc,hp⟩ := h
  have hl' : m'.named d.name = some l := (ht.named _ hn).trans hl
  -- the logger that is touched is another one
  have hother : ∀ l', m'.named n = some l' → l' ≠ l := fun l' h' he => hn (ht.sound.different _ _ l hl' (he ▸ h'))
  have hlog : m'.memory.logger l = m.memory.logger l := ht.logger l fun h' => hother l h' rfl
  have happ : ∀ a ∈ (m.memory.logger l).appenders, m'.memory.appender a = m.memory.appender a := fun a ha =>
    ht.appender a (hs.appender l a ha) fun l' h' => hp l' (hother l' h') a ha
  refine ⟨l,hl',⟨?_,?_,?_⟩,?_⟩
  · rw [hlog]
    exact hc.level
  · rw [hlog]
    exact hc.formatter
  · rw [hlog, List.map_congr_left happ]
    exact hc.appenders
  · intro l' hne a ha
    rw [hlog] at ha
    by_cases h' : m'.named n = some l'
    · exact fun hmem => Nat.not_le_of_lt (hs.appender l a ha) (ht.fresh l' h' a hmem)
    · rw [ht.logger l' h']
      exact hp l' hne a ha

/-- The turn for a definition that is new or not equal to the old one. -/
theorem configure_settles {old : LogDefines} {d : LogDefine} (hs : m.Sound) (typed : ∀ a ∈ d.appenders, a.type = 1 ∨ a.type = 2)
    (hd : ∀ o, old.lookup d = some o → d.equal o = false) :
    ∃ m', m.configure old d = some m' ∧ m'.Settled d ∧ Touches d.name m m' := by
  have hlogger : m.loggerOf old d = (some (m.getLogger d.name).1,(m.getLogger d.name).2) := by
    rw [loggerOf]
    cases hl : old.lookup d with
    | none => rfl
    | some o => simp only [hd o hl, Bool.not_false, if_true]
  have hg := getLogger_gets m d.name
  have hs₁ := sound_getLogger hs d.name
  obtain ⟨hc,hlevel,hnone,hformatter⟩ := prepare_changes (m.getLogger d.name).1 (m.getLogger d.name).2 d
  obtain ⟨m',refs,he,hadds,hbuilt⟩ := addAll_adds (m.getLogger d.name).1 ((m.getLogger d.name).2.prepare (m.getLogger d.name).1 d) typed
  have hself := hadds.self
  rw [hnone, List.nil_append] at hself
  have hnew : ∀ a ∈ (m'.memory.logger (m.getLogger d.name).1).appenders,
      (m.getLogger d.name).2.nextAppender ≤ a ∧ a < m'.nextAppender := by
    intro a ha
    rw [hself] at ha
    exact ⟨Nat.le_trans hc.grows (hadds.fresh a ha).1,(hadds.fresh a ha).2⟩
  have hc' := hadds.changes hc
  obtain ⟨hnamed,ht⟩ := touches_of_changes hg hs₁ hc' hnew
  refine ⟨m',?_,⟨_,hnamed,⟨?_,?_,?_⟩,?_⟩,ht⟩
  · rw [configure, hlogger]
    exact he
  · rw [hself]
    exact hlevel
  · rw [hself]
    exact hformatter
  · rw [hself]
    exact hbuilt
  · intro l' hl a ha hmem
    rw [hc'.other l' hl] at hmem
    exact Nat.not_le_of_lt (hs₁.appender l' a hmem) (hnew a ha).1

/-- The loop over the new definitions. -/
theorem configureAll_settles {old : LogDefines} {ds : List LogDefine} (hs : m.Sound) (hdiff : ds.Pairwise fun a b => a.name ≠ b.name)
    (typed : ∀ d ∈ ds, ∀ a ∈ d.appenders, a.type = 1 ∨ a.type = 2)
    (hds : ∀ d ∈ ds, ∀ o, old.lookup d = some o → d.equal o = false) :
    ∃ m', ds.foldlM (configure old) m = some m' ∧ m'.Sound ∧ (∀ d ∈ ds, m'.Settled d) ∧
      ∀ d, (∀ d' ∈ ds, d.name ≠ d'.name) → m.Settled d → m'.Settled d := by
  induction ds generalizing m with
  | nil => exact ⟨m,rfl,hs,fun d hd => (by cases hd),fun _ _ h => h⟩
  | cons d ds ih =>
    obtain ⟨hd,hdiff⟩ := List.pairwise_cons.mp hdiff
    rw [List.forall_mem_cons] at typed hds
    obtain ⟨m₁,he₁,hsettled,ht⟩ := configure_settles hs typed.1 hds.1
    obtain ⟨m',he,hs',hall,hkeep⟩ := ih ht.sound hdiff typed.2 hds.2
    refine ⟨m',?_,hs',?_,?_⟩
    · rw [List.foldlM_cons, he₁]
      exact he
    · rw [List.forall_mem_cons]
      exact ⟨hkeep d hd hsettled,hall⟩
    · intro d' hd' h
      rw [List.forall_mem_cons] at hd'
      exact hkeep d' hd'.2 (settled_touches hs ht hd'.1 h)

/-- A definition whose logger is not taken is where the listener fails. -/
theorem configure_equal {old : LogDefines} {d o : LogDefine} (ho : old.lookup d = some o) (he : d.equal o = true) (m : LoggerManager) :
    m.configure old d = none := by
  rw [configure, loggerOf, ho]
  simp only [he, Bool.not_true, Bool.false_eq_true, if_false]

theorem configureAll_equal {old : LogDefines} {ds : List LogDefine} {d o : LogDefine} (hd : d ∈ ds) (ho : old.lookup d = some o)
    (he : d.equal o = true) (m : LoggerManager) : ds.foldlM (configure old) m = none := by
  induction ds generalizing m with
  | nil => cases hd
  | cons d' ds ih =>
    rw [List.foldlM_cons]
    obtain rfl | hd := List.mem_cons.mp hd
    · rw [configure_equal ho he]
      rfl
    · cases m.configure old d' with
      | none => rfl
      | some m₁ => exact ih hd m₁

/-- A logger without a definition. -/
def Silenced (m : LoggerManager) (n : List UInt8) : Prop :=
  ∃ l, m.named n = some l ∧ (m.memory.logger l).level.value = 0 ∧ (m.memory.logger l).appenders = []

theorem silenced_touches {n' : List UInt8} (ht : Touches n m m') (hn : n' ≠ n) (h : m.Silenced n') : m'.Silenced n' := by
  obtain ⟨l,hl,h⟩ := h
  have hl' : m'.named n' = some l := (ht.named _ hn).trans hl
  refine ⟨l,hl',?_⟩
  rw [ht.logger l fun h' => hn (ht.sound.different _ _ l hl' h')]
  exact h

theorem remove_silences {new : LogDefines} {o : LogDefine} (hs : m.Sound) (ho : new.lookup o = none) :
    (m.remove new o).Silenced o.name ∧ Touches o.name m (m.remove new o) := by
  have hg := getLogger_gets m o.name
  have hs₁ := sound_getLogger hs o.name
  have hlogger : (m.remove new o).memory.logger (m.getLogger o.name).1 =
      { (m.getLogger o.name).2.memory.logger (m.getLogger o.name).1 with level := .unknow, appenders := [] } := by
    rw [remove, ho]
    simp only [Memory.clearAppenders, Memory.setLevel, Memory.setLogger_self]
  have hc : Changes (m.getLogger o.name).1 (m.getLogger o.name).2 (m.remove new o) := by
    refine ⟨?_,?_,?_,by rw [hlogger],?_⟩
    · intro l' hl
      rw [remove, ho]
      simp only [Memory.clearAppenders, Memory.setLevel, Memory.setLogger_of_ne _ hl]
    all_goals rw [remove, ho]
    · exact fun _ _ _ => rfl
    · exact ⟨rfl,rfl,rfl⟩
  obtain ⟨hnamed,ht⟩ := touches_of_changes hg hs₁ hc (by rw [hlogger]; exact fun a ha => (by cases ha))
  exact ⟨⟨_,hnamed,by rw [hlogger]; exact ⟨rfl,rfl⟩⟩,ht⟩

/-- The loop over the old definitions. -/
theorem removeAll_silences (new : LogDefines) (os : List LogDefine) (hs : m.Sound) :
    (os.foldl (remove new) m).Sound ∧ (∀ o ∈ os, new.lookup o = none → (os.foldl (remove new) m).Silenced o.name) ∧
      (∀ n, m.Silenced n → (os.foldl (remove new) m).Silenced n) ∧
      ∀ d ∈ elements new, m.Settled d → (os.foldl (remove new) m).Settled d := by
  induction os generalizing m with
  | nil => exact ⟨hs,fun o ho => (by cases ho),fun _ h => h,fun _ _ h => h⟩
  | cons o os ih =>
    rw [List.foldl_cons, List.forall_mem_cons]
    cases ho : new.lookup o with
    | some d =>
      have hsame : m.remove new o = m := by rw [remove, ho]
      rw [hsame]
      obtain ⟨hs',hall,hkeep,hsettled⟩ := ih hs
      exact ⟨hs',⟨fun h => (by cases h),hall⟩,hkeep,hsettled⟩
    | none =>
      obtain ⟨hsilenced,ht⟩ := remove_silences hs ho
      obtain ⟨hs',hall,hkeep,hsettled⟩ := ih ht.sound
      refine ⟨hs',⟨fun _ => hkeep _ hsilenced,hall⟩,?_,?_⟩
      · intro n h
        by_cases hn : n = o.name
        · rw [hn]
          exact hkeep _ hsilenced
        · exact hkeep n (silenced_touches ht hn h)
      · intro d hd h
        exact hsettled d hd (settled_touches hs ht (lookup_eq_none_iff.mp ho d hd) h)

/-- The root logger writes its line without following a null pointer. -/
def Greets (m : LoggerManager) : Prop :=
  (m.memory.logger m.root).level ≤ .info → ∀ a ∈ (m.memory.logger m.root).appenders,
    (m.memory.appender a).level ≤ .info → (m.memory.appender a).formatter ≠ none

theorem write_isSome_iff (m : Memory) (level : Level) (as : List Nat) :
    (m.write level as).isSome = true ↔ ∀ a ∈ as, (m.appender a).level ≤ level → (m.appender a).formatter ≠ none := by
  induction as with
  | nil => exact ⟨fun _ a ha => (by cases ha),fun _ => rfl⟩
  | cons a as ih =>
    rw [List.forall_mem_cons, ← ih, Memory.write, LogAppender.log]
    by_cases hlevel : (m.appender a).level ≤ level
    · rw [if_pos hlevel]
      cases hf : (m.appender a).formatter with
      | none => exact ⟨fun h => (by cases h),fun h => absurd rfl (h.1 hlevel)⟩
      | some f =>
        simp only [Option.map_some, Option.isSome_map]
        exact ⟨fun h => ⟨fun _ => Option.some_ne_none f,h⟩,fun h => h.2⟩
    · rw [if_neg hlevel]
      simp only [Option.isSome_map]
      exact ⟨fun h => ⟨fun hl => absurd hl hlevel,h⟩,fun h => h.2⟩

theorem greet_isSome_iff (hs : m.Sound) : m.greet.isSome = true ↔ m.Greets := by
  rw [greet, Greets]
  split
  · rename_i hlevel
    rw [Memory.log, Memory.logBelow, if_pos hlevel, hs.root.2]
    split
    · rw [write_isSome_iff]
      exact ⟨fun h _ => h,fun h => h hlevel⟩
    · rename_i hnone
      rw [not_not.mp hnone]
      exact ⟨fun _ _ a ha => (by cases ha),fun _ => rfl⟩
  · rename_i hlevel
    exact ⟨fun _ h => absurd h hlevel,fun _ => rfl⟩

end LoggerManager

/-- Definitions that are the same but for their appenders. -/
def LogDefine.Alike (a b : LogDefine) : Prop := a.name = b.name ∧ a.level = b.level ∧ a.formatter = b.formatter

theorem LogDefine.equal_iff {a b : LogDefine} : a.equal b = true ↔ a.Alike b := by
  rw [equal, Alike, beq_self_eq_true, Bool.and_true, Bool.and_eq_true, Bool.and_eq_true, beq_iff_eq, beq_iff_eq, beq_iff_eq, and_assoc]

namespace LoggerManager
variable {m : LoggerManager}

/-- Where no definition is alike to an old one, the two loops apply the new set. -/
theorem onLogDefines_applied {old new : LogDefines} (hs : m.Sound)
    (typed : ∀ d ∈ elements new, ∀ a ∈ d.appenders, a.type = 1 ∨ a.type = 2) (hg : m.Greets)
    (hd : ∀ d ∈ elements new, ∀ o ∈ elements old, ¬ d.Alike o) : ∃ m', m.onLogDefines old new = some m' ∧ m'.Sound ∧
      Applied old new m m' := by
  obtain ⟨lines,hgreet⟩ := Option.isSome_iff_exists.mp ((greet_isSome_iff hs).mpr hg)
  have hunequal : ∀ d ∈ elements new, ∀ o, old.lookup d = some o → d.equal o = false := by
    intro d hnew o ho
    rw [Bool.eq_false_iff, Ne, LogDefine.equal_iff]
    exact hd d hnew o (lookup_eq_some_iff.mp ho).1
  obtain ⟨m₁,he,hs₁,hsettled,-⟩ := configureAll_settles hs (elements_different new) typed hunequal
  obtain ⟨hs',hsilenced,-,hkept⟩ := removeAll_silences new (elements old) hs₁
  refine ⟨_,by rw [onLogDefines, hgreet, he]; rfl,hs',⟨?_,?_,?_⟩⟩
  · intro d hnew _
    obtain ⟨l,hl,hc,-⟩ := hkept d hnew (hsettled d hnew)
    exact ⟨l,hl,hc⟩
  · intro d hnew hold
    exact absurd ⟨rfl,rfl,rfl⟩ (hd d hnew d hold)
  · intro o ho hnone
    exact hsilenced o ho (lookup_eq_none_iff.mpr hnone)

theorem onLogDefines_alike {old new : LogDefines} {d o : LogDefine} (hnew : d ∈ elements new) (hold : o ∈ elements old) (h : d.Alike o) :
    m.onLogDefines old new = none := by
  rw [onLogDefines, configureAll_equal hnew (lookup_eq_some_iff.mpr ⟨hold,h.1⟩) (LogDefine.equal_iff.mpr h)]
  split <;> rfl

theorem sound_init : init.Sound := by
  have hnamed : ∀ n l, init.named n = some l → n = bytes "root" ∧ l = 0 := by
    intro n l h
    rw [named, init, OrderedMap.find_put] at h
    split at h
    · rename_i hn
      cases h
      exact ⟨same_string.mp hn,rfl⟩
    · cases h
  refine ⟨fun n n' l h h' => (hnamed n l h).1.trans (hnamed n' l h').1.symm,?_,?_,Nat.zero_lt_one,rfl⟩
  · intro n l h
    rw [(hnamed n l h).2]
    exact Nat.zero_lt_one
  · intro l a ha
    obtain h | ⟨-,rfl⟩ := Memory.mem_addAppender.mp ha
    · cases h
    · exact Nat.zero_lt_one

theorem greets_init : init.Greets := by
  intro _ a ha _
  obtain h | ⟨-,rfl⟩ := Memory.mem_addAppender.mp ha
  · cases h
  · exact Memory.addAppender_formatter_ne (Option.some_ne_none _)

/-- The listener applies a new set of definitions exactly where none of them has the name, the level and the
formatter of an old one, and the root logger can write the line it begins with. -/
theorem onLogDefines_applies_iff (old new : LogDefines) (m : LoggerManager) (hs : m.Sound)
    (typed : ∀ d ∈ elements new, ∀ a ∈ d.appenders, a.type = 1 ∨ a.type = 2) :
    (∃ m', m.onLogDefines old new = some m' ∧ Applied old new m m') ↔
      m.Greets ∧ ∀ d ∈ elements new, ∀ o ∈ elements old, ¬ d.Alike o := by
  constructor
  · rintro ⟨m',he,-⟩
    refine ⟨?_,fun d hnew o hold h => ?_⟩
    · rw [← greet_isSome_iff hs]
      cases hgreet : m.greet with
      | none => rw [onLogDefines, hgreet] at he; cases he
      | some lines => rfl
    · rw [onLogDefines_alike hnew hold h] at he
      cases he
  · intro h
    obtain ⟨m',he,-,ha⟩ := onLogDefines_applied hs typed h.1 h.2
    exact ⟨m',he,ha⟩

private def app : LogDefine := ⟨bytes "app",.info,[],[⟨2,.warn,[],[]⟩]⟩
private def apps : LogDefines := ⟨[(app,())],List.pairwise_singleton _ _⟩

private theorem apps_typed : ∀ d ∈ elements apps, ∀ a ∈ d.appenders, a.type = 1 ∨ a.type = 2 := by decide

/-- The first configuration of the new manager. -/
theorem onLogDefines_applies_first : ∃ m', init.onLogDefines .empty apps = some m' ∧ Applied .empty apps init m' :=
  (onLogDefines_applies_iff .empty apps init sound_init apps_typed).mpr ⟨greets_init,fun _ _ _ ho => (by cases ho)⟩

/-- A definition stays as it was. -/
theorem onLogDefines_unchanged : ¬ ∀ (old new : LogDefines) (m : LoggerManager), m.Sound →
    (∀ d ∈ elements new, ∀ a ∈ d.appenders, a.type = 1 ∨ a.type = 2) →
    ∃ m', m.onLogDefines old new = some m' ∧ Applied old new m m' := by
  intro h
  obtain ⟨m',he,-⟩ := h apps apps init sound_init apps_typed
  rw [onLogDefines_alike (d := app) (o := app) List.mem_cons_self List.mem_cons_self ⟨rfl,rfl,rfl⟩] at he
  cases he

end LoggerManager

end Radixun.Common.Log
