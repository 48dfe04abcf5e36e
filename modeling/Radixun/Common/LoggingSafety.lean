import Radixun.Common.LoggingLocks

/-! What the locks of the logging system give: no two threads at one field, no deadlock, and an end of every call. -/
namespace Radixun.Common.Log
open Foundation RankedLocks
variable {root : Nat} {erases : Prop}

namespace Rooted
variable {y : LogState}

theorem setMemory (h : Rooted root y) {m : Memory} (hroot : ∀ l, (m.logger l).root = (y.memory.logger l).root) :
    Rooted root (y.setMemory m) := by
  refine ⟨h.manager,h.fresh,?_⟩
  intro l r hr
  apply h.above l r
  rw [← hroot]
  exact hr

theorem setAppender (h : Rooted root y) (a : Nat) (v : LogAppender) : Rooted root (y.setAppender a v) := h.setMemory fun _ => rfl

theorem setLogger (h : Rooted root y) {l : Nat} {v : Logger} (hv : v.root = (y.memory.logger l).root) : Rooted root (y.setLogger l v) := by
  apply h.setMemory
  intro l'
  by_cases hl : l' = l
  · rw [hl, Memory.setLogger_self, hv]
  · rw [Memory.setLogger_of_ne _ hl]

theorem getLogger (h : Rooted root y) (name : List UInt8) : Rooted root { y with manager := (y.manager.getLogger name).2 } := by
  rw [LoggerManager.getLogger]
  split
  · exact h
  · refine ⟨h.manager,Nat.lt_succ_of_lt h.fresh,?_⟩
    intro l r hr
    change ((y.memory.setLogger y.manager.nextLogger _).logger l).root = some r at hr
    by_cases hl : l = y.manager.nextLogger
    · rw [hl, Memory.setLogger_self, h.manager] at hr
      cases hr
      exact ⟨rfl,hl ▸ Nat.ne_of_gt h.fresh⟩
    · rw [Memory.setLogger_of_ne _ hl] at hr
      exact h.above l r hr

theorem exec {now : Nat} {w : LogWork} {y' : LogState} {ops : List LogOp} (h : Rooted root y) (he : w.exec now y = .ok (ops,y')) :
    Rooted root y' := by
  have hmem (v : List Line × List Reply × (Nat → Nat)) : Rooted root { y with lines := v.1, replies := v.2.1, lastTime := v.2.2 } :=
    ⟨h.manager,h.fresh,h.above⟩
  cases w with
  | write a =>
    rw [LogWork.exec] at he
    split at he
    · cases he
    · cases he
      exact hmem (_,_,_)
  | setTime a now => cases he; exact hmem (_,_,_)
  | readFormatter l => cases he; exact hmem (_,_,_)
  | readOwnFormatter a => cases he; exact hmem (_,_,_)
  | storeFormatter l val => cases he; exact h.setLogger rfl
  | pushAppender l a => cases he; exact h.setLogger rfl
  | eraseAppender l a => cases he; exact h.setLogger rfl
  | clear l => cases he; exact h.setLogger rfl
  | setLevel l val => cases he; exact h.setLogger rfl
  | inherit l a => cases he; exact h.setAppender a _
  | giveFormatter l a => cases he; exact h.setAppender a _
  | setAppenderLevel a val => cases he; exact h.setAppender a _
  | setOwnFormatter a val => cases he; exact h.setAppender a _
  | findLogger name =>
    cases he
    obtain ⟨hmanager,hfresh,habove⟩ := h.getLogger name
    exact ⟨hmanager,hfresh,habove⟩
  | checkLevel l level | dispatch l level | checkAppender a level | checkTime a | adopt l a =>
    rw [LogWork.exec] at he
    (repeat' split at he) <;> cases he <;> exact h
  | logEach l level as | inheritEach l as | printEach l as | printLoggers as => cases as <;> cases he <;> exact h
  | reopen a | printLogger l | printAppender a | printManager => cases he; exact h

end Rooted

theorem logging_disciplined : Disciplined logging (LogCall.admitted erases) (Lock.rank root) (LogWork.allowed root erases) (Rooted root) :=
  ⟨keeps_enter,keeps_exec,Rooted.exec⟩

theorem rank_lt (root : Nat) (k : Lock) : k.rank root < 4 := by
  cases k with
  | manager => exact Nat.succ_pos 3
  | logger l => exact (rank_logger root l).2.trans (Nat.lt_succ_self 3)
  | appender a => exact Nat.lt_succ_self 3

/-! A call that no other thread comes between does what the calls of the loggers do without locks. -/
section Alone
variable {now l a : Nat} {y y' : LogState} {level : Level} {ops : List LogOp}

theorem does_locked {k : Lock} (h : logging.Does now ops y y') : logging.Does now (locked k ops) y y' :=
  .acquire (h.append (.release .nil))

theorem does_work {w : LogWork} {more : List LogOp} {y₁ : LogState} (he : w.exec now y = .ok (more,y₁)) (h : logging.Does now more y₁ y') :
    logging.Does now [.work w] y y' := by
  refine .work he ?_
  rw [List.append_nil]
  exact h

theorem inheritEach_does {val : Option FormatterRef} (as : List Nat) (hval : (y.memory.logger l).formatter = val) :
    logging.Does now [.work (.inheritEach l as)] y
      (y.setMemory (as.foldl (fun m a => m.setAppender a ((m.appender a).inherit val)) y.memory)) := by
  induction as generalizing y with
  | nil => exact does_work rfl .nil
  | cons a as ih =>
    subst hval
    have hone : logging.Does now [.work (.inherit l a)] y
        (y.setAppender a ((y.memory.appender a).inherit (y.memory.logger l).formatter)) := does_work rfl .nil
    exact does_work rfl ((does_locked hone).append (ih rfl))

theorem setFormatter_does (y : LogState) (val : Option FormatterRef) :
    logging.Does now (LogCall.setFormatter l val).enter y (y.setMemory (y.memory.setFormatter l val)) := by
  have hstored : ((y.setLogger l { y.memory.logger l with formatter := val }).memory.logger l).formatter = val := by
    rw [LogState.setLogger, LogState.memory, LogState.setMemory, Memory.setLogger_self]
  exact does_locked (does_work rfl (inheritEach_does _ hstored))

theorem addAppender_does (y : LogState) : logging.Does now (LogCall.addAppender l a).enter y (y.setMemory (y.memory.addAppender l a)) := by
  refine .acquire (.acquire ?_)
  by_cases hnone : (y.memory.appender a).formatter = none
  · have hadopt : LogWork.exec now (.adopt l a) y =
        .ok (.release (.appender a) :: locked (.appender a) [.work (.giveFormatter l a)],y) := by rw [LogWork.exec, if_pos hnone]
    have hgiven : logging.Does now [.work (.giveFormatter l a)] y _ := does_work rfl .nil
    refine .work hadopt (.release ((does_locked hgiven).append (.work rfl (.release ?_))))
    rw [Memory.addAppender, if_pos hnone]
    exact .nil
  · have hadopt : LogWork.exec now (.adopt l a) y = .ok ([.release (.appender a)],y) := by rw [LogWork.exec, if_neg hnone]
    refine .work hadopt (.release (.work rfl (.release ?_)))
    rw [Memory.addAppender, if_neg hnone]
    exact .nil

/-- What a thread has logged: the objects are as before. -/
def Logged (now : Nat) (ops : List LogOp) (y : LogState) (lines : List Line) : Prop :=
  ∃ y', logging.Does now ops y y' ∧ y'.memory = y.memory ∧ y'.lines = y.lines ++ lines

theorem Logged.nothing (y : LogState) : Logged now [] y [] := ⟨y,.nil,rfl,(List.append_nil _).symm⟩

theorem write_logged {f : FormatterRef} (hf : (y.memory.appender a).formatter = some f) :
    Logged now (locked (.appender a) [.work (.write a)]) y [⟨a,f⟩] := by
  have hwrite : LogWork.exec now (.write a) y = .ok ([],{ y with lines := y.lines ++ [⟨a,f⟩] }) := by simp only [LogWork.exec, hf]
  exact ⟨_,does_locked (does_work hwrite .nil),rfl,rfl⟩

theorem checkTime_does (y : LogState) :
    ∃ y', logging.Does now [.work (.checkTime a)] y y' ∧ y'.memory = y.memory ∧ y'.lines = y.lines := by
  by_cases htime : now ≠ y.lastTime a
  · have hreopened : logging.Does now [.work (.reopen a)] y y := does_work rfl .nil
    have hset : logging.Does now [.work (.setTime a now)] y _ := does_work rfl .nil
    exact ⟨_,does_work (by rw [LogWork.exec, if_pos htime]) ((does_locked hreopened).append hset),rfl,rfl⟩
  · exact ⟨y,does_work (by rw [LogWork.exec, if_neg htime]) .nil,rfl,rfl⟩

theorem checkAppender_logged {line : Option FormatterRef} (h : (y.memory.appender a).log level = some line) :
    Logged now [.work (.checkAppender a level)] y (line.map (Line.mk a)).toList := by
  rw [LogAppender.log] at h
  split at h
  · rename_i hlevel
    obtain ⟨f,hf,rfl⟩ := Option.map_eq_some_iff.mp h
    cases hkind : (y.memory.appender a).kind with
    | file name =>
      obtain ⟨y₁,htime,hmemory,hlines⟩ : ∃ y₁, logging.Does now [.work (.checkTime a)] y y₁ ∧ _ := checkTime_does y
      rw [← hmemory] at hf
      obtain ⟨y',hwrite,hmemory',hlines'⟩ := write_logged hf
      refine ⟨y',does_work ?_ (htime.append hwrite),hmemory'.trans hmemory,hlines'.trans (by rw [hlines]; rfl)⟩
      simp only [LogWork.exec, if_pos hlevel, hkind, List.singleton_append]
    | stdout =>
      obtain ⟨y',hwrite,hmemory,hlines⟩ := write_logged hf
      refine ⟨y',does_work ?_ hwrite,hmemory,hlines⟩
      simp only [LogWork.exec, if_pos hlevel, hkind]
  · rename_i hlevel
    cases h
    refine ⟨y,does_work ?_ .nil,rfl,(List.append_nil _).symm⟩
    rw [LogWork.exec, if_neg hlevel]

theorem logEach_logged {lines : List Line} (as : List Nat) (h : y.memory.write level as = some lines) :
    Logged now [.work (.logEach l level as)] y lines := by
  induction as generalizing y lines with
  | nil =>
    cases h
    exact ⟨y,does_work rfl .nil,rfl,(List.append_nil _).symm⟩
  | cons a as ih =>
    rw [Memory.write] at h
    cases hline : (y.memory.appender a).log level with
    | none =>
      rw [hline] at h
      cases h
    | some line =>
      simp only [hline] at h
      obtain ⟨rest,hrest,rfl⟩ := Option.map_eq_some_iff.mp h
      obtain ⟨y₁,hone,hmemory,hlines⟩ : Logged now _ y _ := checkAppender_logged hline
      rw [← hmemory] at hrest
      obtain ⟨y',hothers,hmemory',hlines'⟩ := ih hrest
      refine ⟨y',does_work rfl (hone.append hothers),hmemory'.trans hmemory,?_⟩
      rw [hlines', hlines, List.append_assoc]

theorem logBelow_logged {below : Nat → Option (List Line)} {lines : List Line}
    (hbelow : ∀ r lines, (y.memory.logger l).root = some r → below r = some lines → Logged now [.work (.checkLevel r level)] y lines)
    (h : y.memory.logBelow below l level = some lines) : Logged now [.work (.checkLevel l level)] y lines := by
  rw [Memory.logBelow] at h
  have hdispatched (hlevel : (y.memory.logger l).level ≤ level) (h : Logged now [.work (.dispatch l level)] y lines) :
      Logged now [.work (.checkLevel l level)] y lines := by
    obtain ⟨y',hdoes,hend⟩ := h
    exact ⟨y',does_work (by rw [LogWork.exec, if_pos hlevel]) (does_locked hdoes),hend⟩
  split at h
  · rename_i hlevel
    apply hdispatched hlevel
    split at h
    · rename_i hsome
      obtain ⟨y',hdoes,hend⟩ : Logged now [.work (.logEach l level _)] y lines := logEach_logged _ h
      exact ⟨y',does_work (by rw [LogWork.exec, if_pos hsome]) hdoes,hend⟩
    · rename_i hnone
      split at h
      · rename_i hroot
        cases h
        refine ⟨y,does_work ?_ .nil,rfl,(List.append_nil _).symm⟩
        simp only [LogWork.exec, if_neg hnone, hroot]
      · rename_i r hroot
        obtain ⟨y',hdoes,hend⟩ := hbelow r lines hroot h
        refine ⟨y',does_work ?_ hdoes,hend⟩
        simp only [LogWork.exec, if_neg hnone, hroot]
  · rename_i hlevel
    cases h
    refine ⟨y,does_work ?_ .nil,rfl,(List.append_nil _).symm⟩
    rw [LogWork.exec, if_neg hlevel]

theorem log_logged (hy : Rooted root y) {lines : List Line} (h : y.memory.log l level = some lines) :
    Logged now (LogCall.log l level).enter y lines := by
  apply logBelow_logged _ h
  intro r lines hr hlog
  obtain ⟨rfl,-⟩ := hy.above l r hr
  apply logBelow_logged _ hlog
  intro r' lines hr'
  exact absurd rfl (hy.above r r' hr').2

end Alone

/-- How far a work is from its end: the steps of nesting below it, then the rest of its loop. -/
def LogWork.weight (root : Nat) : LogWork → Nat ×ₗ Nat
  | .checkLevel l _ => toLex (if l = root then 6 else 8,0)
  | .dispatch l _ => toLex (if l = root then 5 else 7,0)
  | .logEach _ _ as => toLex (4,as.length)
  | .checkAppender _ _ => toLex (3,0)
  | .checkTime _ => toLex (2,0)
  | .storeFormatter _ _ | .printLogger _ => toLex (2,0)
  | .inheritEach _ as | .printEach _ as => toLex (1,as.length)
  | .adopt _ _ => toLex (1,0)
  | .printManager => toLex (4,0)
  | .printLoggers ls => toLex (3,ls.length)
  | _ => toLex (0,0)

theorem exec_lighter {now : Nat} {w : LogWork} {y y' : LogState} {ops : List LogOp} (hy : Rooted root y)
    (he : w.exec now y = .ok (ops,y')) : ∀ w', .work w' ∈ ops → w'.weight root < w.weight root := by
  intro w' hmem
  cases w with
  | checkLevel l level =>
    rw [LogWork.exec] at he
    split at he <;> cases he <;> simp [locked] at hmem
    subst hmem
    simp only [LogWork.weight, Prod.Lex.toLex_lt_toLex]
    split <;> simp
  | dispatch l level =>
    rw [LogWork.exec] at he
    split at he
    · cases he
      simp at hmem
      subst hmem
      simp only [LogWork.weight, Prod.Lex.toLex_lt_toLex]
      split <;> simp
    · split at he <;> cases he <;> simp at hmem
      rename_i r hr
      subst hmem
      obtain ⟨rfl,hne⟩ := hy.above l r hr
      simp [LogWork.weight, Prod.Lex.toLex_lt_toLex, hne]
  | checkAppender a level =>
    rw [LogWork.exec] at he
    (repeat' split at he) <;> cases he <;> simp [locked] at hmem
    · obtain rfl | rfl := hmem <;> simp [LogWork.weight, Prod.Lex.toLex_lt_toLex]
    · subst hmem
      simp [LogWork.weight, Prod.Lex.toLex_lt_toLex]
  | checkTime a =>
    rw [LogWork.exec] at he
    split at he <;> cases he <;> simp [locked] at hmem
    obtain rfl | rfl := hmem <;> simp [LogWork.weight, Prod.Lex.toLex_lt_toLex]
  | adopt l a =>
    rw [LogWork.exec] at he
    split at he <;> cases he <;> simp [locked] at hmem
    subst hmem
    simp [LogWork.weight, Prod.Lex.toLex_lt_toLex]
  | write a =>
    rw [LogWork.exec] at he
    split at he <;> cases he
    cases hmem
  | logEach l level as | inheritEach l as | printEach l as =>
    cases as <;> cases he <;> simp [locked] at hmem
    obtain rfl | rfl := hmem <;> simp [LogWork.weight, Prod.Lex.toLex_lt_toLex]
  | printLoggers ls =>
    cases ls <;> cases he <;> simp [locked] at hmem
    obtain rfl | rfl := hmem <;> simp [LogWork.weight, Prod.Lex.toLex_lt_toLex]
  | storeFormatter l val | printLogger l | printManager =>
    cases he
    simp at hmem
    subst hmem
    simp [LogWork.weight, Prod.Lex.toLex_lt_toLex]
  | setTime a now | reopen a | inherit l a | readFormatter l | printAppender a | giveFormatter l a | pushAppender l a | eraseAppender l a
  | clear l | setLevel l val | setAppenderLevel a val | setOwnFormatter a val | readOwnFormatter a | findLogger name =>
    cases he
    cases hmem

/-- The fields that more than one thread may come to. -/
inductive LogField where
  | loggers
  | appenders (l : Nat)
  | formatter (l : Nat)
  | level (l : Nat)
  | ownFormatter (a : Nat)
  | stream (a : Nat)
  | appenderLevel (a : Nat)
  | lastTime (a : Nat)
  deriving DecidableEq

/-- The lock that a field is meant to be used under. The levels and `m_lastTime` have none. -/
def LogField.guard : LogField → Option Lock
  | .loggers => some .manager
  | .appenders l | .formatter l => some (.logger l)
  | .ownFormatter a | .stream a => some (.appender a)
  | .level _ | .appenderLevel _ | .lastTime _ => none

/-- What a work reads, and with `true` what it writes. -/
def LogWork.touches : LogWork → List (LogField × Bool)
  | .checkLevel l _ => [(.level l,false)]
  | .dispatch l _ | .logEach l _ _ | .inheritEach l _ | .printEach l _ => [(.appenders l,false)]
  | .checkAppender a _ => [(.appenderLevel a,false)]
  | .checkTime a => [(.lastTime a,false)]
  | .setTime a _ => [(.lastTime a,true)]
  | .reopen a => [(.stream a,true)]
  | .write a => [(.ownFormatter a,false),(.stream a,true)]
  | .storeFormatter l _ => [(.formatter l,true),(.appenders l,false)]
  | .inherit l a | .giveFormatter l a => [(.formatter l,false),(.ownFormatter a,true)]
  | .readFormatter l => [(.formatter l,false)]
  | .printLogger l => [(.level l,false),(.formatter l,false),(.appenders l,false)]
  | .printAppender a => [(.appenderLevel a,false),(.ownFormatter a,false)]
  | .adopt _ a | .readOwnFormatter a => [(.ownFormatter a,false)]
  | .pushAppender l _ | .eraseAppender l _ | .clear l => [(.appenders l,true)]
  | .setLevel l _ => [(.level l,true)]
  | .setAppenderLevel a _ => [(.appenderLevel a,true)]
  | .setOwnFormatter a _ => [(.ownFormatter a,true)]
  | .findLogger _ => [(.loggers,true)]
  | .printManager | .printLoggers _ => [(.loggers,false)]

section
variable {θ : Type} {s : Config θ Lock LogWork LogState} {t t' : θ}

/-- Two threads are in front of a field with their works, and one of these writes it. -/
def Races (s : Config θ Lock LogWork LogState) (t t' : θ) (w w' : LogWork) (c : LogField) : Prop :=
  t ≠ t' ∧ (∃ ops, s.left t = .work w :: ops) ∧ (∃ ops, s.left t' = .work w' :: ops) ∧
    ∃ b b', (c,b) ∈ w.touches ∧ (c,b') ∈ w'.touches ∧ (b || b') = true

/-- Every work but that of `delAppender` uses a field under its lock. -/
theorem allowed_guard {w : LogWork} {H H' : List Lock} {c : LogField} {b : Bool} {k : Lock} (hw : w.allowed root erases H H')
    (hc : (c,b) ∈ w.touches) (hk : c.guard = some k) : k ∈ H ∨ erases ∧ ∃ l a, w = .eraseAppender l a ∧ c = .appenders l := by
  cases w <;> simp only [LogWork.touches, List.mem_cons, List.not_mem_nil, or_false, Prod.mk.injEq] at hc <;>
    grind [LogField.guard, LogWork.allowed]

/-- The work of a thread that uses `m_lastTime` is done under some logger's lock. -/
theorem allowed_lastTime {w : LogWork} {H H' : List Lock} {a : Nat} {b : Bool} (hw : w.allowed root erases H H')
    (hc : (.lastTime a,b) ∈ w.touches) : ∃ l, .logger l ∈ H := by
  cases w <;> simp only [LogWork.touches, List.mem_cons, List.not_mem_nil, or_false, Prod.mk.injEq] at hc <;>
    grind [LogWork.allowed]

abbrev LogSound (root : Nat) (erases : Prop) : Config θ Lock LogWork LogState → Prop :=
  Sound (Lock.rank root) (LogWork.allowed root erases) (Rooted root)

/-- What two threads are at together: the list of a logger with `delAppender`, or a field without a lock. -/
theorem Races.guard {w w' : LogWork} {c : LogField} (hs : LogSound root erases s) (h : Races s t t' w w' c) :
    c.guard = none ∨ erases ∧ ∃ l a, c = .appenders l ∧ (w = .eraseAppender l a ∨ w' = .eraseAppender l a) := by
  obtain ⟨hne,⟨ops,hl⟩,⟨ops',hl'⟩,b,b',hc,hc',-⟩ := h
  obtain ⟨H,H₁,hw,hmine⟩ := hs.front hl
  obtain ⟨H',H₁',hw',hmine'⟩ := hs.front hl'
  cases hk : c.guard with
  | none => exact .inl rfl
  | some k =>
    right
    obtain hmem | ⟨herases,l,a,rfl,hlist⟩ := allowed_guard hw hc hk
    · obtain hmem' | ⟨herases,l,a,rfl,hlist⟩ := allowed_guard hw' hc' hk
      · have hsame := hmine k hmem
        rw [hmine' k hmem'] at hsame
        exact absurd (Option.some.inj hsame).symm hne
      · exact ⟨herases,l,a,hlist,.inr rfl⟩
    · exact ⟨herases,l,a,hlist,.inl rfl⟩

variable [DecidableEq θ] {y : LogState}

/-- In a run of any number of threads in which `delAppender` is not called, no two threads are at a field that has a
lock when one of them writes it, and from every state the calls come to their end in whatever order the threads go
on, with all locks free, if no null formatter is followed. -/
theorem logging_safe [Fintype θ] (hy : Rooted root y) (acts : List (Act θ LogCall Nat))
    (hcalls : ∀ t l a, .call t (.delAppender l a) ∉ acts) :
    ∀ s ∈ CommandRuns.states logging.act acts (.idle y),
      (∀ t t' w w' c, Races s t t' w w' c → c.guard = none) ∧
        Inevitable logging.Moves (fun s => s.Quiet ∨ logging.Fails s) s := by
  intro s hmem
  have hadmitted : ∀ t i, .call t i ∈ acts → LogCall.admitted False i := by
    intro t i hi
    cases i with
    | delAppender l a => exact hcalls t l a hi
    | _ => trivial
  have hs : LogSound root False s := Sound.run logging_disciplined acts hadmitted (Sound.idle hy) s hmem
  constructor
  · intro t t' w w' c h
    obtain hnone | ⟨hfalse,-⟩ := h.guard hs
    · exact hnone
    · exact hfalse.elim
  · exact hs.comes_to_rest logging_disciplined (rank_lt root) exec_lighter

/-- The state behind the manager's constructor. -/
def LogState.init : LogState := ⟨.init,fun _ => 0,[],[]⟩

theorem Rooted.init : Rooted 0 LogState.init := by
  refine ⟨rfl,Nat.one_pos,?_⟩
  intro l r hr
  have hnone : (LogState.init.memory.logger l).root = none := by
    by_cases hl : l = 0
    · subst hl
      rfl
    · exact congrArg Logger.root (Memory.addAppender_logger_of_ne hl)
  rw [hnone] at hr
  cases hr

private def reformatting : List (Act (Fin 2) LogCall Nat) :=
  [.call 0 (.log 0 .info),.call 1 (.setFormatter 0 none),.step 0 7,.step 1 7,.step 0 7,.step 1 7]

/-- A line is logged by one thread while another one takes the formatter away, in a run through seven states. -/
theorem log_and_setFormatter_safe :
    (CommandRuns.states logging.act reformatting (.idle .init)).length = 7 ∧
      ∀ s ∈ CommandRuns.states logging.act reformatting (.idle .init),
        (∀ t t' w w' c, Races s t t' w w' c → c.guard = none) ∧
          Inevitable logging.Moves (fun s => s.Quiet ∨ logging.Fails s) s :=
  ⟨rfl,logging_safe .init reformatting (by simp [reformatting])⟩

/-- In every state of a run in which no call is in progress, a call that nothing comes between takes and frees its locks
and has the effect, and writes the lines, that it has without threads. -/
theorem calls_undisturbed (hy : Rooted root y) (acts : List (Act θ LogCall Nat))
    (hs : s ∈ CommandRuns.states logging.act acts (.idle y)) (hquiet : s.Quiet) (t : θ) (now l : Nat) :
    (∀ val, ∃ s', logging.act (.call t (.setFormatter l val)) s = .ok (⟨⟩,s') ∧
      logging.EndsWith t now s' (s.shared.setMemory (s.shared.memory.setFormatter l val))) ∧
    (∀ a, ∃ s', logging.act (.call t (.addAppender l a)) s = .ok (⟨⟩,s') ∧
      logging.EndsWith t now s' (s.shared.setMemory (s.shared.memory.addAppender l a))) ∧
    ∀ level lines, s.shared.memory.log l level = some lines → ∃ s' z, logging.act (.call t (.log l level)) s = .ok (⟨⟩,s') ∧
      logging.EndsWith t now s' z ∧ z.memory = s.shared.memory ∧ z.lines = s.shared.lines ++ lines := by
  have hadmitted : ∀ t i, .call t i ∈ acts → LogCall.admitted True i := by
    intro t i _
    cases i <;> trivial
  have hsound : LogSound root True s := Sound.run logging_disciplined acts hadmitted (Sound.idle hy) s hs
  have hcall : ∀ i z, i.admitted True → logging.Does now i.enter s.shared z →
      ∃ s', logging.act (.call t i) s = .ok (⟨⟩,s') ∧ logging.EndsWith t now s' z :=
    fun i z hi hdoes => hsound.call_alone logging_disciplined hi hquiet hdoes t
  refine ⟨fun val => ?_,fun a => ?_,fun level lines hlog => ?_⟩
  · exact hcall _ _ trivial (setFormatter_does _ val)
  · exact hcall _ _ trivial (addAppender_does _)
  · obtain ⟨z,hdoes,hmemory,hlines⟩ := log_logged hsound.inv hlog
    obtain ⟨s',hact,hend⟩ := hcall (.log l level) z trivial hdoes
    exact ⟨s',z,hact,hend,hmemory,hlines⟩

/-- The line of one call behind the constructor. -/
theorem first_line :
    ∃ s' z, logging.act (.call (0 : Fin 2) (.log 0 .info)) (.idle .init) = .ok (⟨⟩,s') ∧ logging.EndsWith 0 7 s' z ∧
      z.memory = LogState.init.memory ∧ z.lines = [⟨0,⟨0,.make defaultPattern⟩⟩] :=
  (calls_undisturbed .init [] (List.mem_singleton_self _) ⟨fun _ => rfl,fun _ => rfl⟩ 0 7 0).2.2 .info _ rfl

/-- All that threads do to each other's fields without order, in every run: the levels, `m_lastTime` of an appender that two
threads reach through different loggers, and the list of a logger that one of them deletes from. -/
theorem logging_races (hy : Rooted root y) (acts : List (Act θ LogCall Nat)) {w w' : LogWork} {c : LogField}
    (hs : s ∈ CommandRuns.states logging.act acts (.idle y)) (h : Races s t t' w w' c) :
    (∃ l, c = .level l) ∨ (∃ a, c = .appenderLevel a) ∨
      (∃ a l l', c = .lastTime a ∧ l ≠ l' ∧ s.owner (.logger l) = some t ∧ s.owner (.logger l') = some t') ∨
      ∃ l a, c = .appenders l ∧ (w = .eraseAppender l a ∨ w' = .eraseAppender l a) := by
  have hadmitted : ∀ t i, .call t i ∈ acts → LogCall.admitted True i := by
    intro t i _
    cases i <;> trivial
  have hsound : LogSound root True s := Sound.run logging_disciplined acts hadmitted (Sound.idle hy) s hs
  obtain hnone | ⟨-,hdeleted⟩ := h.guard hsound
  · cases c with
    | level l => exact .inl ⟨l,rfl⟩
    | appenderLevel a => exact .inr (.inl ⟨a,rfl⟩)
    | lastTime a =>
      obtain ⟨hne,⟨ops,hl⟩,⟨ops',hl'⟩,b,b',hc,hc',-⟩ := h
      obtain ⟨H,H₁,hw,hmine⟩ := hsound.front hl
      obtain ⟨H',H₁',hw',hmine'⟩ := hsound.front hl'
      obtain ⟨l,hmem⟩ := allowed_lastTime hw hc
      obtain ⟨l',hmem'⟩ := allowed_lastTime hw' hc'
      refine .inr (.inr (.inl ⟨a,l,l',rfl,?_,hmine _ hmem,hmine' _ hmem'⟩))
      rintro rfl
      have hsame := hmine _ hmem
      rw [hmine' _ hmem'] at hsame
      exact hne (Option.some.inj hsame).symm
    | loggers => cases hnone
    | appenders l => cases hnone
    | formatter l => cases hnone
    | ownFormatter a => cases hnone
    | stream a => cases hnone
  · exact .inr (.inr (.inr hdeleted))

end

private def deleting : List (Act (Fin 2) LogCall Nat) := [.call 0 (.clearAppenders 0),.call 1 (.delAppender 0 0),.step 0 0]

private theorem deleting_goes : CommandRuns.states logging.act deleting (.idle .init) ≠ [] :=
  List.ne_nil_of_mem (CommandRuns.self_mem_states _ _ _)

/-- One thread has the lock to clear a list, another one deletes from it. -/
private def together : Config (Fin 2) Lock LogWork LogState := List.getLast _ deleting_goes

theorem clearAppenders_and_delAppender_race :
    Races together 0 1 (.clear 0) (.eraseAppender 0 0) (.appenders 0) ∧
      ((∃ l, LogField.appenders 0 = .level l) ∨ (∃ a, LogField.appenders 0 = .appenderLevel a) ∨
        (∃ a l l', LogField.appenders 0 = .lastTime a ∧ l ≠ l' ∧ together.owner (.logger l) = some 0 ∧
          together.owner (.logger l') = some 1) ∨
        ∃ l a, LogField.appenders 0 = .appenders l ∧
          (LogWork.clear 0 = .eraseAppender l a ∨ LogWork.eraseAppender 0 0 = .eraseAppender l a)) := by
  have hrace : Races together 0 1 (.clear 0) (.eraseAppender 0 0) (.appenders 0) :=
    ⟨by decide,⟨_,rfl⟩,⟨_,rfl⟩,true,true,by decide,by decide,rfl⟩
  exact ⟨hrace,logging_races .init deleting (List.getLast_mem deleting_goes) hrace⟩

end Radixun.Common.Log
