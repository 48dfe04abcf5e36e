import Radixun.Common.LogDefine

/-! The conversions between a set of logger definitions and its YAML text. The library that reads and writes YAML is a parameter. -/
namespace Radixun.Common.Log
open Foundation
open Config (bytes)

/-- A node with what is below it. A key of a map is a text. -/
inductive YamlNode where
  | null
  | scalar (text : List UInt8)
  | sequence (items : List YamlNode)
  | map (members : List (List UInt8 × YamlNode))

inductive YamlError where
  | parser
  | badSubscript
  | badConversion

namespace YamlNode

/-- A node after it has been assigned values under keys. -/
def ofMembers : List (List UInt8 × YamlNode) → YamlNode
  | [] => .null
  | e :: members => .map (e :: members)

/-- A node after `push_back` of each item. -/
def ofItems : List YamlNode → YamlNode
  | [] => .null
  | n :: items => .sequence (n :: items)

/-- `n[key]`, if it is defined. A sequence becomes a map with its indices for keys. -/
def member (n : YamlNode) (key : List UInt8) : Except YamlError (Option YamlNode) :=
  match n with
  | .scalar _ => .error .badSubscript
  | .null | .sequence _ => .ok none
  | .map members => .ok (members.lookup key)

end YamlNode

/-- What the code uses of yaml-cpp: writing and reading a document, whether a key of a map is an index, and what a null
node is as a `std::string`. -/
structure YamlCpp where
  emit : YamlNode → List UInt8
  load : List UInt8 → Except YamlError YamlNode
  asIndex : List UInt8 → Option Nat
  ofNull : Except YamlError (List UInt8)

/-- The member of an object under a key if there is a value for it. -/
def field (key : List UInt8) (value : Option YamlNode) : List (List UInt8 × YamlNode) := value.toList.map fun v => (key,v)

def LogAppenderDefine.encode (a : LogAppenderDefine) : YamlNode :=
  .ofMembers (field (bytes "type") (if a.type = 1 then some (.scalar (bytes "FileLogAppender"))
      else if a.type = 2 then some (.scalar (bytes "StdoutLogAppender")) else none) ++
    field (bytes "file") (if a.type = 1 then some (.scalar a.file) else none) ++
    field (bytes "level") (if a.level ≠ .unknow then some (.scalar a.level.toString) else none) ++
    field (bytes "formatter") (if a.formatter ≠ [] then some (.scalar a.formatter) else none))

/-- The logger's own formatter is written where it is empty. -/
def LogDefine.encode (i : LogDefine) : YamlNode :=
  .ofMembers (field (bytes "name") (some (.scalar i.name)) ++
    field (bytes "level") (if i.level ≠ .unknow then some (.scalar i.level.toString) else none) ++
    field (bytes "formatter") (if i.formatter = [] then some (.scalar i.formatter) else none) ++
    field (bytes "appenders") (if i.appenders = [] then none else some (.ofItems (i.appenders.map LogAppenderDefine.encode))))

def encode (v : LogDefines) : YamlNode := .ofItems ((elements v).map LogDefine.encode)

namespace YamlCpp
variable (y : YamlCpp)

/-- `as<std::string>`. -/
def text : YamlNode → Except YamlError (List UInt8)
  | .scalar t => .ok t
  | .null => y.ofNull
  | .sequence _ | .map _ => .error .badConversion

/-- `n[i]` for each `i` below `size()`. -/
def items : YamlNode → List YamlNode
  | .null | .scalar _ => []
  | .sequence items => items
  | .map members => (List.range members.length).map fun i => ((members.find? fun e => y.asIndex e.1 = some i).map (·.2)).getD .null

/-- `n[key].as<std::string>()`, if it is defined. -/
def optional (n : YamlNode) (key : List UInt8) : Except YamlError (Option (List UInt8)) := do
  match ← n.member key with
  | none => return none
  | some value => return some (← y.text value)

/-- The body of the loop over the appenders: none where it goes on to the next. -/
def decodeAppender (a : YamlNode) : Except YamlError (Option LogAppenderDefine) := do
  let some type ← y.optional a (bytes "type") | return none
  if type = bytes "FileLogAppender" then
    let some file ← y.optional a (bytes "file") | return none
    let formatter ← y.optional a (bytes "formatter")
    return some ⟨1,.unknow,formatter.getD [],file⟩
  else if type = bytes "StdoutLogAppender" then return some ⟨2,.unknow,[],[]⟩
  else return none

/-- The body of the loop over the loggers. -/
def decodeDefine (n : YamlNode) : Except YamlError (Option LogDefine) := do
  let some name ← y.optional n (bytes "name") | return none
  let level ← y.optional n (bytes "level")
  let formatter ← y.optional n (bytes "formatter")
  let appenders ← n.member (bytes "appenders")
  let defines ← (appenders.elim [] y.items).mapM y.decodeAppender
  return some ⟨name,.formString (level.getD []),formatter.getD [],defines.filterMap id⟩

def decodeInto (vec : LogDefines) (n : YamlNode) : Except YamlError LogDefines := do
  match ← y.decodeDefine n with
  | none => return vec
  | some ld => return vec.put ld ()

def decode (node : YamlNode) : Except YamlError LogDefines := (y.items node).foldlM y.decodeInto .empty

/-- `LexicalCast<std::set<LogDefine>, std::string>`. -/
def toString (v : LogDefines) : List UInt8 := y.emit (encode v)

/-- `LexicalCast<std::string, std::set<LogDefine> >`. -/
def fromString (v : List UInt8) : Except YamlError LogDefines := y.load v >>= y.decode

end YamlCpp

/-- What is left of an appender. -/
def LogAppenderDefine.reread (a : LogAppenderDefine) : Option LogAppenderDefine :=
  if a.type = 1 then some ⟨1,.unknow,a.formatter,a.file⟩ else if a.type = 2 then some ⟨2,.unknow,[],[]⟩ else none

/-- What is left of a definition. -/
def LogDefine.reread (d : LogDefine) : LogDefine := ⟨d.name,d.level,[],d.appenders.filterMap LogAppenderDefine.reread⟩

/-- What of a definition is written and read back: no formatter of the logger and no level of an appender, and nothing else
of an appender that writes to the standard output. -/
structure LogDefine.Kept (d : LogDefine) : Prop where
  formatter : d.formatter = []
  level : ∀ a ∈ d.appenders, a.level = .unknow
  kind : ∀ a ∈ d.appenders, a.type = 1 ∨ a.type = 2 ∧ a.formatter = [] ∧ a.file = []

theorem lookup_field (key k : List UInt8) (value : Option YamlNode) : (field key value).lookup k = if k = key then value else none := by
  cases value with
  | none => exact (ite_self none).symm
  | some v =>
    by_cases hk : k = key
    · rw [if_pos hk, hk]
      exact List.lookup_cons_self
    · rw [if_neg hk]
      change [(key,v)].lookup k = none
      rw [List.lookup_cons, beq_false_of_ne hk]
      rfl

theorem member_ofMembers (members : List (List UInt8 × YamlNode)) (key : List UInt8) :
    (YamlNode.ofMembers members).member key = .ok (members.lookup key) := by cases members <;> rfl

theorem items_ofItems (y : YamlCpp) (items : List YamlNode) : y.items (.ofItems items) = items := by cases items <;> rfl

variable {y : YamlCpp} {members : List (List UInt8 × YamlNode)} {key : List UInt8}

theorem optional_ofMembers {o : Option (List UInt8)} (h : members.lookup key = o.map .scalar) :
    y.optional (.ofMembers members) key = .ok o := by
  rw [YamlCpp.optional, member_ofMembers, h]
  cases o <;> rfl

theorem decodeAppender_encode (y : YamlCpp) (a : LogAppenderDefine) : y.decodeAppender a.encode = .ok a.reread := by
  have htype : y.optional a.encode (bytes "type") = .ok (if a.type = 1 then some (bytes "FileLogAppender")
      else if a.type = 2 then some (bytes "StdoutLogAppender") else none) := by
    apply optional_ofMembers
    simp (disch := decide) only [List.lookup_append, lookup_field, if_pos, if_neg, Option.or_none]
    split_ifs <;> rfl
  have hfile : y.optional a.encode (bytes "file") = .ok (if a.type = 1 then some a.file else none) := by
    apply optional_ofMembers
    simp (disch := decide) only [List.lookup_append, lookup_field, if_pos, if_neg, Option.or_none, Option.none_or]
    split_ifs <;> rfl
  have hformatter : y.optional a.encode (bytes "formatter") = .ok (if a.formatter ≠ [] then some a.formatter else none) := by
    apply optional_ofMembers
    simp (disch := decide) only [List.lookup_append, lookup_field, if_pos, if_neg, Option.none_or]
    split_ifs <;> rfl
  have hempty : (if a.formatter ≠ [] then some a.formatter else none).getD [] = a.formatter := by
    by_cases h : a.formatter = []
    · rw [if_neg (not_not.mpr h), h]
      rfl
    · rw [if_pos h]
      rfl
  rw [YamlCpp.decodeAppender, htype, LogAppenderDefine.reread]
  by_cases h1 : a.type = 1
  · rw [if_pos h1, if_pos h1, hfile, if_pos h1, hformatter]
    change Except.ok (some (⟨1,.unknow,Option.getD _ [],a.file⟩ : LogAppenderDefine)) = _
    rw [hempty]
  · rw [if_neg h1, if_neg h1]
    by_cases h2 : a.type = 2
    · rw [if_pos h2, if_pos h2]
      rfl
    · rw [if_neg h2, if_neg h2]
      rfl

theorem decodeAppenders_encode (y : YamlCpp) (as : List LogAppenderDefine) :
    (as.map LogAppenderDefine.encode).mapM y.decodeAppender = .ok (as.map LogAppenderDefine.reread) := by
  induction as with
  | nil => rfl
  | cons a as ih =>
    rw [List.map_cons, List.mapM_cons, decodeAppender_encode, ih]
    rfl

theorem decodeDefine_encode (y : YamlCpp) (d : LogDefine) : y.decodeDefine d.encode = .ok (some d.reread) := by
  have hname : y.optional d.encode (bytes "name") = .ok (some d.name) := by
    apply optional_ofMembers
    simp (disch := decide) only [List.lookup_append, lookup_field, if_pos, if_neg, Option.or_none]
    rfl
  have hlevel : y.optional d.encode (bytes "level") = .ok (if d.level ≠ .unknow then some d.level.toString else none) := by
    apply optional_ofMembers
    simp (disch := decide) only [List.lookup_append, lookup_field, if_pos, if_neg, Option.or_none, Option.none_or]
    split_ifs <;> rfl
  have hformatter : y.optional d.encode (bytes "formatter") = .ok (if d.formatter = [] then some d.formatter else none) := by
    apply optional_ofMembers
    simp (disch := decide) only [List.lookup_append, lookup_field, if_pos, if_neg, Option.or_none, Option.none_or]
    split_ifs <;> rfl
  have happenders : d.encode.member (bytes "appenders") =
      .ok (if d.appenders = [] then none else some (.ofItems (d.appenders.map LogAppenderDefine.encode))) := by
    rw [LogDefine.encode, member_ofMembers]
    simp (disch := decide) only [List.lookup_append, lookup_field, if_pos, if_neg, Option.none_or]
  have hitems : (if d.appenders = [] then none else some (YamlNode.ofItems (d.appenders.map LogAppenderDefine.encode))).elim [] y.items =
      d.appenders.map LogAppenderDefine.encode := by
    by_cases h : d.appenders = []
    · rw [if_pos h, h]
      rfl
    · rw [if_neg h]
      exact items_ofItems y _
  have hreadLevel : Level.formString ((if d.level ≠ .unknow then some d.level.toString else none).getD []) = d.level := by
    by_cases h : d.level = .unknow
    · rw [if_neg (not_not.mpr h), h]
      decide
    · rw [if_pos h]
      exact formString_toString d.level
  have hreadFormatter : (if d.formatter = [] then some d.formatter else none).getD [] = [] := by
    by_cases h : d.formatter = []
    · rw [if_pos h]
      exact h
    · rw [if_neg h]
      rfl
  rw [YamlCpp.decodeDefine, hname, hlevel, hformatter, happenders]
  change List.mapM y.decodeAppender _ >>= _ = _
  rw [hitems, decodeAppenders_encode]
  change Except.ok (some (⟨d.name,.formString _,_,(d.appenders.map LogAppenderDefine.reread).filterMap id⟩ : LogDefine)) = _
  rw [hreadLevel, hreadFormatter, List.filterMap_map]
  rfl

/-- Definitions in order are read into a set in this order. -/
theorem decodeInto_encode (y : YamlCpp) (ds : List LogDefine) (vec : LogDefines)
    (h : (elements vec ++ ds).Pairwise fun a b => a.less b = true) :
    ∃ s, (ds.map LogDefine.encode).foldlM y.decodeInto vec = .ok s ∧ elements s = elements vec ++ ds.map LogDefine.reread := by
  induction ds generalizing vec with
  | nil => exact ⟨vec,rfl,(List.append_nil _).symm⟩
  | cons d ds ih =>
    have hput : elements (vec.put d.reread ()) = elements vec ++ [d.reread] := by
      have hlast : ∀ e ∈ vec.entries, LogDefine.less e.1 d.reread = true := by
        intro e he
        exact (List.pairwise_append.mp h).2.2 e.1 (List.mem_map_of_mem he) d List.mem_cons_self
      rw [elements, OrderedMap.entries_put_last hlast, List.map_append]
      rfl
    have hnext : (elements (vec.put d.reread ()) ++ ds).Pairwise fun a b => a.less b = true := by
      rw [hput, List.append_assoc]
      obtain ⟨hvec,hds,hboth⟩ := List.pairwise_append.mp h
      obtain ⟨hd,hds⟩ := List.pairwise_cons.mp hds
      refine List.pairwise_append.mpr ⟨hvec,List.pairwise_cons.mpr ⟨hd,hds⟩,?_⟩
      intro a ha b hb
      rcases List.mem_cons.mp hb with rfl | hb
      · exact hboth a ha d List.mem_cons_self
      · exact hboth a ha b (List.mem_cons_of_mem d hb)
    obtain ⟨s,hs,helements⟩ := ih (vec.put d.reread ()) hnext
    refine ⟨s,?_,?_⟩
    · rw [List.map_cons, List.foldlM_cons, YamlCpp.decodeInto, decodeDefine_encode]
      exact hs
    · rw [helements, hput, List.append_assoc]
      rfl

theorem reread_appender_iff (a : LogAppenderDefine) :
    a.reread = some a ↔ a.level = .unknow ∧ (a.type = 1 ∨ a.type = 2 ∧ a.formatter = [] ∧ a.file = []) := by
  obtain ⟨type,level,formatter,file⟩ := a
  rw [LogAppenderDefine.reread]
  by_cases h1 : type = 1
  · rw [if_pos h1, Option.some.injEq, LogAppenderDefine.mk.injEq]
    exact ⟨fun h => ⟨h.2.1.symm,.inl h1⟩,fun h => ⟨h1.symm,h.1.symm,rfl,rfl⟩⟩
  · rw [if_neg h1]
    by_cases h2 : type = 2
    · rw [if_pos h2, Option.some.injEq, LogAppenderDefine.mk.injEq]
      constructor
      · rintro ⟨-,hl,hf,hp⟩
        exact ⟨hl.symm,.inr ⟨h2,hf.symm,hp.symm⟩⟩
      · rintro ⟨hl,h⟩
        obtain ⟨-,hf,hp⟩ := h.resolve_left h1
        exact ⟨h2.symm,hl.symm,hf.symm,hp.symm⟩
    · rw [if_neg h2]
      refine iff_of_false (fun he => by cases he) ?_
      rintro ⟨-,h | ⟨h,-⟩⟩
      · exact h1 h
      · exact h2 h

/-- Dropping and changing leaves a list as it is only if it does so with every item. -/
theorem filterMap_same_iff {α : Type} (f : α → Option α) (l : List α) : l.filterMap f = l ↔ ∀ a ∈ l, f a = some a := by
  induction l with
  | nil => exact iff_of_true rfl fun a ha => (by cases ha)
  | cons a l ih =>
    rw [List.forall_mem_cons, ← ih]
    cases hf : f a with
    | none =>
      rw [List.filterMap_cons_none hf]
      refine iff_of_false ?_ fun h => (by cases h.1)
      intro h
      have hle := List.length_filterMap_le f l
      rw [h, List.length_cons] at hle
      omega
    | some b => rw [List.filterMap_cons_some hf, List.cons.injEq, Option.some.injEq]

theorem reread_define_iff (d : LogDefine) : d.reread = d ↔ d.Kept := by
  obtain ⟨name,level,formatter,appenders⟩ := d
  rw [LogDefine.reread, LogDefine.mk.injEq, filterMap_same_iff]
  constructor
  · rintro ⟨-,-,hformatter,happenders⟩
    exact ⟨hformatter.symm,fun a ha => ((reread_appender_iff a).mp (happenders a ha)).1,
      fun a ha => ((reread_appender_iff a).mp (happenders a ha)).2⟩
  · rintro ⟨hformatter,hlevel,hkind⟩
    exact ⟨rfl,rfl,hformatter.symm,fun a ha => (reread_appender_iff a).mpr ⟨hlevel a ha,hkind a ha⟩⟩

theorem elements_injective {s t : LogDefines} (h : elements s = elements t) : s = t := by
  have hentries : s.entries = t.entries := List.map_injective_iff.mpr (fun a b hab => Prod.ext hab rfl) h
  cases s
  cases t
  cases hentries
  rfl

/-- What the two conversions leave of a set. -/
theorem reread_set (y : YamlCpp) (v : LogDefines) (hload : y.load (y.emit (encode v)) = .ok (encode v)) :
    ∃ s, y.fromString (y.toString v) = .ok s ∧ elements s = (elements v).map LogDefine.reread := by
  have hsorted : (elements (.empty : LogDefines) ++ elements v).Pairwise fun a b => a.less b = true :=
    List.pairwise_map.mpr v.sorted
  obtain ⟨s,hs,helements⟩ := decodeInto_encode y (elements v) .empty hsorted
  refine ⟨s,?_,helements⟩
  rw [YamlCpp.fromString, YamlCpp.toString, hload]
  change y.decode (encode v) = _
  rw [YamlCpp.decode, encode, items_ofItems]
  exact hs

/-- A set is read back as it was written exactly if all of each definition is kept. -/
theorem reread_same_iff (y : YamlCpp) (v : LogDefines) (hload : y.load (y.emit (encode v)) = .ok (encode v)) :
    y.fromString (y.toString v) = .ok v ↔ ∀ d ∈ elements v, d.Kept := by
  obtain ⟨s,hs,helements⟩ := reread_set y v hload
  rw [hs, Except.ok.injEq]
  have hsame : s = v ↔ ∀ d ∈ elements v, d.reread = d := by
    constructor
    · rintro rfl d hd
      exact List.map_inj_left.mp (helements.symm.trans (List.map_id _).symm) d hd
    · intro h
      apply elements_injective
      rw [helements]
      exact (List.map_congr_left h).trans (List.map_id _)
  rw [hsame]
  exact forall₂_congr fun d _ => reread_define_iff d

private def stdoutApp : LogDefine := ⟨bytes "app",.info,[],[⟨2,.unknow,[],[]⟩]⟩
private def oneDefine (d : LogDefine) : LogDefines := ⟨[(d,())],List.pairwise_singleton _ _⟩

/-- The library on one document. -/
private def document (text : List UInt8) (node : YamlNode) : YamlCpp :=
  ⟨fun _ => text,fun _ => .ok node,fun _ => none,.error .badConversion⟩

private def appText : List UInt8 := bytes "- name: app\n  level: INFO\n  formatter: \"\"\n  appenders:\n    - type: StdoutLogAppender"

theorem reread_app : (document appText (encode (oneDefine stdoutApp))).fromString
    ((document appText (encode (oneDefine stdoutApp))).toString (oneDefine stdoutApp)) = .ok (oneDefine stdoutApp) := by
  apply (reread_same_iff (document appText (encode (oneDefine stdoutApp))) (oneDefine stdoutApp) rfl).mpr
  intro d hd
  rw [List.mem_singleton.mp hd]
  exact ⟨rfl,by decide,by decide⟩

private def patterned : LogDefine := ⟨bytes "app",.info,bytes "%m%n",[⟨2,.unknow,[],[]⟩]⟩
private def patternedText : List UInt8 := bytes "- name: app\n  level: INFO\n  appenders:\n    - type: StdoutLogAppender"

/-- A logger loses its formatter. -/
theorem set_formatter_lost : ¬ ∀ (y : YamlCpp) (v : LogDefines), y.load (y.emit (encode v)) = .ok (encode v) →
    (∀ d ∈ elements v, d.name ≠ [] ∧ ∀ a ∈ d.appenders, a.type = 1 ∧ a.file ≠ [] ∨ a.type = 2) → y.fromString (y.toString v) = .ok v := by
  intro h
  have hread := h (document patternedText (encode (oneDefine patterned))) (oneDefine patterned) rfl (by decide)
  obtain ⟨s,hs,helements⟩ := reread_set (document patternedText (encode (oneDefine patterned))) (oneDefine patterned) rfl
  rw [hread] at hs
  cases hs
  exact absurd helements (by decide)

end Radixun.Common.Log
