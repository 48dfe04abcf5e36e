import Mathlib.Data.Finmap
import Radixun.Http.HttpMessage

/-! `ServletDispatch`: servlets for exact paths in a map and for glob patterns in a vector, against the
history of the calls. -/
namespace Radixun.Http
open Radixun.Foundation CString

/-- `Servlet::ptr`. -/
abbrev ServletPtr (S : Type) := Option S

structure ServletDispatch (S : Type) where
  datas : Finmap fun _ : Text => ServletPtr S
  globs : List (Text × ServletPtr S)
  default : ServletPtr S

namespace ServletDispatch
variable {S : Type}

def init (notFound : S) : ServletDispatch S := ⟨∅,[],some notFound⟩

/-- Both overloads: a callback comes as the `FunctionServlet` made of it. -/
def addServlet (d : ServletDispatch S) (uri : Text) (slt : ServletPtr S) : ServletDispatch S :=
  { d with datas := d.datas.insert uri slt }

/-- The loop that erases the first entry of a pattern. -/
def eraseGlob (uri : Text) (globs : List (Text × ServletPtr S)) : List (Text × ServletPtr S) := globs.eraseP (·.1 = uri)

def addGlobServlet (d : ServletDispatch S) (uri : Text) (slt : ServletPtr S) : ServletDispatch S :=
  { d with globs := eraseGlob uri d.globs ++ [(uri,slt)] }

def delServlet (d : ServletDispatch S) (uri : Text) : ServletDispatch S := { d with datas := d.datas.erase uri }

def delGlobServlet (d : ServletDispatch S) (uri : Text) : ServletDispatch S := { d with globs := eraseGlob uri d.globs }

def getServlet (d : ServletDispatch S) (uri : Text) : ServletPtr S := (d.datas.lookup uri).getD none

def getGlobServlet (d : ServletDispatch S) (uri : Text) : ServletPtr S :=
  ((d.globs.find? (·.1 = uri)).map (·.2)).getD none

/-- `fnmatch` sees both strings up to their first zero byte. -/
def globMatches (fnmatch : Text → Text → Int) (pattern uri : Text) : Bool := fnmatch (cstr pattern) (cstr uri) = 0

def getMatchedServlet (fnmatch : Text → Text → Int) (d : ServletDispatch S) (uri : Text) : ServletPtr S :=
  match d.datas.lookup uri with
  | some slt => slt
  | none => match d.globs.find? fun g => globMatches fnmatch g.1 uri with
    | some g => g.2
    | none => d.default

/-- What a call is about: one of the two containers and the key in it. -/
inductive Table where
  | datas | globs
  deriving DecidableEq, Repr

inductive Call (S : Type) where
  | addServlet (uri : Text) (slt : ServletPtr S)
  | addGlobServlet (uri : Text) (slt : ServletPtr S)
  | delServlet (uri : Text)
  | delGlobServlet (uri : Text)

def Call.place : Call S → Table × Text
  | .addServlet uri _ => (.datas,uri)
  | .addGlobServlet uri _ => (.globs,uri)
  | .delServlet uri => (.datas,uri)
  | .delGlobServlet uri => (.globs,uri)

def Call.registered : Call S → Option (ServletPtr S)
  | .addServlet _ slt => some slt
  | .addGlobServlet _ slt => some slt
  | .delServlet _ => none
  | .delGlobServlet _ => none

def step (d : ServletDispatch S) : Call S → ServletDispatch S
  | .addServlet uri slt => d.addServlet uri slt
  | .addGlobServlet uri slt => d.addGlobServlet uri slt
  | .delServlet uri => d.delServlet uri
  | .delGlobServlet uri => d.delGlobServlet uri

def run (notFound : S) (history : List (Call S)) : ServletDispatch S := history.foldl step (init notFound)

/-- The call comes behind `before` in the history, and no later one is about the same key. -/
def Stands (history before : List (Call S)) (c : Call S) : Prop :=
  ∃ later, history = before ++ c :: later ∧ ∀ c' ∈ later, c'.place ≠ c.place

/-- A registration with its key. -/
abbrev Entry (S : Type) := (Table × Text) × ServletPtr S

def Call.entry (c : Call S) : Option (Entry S) := c.registered.map fun slt => (c.place,slt)

/-- The abstract dispatcher: the registrations that still stand, in the order of the calls. -/
def standing : List (Call S) → List (Entry S)
  | [] => []
  | c :: cs => if ∀ c' ∈ cs, c'.place ≠ c.place then c.entry.toList ++ standing cs else standing cs

theorem Call.entry_place {c : Call S} {e : Entry S} (h : c.entry = some e) : e.1 = c.place := by
  obtain ⟨slt,-,rfl⟩ := Option.map_eq_some_iff.mp h
  rfl

theorem entry_toList_filter (c : Call S) (place : Table × Text) :
    (c.entry.toList.filter fun e => e.1 ≠ place) = if c.place = place then [] else c.entry.toList := by
  cases he : c.entry with
  | none => simp
  | some e =>
    have heq := Call.entry_place he
    by_cases hp : c.place = place
    · simp [heq, hp]
    · simp [heq, hp]

/-- A further call takes away what stood for its key and registers at the end. -/
theorem standing_snoc (history : List (Call S)) (c : Call S) :
    standing (history ++ [c]) = (standing history).filter (fun e => e.1 ≠ c.place) ++ c.entry.toList := by
  induction history with
  | nil => simp [standing]
  | cons d ds ih =>
    have hall : (∀ c' ∈ ds ++ [c], c'.place ≠ d.place) ↔ (∀ c' ∈ ds, c'.place ≠ d.place) ∧ d.place ≠ c.place := by
      rw [List.forall_mem_append, List.forall_mem_singleton, ne_comm (a := c.place)]
    rw [List.cons_append, standing, standing, ih]
    by_cases hlater : ∀ c' ∈ ds, c'.place ≠ d.place
    · by_cases hc : d.place = c.place
      · rw [if_neg fun h => (hall.mp h).2 hc, if_pos hlater, List.filter_append, entry_toList_filter, if_pos hc,
          List.nil_append]
      · rw [if_pos (hall.mpr ⟨hlater,hc⟩), if_pos hlater, List.filter_append, entry_toList_filter, if_neg hc,
          List.append_assoc]
    · rw [if_neg fun h => hlater (hall.mp h).1, if_neg hlater]

/-- Each key stands at most once. -/
theorem standing_nodup (history : List (Call S)) : ((standing history).map (·.1)).Nodup := by
  induction history using List.reverseRecOn with
  | nil => exact List.nodup_nil
  | append_singleton history c ih =>
    rw [standing_snoc, List.map_append]
    apply List.Nodup.append
    · exact (List.Sublist.map _ List.filter_sublist).nodup ih
    · cases c.entry <;> simp
    · intro place hleft hright
      obtain ⟨e,he,rfl⟩ := List.mem_map.mp hleft
      obtain ⟨e',he',heq⟩ := List.mem_map.mp hright
      have hplace := Call.entry_place (Option.mem_toList.mp he')
      have := (List.mem_filter.mp he).2
      simp [← heq, hplace] at this

theorem stands_nil {before : List (Call S)} {c : Call S} : ¬Stands [] before c := by
  rintro ⟨later,h,-⟩
  cases before <;> cases h

theorem stands_cons {d : Call S} {ds before : List (Call S)} {c : Call S} : Stands (d :: ds) before c ↔
    (before = [] ∧ c = d ∧ ∀ c' ∈ ds, c'.place ≠ d.place) ∨ ∃ rest, before = d :: rest ∧ Stands ds rest c := by
  constructor
  · rintro ⟨later,heq,hlater⟩
    cases before with
    | nil =>
      obtain ⟨rfl,rfl⟩ := List.cons.inj heq
      exact .inl ⟨rfl,rfl,hlater⟩
    | cons b rest =>
      obtain ⟨rfl,rfl⟩ := List.cons.inj heq
      exact .inr ⟨rest,rfl,later,rfl,hlater⟩
  · rintro (⟨rfl,rfl,hlater⟩ | ⟨rest,rfl,later,rfl,hlater⟩)
    · exact ⟨ds,rfl,hlater⟩
    · exact ⟨later,rfl,hlater⟩

/-- The registration of a standing call with a property, before which no other such call stands. -/
def FirstStanding (history : List (Call S)) (p : Entry S → Bool) (e : Entry S) : Prop :=
  ∃ before c, Stands history before c ∧ c.entry = some e ∧ p e = true ∧
    ∀ before' c' e', Stands history before' c' → c'.entry = some e' → before'.length < before.length → p e' = false

def NoneStanding (history : List (Call S)) (p : Entry S → Bool) : Prop :=
  ∀ before c e, Stands history before c → c.entry = some e → p e = false

section
variable {d : Call S} {ds : List (Call S)} {p : Entry S → Bool}
  (hd : ∀ e, (∀ c' ∈ ds, c'.place ≠ d.place) → d.entry = some e → p e = false)
include hd

theorem FirstStanding.cons {e : Entry S} (h : FirstStanding ds p e) : FirstStanding (d :: ds) p e := by
  obtain ⟨before,c,hs,he,hp,hfirst⟩ := h
  refine ⟨d :: before,c,stands_cons.mpr (.inr ⟨before,rfl,hs⟩),he,hp,?_⟩
  intro before' c' e' hs' he' hlt
  rcases stands_cons.mp hs' with ⟨-,rfl,hlater⟩ | ⟨rest,rfl,hrest⟩
  · exact hd e' hlater he'
  · exact hfirst rest c' e' hrest he' (Nat.lt_of_succ_lt_succ hlt)

theorem NoneStanding.cons (h : NoneStanding ds p) : NoneStanding (d :: ds) p := by
  intro before c e hs he
  rcases stands_cons.mp hs with ⟨-,rfl,hlater⟩ | ⟨rest,rfl,hrest⟩
  · exact hd e hlater he
  · exact h rest c e hrest he

end

/-- A search through what stands finds the registration of the first call, if there is one. -/
theorem find_standing (history : List (Call S)) (p : Entry S → Bool) :
    match (standing history).find? p with
    | some e => FirstStanding history p e
    | none => NoneStanding history p := by
  induction history with
  | nil =>
    intro before c e hs
    exact absurd hs stands_nil
  | cons d ds ih =>
    -- the head counts if it stands, registers and has the property; otherwise the rest decides
    have htail (hd : ∀ e, (∀ c' ∈ ds, c'.place ≠ d.place) → d.entry = some e → p e = false) :
        match (standing ds).find? p with
        | some e => FirstStanding (d :: ds) p e
        | none => NoneStanding (d :: ds) p := by
      cases hf : (standing ds).find? p with
      | none => rw [hf] at ih; exact ih.cons hd
      | some e => rw [hf] at ih; exact ih.cons hd
    rw [standing]
    by_cases hlater : ∀ c' ∈ ds, c'.place ≠ d.place
    · rw [if_pos hlater]
      cases he : d.entry with
      | none =>
        refine htail ?_
        intro e _ he'
        rw [he] at he'
        cases he'
      | some e =>
        rw [Option.toList_some, List.singleton_append, List.find?_cons]
        cases hp : p e with
        | true =>
          refine ⟨[],d,stands_cons.mpr (.inl ⟨rfl,rfl,hlater⟩),he,hp,?_⟩
          intro before' c' e' _ _ hlt
          exact absurd hlt (Nat.not_lt_zero _)
        | false =>
          refine htail ?_
          intro e' _ he'
          rw [he] at he'
          cases he'
          exact hp
    · rw [if_neg hlater]
      exact htail fun _ h => absurd h hlater

/-- A key has one standing call. -/
theorem stands_unique {history before before' : List (Call S)} {c c' : Call S} (h : Stands history before c)
    (h' : Stands history before' c') (hplace : c.place = c'.place) : before = before' ∧ c = c' := by
  induction history generalizing before before' with
  | nil => exact absurd h stands_nil
  | cons d ds ih =>
    have hmem {b : List (Call S)} {x : Call S} (hx : Stands ds b x) : x ∈ ds := by
      obtain ⟨later,rfl,-⟩ := hx
      exact List.mem_append_right _ List.mem_cons_self
    rcases stands_cons.mp h with ⟨rfl,rfl,hlater⟩ | ⟨rest,rfl,hrest⟩
    · rcases stands_cons.mp h' with ⟨rfl,rfl,-⟩ | ⟨rest',rfl,hrest'⟩
      · exact ⟨rfl,rfl⟩
      · exact absurd hplace.symm (hlater c' (hmem hrest'))
    · rcases stands_cons.mp h' with ⟨rfl,rfl,hlater⟩ | ⟨rest',rfl,hrest'⟩
      · exact absurd hplace (hlater c (hmem hrest))
      · obtain ⟨rfl,rfl⟩ := ih hrest hrest'
        exact ⟨rfl,rfl⟩

def globEntry (e : Entry S) : Option (Text × ServletPtr S) := if e.1.1 = .globs then some (e.1.2,e.2) else none

/-- The dispatcher holds the registrations: the map by their keys, the vector in their order. -/
structure Holds (d : ServletDispatch S) (es : List (Entry S)) : Prop where
  datas : ∀ uri, d.datas.lookup uri = (es.find? fun e => e.1 = (.datas,uri)).map (·.2)
  globs : d.globs = es.filterMap globEntry

theorem find_filter_ne (es : List (Entry S)) (k k' : Table × Text) :
    ((es.filter fun e => e.1 ≠ k).find? fun e => e.1 = k') = if k' = k then none else es.find? fun e => e.1 = k' := by
  rw [List.find?_filter]
  by_cases hk : k' = k
  · rw [if_pos hk, List.find?_eq_none]
    intro e _
    simp [hk]
  · rw [if_neg hk]
    congr 1
    funext e
    by_cases he : e.1 = k'
    · simp [he, hk]
    · simp [he]

theorem globEntry_eq_some {e : Entry S} {g : Text × ServletPtr S} :
    globEntry e = some g ↔ e = ((.globs,g.1),g.2) := by
  obtain ⟨⟨table,uri⟩,slt⟩ := e
  cases table
  · simp [globEntry]
  · simp [globEntry, Prod.ext_iff]

/-- The loop removes all there is of a pattern, since there is at most one entry. -/
theorem eraseGlob_globs {es : List (Entry S)} (h : (es.map (·.1)).Nodup) (uri : Text) :
    eraseGlob uri (es.filterMap globEntry) = (es.filter fun e => e.1 ≠ (.globs,uri)).filterMap globEntry := by
  induction es with
  | nil => rfl
  | cons e es ih =>
    obtain ⟨hnew,hrest⟩ := List.nodup_cons.mp h
    cases hg : globEntry e with
    | none =>
      have hne : e.1 ≠ (.globs,uri) := by
        intro heq
        simp [globEntry, heq] at hg
      rw [List.filterMap_cons_none hg, List.filter_cons_of_pos (by simpa using hne), List.filterMap_cons_none hg]
      exact ih hrest
    | some g =>
      have he := globEntry_eq_some.mp hg
      rw [List.filterMap_cons_some hg]
      by_cases hu : g.1 = uri
      · have hkeep : (es.filter fun e => e.1 ≠ (.globs,uri)) = es := by
          rw [List.filter_eq_self]
          intro e' he'
          have : e'.1 ≠ e.1 := fun heq => hnew (List.mem_map.mpr ⟨e',he',heq⟩)
          simpa [he, hu] using this
        rw [eraseGlob, List.eraseP_cons_of_pos (by simpa using hu), List.filter_cons_of_neg (by simp [he, hu]), hkeep]
      · rw [eraseGlob, List.eraseP_cons_of_neg (by simpa using hu), List.filter_cons_of_pos (by simp [he, hu]),
          List.filterMap_cons_some hg]
        exact congrArg (g :: ·) (ih hrest)

theorem globs_filter_datas (es : List (Entry S)) (uri : Text) :
    (es.filter fun e => e.1 ≠ (.datas,uri)).filterMap globEntry = es.filterMap globEntry := by
  rw [List.filterMap_filter]
  congr 1
  funext e
  by_cases he : e.1 = (.datas,uri)
  · simp [globEntry, he]
  · simp [he]

/-- One call keeps the dispatcher in step with what stands. -/
theorem Holds.step {d : ServletDispatch S} {es : List (Entry S)} (h : Holds d es) (hes : (es.map (·.1)).Nodup) (c : Call S) :
    Holds (d.step c) (es.filter (fun e => e.1 ≠ c.place) ++ c.entry.toList) := by
  constructor
  · intro uri
    rw [List.find?_append, find_filter_ne]
    cases c with
    | addServlet uri' slt =>
      change (d.datas.insert uri' slt).lookup uri = _
      by_cases hu : uri = uri'
      · subst hu
        simp [Finmap.lookup_insert, Call.place, Call.entry, Call.registered]
      · rw [Finmap.lookup_insert_of_ne _ hu, h.datas]
        simp [Call.place, Call.entry, Call.registered, hu, Ne.symm hu]
    | delServlet uri' =>
      change (d.datas.erase uri').lookup uri = _
      by_cases hu : uri = uri'
      · subst hu
        simp [Finmap.lookup_erase, Call.place, Call.entry, Call.registered]
      · rw [Finmap.lookup_erase_ne hu, h.datas]
        simp [Call.place, Call.entry, Call.registered, hu]
    | addGlobServlet uri' slt =>
      change d.datas.lookup uri = _
      rw [h.datas]
      simp [Call.place, Call.entry, Call.registered]
    | delGlobServlet uri' =>
      change d.datas.lookup uri = _
      rw [h.datas]
      simp [Call.place, Call.entry, Call.registered]
  · rw [List.filterMap_append]
    cases c with
    | addServlet uri slt =>
      change d.globs = _
      rw [h.globs, Call.place, globs_filter_datas]
      simp [Call.entry, Call.registered, Call.place, globEntry]
    | delServlet uri =>
      change d.globs = _
      rw [h.globs, Call.place, globs_filter_datas]
      simp [Call.entry, Call.registered]
    | addGlobServlet uri slt =>
      change eraseGlob uri d.globs ++ [(uri,slt)] = _
      rw [h.globs, eraseGlob_globs hes]
      rfl
    | delGlobServlet uri =>
      change eraseGlob uri d.globs = _
      rw [h.globs, eraseGlob_globs hes]
      exact (List.append_nil _).symm

/-- Every history leaves the dispatcher with exactly what stands, and with its default servlet. -/
theorem run_holds (notFound : S) (history : List (Call S)) :
    Holds (run notFound history) (standing history) ∧ (run notFound history).default = some notFound := by
  induction history using List.reverseRecOn with
  | nil =>
    refine ⟨⟨?_,rfl⟩,rfl⟩
    intro uri
    exact Finmap.lookup_empty uri
  | append_singleton history c ih =>
    rw [standing_snoc, run, List.foldl_append]
    refine ⟨ih.1.step (standing_nodup history) c,?_⟩
    cases c <;> exact ih.2

theorem find_of_stands {history before : List (Call S)} {c : Call S} {e : Entry S} (hs : Stands history before c)
    (he : c.entry = some e) : ((standing history).find? fun e' => e'.1 = e.1) = some e := by
  have hfind := find_standing history fun e' => e'.1 = e.1
  cases hf : (standing history).find? fun e' => e'.1 = e.1 with
  | none =>
    rw [hf] at hfind
    simpa using hfind before c e hs he
  | some e' =>
    rw [hf] at hfind
    obtain ⟨before',c',hs',he',heq,-⟩ := hfind
    have hplace : c'.place = c.place := by
      rw [← Call.entry_place he', ← Call.entry_place he]
      exact of_decide_eq_true heq
    obtain ⟨-,rfl⟩ := stands_unique hs' hs hplace
    exact he'.symm.trans he

theorem find_of_none {history : List (Call S)} {p : Entry S → Bool} (h : NoneStanding history p) :
    (standing history).find? p = none := by
  have hfind := find_standing history p
  cases hf : (standing history).find? p with
  | none => rfl
  | some e =>
    rw [hf] at hfind
    obtain ⟨before,c,hs,he,hp,-⟩ := hfind
    rw [h before c e hs he] at hp
    cases hp

theorem entry_datas {c : Call S} {e : Entry S} {uri : Text} (he : c.entry = some e) (hk : e.1 = (.datas,uri)) :
    c = .addServlet uri e.2 := by
  cases c with
  | addServlet uri' slt => cases he; cases hk; rfl
  | addGlobServlet uri' slt => cases he; cases hk
  | delServlet uri' => cases he
  | delGlobServlet uri' => cases he

theorem entry_globs {c : Call S} {e : Entry S} (he : c.entry = some e) (hk : e.1.1 = .globs) :
    c = .addGlobServlet e.1.2 e.2 := by
  cases c with
  | addServlet uri slt => cases he; cases hk
  | addGlobServlet uri slt => cases he; rfl
  | delServlet uri => cases he
  | delGlobServlet uri => cases he

theorem find_globs (es : List (Entry S)) (p : Text × ServletPtr S → Bool) :
    (es.filterMap globEntry).find? p = (es.find? fun e => (globEntry e).any p).bind globEntry := by
  rw [List.find?_filterMap]

/-- What a key's getter has to answer: the servlet last registered and not deleted since, or `nullptr`. -/
def Answers (history : List (Call S)) (register : ServletPtr S → Call S) (answer : ServletPtr S) : Prop :=
  (∀ before slt, Stands history before (register slt) → answer = slt) ∧
  ((∀ before slt, ¬Stands history before (register slt)) → answer = none)

theorem lookup_stands {notFound : S} {history before : List (Call S)} {uri : Text} {slt : ServletPtr S}
    (hs : Stands history before (.addServlet uri slt)) : (run notFound history).datas.lookup uri = some slt := by
  rw [(run_holds notFound history).1.datas, find_of_stands (e := ((.datas,uri),slt)) hs rfl]
  rfl

theorem lookup_none {notFound : S} {history : List (Call S)} {uri : Text}
    (h : ∀ before slt, ¬Stands history before (.addServlet uri slt)) : (run notFound history).datas.lookup uri = none := by
  rw [(run_holds notFound history).1.datas, find_of_none, Option.map_none]
  intro before c e hs he
  apply decide_eq_false
  intro hk
  exact h before e.2 (entry_datas he hk ▸ hs)

/-- A search through the vector finds the pattern that was registered first of those with a property. -/
theorem find_glob_first {notFound : S} {history before : List (Call S)} {pattern : Text} {slt : ServletPtr S}
    {p : Text × ServletPtr S → Bool} (hs : Stands history before (.addGlobServlet pattern slt)) (hp : p (pattern,slt) = true)
    (hfirst : ∀ before' pattern' slt', Stands history before' (.addGlobServlet pattern' slt') →
      before'.length < before.length → p (pattern',slt') = false) :
    (run notFound history).globs.find? p = some (pattern,slt) := by
  rw [(run_holds notFound history).1.globs, find_globs]
  have hfind := find_standing history fun e => (globEntry e).any p
  cases hf : (standing history).find? fun e => (globEntry e).any p with
  | none =>
    rw [hf] at hfind
    have := hfind before (.addGlobServlet pattern slt) ((.globs,pattern),slt) hs rfl
    simp [globEntry, hp] at this
  | some e =>
    rw [hf] at hfind
    obtain ⟨before',c',hs',he',hp',hfirst'⟩ := hfind
    obtain ⟨g,hg,hpg⟩ := (Option.any_eq_true p (globEntry e)).mp hp'
    obtain rfl := globEntry_eq_some.mp hg
    obtain rfl := entry_globs he' rfl
    rcases Nat.lt_trichotomy before'.length before.length with hlt | heq | hgt
    · have := hfirst before' g.1 g.2 hs' hlt
      rw [hpg] at this
      cases this
    · obtain ⟨later,hl,-⟩ := hs
      obtain ⟨later',hl',-⟩ := hs'
      obtain ⟨-,hc⟩ := List.append_inj (hl'.symm.trans hl) heq
      cases hc
      rfl
    · have := hfirst' before (.addGlobServlet pattern slt) ((.globs,pattern),slt) hs rfl hgt
      simp [globEntry, hp] at this

theorem find_glob_none {notFound : S} {history : List (Call S)} {p : Text × ServletPtr S → Bool}
    (h : ∀ before pattern slt, Stands history before (.addGlobServlet pattern slt) → p (pattern,slt) = false) :
    (run notFound history).globs.find? p = none := by
  rw [(run_holds notFound history).1.globs, find_globs, find_of_none, Option.bind_none]
  intro before c e hs he
  cases hg : globEntry e with
  | none => simp [hg]
  | some g =>
    obtain rfl := globEntry_eq_some.mp hg
    obtain rfl := entry_globs he rfl
    simp [hg, h before g.1 g.2 hs]

theorem run_globs_nodup (notFound : S) (history : List (Call S)) : ((run notFound history).globs.map (·.1)).Nodup := by
  have hkeys : (fun e : Entry S => (globEntry e).map (·.1)) =
      (fun k : Table × Text => if k.1 = .globs then some k.2 else none) ∘ (·.1) := by
    funext e
    by_cases he : e.1.1 = .globs
    · simp [globEntry, he]
    · simp [globEntry, he]
  rw [(run_holds notFound history).1.globs, List.map_filterMap, hkeys, ← List.filterMap_map]
  apply List.Nodup.filterMap _ (standing_nodup history)
  intro k k' uri hk hk'
  obtain ⟨h,h₂⟩ := Option.ite_none_right_eq_some.mp hk
  obtain ⟨h',h₂'⟩ := Option.ite_none_right_eq_some.mp hk'
  exact Prod.ext (h.trans h'.symm) (Option.some.inj (h₂.trans h₂'.symm))

theorem dispatch_by_history (fnmatch : Text → Text → Int) (notFound : S) (history : List (Call S)) :
    let d := run notFound history
    (d.globs.map (·.1)).Nodup ∧
    (∀ uri, Answers history (.addServlet uri) (d.getServlet uri)) ∧
    (∀ uri, Answers history (.addGlobServlet uri) (d.getGlobServlet uri)) ∧
    ∀ path,
      (∀ before slt, Stands history before (.addServlet path slt) → d.getMatchedServlet fnmatch path = slt) ∧
      ((∀ before slt, ¬Stands history before (.addServlet path slt)) →
        (∀ before pattern slt, Stands history before (.addGlobServlet pattern slt) →
          globMatches fnmatch pattern path = true →
          (∀ before' pattern' slt', Stands history before' (.addGlobServlet pattern' slt') →
            before'.length < before.length → globMatches fnmatch pattern' path = false) →
          d.getMatchedServlet fnmatch path = slt) ∧
        ((∀ before pattern slt, Stands history before (.addGlobServlet pattern slt) →
          globMatches fnmatch pattern path = false) → d.getMatchedServlet fnmatch path = some notFound)) := by
  refine ⟨run_globs_nodup notFound history,fun uri => ⟨?_,?_⟩,fun uri => ⟨?_,?_⟩,fun path => ⟨?_,fun hno => ⟨?_,?_⟩⟩⟩
  · intro before slt hs
    rw [getServlet, lookup_stands hs, Option.getD_some]
  · intro h
    rw [getServlet, lookup_none h, Option.getD_none]
  · intro before slt hs
    have hunique : ∀ before' pattern' slt', Stands history before' (.addGlobServlet pattern' slt') →
        before'.length < before.length → decide (pattern' = uri) = false := by
      intro before' pattern' slt' hs' hlt
      apply decide_eq_false
      rintro rfl
      obtain ⟨rfl,-⟩ := stands_unique hs' hs rfl
      exact absurd hlt (Nat.lt_irrefl _)
    rw [getGlobServlet, find_glob_first hs (by simp) hunique]
    rfl
  · intro h
    rw [getGlobServlet, find_glob_none]
    · rfl
    · intro before pattern slt hs
      apply decide_eq_false
      rintro rfl
      exact h before slt hs
  · intro before slt hs
    rw [getMatchedServlet, lookup_stands hs]
  · intro before pattern slt hs hm hfirst
    rw [getMatchedServlet, lookup_none hno, find_glob_first hs hm hfirst]
  · intro h
    rw [getMatchedServlet, lookup_none hno, find_glob_none h]
    exact (run_holds notFound history).2

end ServletDispatch
end Radixun.Http
