import Radixun.Foundation.CommandRuns
import Radixun.Http.MessageDump
import Radixun.Http.RequestMaps
import Mathlib.Logic.Function.Basic

/-! The header map of a request as a map from lower-cased names: the answers of its calls over any
history, and the names `dump` lists. -/
namespace Radixun.Http
open Radixun.Foundation CString CommandRuns TextFrame OrderedMap

/-- A name as a C string can hold it. -/
structure HeaderName where
  bytes : Text
  nonzero : 0 ∉ bytes

def lower (t : Text) : Text := t.map tolower

inductive HeaderCall where
  | setHeader (name : HeaderName) (val : Text)
  | delHeader (name : HeaderName)
  | hasHeader (name : HeaderName) (val : Option Text)
  | getHeader (name : HeaderName) (default : Text)

inductive HeaderAnswer where
  | done
  | has (found : Bool) (val : Option Text)
  | got (val : Text)
  deriving DecidableEq, Repr

def HttpRequest.headerCall : HeaderCall → HttpRequest → HeaderAnswer × HttpRequest
  | .setHeader name val, r => (.done,r.setHeader name.bytes val)
  | .delHeader name, r => (.done,r.delHeader name.bytes)
  | .hasHeader name val, r => (.has (r.hasHeader name.bytes val).1 (r.hasHeader name.bytes val).2,r)
  | .getHeader name default, r => (.got (r.getHeader name.bytes default),r)

/-- The map from lower-cased names: the spelling first used since the last deletion, and the value last set. -/
abbrev NameMap := Text → Option (Text × Text)

def NameMap.set (m : NameMap) (name : HeaderName) (val : Text) : NameMap :=
  Function.update m (lower name.bytes) (some (((m (lower name.bytes)).map (·.1)).getD name.bytes,val))

def NameMap.del (m : NameMap) (name : HeaderName) : NameMap := Function.update m (lower name.bytes) none

def NameMap.call : HeaderCall → NameMap → HeaderAnswer × NameMap
  | .setHeader name val, m => (.done,m.set name val)
  | .delHeader name, m => (.done,m.del name)
  | .hasHeader name val, m =>
    (.has (m (lower name.bytes)).isSome (val.map fun v => ((m (lower name.bytes)).map (·.2)).getD v),m)
  | .getHeader name default, m => (.got (((m (lower name.bytes)).map (·.2)).getD default),m)

/-- A request with an empty header map after a history of calls, and the map of names after it. -/
def afterCalls (r : HttpRequest) (calls : List HeaderCall) : HttpRequest :=
  (runTotal HttpRequest.headerCall calls { r with headers := .empty }).2

def namesAfter (calls : List HeaderCall) : NameMap := (runTotal NameMap.call calls fun _ => none).2

/-- The header fields `dump` prints, each with what it prints behind the name. -/
def HttpRequest.fields (r : HttpRequest) : List (Text × Text) :=
  [(text "connection",text ": " ++ if r.close then text "close" else text "keep-alive")] ++
    (kept r.headers).map (fun e => (e.1,text ":" ++ e.2)) ++
    if r.body ≠ [] then [(text "content-length",text ": " ++ decimal r.body.length)] else []

/-- The names among the fields that are the given one up to case. -/
def listed (fields : List (Text × Text)) (name : Text) : List Text :=
  (fields.map (·.1)).filter fun n => lower n = lower name

/-- The header map is a case-insensitive map with respect to its calls and to `dump`. -/
structure CaseInsensitive (r : HttpRequest) (calls : List HeaderCall) : Prop where
  order : StrictWeakOrder caseInsensitiveLess
  equivalence : ∀ a b : HeaderName, same caseInsensitiveLess a.bytes b.bytes = true ↔ lower a.bytes = lower b.bytes
  answers : (runTotal HttpRequest.headerCall calls { r with headers := .empty }).1 =
    (runTotal NameMap.call calls fun _ => none).1
  printed : (afterCalls r calls).dump = (afterCalls r calls).startLine ++ crlf ++
    (printLines ((afterCalls r calls).fields.map fun f => f.1 ++ f.2) ++ crlf ++ (afterCalls r calls).body)
  once : ∀ name : HeaderName, lower name.bytes ≠ text "connection" → ∀ e, namesAfter calls (lower name.bytes) = some e →
    listed (afterCalls r calls).fields name.bytes = [e.1]

theorem fold_eq_iff (a b : HeaderName) : foldKey a.bytes = foldKey b.bytes ↔ lower a.bytes = lower b.bytes := by
  have hmap : ∀ n : HeaderName, foldKey n.bytes = (lower n.bytes).map UInt8.toNat := by
    intro n
    rw [foldKey, cstr_of_nonzero n.nonzero, lower, List.map_map]
    rfl
  rw [hmap, hmap]
  exact (List.map_injective_iff.mpr fun _ _ => UInt8.toNat_inj.mp).eq_iff

/-- Neither of two names is less if they are equal up to case. -/
theorem same_iff_lower (a b : HeaderName) :
    same caseInsensitiveLess a.bytes b.bytes = true ↔ lower a.bytes = lower b.bytes := by
  rw [same_iff, not_less_iff_of_key foldKey fun a b => by simp [caseInsensitiveLess, strcasecmp_neg]]
  exact fold_eq_iff a b

/-- The map holds what the map of names says, under names without zero bytes. -/
structure Agrees (body : Text) (r : HttpRequest) (m : NameMap) : Prop where
  find : ∀ name : HeaderName, r.headers.find name.bytes = m (lower name.bytes)
  nonzero : ∀ e ∈ r.headers.entries, 0 ∉ e.1
  body : r.body = body

section
variable {body : Text} {r : HttpRequest} {m : NameMap}

theorem Agrees.set (h : Agrees body r m) (name : HeaderName) (val : Text) :
    Agrees body (r.setHeader name.bytes val) (m.set name val) where
  find other := by
    rw [HttpRequest.setHeader, find_put, h.find, h.find, NameMap.set, Function.update_apply]
    simp only [same_iff_lower]
  nonzero e he := by
    obtain hk | ⟨e',hmem,hk⟩ := insertEntry_keys he
    · rw [hk]
      exact name.nonzero
    · rw [← hk]
      exact h.nonzero e' hmem
  body := h.body

theorem Agrees.del (h : Agrees body r m) (name : HeaderName) : Agrees body (r.delHeader name.bytes) (m.del name) where
  find other := by
    rw [HttpRequest.delHeader, find_erase, h.find, NameMap.del, Function.update_apply]
    simp only [same_iff_lower]
  nonzero e he := h.nonzero e (List.mem_filter.mp he).1
  body := h.body

/-- One call answers alike and keeps the maps in agreement. -/
theorem call_agrees (c : HeaderCall) (r : HttpRequest) (m : NameMap) (h : Agrees body r m) :
    (r.headerCall c).1 = (m.call c).1 ∧ Agrees body (r.headerCall c).2 (m.call c).2 := by
  cases c with
  | setHeader name val => exact ⟨rfl,h.set name val⟩
  | delHeader name => exact ⟨rfl,h.del name⟩
  | hasHeader name val =>
    refine ⟨?_,h⟩
    simp only [HttpRequest.headerCall, NameMap.call, HttpRequest.hasHeader, hasIn, h.find]
    cases m (lower name.bytes) <;> cases val <;> rfl
  | getHeader name default =>
    refine ⟨?_,h⟩
    simp only [HttpRequest.headerCall, NameMap.call, HttpRequest.getHeader, getOr, h.find]
    cases m (lower name.bytes) <;> rfl

theorem agrees_empty (r : HttpRequest) : Agrees r.body { r with headers := .empty } fun _ => none where
  find _ := rfl
  nonzero e he := by cases he
  body := rfl

/-- Whole histories answer alike. -/
theorem calls_agree (r : HttpRequest) (calls : List HeaderCall) :
    (runTotal HttpRequest.headerCall calls { r with headers := .empty }).1 = (runTotal NameMap.call calls fun _ => none).1 ∧
      Agrees r.body (afterCalls r calls) (namesAfter calls) :=
  runTotal_refines call_agrees calls (agrees_empty r)

end

theorem fields_lines (r : HttpRequest) : r.fields.map (fun f => f.1 ++ f.2) = r.lines := by
  have hclose : text "connection" ++ (text ": " ++ if r.close then text "close" else text "keep-alive") = printClose r.close := by
    rw [printClose, ← List.append_assoc]
    rfl
  have hkept : (fun e : Text × Text => e.1 ++ (text ":" ++ e.2)) = headerText (text ":") := by
    funext e
    rw [headerText, List.append_assoc]
  have hlength : text "content-length" ++ (text ": " ++ decimal r.body.length) = text "content-length: " ++ decimal r.body.length := by
    rw [← List.append_assoc]
    rfl
  rw [HttpRequest.fields, HttpRequest.lines, lengthLines, List.map_append, List.map_append, List.map_map, List.map_singleton,
    hclose]
  congr 1
  · congr 2
  · split
    · rw [List.map_singleton, hlength]
    · rfl

/-- A list without repetitions holds one element at most that satisfies a condition of one. -/
private theorem filter_single {α : Type} [DecidableEq α] {l : List α} {p : α → Bool} {a : α} (hl : l.Nodup) (ha : a ∈ l)
    (hp : ∀ x ∈ l, p x = true ↔ x = a) : l.filter p = [a] := by
  have hsame : l.filter p = l.filter (· = a) := by
    apply List.filter_congr
    intro x hx
    rw [Bool.eq_iff_iff, hp x hx, decide_eq_true_eq]
  rw [hsame, List.filter_eq, hl.count, if_pos ha]
  rfl

section
variable {body : Text} {r : HttpRequest} {m : NameMap}

/-- The loop over the map lists a name once, in the spelling of the map of names. -/
theorem listed_kept (h : Agrees body r m) {name : HeaderName} (hname : lower name.bytes ≠ text "connection")
    {e : Text × Text} (he : m (lower name.bytes) = some e) :
    ((kept r.headers).map (·.1)).filter (fun n => lower n = lower name.bytes) = [e.1] := by
  have hfind := (h.find name).trans he
  obtain ⟨hmem,hsame⟩ := find_eq_some_iff.mp hfind
  have hown : ∀ x ∈ r.headers.entries, lower x.1 = lower name.bytes ↔ x = e := by
    intro x hx
    have hx0 := h.nonzero x hx
    rw [← same_iff_lower ⟨x.1,hx0⟩ name]
    constructor
    · intro hs
      have hfound := find_of_mem hx (same_symm hs)
      exact Option.some.inj (hfound.symm.trans hfind)
    · rintro rfl
      exact same_symm hsame
  have hnodup : (kept r.headers).Nodup := by
    apply (r.headers.sorted.imp _).filter
    rintro a b hless rfl
    have hself : caseInsensitiveLess a.1 a.1 = false := StrictWeakOrder.not_self a.1
    rw [hself] at hless
    cases hless
  have hkept : e ∈ kept r.headers := by
    refine List.mem_filter.mpr ⟨hmem,?_⟩
    simp only [decide_eq_true_eq, strcasecmp_connection, cstr_of_nonzero (h.nonzero e hmem), ne_eq]
    rw [← (hown e hmem).mpr rfl] at hname
    exact hname
  rw [List.filter_map, filter_single hnodup hkept]
  · rfl
  · intro x hx
    rw [Function.comp_apply, decide_eq_true_eq]
    exact hown x (List.mem_filter.mp hx).1

/-- The names `dump` lists: one from the map, and the length it prints itself. -/
theorem listed_fields (h : Agrees body r m) (name : HeaderName) (hname : lower name.bytes ≠ text "connection")
    {e : Text × Text} (he : m (lower name.bytes) = some e) :
    listed r.fields name.bytes =
      [e.1] ++ if body ≠ [] ∧ lower name.bytes = text "content-length" then [text "content-length"] else [] := by
  have hfold : lower (text "connection") = text "connection" ∧ lower (text "content-length") = text "content-length" := by
    decide
  have hmap : ((kept r.headers).map fun e => (e.1,text ":" ++ e.2)).map (·.1) = (kept r.headers).map (·.1) := by
    rw [List.map_map]
    rfl
  rw [listed, HttpRequest.fields, List.map_append, List.map_append, hmap, List.filter_append, List.filter_append,
    listed_kept h hname he, h.body]
  congr 1
  · have hconnection : ¬lower (text "connection") = lower name.bytes := by
      rw [hfold.1]
      exact fun heq => hname heq.symm
    simp [hconnection]
  · by_cases hbody : body ≠ []
    · by_cases hlength : lower name.bytes = text "content-length"
      · simp [hbody, hlength, hfold.2]
      · have hne : ¬text "content-length" = lower name.bytes := fun heq => hlength heq.symm
        simp [hlength, hfold.2, hne]
    · rw [if_neg hbody, if_neg fun hc => hbody hc.1]
      rfl

end

/-- The order, the answers and the output of the map are those of a case-insensitive map; a name is listed
twice exactly if `dump` prints a length of its own beside one from the map. -/
theorem case_insensitive_iff (r : HttpRequest) (calls : List HeaderCall) :
    CaseInsensitive r calls ↔ r.body = [] ∨ namesAfter calls (text "content-length") = none := by
  obtain ⟨hanswers,hagrees⟩ := calls_agree r calls
  have hname : lower (text "content-length") = text "content-length" := by decide
  constructor
  · intro h
    by_contra hboth
    obtain ⟨hbody,hsome⟩ := not_or.mp hboth
    obtain ⟨e,he⟩ := Option.ne_none_iff_exists'.mp hsome
    have hzero : 0 ∉ text "content-length" := by decide
    have hother : lower (text "content-length") ≠ text "connection" := by decide
    rw [← hname] at he
    have honce := h.once ⟨text "content-length",hzero⟩ hother e he
    rw [listed_fields hagrees ⟨text "content-length",hzero⟩ hother he, if_pos ⟨hbody,hname⟩] at honce
    cases honce
  · intro h
    refine ⟨inferInstance,same_iff_lower,hanswers,?_,?_⟩
    · rw [fields_lines]
      exact HttpRequest.dump_lines _
    · intro name hother e he
      rw [listed_fields hagrees name hother he, if_neg, List.append_nil]
      rintro ⟨hbody,hlength⟩
      rw [hlength] at he
      rcases h with h | h
      · exact hbody h
      · rw [h] at he
        cases he

private def lengthName : HeaderName := ⟨text "Content-Length",by decide⟩

/-- The length from the map and the length of the body. -/
theorem length_listed_twice :
    ¬CaseInsensitive { HttpRequest.init with body := text "abc" } [.setHeader lengthName (text "3")] := by
  intro h
  have hname : namesAfter [.setHeader lengthName (text "3")] (lower lengthName.bytes) = some (lengthName.bytes,text "3") := by
    simp [namesAfter, runTotal, NameMap.call, NameMap.set]
  have honce := h.once lengthName (by decide) _ hname
  have hlisted : listed (afterCalls { HttpRequest.init with body := text "abc" } [.setHeader lengthName (text "3")]).fields
      lengthName.bytes = [text "Content-Length",text "content-length"] := by decide +kernel
  rw [hlisted] at honce
  cases honce

end Radixun.Http
