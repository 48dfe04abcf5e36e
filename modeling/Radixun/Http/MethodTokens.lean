import Radixun.Http.RequestParser

/-! Method recognition: `on_request_method` hands a pointer into the buffer to `CharsToHttpMethod`,
which tries each name over its own length, and so looks past the end of the token. -/
namespace Radixun.Http
open Radixun.Foundation CString

/-- Compares the whole string with the names in the order of the map. -/
def stringToHttpMethod (m : Text) : HttpMethod :=
  ((methodMap.find? fun x => strcmp x.2 m = 0).map (·.1)).getD .INVALID_METHOD

/-- The bytes the machine lets into a method. -/
def isMethodByte (b : UInt8) : Bool := (65 ≤ b.toNat && b.toNat ≤ 90) || (48 ≤ b.toNat && b.toNat ≤ 57)

structure MethodToken where
  bytes : Text
  valid : ∀ b ∈ bytes, isMethodByte b = true

/-- What the callback leaves of a parser for a token with bytes before and behind it. -/
def recognised (before : Text) (token : MethodToken) (after : Text) (s : HttpRequestParser) : HttpRequestParser :=
  s.onRequestMethod (before ++ token.bytes ++ after) before.length token.bytes.length

def SetsMethod (before : Text) (token : MethodToken) (after : Text) (m : HttpMethod) : Prop :=
  ∀ s, (recognised before token after s).data = { s.data with method := m } ∧
    (recognised before token after s).error = s.error

def SetsError (before : Text) (token : MethodToken) (after : Text) : Prop :=
  ∀ s, (recognised before token after s).data = s.data ∧ (recognised before token after s).error = 1000

/-- The callback takes the token for the method of its name, and every other token for an error. -/
structure RecognisesExactly (before : Text) (token : MethodToken) (after : Text) : Prop where
  method : ∀ m, SetsMethod before token after m ↔ (m,token.bytes) ∈ methodMap
  agrees : ∀ m, SetsMethod before token after m ↔ stringToHttpMethod token.bytes = m ∧ m ≠ .INVALID_METHOD
  error : SetsError before token after ↔ ∀ m, (m,token.bytes) ∉ methodMap

/-- Every entry has a name of its own, which is no prefix of another one, and a method of its own. -/
private theorem methodMap_apart :
    (∀ e ∈ methodMap, 0 ∉ e.2 ∧ e.1 ≠ .INVALID_METHOD) ∧
      ∀ a ∈ methodMap, ∀ b ∈ methodMap, (a.2 <+: b.2 → a = b) ∧ (a.1 = b.1 → a = b) := by decide +kernel

private theorem names_nonzero (e : HttpMethod × Text) (he : e ∈ methodMap) : 0 ∉ e.2 := (methodMap_apart.1 e he).1

private theorem names_valid (e : HttpMethod × Text) (he : e ∈ methodMap) : e.1 ≠ .INVALID_METHOD := (methodMap_apart.1 e he).2

private theorem names_apart (a : HttpMethod × Text) (ha : a ∈ methodMap) (b : HttpMethod × Text) (hb : b ∈ methodMap) :
    a.2 <+: b.2 → a = b :=
  (methodMap_apart.2 a ha b hb).1

private theorem methods_apart (a : HttpMethod × Text) (ha : a ∈ methodMap) (b : HttpMethod × Text) (hb : b ∈ methodMap) :
    a.1 = b.1 → a = b :=
  (methodMap_apart.2 a ha b hb).2

private theorem MethodToken.nonzero (token : MethodToken) : 0 ∉ token.bytes := by
  intro h
  have := token.valid 0 h
  simp [isMethodByte] at this

/-- A search whose condition holds of one entry at most finds that entry. -/
theorem find_method {p : HttpMethod × Text → Bool} (hone : ∀ a ∈ methodMap, ∀ b ∈ methodMap, p a = true → p b = true → a = b)
    (m : HttpMethod) : ((methodMap.find? p).map (·.1)).getD .INVALID_METHOD = m ∧ m ≠ .INVALID_METHOD ↔
      ∃ name, (m,name) ∈ methodMap ∧ p (m,name) = true := by
  cases hfind : methodMap.find? p with
  | none =>
    simp only [Option.map_none, Option.getD_none]
    constructor
    · rintro ⟨rfl,hne⟩
      exact absurd rfl hne
    · rintro ⟨name,hmem,hp⟩
      exact absurd hp (List.find?_eq_none.mp hfind _ hmem)
  | some e =>
    have hmem := List.mem_of_find?_eq_some hfind
    have hp := List.find?_some hfind
    simp only [Option.map_some, Option.getD_some]
    constructor
    · rintro ⟨rfl,_⟩
      exact ⟨e.2,hmem,hp⟩
    · rintro ⟨name,hname,hq⟩
      obtain rfl := hone _ hmem _ hname hp hq
      exact ⟨rfl,names_valid _ hmem⟩

/-- The method found is the one whose name the text begins with. -/
theorem chars_to_method (t : Text) (m : HttpMethod) : charsToHttpMethod t = m ∧ m ≠ .INVALID_METHOD ↔
    ∃ name, (m,name) ∈ methodMap ∧ name <+: t := by
  have hbegins : ∀ e ∈ methodMap, decide (strncmp e.2 t e.2.length = 0) = true ↔ e.2 <+: t := by
    intro e he
    rw [decide_eq_true_eq]
    exact strncmp_prefix (names_nonzero e he) t
  have hone : ∀ a ∈ methodMap, ∀ b ∈ methodMap, decide (strncmp a.2 t a.2.length = 0) = true →
      decide (strncmp b.2 t b.2.length = 0) = true → a = b := by
    intro a ha b hb hpa hpb
    have hpa := (hbegins a ha).mp hpa
    have hpb := (hbegins b hb).mp hpb
    rcases Nat.le_total a.2.length b.2.length with hle | hle
    · exact names_apart a ha b hb (List.prefix_of_prefix_length_le hpa hpb hle)
    · exact (names_apart b hb a ha (List.prefix_of_prefix_length_le hpb hpa hle)).symm
  rw [charsToHttpMethod, find_method hone]
  apply exists_congr
  intro name
  apply and_congr_right
  intro hmem
  exact hbegins _ hmem

/-- The method of a whole string is the one of that name. -/
theorem string_to_method {t : Text} (ht : 0 ∉ t) (m : HttpMethod) :
    stringToHttpMethod t = m ∧ m ≠ .INVALID_METHOD ↔ (m,t) ∈ methodMap := by
  have hequal : ∀ e ∈ methodMap, decide (strcmp e.2 t = 0) = true ↔ e.2 = t := by
    intro e he
    rw [decide_eq_true_eq, strcmp_eq_zero, cstr_of_nonzero (names_nonzero e he), cstr_of_nonzero ht]
  have hone : ∀ a ∈ methodMap, ∀ b ∈ methodMap, decide (strcmp a.2 t = 0) = true → decide (strcmp b.2 t = 0) = true →
      a = b := by
    intro a ha b hb hpa hpb
    apply names_apart a ha b hb
    have heq : a.2 = b.2 := ((hequal a ha).mp hpa).trans ((hequal b hb).mp hpb).symm
    exact heq ▸ List.prefix_rfl
  rw [stringToHttpMethod, find_method hone]
  constructor
  · rintro ⟨name,hmem,hp⟩
    obtain rfl : name = t := (hequal _ hmem).mp hp
    exact hmem
  · intro hmem
    exact ⟨t,hmem,(hequal _ hmem).mpr rfl⟩

section
variable {before after : Text} {token : MethodToken}

/-- The two ways the callback goes. -/
theorem recognised_cases (before : Text) (token : MethodToken) (after : Text) (s : HttpRequestParser) :
    (charsToHttpMethod (token.bytes ++ after) = .INVALID_METHOD ∧ (recognised before token after s).data = s.data ∧
      (recognised before token after s).error = 1000) ∨
    (charsToHttpMethod (token.bytes ++ after) ≠ .INVALID_METHOD ∧
      (recognised before token after s).data = { s.data with method := charsToHttpMethod (token.bytes ++ after) } ∧
      (recognised before token after s).error = s.error) := by
  by_cases hm : charsToHttpMethod (token.bytes ++ after) = .INVALID_METHOD
  · exact .inl ⟨hm,by simp [recognised, HttpRequestParser.onRequestMethod, HttpRequestParser.report, hm]⟩
  · exact .inr ⟨hm,by simp [recognised, HttpRequestParser.onRequestMethod, HttpRequestParser.report, hm]⟩

/-- A method is set if the token and what follows it begin with its name. -/
theorem sets_method (m : HttpMethod) :
    SetsMethod before token after m ↔ ∃ name, (m,name) ∈ methodMap ∧ name <+: token.bytes ++ after := by
  rw [← chars_to_method]
  constructor
  · intro h
    obtain ⟨hdata,herror⟩ := h (.init ⟨0,false⟩)
    obtain ⟨_,_,h1000⟩ | ⟨hne,hset,_⟩ := recognised_cases before token after (.init ⟨0,false⟩)
    · rw [h1000] at herror
      exact absurd herror (by decide)
    · have hm : charsToHttpMethod (token.bytes ++ after) = m := congrArg HttpRequest.method (hset.symm.trans hdata)
      exact ⟨hm,hm ▸ hne⟩
  · rintro ⟨rfl,hne⟩ s
    obtain ⟨hinvalid,_⟩ | ⟨_,hset⟩ := recognised_cases before token after s
    · exact absurd hinvalid hne
    · exact hset

theorem sets_error :
    SetsError before token after ↔ ∀ e ∈ methodMap, ¬e.2 <+: token.bytes ++ after := by
  constructor
  · intro h e he hbegins
    have hsets : SetsMethod before token after e.1 := (sets_method _).mpr ⟨e.2,he,hbegins⟩
    have herror := (h (.init ⟨0,false⟩)).2.symm.trans (hsets (.init ⟨0,false⟩)).2
    exact absurd herror (by decide)
  · intro h s
    obtain ⟨_,hset⟩ | ⟨hne,_⟩ := recognised_cases before token after s
    · exact hset
    · obtain ⟨name,hmem,hbegins⟩ := (chars_to_method _ _).mp ⟨rfl,hne⟩
      exact absurd hbegins (h _ hmem)

/-- Recognition is exact unless the token runs on into a longer name, or a shorter name begins it. -/
theorem recognises_exactly_iff (before : Text) (token : MethodToken) (after : Text) :
    RecognisesExactly before token after ↔
      ∀ e ∈ methodMap, e.2 <+: token.bytes ++ after → e.2 = token.bytes := by
  constructor
  · rintro ⟨hmethod,_,_⟩ e he hbegins
    have hmem := (hmethod e.1).mp ((sets_method _).mpr ⟨e.2,he,hbegins⟩)
    exact congrArg Prod.snd (methods_apart _ he _ hmem rfl)
  · intro h
    have hmethod : ∀ m, SetsMethod before token after m ↔ (m,token.bytes) ∈ methodMap := by
      intro m
      rw [sets_method]
      constructor
      · rintro ⟨name,hmem,hbegins⟩
        obtain rfl := h _ hmem hbegins
        exact hmem
      · intro hmem
        exact ⟨_,hmem,List.prefix_append ..⟩
    refine ⟨hmethod,?_,?_⟩
    · intro m
      rw [hmethod, string_to_method token.nonzero]
    · rw [sets_error]
      constructor
      · intro hnone m hmem
        exact hnone _ hmem (List.prefix_append ..)
      · intro hnone e he hbegins
        apply hnone e.1
        rw [← h e he hbegins]
        exact he

end

/-- `GETX` is taken for `GET`, and the parser delivers it. -/
theorem longer_token_recognised :
    ¬RecognisesExactly [] ⟨text "GETX",by decide +kernel⟩ (text " / HTTP/1.1\r\n\r\n") ∧
      ((HttpRequestParser.init ⟨0,false⟩).execute (text "GETX / HTTP/1.1\r\n\r\n")).1.error = 0 := by
  refine ⟨?_,by decide +kernel⟩
  intro h
  have hsets : SetsMethod [] ⟨text "GETX",by decide +kernel⟩ (text " / HTTP/1.1\r\n\r\n") .GET :=
    (sets_method _).mpr ⟨text "GET",by decide +kernel,by decide⟩
  exact absurd ((h.method .GET).mp hsets) (by decide +kernel)

end Radixun.Http
