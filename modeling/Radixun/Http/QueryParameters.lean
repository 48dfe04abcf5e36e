import Radixun.Http.HttpMessage

/-! Query strings: `Query::parse` and `Query::dump`, and when one undoes the other. -/
namespace Radixun.Http.Query
open Radixun.Foundation OrderedMap

/-- `std::less` for strings: the order of their bytes. -/
def stringLess (a b : Text) : Bool := a.map UInt8.toNat < b.map UInt8.toNat

instance : StrictWeakOrder stringLess := .of_key (fun s => s.map UInt8.toNat) fun a b => by simp [stringLess]

abbrev Parameters := OrderedMap Text Text stringLess

/-- The pieces `std::getline` reads: each up to a delimiter, and what is left behind the last one if it is
not empty. -/
def split (delimiter : UInt8) : Text → List Text
  | [] => []
  | b :: input =>
    if b = delimiter then [] :: split delimiter input
    else
      match split delimiter input with
      | [] => [[b]]
      | piece :: output => (b :: piece) :: output

def parseComponent (component : Text) : Text × Text :=
  let key := component.takeWhile (· ≠ 61)
  if key = component then (key,[]) else (key,component.drop (key.length + 1))

/-- `std::map::emplace`: a key that is there keeps its value. -/
def emplace (m : Parameters) (e : Text × Text) : Parameters := if (m.find e.1).isSome then m else m.put e.1 e.2

/-- The delimiter is the first byte of its C string. -/
def parse (raw delimiter : Text) : Parameters :=
  if raw = [] then .empty else ((split (delimiter.headD 0) raw).map parseComponent).foldl emplace .empty

def dumpLoop : Bool → List (Text × Text) → Text
  | _, [] => []
  | isFir, it :: m => (if isFir then [] else text "&") ++ it.1 ++ text "=" ++ it.2 ++ dumpLoop false m

/-- Prints the parameters with `&` between them, whatever the delimiter. -/
def dump (m : Parameters) (_delimiter : Text) : Text := if m.entries = [] then [] else dumpLoop true m.entries

/-- One character that is not `=`. -/
structure Delimiter where
  byte : UInt8
  notEquals : byte ≠ 61

/-- What the query printed is parsed to. -/
def RoundTrips (raw : Text) (d : Delimiter) : Prop :=
  parse (dump (parse raw [d.byte]) [d.byte]) [d.byte] = parse raw [d.byte]

/-- The components of a text, each as key and value. -/
def components (d : UInt8) (raw : Text) : List (Text × Text) := (split d raw).map parseComponent

/-- One parameter as it is printed. -/
def printed (e : Text × Text) : Text := e.1 ++ text "=" ++ e.2

theorem same_iff_eq {a b : Text} : same stringLess a b = true ↔ a = b := by
  rw [same_iff, not_less_iff_of_key (fun s : Text => s.map UInt8.toNat) fun a b => by simp [stringLess]]
  exact (List.map_injective_iff.mpr fun _ _ => UInt8.toNat_inj.mp).eq_iff

section
variable {d : UInt8}

theorem split_append {c : Text} (hc : d ∉ c) (s : Text) : split d (c ++ d :: s) = c :: split d s := by
  induction c with
  | nil => simp [split]
  | cons b c ih =>
    obtain ⟨hb,hc⟩ := List.ne_and_not_mem_of_not_mem_cons hc
    rw [List.cons_append, split, if_neg hb.symm, ih hc]

theorem split_last {c : Text} (hc : d ∉ c) (hne : c ≠ []) : split d c = [c] := by
  induction c with
  | nil => exact absurd rfl hne
  | cons b c ih =>
    obtain ⟨hb,hc⟩ := List.ne_and_not_mem_of_not_mem_cons hc
    rw [split, if_neg hb.symm]
    cases c with
    | nil => rfl
    | cons b' c => rw [ih hc (List.cons_ne_nil b' c)]

/-- No piece holds the delimiter. -/
theorem split_free (s : Text) : ∀ c ∈ split d s, d ∉ c := by
  induction s with
  | nil => intro c hc; cases hc
  | cons b s ih =>
    intro c hc
    rw [split] at hc
    split at hc
    · rcases List.mem_cons.mp hc with rfl | hc
      · exact List.not_mem_nil
      · exact ih c hc
    · rename_i hb
      cases hs : split d s with
      | nil =>
        rw [hs] at hc
        rw [List.mem_singleton.mp hc]
        exact List.not_mem_cons_of_ne_of_not_mem (Ne.symm hb) List.not_mem_nil
      | cons piece output =>
        rw [hs] at hc ih
        rcases List.mem_cons.mp hc with rfl | hc
        · exact List.not_mem_cons_of_ne_of_not_mem (Ne.symm hb) (ih piece List.mem_cons_self)
        · exact ih c (List.mem_cons_of_mem piece hc)

/-- The key of a component is what stands before its first `=`, and both parts lie in the component. -/
theorem parseComponent_parts (c : Text) :
    61 ∉ (parseComponent c).1 ∧ (∀ b ∈ (parseComponent c).1, b ∈ c) ∧ ∀ b ∈ (parseComponent c).2, b ∈ c := by
  have hkey : 61 ∉ c.takeWhile (· ≠ 61) := by
    intro h
    simpa using List.mem_takeWhile_imp h
  have hsub : ∀ b ∈ c.takeWhile (· ≠ 61), b ∈ c := fun b hb => (List.takeWhile_prefix _).subset hb
  rw [parseComponent]
  split
  · exact ⟨hkey,hsub,fun b hb => by cases hb⟩
  · exact ⟨hkey,hsub,fun b hb => List.mem_of_mem_drop hb⟩

/-- A printed parameter is read back. -/
theorem parseComponent_printed {e : Text × Text} (he : 61 ∉ e.1) (rest : Text) :
    parseComponent (printed e ++ rest) = (e.1,e.2 ++ rest) := by
  have happ : printed e ++ rest = e.1 ++ 61 :: (e.2 ++ rest) := by
    rw [printed, List.append_assoc, List.append_assoc]
    rfl
  have hkey : (e.1 ++ 61 :: (e.2 ++ rest)).takeWhile (· ≠ 61) = e.1 := by
    rw [List.takeWhile_append_of_pos]
    · simp
    · intro b hb
      exact decide_eq_true fun h => he (h ▸ hb)
  have hne : e.1 ≠ e.1 ++ 61 :: (e.2 ++ rest) := by
    intro h
    have := congrArg List.length h
    simp at this
  rw [happ, parseComponent]
  simp only [hkey, if_neg hne]
  rw [List.drop_append, List.drop_eq_nil_of_le (Nat.le_succ _), List.nil_append, Nat.add_sub_cancel_left]
  rfl

/-- The first of equal keys wins. -/
theorem find_emplace (m : Parameters) (e : Text × Text) (k : Text) :
    (emplace m e).find k = (m.find k).or (if k = e.1 then some e else none) := by
  rw [emplace]
  by_cases hk : k = e.1
  · rw [hk]
    cases hfind : m.find e.1 with
    | none => simp [find_put, hfind, same_refl]
    | some x => simp [hfind]
  · cases hfind : m.find e.1 with
    | none => simp [find_put, same_iff_eq, hk]
    | some x => simp [hk]

theorem find_emplaceAll (m : Parameters) (l : List (Text × Text)) (k : Text) :
    (l.foldl emplace m).find k = (m.find k).or (l.find? fun e => k = e.1) := by
  induction l generalizing m with
  | nil => simp
  | cons e l ih =>
    rw [List.foldl_cons, ih, find_emplace, Option.or_assoc, List.find?_cons]
    by_cases hk : k = e.1 <;> simp [hk]

/-- The query holds for each key the first component with that key. -/
theorem find_parse (raw k : Text) : (parse raw [d]).find k = (components d raw).find? fun e => k = e.1 := by
  rw [parse]
  split
  · rename_i hraw
    rw [hraw]
    rfl
  · rw [find_emplaceAll]
    rfl

/-- What is in the query stands in the text. -/
theorem mem_components {raw : Text} {e : Text × Text} (he : e ∈ (parse raw [d]).entries) : e ∈ components d raw := by
  have hfind := find_of_mem he (same_refl e.1)
  rw [find_parse] at hfind
  exact List.mem_of_find?_eq_some hfind

/-- Every component has its key in the query. -/
theorem exists_entry {raw : Text} {a : Text × Text} (ha : a ∈ components d raw) :
    ∃ e ∈ (parse raw [d]).entries, e.1 = a.1 := by
  have hsome : ((parse raw [d]).find a.1).isSome = true := by
    rw [find_parse, List.find?_isSome]
    exact ⟨a,ha,decide_eq_true rfl⟩
  obtain ⟨e,he⟩ := Option.isSome_iff_exists.mp hsome
  obtain ⟨hmem,hsame⟩ := find_eq_some_iff.mp he
  exact ⟨e,hmem,(same_iff_eq.mp hsame).symm⟩

/-- The delimiter occurs in no key and no value, and `=` in no key. -/
theorem entries_free {raw : Text} {e : Text × Text} (he : e ∈ (parse raw [d]).entries) :
    61 ∉ e.1 ∧ d ∉ e.1 ∧ d ∉ e.2 := by
  obtain ⟨c,hc,rfl⟩ := List.mem_map.mp (mem_components he)
  obtain ⟨hkey,hleft,hright⟩ := parseComponent_parts c
  have hfree := split_free raw c hc
  exact ⟨hkey,fun h => hfree (hleft d h),fun h => hfree (hright d h)⟩

theorem printed_free {e : Text × Text} (hd : d ≠ 61) (he : d ∉ e.1 ∧ d ∉ e.2) : d ∉ printed e := by
  simp [printed, text, he, hd]

theorem dumpLoop_cons (e : Text × Text) (m : List (Text × Text)) :
    dumpLoop true (e :: m) = printed e ++ dumpLoop false m := by
  simp [dumpLoop, printed]

/-- With `&` for delimiter the output is cut where it was put together. -/
theorem split_dump {es : List (Text × Text)} (h : ∀ e ∈ es, 38 ∉ e.1 ∧ 38 ∉ e.2) :
    split 38 (dumpLoop true es) = es.map printed := by
  induction es with
  | nil => rfl
  | cons e es ih =>
    obtain ⟨he,hes⟩ := List.forall_mem_cons.mp h
    have hfree : 38 ∉ printed e := printed_free (by decide) he
    rw [dumpLoop_cons, List.map_cons]
    cases es with
    | nil =>
      have hne : printed e ≠ [] := by simp [printed, text]
      rw [dumpLoop, List.append_nil]
      exact split_last hfree hne
    | cons e' es =>
      have hnext : dumpLoop false (e' :: es) = 38 :: dumpLoop true (e' :: es) := by
        simp [dumpLoop, text]
      rw [hnext, split_append hfree, ih hes]

/-- Without the delimiter in it the output is one piece. -/
theorem dump_free {b : Bool} {es : List (Text × Text)} (hd : d ≠ 61) (hamp : d ≠ 38) (h : ∀ e ∈ es, d ∉ e.1 ∧ d ∉ e.2) :
    d ∉ dumpLoop b es := by
  induction es generalizing b with
  | nil => exact List.not_mem_nil
  | cons e es ih =>
    obtain ⟨⟨hkey,hval⟩,hes⟩ := List.forall_mem_cons.mp h
    have hrest : d ∉ dumpLoop false es := ih hes
    cases b <;> simp [dumpLoop, text, hkey, hval, hrest, hd, hamp]

/-- A query is dumped and parsed to a query whose components are what the dump is cut into. -/
theorem find_reparse (m : Parameters) (k : Text) :
    (parse (dump m [d]) [d]).find k = (components d (dumpLoop true m.entries)).find? fun e => k = e.1 := by
  rw [find_parse, dump]
  split
  · rename_i hnil
    rw [hnil]
    rfl
  · rfl

/-- The components of what a query with at most one entry, or any query over `&`, prints are its entries. -/
theorem components_dump {es : List (Text × Text)} (hd : d ≠ 61) (hfree : ∀ e ∈ es, 61 ∉ e.1 ∧ d ∉ e.1 ∧ d ∉ e.2)
    (h : d = 38 ∨ es.length ≤ 1) : components d (dumpLoop true es) = es := by
  have hread : (es.map printed).map parseComponent = es := by
    have heach : ∀ e ∈ es, parseComponent (printed e) = e := by
      intro e he
      have hprinted := parseComponent_printed (hfree e he).1 []
      rw [List.append_nil, List.append_nil] at hprinted
      exact hprinted
    rw [List.map_map]
    exact (List.map_congr_left heach).trans (List.map_id es)
  have hsplit : split d (dumpLoop true es) = es.map printed := by
    rcases h with rfl | hshort
    · exact split_dump fun e he => (hfree e he).2
    · cases es with
      | nil => rfl
      | cons e es =>
        obtain rfl : es = [] := List.length_eq_zero_iff.mp (by simpa using hshort)
        have hne : printed e ≠ [] := by simp [printed, text]
        rw [dumpLoop_cons, dumpLoop, List.append_nil]
        exact split_last (printed_free hd (hfree e List.mem_cons_self).2) hne
  rw [components, hsplit, hread]

/-- Two different entries are in order, so their keys differ. -/
theorem entries_short {m : Parameters} (h : ∀ e ∈ m.entries, ∀ e' ∈ m.entries, e.1 = e'.1) : m.entries.length ≤ 1 := by
  have hsorted := m.sorted
  cases hes : m.entries with
  | nil => exact Nat.zero_le 1
  | cons e es =>
    cases es with
    | nil => exact Nat.le_refl 1
    | cons e' es =>
      rw [hes] at h hsorted
      have hless := (List.pairwise_cons.mp hsorted).1 e' List.mem_cons_self
      have hself : stringLess e'.1 e'.1 = false := StrictWeakOrder.not_self e'.1
      rw [h e List.mem_cons_self e' (List.mem_cons_of_mem e List.mem_cons_self), hself] at hless
      cases hless

end

/-- The round trip holds with `&`, the delimiter `dump` writes, and where there is one key at most. -/
theorem round_trips_iff (raw : Text) (d : Delimiter) : RoundTrips raw d ↔
    d.byte = 38 ∨ ∀ a ∈ components d.byte raw, ∀ b ∈ components d.byte raw, a.1 = b.1 := by
  constructor
  · intro h
    by_contra hboth
    obtain ⟨hamp,hkeys⟩ := not_or.mp hboth
    push Not at hkeys
    obtain ⟨a,ha,b,hb,hne⟩ := hkeys
    -- the whole output is one component
    have hone : ∃ c, components d.byte (dumpLoop true (parse raw [d.byte]).entries) = [c] := by
      obtain ⟨e,he,_⟩ := exists_entry ha
      have hsome : dumpLoop true (parse raw [d.byte]).entries ≠ [] := by
        obtain ⟨x,es,hes⟩ := List.exists_cons_of_ne_nil (List.ne_nil_of_mem he)
        rw [hes]
        simp [dumpLoop, text]
      refine ⟨parseComponent (dumpLoop true (parse raw [d.byte]).entries),?_⟩
      rw [components, split_last (dump_free d.notEquals hamp fun e he => (entries_free he).2) hsome]
      rfl
    obtain ⟨c,hc⟩ := hone
    have hkey : ∀ x ∈ components d.byte raw, x.1 = c.1 := by
      intro x hx
      obtain ⟨e,he,hex⟩ := exists_entry hx
      have hfind := find_of_mem he (same_iff_eq.mpr hex.symm)
      rw [← h, find_reparse, hc] at hfind
      have hfound := List.find?_some hfind
      obtain rfl := List.mem_singleton.mp (List.mem_of_find?_eq_some hfind)
      exact hex.symm
    exact hne ((hkey a ha).trans (hkey b hb).symm)
  · intro h
    apply ext_find
    intro k
    have hshort : d.byte = 38 ∨ (parse raw [d.byte]).entries.length ≤ 1 :=
      h.imp id fun hkeys => entries_short fun e he e' he' => hkeys e (mem_components he) e' (mem_components he')
    rw [find_reparse, components_dump d.notEquals (fun e he => entries_free he) hshort]
    apply congrArg (fun p => List.find? p _)
    funext e
    rw [Bool.eq_iff_iff, decide_eq_true_eq, same_iff_eq]

/-- The semicolon of the text comes back as `&`. -/
theorem semicolon_lost : ¬RoundTrips (text "a=1;b=2") ⟨59,by decide⟩ := by
  intro h
  have hentries := congrArg OrderedMap.entries h
  exact absurd hentries (by decide)

end Radixun.Http.Query
