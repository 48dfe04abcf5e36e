import Radixun.Foundation.SelfDelimiting
import Radixun.Http.QueryParameters

/-! The statements that `mysql_db` builds. -/
namespace Radixun.Db
open Radixun.Foundation Radixun.Http CString

/-- `int len = v.size()`. -/
def intSize (v : List Text) : Int := toInt v.length

/-- `for(int i = 0 ; i < len ; i ++)` over what the body adds for an index and the element there. -/
def forSize (v : List Text) (body : Nat → Text → Text) : Text :=
  ((List.range (intSize v).toNat).map fun i => body i (v.getD i [])).flatten

/-! `mysql_db::insert`. -/

/-- The loop of `insert` over a list, with the quotes of its elements. -/
def insertList (quote : Text) (v : List Text) : Text :=
  forSize v fun i s =>
    if i = 0 then text "(" ++ quote ++ s ++ quote
    else if (i : Int) = intSize v - 1 then text "," ++ quote ++ s ++ quote ++ text ")"
    else text "," ++ quote ++ s ++ quote

def insertKeys (key : List Text) : Text :=
  if key.length = 1 then text "(`" ++ key.getD 0 [] ++ text "`)" else insertList (text "`") key

/-- The shortcut goes by the number of columns. -/
def insertValues (key value : List Text) : Text :=
  if key.length = 1 then text "('" ++ value.getD 0 [] ++ text "')" else insertList (text "'") value

/-- A null pointer is `none`, else the text the pointer is made for. -/
def insert (table : Text) (key value : List Text) : Option Text :=
  if key.length = 0 ∨ value.length = 0 then none
  else
    some (text "INSERT INTO " ++ text "`" ++ table ++ text "`" ++ insertKeys key ++ text " VALUES " ++
      insertValues key value ++ text ";")

/-! `mysql_db::query_eq`. -/

def queryKeys (key : List Text) : Text :=
  if key.length = 1 then text "`" ++ key.getD 0 [] ++ text "`"
  else forSize key fun i s => if i = 0 then text "`" ++ s ++ text "`" else text ",`" ++ s ++ text "`"

/-- The loop over the conditions with its flag. -/
def queryLoop : Bool → List (Text × Text) → Text
  | _, [] => []
  | f, e :: m =>
    (if !f then text "`" ++ e.1 ++ text "`='" ++ e.2 ++ text "'"
      else text " AND `" ++ e.1 ++ text "`='" ++ e.2 ++ text "'") ++ queryLoop true m

def queryConditions (m : Query.Parameters) : Text :=
  if m.entries.length = 1 then
    match m.entries with
    | [] => []
    | e :: _ => text "`" ++ e.1 ++ text "`='" ++ e.2 ++ text "'"
  else queryLoop false m.entries

/-- A string from a null pointer is `none`. -/
def queryEq (table : Text) (key : List Text) (m : Query.Parameters) : Option Text :=
  if key.length = 0 ∨ m.entries.length = 0 then none
  else
    some (text "SELECT " ++ queryKeys key ++ text " FROM " ++ text "`" ++ table ++ text "`" ++ text " WHERE " ++
      queryConditions m ++ text ";")

/-! The loops by the length of their list. -/

theorem intSize_eq {v : List Text} (h : v.length < 2^31) : intSize v = v.length := by
  rw [intSize, toInt, Int.bmod_eq_of_le]
  · omega
  · omega

theorem intSize_lt {v : List Text} (h : ¬v.length < 2^31) : intSize v < v.length := by
  have := Int.bmod_lt (x := (v.length : Int)) (m := 2^32) (by decide)
  rw [intSize, toInt]
  omega

/-- The loop goes through the first elements. -/
theorem forSize_eq (v : List Text) (body : Nat → Text → Text) :
    forSize v body = ((v.take (intSize v).toNat).mapIdx body).flatten := by
  have hle : (intSize v).toNat ≤ v.length := by
    by_cases h : v.length < 2^31
    · rw [intSize_eq h]
      omega
    · have := intSize_lt h
      omega
  rw [forSize]
  apply congrArg List.flatten
  apply List.ext_getElem
  · rw [List.length_map, List.length_range, List.length_mapIdx, List.length_take]
    omega
  · intro i hi _
    rw [List.length_map, List.length_range] at hi
    rw [List.getElem_map, List.getElem_range, List.getElem_mapIdx, List.getElem_take]
    exact congrArg (body i) (List.getElem_eq_getD []).symm

theorem forSize_few {v : List Text} (h : v.length < 2^31) (body : Nat → Text → Text) :
    forSize v body = (v.mapIdx body).flatten := by
  have hlen : (intSize v).toNat = v.length := by
    rw [intSize_eq h]
    exact Int.toNat_natCast v.length
  rw [forSize_eq, hlen, List.take_length]

/-- A list in parentheses as the statement has to have it. -/
def parenthesised (quote : Text) (v : List Text) : Text :=
  text "(" ++ (text ",").intercalate (v.map fun s => quote ++ s ++ quote) ++ text ")"

/-- The statement for columns and values one to one. -/
def insertStatement (table : Text) (key value : List Text) : Text :=
  text "INSERT INTO `" ++ table ++ text "`" ++ parenthesised (text "`") key ++ text " VALUES " ++
    parenthesised (text "'") value ++ text ";"

/-- Arguments that are not rejected at once. -/
structure InsertArgs where
  table : Text
  key : List Text
  value : List Text
  key_ne : key ≠ []
  value_ne : value ≠ []

/-- Columns and values one to one give the statement, and others no statement. -/
def WellFormed (a : InsertArgs) : Prop :=
  insert a.table a.key a.value =
    if a.key.length = a.value.length then some (insertStatement a.table a.key a.value) else none

section
variable (quote : Text)

/-- All but the first element, each behind a comma. -/
def behindCommas (v : List Text) : Text := (v.map fun s => text "," ++ quote ++ s ++ quote).flatten

theorem intercalate_eq (s : Text) (v : List Text) :
    (text ",").intercalate ((s :: v).map fun s => quote ++ s ++ quote) = quote ++ s ++ quote ++ behindCommas quote v := by
  induction v generalizing s with
  | nil => simp [behindCommas]
  | cons s' v ih =>
    have hcons := ih s'
    rw [List.map_cons] at hcons
    rw [List.map_cons, List.map_cons, List.intercalate_cons_cons, hcons]
    simp [behindCommas]

theorem parenthesised_cons (s : Text) (v : List Text) :
    parenthesised quote (s :: v) = text "(" ++ quote ++ s ++ quote ++ behindCommas quote v ++ text ")" := by
  rw [parenthesised, intercalate_eq]
  simp only [List.append_assoc]

/-- The turns behind the first one: the parenthesis is closed with the last element. -/
theorem later_turns {len : Int} (mid : List Text) (last : Text) (k : Nat) (hk : k ≠ 0)
    (hlen : (k : Int) + mid.length = len - 1) :
    ((mid ++ [last]).mapIdx fun i s =>
      if i + k = 0 then text "(" ++ quote ++ s ++ quote
      else if ((i + k : Nat) : Int) = len - 1 then text "," ++ quote ++ s ++ quote ++ text ")"
      else text "," ++ quote ++ s ++ quote).flatten = behindCommas quote (mid ++ [last]) ++ text ")" := by
  induction mid generalizing k with
  | nil =>
    have hlast : ((0 + k : Nat) : Int) = len - 1 := by
      rw [List.length_nil] at hlen
      omega
    rw [List.nil_append, List.mapIdx_singleton, if_neg (by omega), if_pos hlast]
    simp [behindCommas]
  | cons s mid ih =>
    have hnot : ¬((0 + k : Nat) : Int) = len - 1 := by
      rw [List.length_cons] at hlen
      omega
    have hrest := ih (k + 1) (by omega) (by rw [List.length_cons] at hlen; omega)
    rw [List.cons_append, List.mapIdx_cons, if_neg (by omega), if_neg hnot, List.flatten_cons]
    simp only [Nat.add_assoc, Nat.add_comm 1 k]
    rw [hrest]
    simp [behindCommas]

theorem intSize_le (v : List Text) : intSize v ≤ v.length := by
  by_cases h : v.length < 2^31
  · exact Int.le_of_eq (intSize_eq h)
  · exact Int.le_of_lt (intSize_lt h)

/-- From two turns on the loop puts the elements it goes through in parentheses. -/
theorem insertList_eq {v : List Text} (h : 2 ≤ intSize v) :
    insertList quote v = parenthesised quote (v.take (intSize v).toNat) := by
  have hle := intSize_le v
  have hlen : (v.take (intSize v).toNat).length = (intSize v).toNat := by
    rw [List.length_take]
    omega
  rw [insertList, forSize_eq]
  obtain ⟨s,rest,hw⟩ := List.exists_cons_of_ne_nil (List.ne_nil_of_length_pos (by rw [hlen]; omega))
  rw [hw, List.length_cons] at hlen
  rcases List.eq_nil_or_concat' rest with hnil | ⟨mid,last,hrest⟩
  · rw [hnil, List.length_nil] at hlen
    omega
  · rw [hrest, List.length_append, List.length_singleton] at hlen
    rw [hw, hrest, List.mapIdx_cons, if_pos rfl, List.flatten_cons, later_turns quote mid last 1 (by decide) (by omega),
      parenthesised_cons]
    simp only [List.append_assoc]

/-- A single turn leaves the parenthesis open. -/
theorem insertList_one {v : List Text} (h : intSize v = 1) :
    ∃ s rest, v = s :: rest ∧ insertList quote v = text "(" ++ quote ++ s ++ quote := by
  have hle := intSize_le v
  obtain ⟨s,rest,rfl⟩ := List.exists_cons_of_ne_nil (List.ne_nil_of_length_pos (l := v) (by omega))
  refine ⟨s,rest,rfl,?_⟩
  rw [insertList, forSize_eq, h]
  exact List.append_nil _

theorem insertList_none {v : List Text} (h : intSize v ≤ 0) : insertList quote v = [] := by
  rw [insertList, forSize_eq, Int.toNat_of_nonpos h, List.take_zero]
  rfl

/-- The list from its first elements on. -/
theorem parenthesised_take {v : List Text} {n : Nat} (h0 : 0 < n) (hn : n < v.length) :
    ∃ rest, parenthesised quote v =
      text "(" ++ (text ",").intercalate ((v.take n).map fun s => quote ++ s ++ quote) ++ text "," ++ rest := by
  obtain ⟨s,w,hw⟩ := List.exists_cons_of_ne_nil (List.ne_nil_of_length_pos (l := v.take n) (by rw [List.length_take]; omega))
  obtain ⟨s',w',hw'⟩ := List.exists_cons_of_ne_nil (List.ne_nil_of_length_pos (l := v.drop n) (by rw [List.length_drop]; omega))
  have hv : v = s :: (w ++ s' :: w') := by
    rw [← List.cons_append, ← hw, ← hw', List.take_append_drop]
  refine ⟨quote ++ s' ++ quote ++ behindCommas quote w' ++ text ")",?_⟩
  rw [hw, intercalate_eq]
  conv_lhs => rw [hv, parenthesised_cons]
  simp [behindCommas]

theorem head_ne {b c : UInt8} (h : b ≠ c) (x t t' : Text) : x ++ b :: t ≠ x ++ c :: t' :=
  fun heq => h (List.cons.inj (List.append_cancel_left heq)).1

/-- Where the size is cut short, the text goes on differently behind the elements that the loop still goes
through. -/
theorem insertList_short {v : List Text} (h : ¬v.length < 2^31) (t t' : Text) :
    insertList quote v ++ text " VALUES " ++ t ≠ parenthesised quote v ++ t' := by
  have hlt := intSize_lt h
  have hblank : text " VALUES " = 32 :: text "VALUES " := rfl
  rcases Int.lt_or_le 0 (intSize v) with hpos | hneg
  · obtain ⟨rest,hrest⟩ := parenthesised_take quote (v := v) (n := (intSize v).toNat) (by omega) (by omega)
    rw [hrest, List.append_assoc _ (text ","), List.append_assoc _ (text "," ++ rest)]
    rcases (show intSize v = 1 ∨ 2 ≤ intSize v by omega) with hone | htwo
    · obtain ⟨s,tail,rfl,hlist⟩ := insertList_one quote hone
      have hfirst : (text ",").intercalate (((s :: tail).take 1).map fun s => quote ++ s ++ quote) = quote ++ s ++ quote := by
        rw [List.take_succ_cons, List.take_zero, intercalate_eq]
        exact List.append_nil _
      rw [hlist, hone, Int.toNat_one, hfirst, hblank, List.append_assoc _ (32 :: _)]
      have hparen : text "(" ++ quote ++ s ++ quote = text "(" ++ (quote ++ s ++ quote) := by
        simp only [List.append_assoc]
      rw [hparen]
      exact head_ne (by decide) _ _ _
    · rw [insertList_eq quote htwo, parenthesised, List.append_assoc _ (text ")"), List.append_assoc _ (text ")" ++ _)]
      exact head_ne (by decide) _ _ _
  · rw [insertList_none quote hneg, List.nil_append, parenthesised, List.append_assoc, List.append_assoc, hblank]
    exact head_ne (by decide) [] _ _

end

/-- A list of a single element, as the shortcut prints it. -/
theorem parenthesised_one (quote s : Text) : parenthesised quote [s] = text "(" ++ quote ++ s ++ quote ++ text ")" := by
  rw [parenthesised_cons]
  simp [behindCommas]

theorem insertKeys_eq {key : List Text} (hne : key ≠ []) (h : key.length < 2^31) :
    insertKeys key = parenthesised (text "`") key := by
  have hsize := intSize_eq h
  rw [insertKeys]
  by_cases h1 : key.length = 1
  · obtain ⟨s,rfl⟩ := List.length_eq_one_iff.mp h1
    have hopen : text "(`" = text "(" ++ text "`" := rfl
    have hclose : text "`)" = text "`" ++ text ")" := rfl
    rw [if_pos h1, parenthesised_one, hopen, hclose, List.getD_cons_zero]
    simp only [List.append_assoc]
  · have hpos := List.length_pos_iff.mpr hne
    rw [if_neg h1, insertList_eq _ (by omega), hsize, Int.toNat_natCast, List.take_length]

theorem insertValues_eq {key value : List Text} (hne : key ≠ []) (hlen : key.length = value.length)
    (h : key.length < 2^31) : insertValues key value = parenthesised (text "'") value := by
  have hsize := intSize_eq (v := value) (by omega)
  rw [insertValues]
  by_cases h1 : key.length = 1
  · obtain ⟨s,rfl⟩ := List.length_eq_one_iff.mp (hlen.symm.trans h1)
    have hopen : text "('" = text "(" ++ text "'" := rfl
    have hclose : text "')" = text "'" ++ text ")" := rfl
    rw [if_pos h1, parenthesised_one, hopen, hclose, List.getD_cons_zero]
    simp only [List.append_assoc]
  · have hpos := List.length_pos_iff.mpr hne
    rw [if_neg h1, insertList_eq _ (by omega), hsize, Int.toNat_natCast, List.take_length]

theorem insert_nonempty (a : InsertArgs) :
    insert a.table a.key a.value =
      some (text "INSERT INTO " ++ text "`" ++ a.table ++ text "`" ++ insertKeys a.key ++ text " VALUES " ++
        insertValues a.key a.value ++ text ";") := by
  have hkey := List.length_pos_iff.mpr a.key_ne
  have hvalue := List.length_pos_iff.mpr a.value_ne
  exact if_neg (by omega)

/-- The statement is well formed exactly for as many values as columns, and as many as an `int` counts. -/
theorem insert_iff (a : InsertArgs) : WellFormed a ↔ a.key.length = a.value.length ∧ a.key.length < 2^31 := by
  have hinto : text "INSERT INTO " ++ text "`" = text "INSERT INTO `" := rfl
  rw [WellFormed, insert_nonempty, hinto]
  by_cases hlen : a.key.length = a.value.length
  · rw [if_pos hlen, Option.some_inj, and_iff_right hlen, insertStatement]
    constructor
    · intro heq
      by_contra hlong
      have h1 : a.key.length ≠ 1 := by omega
      rw [insertKeys, if_neg h1] at heq
      simp only [List.append_assoc] at heq
      have hrest := List.append_cancel_left (List.append_cancel_left (List.append_cancel_left heq))
      rw [← List.append_assoc] at hrest
      exact insertList_short (text "`") hlong _ _ hrest
    · intro h
      rw [insertKeys_eq a.key_ne h, insertValues_eq a.key_ne hlen h]
  · rw [if_neg hlen]
    exact iff_of_false (fun h => by cases h) fun h => hlen h.1

/-- Two columns and one value leave the list of values open. -/
theorem insert_open :
    insert (text "t") [text "a",text "b"] [text "x"] = some (text "INSERT INTO `t`(`a`,`b`) VALUES ('x';") ∧
    insert (text "t") [text "a"] [text "x",text "y"] = some (text "INSERT INTO `t`(`a`) VALUES ('x');") ∧
    ¬∀ a : InsertArgs, WellFormed a := by
  have hopen : insert (text "t") [text "a",text "b"] [text "x"] = some (text "INSERT INTO `t`(`a`,`b`) VALUES ('x';") := by
    decide +kernel
  refine ⟨hopen,by decide +kernel,?_⟩
  intro h
  have heq : insert (text "t") [text "a",text "b"] [text "x"] = none :=
    h ⟨text "t",[text "a",text "b"],[text "x"],List.cons_ne_nil _ _,List.cons_ne_nil _ _⟩
  rw [hopen] at heq
  cases heq

end Radixun.Db
