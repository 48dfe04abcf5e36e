import Radixun.Db.Mysql

/-! The statements of `query_eq`, and what they say of the arguments. -/
namespace Radixun.Db
open Radixun.Foundation Radixun.Http

/-- Arguments without the quotes that `query_eq` puts around them, and no more columns than an `int` counts. -/
structure PlainQuery where
  table : Text
  key : List Text
  m : Query.Parameters
  key_ne : key ≠ []
  m_ne : m.entries ≠ []
  few : key.length < 2^31
  table_plain : 96 ∉ table
  key_plain : ∀ s ∈ key, 96 ∉ s
  m_plain : ∀ e ∈ m.entries, 96 ∉ e.1 ∧ 39 ∉ e.2

/-- A column or table in the statement. -/
def nameText (s : Text) : Text := 96 :: (s ++ [96])

/-- A condition in the statement. -/
def conditionText (e : Text × Text) : Text := nameText e.1 ++ ([61] ++ 39 :: (e.2 ++ [39]))

theorem nameText_self_delimiting : SelfDelimiting (96 ∉ ·) nameText := .quoted 96

theorem conditionText_self_delimiting :
    SelfDelimiting (fun e : Text × Text => 96 ∉ e.1 ∧ 39 ∉ e.2) conditionText :=
  .pair nameText_self_delimiting (.literal (.quoted 39) [61])

theorem mapIdx_const {A B : Type} (v : List A) (f : A → B) : v.mapIdx (fun _ a => f a) = v.map f := by
  apply List.ext_getElem
  · rw [List.length_mapIdx, List.length_map]
  · intro i _ _
    rw [List.getElem_mapIdx, List.getElem_map]

theorem queryKeys_cons {s : Text} {rest : List Text} (h : (s :: rest).length < 2^31) :
    queryKeys (s :: rest) = nameText s ++ (rest.map fun a => 44 :: [] ++ nameText a).flatten := by
  rw [queryKeys]
  by_cases h1 : (s :: rest).length = 1
  · have hnil : rest = [] := List.length_eq_zero_iff.mp (Nat.succ.inj h1)
    subst hnil
    rw [if_pos h1]
    exact (List.append_nil _).symm
  · rw [if_neg h1, forSize_few h, List.mapIdx_cons, if_pos rfl, List.flatten_cons]
    simp only [Nat.succ_ne_zero, if_false, mapIdx_const]
    rfl

theorem conditionText_eq (e : Text × Text) : text "`" ++ e.1 ++ text "`='" ++ e.2 ++ text "'" = conditionText e := by
  have hopen : text "`" = [96] := rfl
  have hmiddle : text "`='" = [96,61,39] := rfl
  have hclose : text "'" = [39] := rfl
  rw [hopen, hmiddle, hclose, conditionText, nameText]
  simp

theorem queryLoop_true (m : List (Text × Text)) :
    queryLoop true m = (m.map fun e => 32 :: text "AND " ++ conditionText e).flatten := by
  have hand : text " AND `" = 32 :: text "AND " ++ text "`" := rfl
  induction m with
  | nil => rfl
  | cons e m ih =>
    rw [queryLoop, ih, List.map_cons, List.flatten_cons, ← conditionText_eq, Bool.not_true, if_neg Bool.false_ne_true, hand]
    simp only [List.append_assoc]

theorem queryConditions_cons {m : Query.Parameters} {e : Text × Text} {rest : List (Text × Text)}
    (h : m.entries = e :: rest) :
    queryConditions m = conditionText e ++ (rest.map fun e => 32 :: text "AND " ++ conditionText e).flatten := by
  rw [queryConditions, h]
  by_cases h1 : (e :: rest).length = 1
  · have hnil : rest = [] := List.length_eq_zero_iff.mp (Nat.succ.inj h1)
    subst hnil
    rw [if_pos h1, ← conditionText_eq]
    exact (List.append_nil _).symm
  · rw [if_neg h1, queryLoop, queryLoop_true, ← conditionText_eq, Bool.not_false, if_pos rfl]

namespace PlainQuery

def sql (a : PlainQuery) : Option Text := queryEq a.table a.key a.m

theorem sql_eq (a : PlainQuery) :
    a.sql = some (text "SELECT " ++ (queryKeys a.key ++ (text " FROM " ++ (nameText a.table ++ (text " WHERE " ++
      (queryConditions a.m ++ text ";")))))) := by
  have hkey := List.length_pos_iff.mpr a.key_ne
  have hm := List.length_pos_iff.mpr a.m_ne
  have hname : text "`" ++ (a.table ++ text "`") = nameText a.table := rfl
  rw [sql, queryEq, if_neg (by omega)]
  apply congrArg some
  simp only [List.append_assoc]
  rw [← List.append_assoc a.table, ← List.append_assoc (text "`"), hname]

/-- Texts that are the same are made of the same parts. -/
theorem parts_unique {a b : PlainQuery} (h : a.sql = b.sql) : a.table = b.table ∧ a.key = b.key ∧ a.m = b.m := by
  obtain ⟨s,rest,hkey⟩ := List.exists_cons_of_ne_nil a.key_ne
  obtain ⟨s',rest',hkey'⟩ := List.exists_cons_of_ne_nil b.key_ne
  obtain ⟨e,more,hm⟩ := List.exists_cons_of_ne_nil a.m_ne
  obtain ⟨e',more',hm'⟩ := List.exists_cons_of_ne_nil b.m_ne
  have hplain := a.key_plain
  have hplain' := b.key_plain
  have hconditions := a.m_plain
  have hconditions' := b.m_plain
  have hfew := a.few
  have hfew' := b.few
  rw [hkey] at hplain hfew
  rw [hkey'] at hplain' hfew'
  rw [hm] at hconditions
  rw [hm'] at hconditions'
  rw [sql_eq, sql_eq, Option.some_inj, hkey, hkey', queryKeys_cons hfew, queryKeys_cons hfew', queryConditions_cons hm,
    queryConditions_cons hm'] at h
  have hfrom (t : Text) : (text " FROM " ++ t).head? ≠ some 44 := by
    rw [show text " FROM " = 32 :: text "FROM " from rfl, List.cons_append, List.head?_cons]
    decide
  obtain ⟨hkeys,hbehind⟩ := nameText_self_delimiting.separated hplain hplain' (hfrom _) (hfrom _)
    (List.append_cancel_left h)
  obtain ⟨htable,hwhere⟩ := nameText_self_delimiting a.table b.table a.table_plain b.table_plain _ _
    (List.append_cancel_left hbehind)
  obtain ⟨hentries,-⟩ := conditionText_self_delimiting.separated hconditions hconditions' (by decide +kernel)
    (by decide +kernel) (List.append_cancel_left hwhere)
  refine ⟨htable,?_,?_⟩
  · rw [hkey, hkey', hkeys]
  · rw [← hm, ← hm'] at hentries
    exact (OrderedMap.mk.injEq _ _ _ _).mpr hentries

end PlainQuery

/-- The value that ends the quote and goes on with a condition of its own. -/
def smuggled : Query.Parameters := OrderedMap.empty.put (text "use") (text "a' AND `x`='b")

def twoConditions : Query.Parameters := (OrderedMap.empty.put (text "use") (text "a")).put (text "x") (text "b")

example : ∃ a : PlainQuery, a.m = twoConditions :=
  ⟨⟨text "users",[text "pwd"],twoConditions,List.cons_ne_nil _ _,by decide +kernel,by decide,by decide +kernel,
    by decide +kernel,by decide +kernel⟩,rfl⟩

end Radixun.Db
