import Radixun.Http.Connection

/-! The size line of a chunk: what the parser makes of a buffer that begins with one, and of a buffer that
begins with a line break. -/
namespace Radixun.Http
open Radixun.Foundation CString ByteClass ResponseMachine

/-- The hexadecimal digits of a size an `int` can hold. -/
structure HexSize (ds : Text) (n : Nat) : Prop where
  hex : ∀ d ∈ ds, (digitValue 16 d).isSome = true
  nonempty : ds ≠ []
  value : digits 16 ds 0 = n
  small : n < 2^31

private theorem hex_classes (d : UInt8) (h : (digitValue 16 d).isSome = true) :
    xdigit.has d = true ∧ (one 72).has d = false ∧ (one 10).has d = false ∧ (one 13).has d = false ∧ (one 59).has d = false :=
  forall_byte (P := fun d => (digitValue 16 d).isSome = true → xdigit.has d = true ∧ (one 72).has d = false ∧
    (one 10).has d = false ∧ (one 13).has d = false ∧ (one 59).has d = false) (by decide +kernel) d h

private theorem edge_first {d : UInt8} (h : (digitValue 16 d).isSome = true) : responseMachine.edge 1 d = some (tr0 xdigit) := by
  obtain ⟨hx,hh,_⟩ := hex_classes d h
  have hrow : responseMachine.row 1 = [tr2 (one 72),tr0 xdigit] := rfl
  simp [ActionMachine.edge, hrow, tr2, tr0, hx, hh]

private theorem edge_digit {d : UInt8} (h : (digitValue 16 d).isSome = true) : responseMachine.edge 2 d = some (st 2 xdigit) := by
  obtain ⟨hx,_,hlf,hcr,hsemi⟩ := hex_classes d h
  have hrow : responseMachine.row 2 = [tr3 (one 10),tr4 (one 13),tr6 (one 59),st 2 xdigit] := rfl
  simp [ActionMachine.edge, hrow, tr3, tr4, tr6, st, hx, hlf, hcr, hsemi]

private theorem walk_digits {ds : Text} (hds : ∀ d ∈ ds, (digitValue 16 d).isSome = true) (p : Nat) (y : Text) :
    responseMachine.walk 2 p (ds ++ 13 :: 10 :: y) =
      ⟨[(p + ds.length,.chunkSize),(p + ds.length + 1,.done)],.broke 120 (p + ds.length + 2)⟩ := by
  induction ds generalizing p with
  | nil =>
    have hcr : responseMachine.edge 2 13 = some (tr4 (one 13)) := rfl
    have hlf : responseMachine.edge 3 10 = some (tr7 (one 10)) := rfl
    rw [List.nil_append, ActionMachine.walk_cons_go hcr rfl, tr4, ActionMachine.walk_cons_break hlf rfl]
    rfl
  | cons d ds ih =>
    obtain ⟨hd,hds⟩ := List.forall_mem_cons.mp hds
    rw [List.cons_append, ActionMachine.walk_cons_go (edge_digit hd) rfl, st, ih hds, List.length_cons,
      show p + 1 + ds.length = p + (ds.length + 1) by omega]
    rfl

/-- The machine over a size line with anything behind it. -/
theorem walk_size {ds : Text} {n : Nat} (h : HexSize ds n) (y : Text) :
    responseMachine.walk 1 0 (ds ++ 13 :: 10 :: y) =
      ⟨[(0,.mark),(ds.length,.chunkSize),(ds.length + 1,.done)],.broke 120 (ds.length + 2)⟩ := by
  obtain ⟨d,ds,rfl⟩ := List.exists_cons_of_ne_nil h.nonempty
  obtain ⟨hd,hds⟩ := List.forall_mem_cons.mp h.hex
  rw [List.cons_append, ActionMachine.walk_cons_go (edge_first hd) rfl, tr0, walk_digits hds, List.length_cons,
    show 0 + 1 + ds.length = ds.length + 1 by omega]
  rfl

/-- The parser behind a size line. -/
theorem execute_size {σ : HttpResponseParser} {ds : Text} {n : Nat} (h : HexSize ds n) (hthrown : σ.thrown = none) (y : Text) :
    ∃ σ', σ.execute (ds ++ 13 :: 10 :: y) true = (σ',y) ∧ σ'.data = σ.data ∧ σ'.error = σ.error ∧ σ'.thrown = none ∧
      σ'.parser.cs = 120 ∧ σ'.parser.contentLen = n ∧ σ'.parser.chunksDone = decide (n = 0) := by
  have hsize : toInt (strtol 16 (ds ++ 13 :: 10 :: y)) = n := by
    have hsmall := h.small
    rw [strtol_hex h.hex h.nonempty (by decide) (by decide) (10 :: y) (by rw [h.value]; omega), h.value]
    exact Int.bmod_eq_of_le (by omega) (by omega)
  have hwalk : responseMachine.walk (httpclientParserInit σ.parser.status).cs 0 (ds ++ 13 :: 10 :: y) = _ := walk_size h y
  have hdrop : (ds ++ 13 :: 10 :: y).drop (ds.length + 2) = y := by
    rw [List.drop_append, List.drop_eq_nil_of_le (by omega), Nat.add_sub_cancel_left]
    rfl
  simp only [HttpResponseParser.execute, if_true, HttpResponseParser.httpclientParserExecute, HttpResponseParser.walk, hwalk,
    List.foldl_cons, List.foldl_nil, HttpResponseParser.perform, HttpResponseParser.reset, HttpResponseParser.land, hthrown,
    Option.isSome_none, Bool.false_eq_true, if_false, List.drop_zero, hsize, hdrop]
  refine ⟨_,rfl,rfl,rfl,rfl,rfl,rfl,?_⟩
  simp

/-- A buffer that begins with a line break is no size line. -/
theorem execute_break (σ : HttpResponseParser) (y : Text) : (σ.execute (13 :: y) true).1.parser.cs = 0 := by
  have hedge : responseMachine.edge 1 13 = none := rfl
  have hwalk : responseMachine.walk (httpclientParserInit σ.parser.status).cs 0 (13 :: y) = _ :=
    ActionMachine.walk_cons_none hedge
  simp only [HttpResponseParser.execute, if_true, HttpResponseParser.httpclientParserExecute, HttpResponseParser.walk, hwalk,
    HttpResponseParser.land]

end Radixun.Http
