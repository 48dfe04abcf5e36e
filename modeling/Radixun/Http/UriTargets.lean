import Radixun.Http.RequestReading
import Radixun.Http.UriStability

/-! The characters of the path, the query and the fragment that `Uri::Create` takes from a URL, as the parser of
requests wants them. -/
namespace Radixun.Http.Uri
open Radixun.Foundation CString TextFrame UriMachine ActionMachine

/-- How far a text of the characters of a class is inside an escape. -/
def spellStep (c : ByteClass) (k : Nat) (b : UInt8) : Option Nat :=
  if k = 0 then (if b = 37 then some 1 else if c.has b then some 0 else none)
  else if xdigit.has b then some ((k + 1) % 3) else none

theorem spelled_of_steps {c : ByteClass} {s : Text} (h : s.foldlM (spellStep c) 0 = some 0) : Spelled c s := by
  induction hlen : s.length using Nat.strong_induction_on generalizing s with
  | _ n ih =>
    cases s with
    | nil => exact .nil
    | cons b s =>
      rw [List.foldlM_cons, spellStep, if_pos rfl] at h
      by_cases hescape : b = 37
      · subst hescape
        -- two digits have to follow
        cases s with
        | nil => cases h
        | cons x s =>
          cases s with
          | nil =>
            cases hx : xdigit.has x <;> simp [spellStep, hx] at h
          | cons y s =>
            cases hx : xdigit.has x with
            | false => simp [spellStep, hx] at h
            | true =>
              cases hy : xdigit.has y with
              | false => simp [spellStep, hx, hy] at h
              | true =>
                apply Spelled.escape hx hy
                apply ih s.length _ _ rfl
                · rw [← hlen]
                  simp only [List.length_cons]
                  omega
                · simpa [spellStep, hx, hy] using h
      · cases hb : c.has b with
        | false => simp [hescape, hb] at h
        | true =>
          apply Spelled.char hb
          apply ih s.length _ _ rfl
          · rw [← hlen]
            simp
          · simpa [hescape, hb] using h

/-- The states of a component: at its beginning, behind a whole character, and behind one and two bytes of an escape. -/
structure Spelling where
  first : Nat
  inside : Nat
  percent : Nat
  digit : Nat

namespace Spelling

def states (P : Spelling) (t : Nat) : Bool := t = P.first || t = P.inside || t = P.percent || t = P.digit

def depth (P : Spelling) (t : Nat) : Nat := if t = P.percent then 1 else if t = P.digit then 2 else 0

def bytesBut (ds : List Nat) : List UInt8 := ((List.range 256).map UInt8.ofNat).filter fun b => b.toNat ∉ ds

/-- On all bytes that do not end the component the machine goes on as the characters of the class and escapes do. -/
def ok (P : Spelling) (c : ByteClass) (ds : List Nat) : Bool :=
  uriMachine.onBytes P.states (bytesBut ds) fun t b o =>
    o.all fun r => P.states r.2 && spellStep c (P.depth t) b == some (P.depth r.2)

theorem steps {P : Spelling} {c : ByteClass} {ds : List Nat} (hok : P.ok c ds = true)
    (hrows : ∀ t, P.states t = true → t ∈ uriMachine.rows.map (·.1)) {a : Text} (ha : Free ds a) {cs t : Nat}
    (hcs : P.states cs = true) (h : uriMachine.Leads cs a t) :
    P.states t = true ∧ a.foldlM (spellStep c) (P.depth cs) = some (P.depth t) := by
  induction a generalizing cs with
  | nil =>
    obtain rfl := leads_nil.mp h
    exact ⟨hcs,rfl⟩
  | cons b a ih =>
    obtain ⟨hb,ha⟩ := free_cons.mp ha
    obtain ⟨acts,t1,hmove,hleads⟩ := (leads_cons uri_goes_on).mp h
    have hmem : b ∈ bytesBut ds := by
      rw [bytesBut, List.mem_filter, List.mem_map]
      exact ⟨⟨b.toNat,List.mem_range.mpr b.toNat_lt,UInt8.ofNat_toNat⟩,decide_eq_true hb⟩
    have hstep := onBytes_move hok hmem (hrows cs hcs) hcs
    rw [hmove, Option.all_some, Bool.and_eq_true, beq_iff_eq] at hstep
    obtain ⟨hin,hdepth⟩ := hstep
    obtain ⟨hend,hfold⟩ := ih ha hin hleads
    refine ⟨hend,?_⟩
    rw [List.foldlM_cons, hdepth]
    exact hfold

end Spelling

/-- The components behind an authority. -/
structure TargetMoves : Prop where
  path : Spelling.ok ⟨513,513,243,244⟩ RequestMachine.pathChar [35,63] = true
  query : Spelling.ok ⟨456,457,7,8⟩ RequestMachine.queryChar [35] = true
  fragment : Spelling.ok ⟨453,454,1,2⟩ RequestMachine.queryChar [] = true
  printable : uriMachine.holdsOn (fun _ => true) [(0,0),(10,10),(13,13),(127,127)] (fun _ _ _ => false) = true
  others : ∀ n, n < 256 → ByteClass.has [(0,0),(10,10),(13,13),(127,127)] (UInt8.ofNat n) = true ∨
    valueChar.has (UInt8.ofNat n) = true

theorem target_moves : TargetMoves := by constructor <;> decide +kernel

/-- What the machine takes from the beginning of a component is spelled in its characters. -/
theorem Spelling.spelled {P : Spelling} {c : ByteClass} {ds : List Nat} (hok : P.ok c ds = true)
    (hlow : ∀ t, P.states t = true → 1 ≤ t ∧ t ≤ 560) (hshort : P.percent < firstFinal ∧ P.digit < firstFinal ∧ firstFinal ≤ P.first)
    {a : Text} (ha : Free ds a) (h : AcceptedFrom P.first a) : Spelled c a := by
  obtain ⟨t,hleads,hfinal⟩ := h
  have hrows : ∀ t, P.states t = true → t ∈ uriMachine.rows.map (·.1) := fun t ht => row_of_bounds (hlow t ht).1 (hlow t ht).2
  have hfirst : P.states P.first = true := by simp [states]
  have hzero {s : Nat} (hs : firstFinal ≤ s) : P.depth s = 0 := by
    rw [depth, if_neg (by omega), if_neg (by omega)]
  have hsteps := (steps hok hrows ha hfirst hleads).2
  rw [hzero hshort.2.2, hzero hfinal] at hsteps
  exact spelled_of_steps hsteps

variable {u : Uri}

/-- A stored path is one of a request target, but for a second slash at its beginning. -/
theorem path_target (hshape : TailShape u.path (some u.query)) (hok : PathOk u.path) (hsingle : u.path.tail.head? ≠ some 47) :
    PathText u.getPath := by
  rw [getPath]
  rcases hshape.rooted with hpath | ⟨r,hpath⟩
  · rw [if_pos hpath]
    exact ⟨rfl,by decide,.nil⟩
  · rw [if_neg (by simp [hpath])]
    have hfree : Free [35,63] r := (free_cons.mp (hpath ▸ hshape.path_free)).2
    refine ⟨by rw [hpath]; rfl,hsingle,?_⟩
    rw [hpath]
    apply Spelling.spelled target_moves.path _ (by decide) hfree (hok r hpath)
    intro t ht
    simp only [Spelling.states, Bool.or_eq_true, decide_eq_true_eq] at ht
    omega

theorem query_target (hshape : TailShape u.path (some u.query)) (hok : AcceptedFrom 456 u.query) :
    Spelled RequestMachine.queryChar u.query := by
  apply Spelling.spelled target_moves.query _ (by decide) (hshape.query_free _ rfl) hok
  intro t ht
  simp only [Spelling.states, Bool.or_eq_true, decide_eq_true_eq] at ht
  omega

theorem fragment_target (hok : AcceptedFrom 453 u.fragment) : Spelled RequestMachine.queryChar u.fragment := by
  apply Spelling.spelled target_moves.fragment _ (by decide) (fun _ _ => List.not_mem_nil) hok
  intro t ht
  simp only [Spelling.states, Bool.or_eq_true, decide_eq_true_eq] at ht
  omega

/-- A stored host can be the value of a header. -/
theorem host_value {cs : Nat} {host : Text} (h : AcceptedFrom cs host) : FieldValue host := by
  obtain ⟨t,hleads,-⟩ := h
  induction host generalizing cs with
  | nil =>
    intro b hb
    cases hb
  | cons b host ih =>
    obtain ⟨acts,t1,hmove,hrest⟩ := (leads_cons uri_goes_on).mp hleads
    refine List.forall_mem_cons.mpr ⟨?_,ih hrest⟩
    rcases forall_byte (P := fun b => ByteClass.has [(0,0),(10,10),(13,13),(127,127)] b = true ∨ valueChar.has b = true)
      target_moves.others b with hbad | hgood
    · exact absurd (holdsOn_move target_moves.printable rfl hbad hmove) Bool.false_ne_true
    · exact hgood

/-- The fields of an accepted URL with a scheme and an authority are the parts of a request target, and its host
can be the value of a header. -/
theorem create_target {s scheme rest : Text} (h : create s = .ok (some u)) (hs : s = scheme ++ text "://" ++ rest)
    (hscheme : Free [35,47,58,63] scheme) :
    (u.path.tail.head? ≠ some 47 → PathText u.getPath) ∧ Spelled RequestMachine.queryChar u.query ∧
      Spelled RequestMachine.queryChar u.fragment ∧ FieldValue u.host := by
  obtain ⟨c,hshape,rfl⟩ := exists_components h hs hscheme
  obtain ⟨hvalid,rfl⟩ := (Components.create_glue_iff hshape).mp h
  have hprintable := stored_printable hshape hvalid
  obtain ⟨hpath,hquery,hfragment⟩ := hprintable.tail
  refine ⟨path_target hprintable.tail_shape hpath,?_,?_,host_value hprintable.host⟩
  · exact query_target hprintable.tail_shape (hquery _ rfl)
  · exact fragment_target (hfragment _ rfl)

end Radixun.Http.Uri
