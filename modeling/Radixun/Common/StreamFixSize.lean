import Mathlib.Algebra.BigOperators.Group.List.Basic
import Mathlib.Algebra.Order.Group.Int
import Mathlib.Algebra.Ring.Int.Defs

/-! The loops of `Stream` that transfer a fixed number of bytes. What the calls below them return is
an argument: -1 for an error, 0 for a closed peer, otherwise a count. -/
namespace Radixun.Common.Stream

/-- Conversion to `size_t`. -/
def sizeT (x : Int) : Nat := (x % 2^64).toNat

/-- Conversion of a `size_t` to `int`. -/
def int (n : Nat) : Int := (n : Int).bmod (2^32)

/-- A call of `read` or `write`: for `size` bytes from the offset `offset` on. -/
structure Call where
  offset : Nat
  size : Nat
  deriving DecidableEq, Repr

/-- `returned` is `none` while the loop waits for the result of its next call. -/
structure Transfer where
  calls : List Call
  returned : Option Int
  deriving DecidableEq, Repr

/-- The loop of all four functions, by the results of its calls. They differ in how the place of the
next call follows from a result. -/
def fixSize (advance : Nat → Int → Nat) (length : Nat) : List Int → Nat → Nat → Transfer
  | _, _, 0 => ⟨[],some (int length)⟩
  | [], offset, left + 1 => ⟨[⟨offset,left + 1⟩],none⟩
  | rt :: rts, offset, left + 1 =>
    let len := sizeT rt
    if len ≤ 0 then ⟨[⟨offset,left + 1⟩],some (int len)⟩
    else
      let rest := fixSize advance length rts (advance offset rt) (sizeT ((left + 1 : Nat) - len))
      ⟨⟨offset,left + 1⟩ :: rest.calls,rest.returned⟩

/-- `offset += len` with the result in `len`. -/
def addOffset (offset : Nat) (rt : Int) : Nat := sizeT (offset + sizeT rt)

/-- The position of the byte array, which `SocketStream` moves by what was transferred. -/
def movePosition (offset : Nat) (rt : Int) : Nat := if 0 < rt then offset + rt.toNat else offset

def readFixSize (length : Nat) (results : List Int) : Transfer := fixSize addOffset length results 0 length
def readFixSizeByteArray (length : Nat) (results : List Int) : Transfer := fixSize movePosition length results 0 length
def writeFixSize (length : Nat) (results : List Int) : Transfer := fixSize addOffset length results 0 length
def writeFixSizeByteArray (length : Nat) (results : List Int) : Transfer := fixSize movePosition length results 0 length

inductive Overload where
  | read | readByteArray | write | writeByteArray
  deriving DecidableEq

def Overload.transfer : Overload → Nat → List Int → Transfer
  | .read => readFixSize
  | .readByteArray => readFixSizeByteArray
  | .write => writeFixSize
  | .writeByteArray => writeFixSizeByteArray

/-- Each result answers its call: an error, a closed peer, or at most what was asked for. -/
def Answers (results : List Int) (calls : List Call) : Prop :=
  ∀ x ∈ results.zip calls, x.1 = -1 ∨ 0 ≤ x.1 ∧ x.1 ≤ x.2.size

/-- What the transfer of the `left` bytes behind `offset` has to do: its calls stay inside these bytes and each
goes on where the last one ended; the first result that is no count ends it and is returned; otherwise it
ends after at most `left` calls, and returns `whole` exactly when all bytes were transferred. -/
structure Conforms (whole : Int) (results : List Int) (offset left : Nat) (t : Transfer) : Prop where
  within : ∀ c ∈ t.calls, offset ≤ c.offset ∧ c.offset + c.size ≤ offset + left
  ordered : ∀ i c, t.calls[i]? = some c → (c.offset : Int) = offset + (results.take i).sum
  stops : ∀ (front behind : List Int) (r : Int), results = front ++ r :: behind → (∀ x ∈ front, 0 < x) → front.sum < left → r ≤ 0 →
    t.calls.length = front.length + 1 ∧ t.returned = some r
  completes : ∀ front behind : List Int, results = front ++ behind → (∀ x ∈ front, 0 < x) → front.sum = left →
    t.calls.length = front.length ∧ t.returned = some whole
  only : t.returned = some whole →
    ∃ front behind : List Int, results = front ++ behind ∧ (∀ x ∈ front, 0 < x) ∧ front.sum = left
  bounded : t.calls.length ≤ left
  terminates : left ≤ results.length → t.returned ≠ none

/-- No error is returned to the loop while it has `left` bytes to go, and a length that it completes fits in an `int`. -/
def Clean (length : Nat) : List Int → Nat → Prop
  | _, 0 => length < 2^31
  | [], _ + 1 => True
  | rt :: rts, left + 1 => 0 ≤ rt ∧ (0 < rt → Clean length rts (left + 1 - rt.toNat))

instance (results : List Int) (calls : List Call) : Decidable (Answers results calls) :=
  inferInstanceAs (Decidable (∀ x ∈ results.zip calls, x.1 = -1 ∨ 0 ≤ x.1 ∧ x.1 ≤ x.2.size))

instance decidableClean (length : Nat) : (results : List Int) → (left : Nat) → Decidable (Clean length results left)
  | [], 0 => inferInstanceAs (Decidable (length < 2^31))
  | _ :: _, 0 => inferInstanceAs (Decidable (length < 2^31))
  | [], _ + 1 => isTrue trivial
  | rt :: rts, left + 1 =>
    have := decidableClean length rts (left + 1 - rt.toNat)
    inferInstanceAs (Decidable (0 ≤ rt ∧ (0 < rt → Clean length rts (left + 1 - rt.toNat))))

/-- The loop on unbounded integers. -/
def ideal (length : Nat) : List Int → Nat → Nat → Transfer
  | _, _, 0 => ⟨[],some length⟩
  | [], offset, left + 1 => ⟨[⟨offset,left + 1⟩],none⟩
  | rt :: rts, offset, left + 1 =>
    if rt ≤ 0 then ⟨[⟨offset,left + 1⟩],some rt⟩
    else
      let rest := ideal length rts (offset + rt.toNat) (left + 1 - rt.toNat)
      ⟨⟨offset,left + 1⟩ :: rest.calls,rest.returned⟩

theorem int_eq_iff {n : Nat} : int n = n ↔ n < 2^31 := by
  unfold int
  by_cases hn : n < 2^31
  · simp only [hn, iff_true]
    exact Int.bmod_eq_of_le (by omega) (by omega)
  · simp only [hn, iff_false]
    intro he
    have hlt := Int.bmod_lt (x := n) (m := 2^32) (by omega)
    omega

theorem sizeT_nat {n : Nat} (h : n < 2^64) : sizeT n = n := by
  unfold sizeT
  omega

theorem sizeT_pos {rt : Int} (h : 0 < rt) (hb : rt < 2^64) : sizeT rt = rt.toNat := by
  unfold sizeT
  omega

theorem answers_cons {rt : Int} {rts : List Int} {c : Call} {cs : List Call} :
    Answers (rt :: rts) (c :: cs) ↔ (rt = -1 ∨ 0 ≤ rt ∧ rt ≤ c.size) ∧ Answers rts cs := by
  simp only [Answers, List.zip_cons_cons, List.mem_cons, forall_eq_or_imp]

/-- A result that is a count moves the place of the next call by that count. -/
def Advances (length : Nat) (advance : Nat → Int → Nat) : Prop :=
  ∀ offset rt, 0 < rt → offset + rt.toNat ≤ length → advance offset rt = offset + rt.toNat

theorem addOffset_advances {length : Nat} (h : length < 2^64) : Advances length addOffset := by
  intro offset rt hrt hle
  have hlen : sizeT rt = rt.toNat := sizeT_pos hrt (by omega)
  unfold addOffset
  rw [hlen]
  exact sizeT_nat (n := offset + rt.toNat) (by omega)

theorem movePosition_advances (length : Nat) : Advances length movePosition :=
  fun _ _ hrt _ => if_pos hrt

section
variable {advance : Nat → Int → Nat} {length : Nat}

/-- One turn of the loop with a count as the result. -/
theorem fixSize_count (ha : Advances length advance) (hb : length < 2^64) {rt : Int} {rts : List Int} {offset left : Nat}
    (hrt : 0 < rt) (hle : rt ≤ (left + 1 : Nat)) (hl : offset + (left + 1) ≤ length) :
    fixSize advance length (rt :: rts) offset (left + 1) =
      ⟨⟨offset,left + 1⟩ :: (fixSize advance length rts (offset + rt.toNat) (left + 1 - rt.toNat)).calls,
        (fixSize advance length rts (offset + rt.toNat) (left + 1 - rt.toNat)).returned⟩ := by
  have hlen : sizeT rt = rt.toNat := sizeT_pos hrt (by omega)
  have hleft : sizeT ((left + 1 : Nat) - (rt.toNat : Nat)) = left + 1 - rt.toNat := by
    unfold sizeT
    omega
  rw [fixSize]
  simp only [hlen, hleft, ha offset rt hrt (by omega)]
  rw [if_neg (by omega)]

/-- While there are bytes left, there is a call. -/
theorem calls_cons (results : List Int) (offset left : Nat) :
    ∃ cs, (fixSize advance length results offset (left + 1)).calls = ⟨offset,left + 1⟩ :: cs := by
  cases results with
  | nil => exact ⟨[],rfl⟩
  | cons rt rts =>
    rw [fixSize]
    dsimp only
    split
    · exact ⟨[],rfl⟩
    · exact ⟨_,rfl⟩

/-- A call is answered with an error or with no more than it asked for. -/
theorem head_answers {rt : Int} {rts : List Int} {offset left : Nat}
    (hv : Answers (rt :: rts) (fixSize advance length (rt :: rts) offset (left + 1)).calls) :
    rt = -1 ∨ 0 ≤ rt ∧ rt ≤ (left + 1 : Nat) := by
  obtain ⟨cs,hcs⟩ := calls_cons (rt :: rts) offset left
  rw [hcs] at hv
  exact (answers_cons.mp hv).1

/-- A closed peer ends the loop. -/
theorem fixSize_closed (rts : List Int) (offset left : Nat) :
    fixSize advance length (0 :: rts) offset (left + 1) = ⟨[⟨offset,left + 1⟩],some 0⟩ := by
  have hlen : sizeT 0 = 0 := rfl
  have hint : int 0 = 0 := rfl
  rw [fixSize]
  simp only [hlen, hint, le_refl, if_true]

/-- After an error the loop goes on with more bytes to go than before. -/
theorem fixSize_error (rts : List Int) (offset : Nat) {left : Nat} (h : left + 1 < 2^64 - 1) :
    1 < (fixSize advance length (-1 :: rts) offset (left + 1)).calls.length := by
  have hlen : sizeT (-1) = 2^64 - 1 := rfl
  have hleft : sizeT ((left + 1 : Nat) - ((2^64 - 1 : Nat) : Int)) = left + 1 + 1 := by
    unfold sizeT
    omega
  rw [fixSize]
  simp only [hlen, hleft]
  rw [if_neg (by decide)]
  obtain ⟨cs,hcs⟩ := calls_cons rts (advance offset (-1)) (left + 1)
  rw [hcs]
  exact Nat.succ_lt_succ (Nat.succ_pos _)

theorem fixSize_clean (ha : Advances length advance) (hb : length < 2^64) (results : List Int) {offset left : Nat}
    (hl : offset + left = length) (hv : Answers results (fixSize advance length results offset left).calls)
    (hc : Clean length results left) : fixSize advance length results offset left = ideal length results offset left := by
  induction results generalizing offset left with
  | nil =>
    cases left with
    | zero => rw [fixSize, ideal, int_eq_iff.mpr hc]
    | succ left => rfl
  | cons rt rts ih =>
    cases left with
    | zero => rw [fixSize, ideal, int_eq_iff.mpr hc]
    | succ left =>
      obtain ⟨hnonneg,hrest⟩ := hc
      by_cases hrt : 0 < rt
      · have hle : rt ≤ (left + 1 : Nat) := by
          have hhead := head_answers hv
          omega
        rw [fixSize_count ha hb hrt hle (by omega)] at hv ⊢
        rw [ideal, if_neg (by omega), ih (by omega) (answers_cons.mp hv).2 (hrest hrt)]
      · obtain rfl : rt = 0 := by omega
        rw [fixSize_closed, ideal, if_pos le_rfl]

end

theorem length_le_sum {l : List Int} (h : ∀ x ∈ l, 0 < x) : (l.length : Int) ≤ l.sum := by
  induction l with
  | nil => exact le_rfl
  | cons x xs ih =>
    have hx := h x List.mem_cons_self
    have hxs := ih fun y hy => h y (List.mem_cons_of_mem x hy)
    rw [List.sum_cons, List.length_cons]
    omega

/-- A list that starts with `rt` and has a front of counts only. -/
private theorem front_cases {rt : Int} {rts front tail : List Int} (h : rt :: rts = front ++ tail) :
    front = [] ∧ tail = rt :: rts ∨ ∃ front', front = rt :: front' ∧ rts = front' ++ tail := by
  cases front with
  | nil => exact .inl ⟨rfl,h.symm⟩
  | cons x xs =>
    cases h
    exact .inr ⟨xs,rfl,rfl⟩

theorem conforms_done (length : Nat) (results : List Int) (offset : Nat) :
    Conforms length results offset 0 ⟨[],some length⟩ where
  within := fun _ hc => absurd hc List.not_mem_nil
  ordered := fun _ _ hc => by cases hc
  stops := fun front _ _ _ hpos hlt _ => by
    have hsum := length_le_sum hpos
    omega
  completes := fun front _ _ hpos hsum => by
    have hle := length_le_sum hpos
    refine ⟨?_,rfl⟩
    change 0 = front.length
    omega
  only := fun _ => ⟨[],results,rfl,fun _ hx => absurd hx List.not_mem_nil,rfl⟩
  bounded := le_rfl
  terminates := fun _ => Option.some_ne_none _

theorem conforms_waiting (length offset left : Nat) :
    Conforms length [] offset (left + 1) ⟨[⟨offset,left + 1⟩],none⟩ where
  within := fun c hc => by
    rw [List.mem_singleton.mp hc]
    exact ⟨le_rfl,le_rfl⟩
  ordered := fun i c hc => by
    cases i with
    | zero => cases hc; simp
    | succ i => cases hc
  stops := fun front behind r h => by simp at h
  completes := fun front behind h _ hsum => by
    obtain ⟨rfl,-⟩ := List.append_eq_nil_iff.mp h.symm
    rw [List.sum_nil] at hsum
    omega
  only := fun h => by cases h
  bounded := Nat.succ_le_succ (Nat.zero_le left)
  terminates := fun h => absurd h (Nat.not_succ_le_zero left)

theorem conforms_stop {length offset left : Nat} {rt : Int} {rts : List Int} (hrt : rt ≤ 0) (hl : left + 1 ≤ length) :
    Conforms length (rt :: rts) offset (left + 1) ⟨[⟨offset,left + 1⟩],some rt⟩ where
  within := fun c hc => by
    rw [List.mem_singleton.mp hc]
    exact ⟨le_rfl,le_rfl⟩
  ordered := fun i c hc => by
    cases i with
    | zero => cases hc; simp
    | succ i => cases hc
  stops := fun front behind r h hpos _ _ => by
    rcases front_cases h with ⟨rfl,ht⟩ | ⟨front',rfl,-⟩
    · cases ht
      exact ⟨rfl,rfl⟩
    · exact absurd (hpos rt List.mem_cons_self) (by omega)
  completes := fun front behind h hpos hsum => by
    rcases front_cases h with ⟨rfl,-⟩ | ⟨front',rfl,-⟩
    · rw [List.sum_nil] at hsum
      omega
    · exact absurd (hpos rt List.mem_cons_self) (by omega)
  only := fun h => by
    injection h with h
    omega
  bounded := Nat.succ_le_succ (Nat.zero_le left)
  terminates := fun _ => Option.some_ne_none _

/-- A count moves the transfer on. -/
theorem Conforms.count {whole : Int} {offset left : Nat} {rt : Int} {rts : List Int} {t : Transfer} (hrt : 0 < rt)
    (hle : rt ≤ (left + 1 : Nat)) (h : Conforms whole rts (offset + rt.toNat) (left + 1 - rt.toNat) t) :
    Conforms whole (rt :: rts) offset (left + 1) ⟨⟨offset,left + 1⟩ :: t.calls,t.returned⟩ where
  within := fun c hc => by
    rcases List.mem_cons.mp hc with rfl | hc
    · exact ⟨le_rfl,le_rfl⟩
    · have hin := h.within c hc
      omega
  ordered := fun i c hc => by
    cases i with
    | zero => cases hc; simp
    | succ i =>
      have hord := h.ordered i c hc
      rw [List.take_succ_cons, List.sum_cons]
      omega
  stops := fun front behind r hsplit hpos hlt hr => by
    rcases front_cases hsplit with ⟨rfl,ht⟩ | ⟨front',rfl,hrest⟩
    · cases ht
      omega
    · rw [List.sum_cons] at hlt
      obtain ⟨hlen,hret⟩ := h.stops front' behind r hrest (fun x hx => hpos x (List.mem_cons_of_mem rt hx)) (by omega) hr
      exact ⟨congrArg (· + 1) hlen,hret⟩
  completes := fun front behind hsplit hpos hsum => by
    rcases front_cases hsplit with ⟨rfl,-⟩ | ⟨front',rfl,hrest⟩
    · rw [List.sum_nil] at hsum
      omega
    · rw [List.sum_cons] at hsum
      obtain ⟨hlen,hret⟩ := h.completes front' behind hrest (fun x hx => hpos x (List.mem_cons_of_mem rt hx)) (by omega)
      exact ⟨congrArg (· + 1) hlen,hret⟩
  only := fun hret => by
    obtain ⟨front,behind,hrest,hpos,hsum⟩ := h.only hret
    refine ⟨rt :: front,behind,by rw [hrest, List.cons_append],?_,?_⟩
    · intro x hx
      rcases List.mem_cons.mp hx with rfl | hx
      · exact hrt
      · exact hpos x hx
    · rw [List.sum_cons]
      omega
  bounded := by
    have hb := h.bounded
    rw [List.length_cons]
    omega
  terminates := fun hlen => h.terminates (by rw [List.length_cons] at hlen; omega)

theorem ideal_conforms {length : Nat} (results : List Int) {offset left : Nat} (hl : left ≤ length)
    (hv : Answers results (ideal length results offset left).calls) :
    Conforms length results offset left (ideal length results offset left) := by
  induction results generalizing offset left with
  | nil =>
    cases left with
    | zero => exact conforms_done length [] offset
    | succ left => exact conforms_waiting length offset left
  | cons rt rts ih =>
    cases left with
    | zero => exact conforms_done length _ offset
    | succ left =>
      rw [ideal] at hv ⊢
      by_cases hrt : rt ≤ 0
      · rw [if_pos hrt]
        exact conforms_stop hrt hl
      · rw [if_neg hrt] at hv ⊢
        obtain ⟨hhead,htail⟩ := answers_cons.mp hv
        dsimp only at hhead
        refine (ih (by omega) htail).count (by omega) (by omega)

section
variable {advance : Nat → Int → Nat} {length : Nat}

/-- Where the loop meets an error it goes on; a length that it completes beyond `int` is not what it returns. -/
theorem unclean (ha : Advances length advance) (hb : length < 2^64) (results : List Int) {offset left : Nat}
    (hl : offset + left = length) (hv : Answers results (fixSize advance length results offset left).calls)
    (hn : ¬ Clean length results left) (hfirst : left < 2^64 - 1 ∨ results.head? ≠ some (-1)) :
    ∃ front behind : List Int, (∀ x ∈ front, 0 < x) ∧
      (results = front ++ -1 :: behind ∧ front.sum < left ∧
          front.length + 1 < (fixSize advance length results offset left).calls.length ∨
        results = front ++ behind ∧ front.sum = left ∧
          (fixSize advance length results offset left).returned ≠ some (length : Int)) := by
  induction results generalizing offset left with
  | nil =>
    cases left with
    | zero => exact ⟨[],[],fun _ hx => absurd hx List.not_mem_nil,.inr ⟨rfl,rfl,fun h => hn (int_eq_iff.mp (Option.some.inj h))⟩⟩
    | succ left => exact absurd trivial hn
  | cons rt rts ih =>
    cases left with
    | zero => exact ⟨[],_,fun _ hx => absurd hx List.not_mem_nil,.inr ⟨rfl,rfl,fun h => hn (int_eq_iff.mp (Option.some.inj h))⟩⟩
    | succ left =>
      rcases head_answers hv with rfl | ⟨hnonneg,hle⟩
      · have hlt : left + 1 < 2^64 - 1 := hfirst.resolve_right fun hne => hne rfl
        refine ⟨[],rts,fun _ hx => absurd hx List.not_mem_nil,.inl ⟨rfl,?_,fixSize_error rts offset hlt⟩⟩
        rw [List.sum_nil]
        omega
      · have hrt : 0 < rt := by
          apply Classical.byContradiction
          intro hz
          exact hn ⟨hnonneg,fun hpos => absurd hpos hz⟩
        have hrest : ¬ Clean length rts (left + 1 - rt.toNat) := fun hc => hn ⟨hnonneg,fun _ => hc⟩
        rw [fixSize_count ha hb hrt hle (by omega)] at hv ⊢
        obtain ⟨front,behind,hpos,hbad⟩ := ih (by omega) (answers_cons.mp hv).2 hrest (.inl (by omega))
        refine ⟨rt :: front,behind,?_,?_⟩
        · intro x hx
          rcases List.mem_cons.mp hx with rfl | hx
          · exact hrt
          · exact hpos x hx
        · rw [List.sum_cons, List.length_cons, List.length_cons]
          rcases hbad with ⟨hsplit,hsum,hcalls⟩ | ⟨hsplit,hsum,hret⟩
          · exact .inl ⟨by rw [hsplit, List.cons_append],by omega,by omega⟩
          · exact .inr ⟨by rw [hsplit, List.cons_append],by omega,hret⟩

/-- For the largest length the wrap of `left` at an error of the first call happens to end the loop. -/
theorem fixSize_wrapped (rts : List Int) {left : Nat} (h : left + 1 = 2^64 - 1) :
    fixSize advance (left + 1) (-1 :: rts) 0 (left + 1) = ⟨[⟨0,left + 1⟩],some (-1)⟩ := by
  have hlen : sizeT (-1) = left + 1 := by
    unfold sizeT
    omega
  have hleft : sizeT ((left + 1 : Nat) - ((left + 1 : Nat) : Int)) = 0 := by
    unfold sizeT
    omega
  have hint : int (left + 1) = -1 := by
    rw [h]
    rfl
  rw [fixSize]
  simp only [hlen, hleft]
  rw [if_neg (by omega), fixSize, hint]

end

theorem Overload.advances (o : Overload) {length : Nat} (hb : length < 2^64) :
    ∃ advance, Advances length advance ∧ ∀ results, o.transfer length results = fixSize advance length results 0 length := by
  cases o with
  | read => exact ⟨addOffset,addOffset_advances hb,fun _ => rfl⟩
  | readByteArray => exact ⟨movePosition,movePosition_advances length,fun _ => rfl⟩
  | write => exact ⟨addOffset,addOffset_advances hb,fun _ => rfl⟩
  | writeByteArray => exact ⟨movePosition,movePosition_advances length,fun _ => rfl⟩

/-- Each of the four functions transfers its bytes as it should exactly if no error is returned to it
and a length that it completes is below 2^31. For the largest length an error of the first call does no harm. -/
theorem fixSize_iff (o : Overload) (length : Nat) (results : List Int) (hb : length < 2^64)
    (hv : Answers results (o.transfer length results).calls) :
    Conforms length results 0 length (o.transfer length results) ↔
      Clean length results length ∨ length = 2^64 - 1 ∧ results.head? = some (-1) := by
  obtain ⟨advance,ha,ht⟩ := o.advances hb
  rw [ht] at hv ⊢
  constructor
  · intro h
    apply Classical.byContradiction
    intro hn
    rw [not_or, not_and] at hn
    have hfirst : length < 2^64 - 1 ∨ results.head? ≠ some (-1) := by
      by_cases hl : length < 2^64 - 1
      · exact .inl hl
      · exact .inr (hn.2 (by omega))
    obtain ⟨front,behind,hpos,⟨hsplit,hsum,hcalls⟩ | ⟨hsplit,hsum,hret⟩⟩ := unclean ha hb results (by omega) hv hn.1 hfirst
    · have hstop := (h.stops front behind (-1) hsplit hpos hsum (by decide)).1
      omega
    · exact hret (h.completes front behind hsplit hpos hsum).2
  · rintro (hc | ⟨hl,hfirst⟩)
    · have heq := fixSize_clean ha hb results (Nat.zero_add length) hv hc
      rw [heq] at hv ⊢
      exact ideal_conforms results le_rfl hv
    · cases results with
      | nil => cases hfirst
      | cons rt rts =>
        cases hfirst
        cases length with
        | zero => cases hl
        | succ left =>
          rw [fixSize_wrapped rts hl]
          exact conforms_stop (by decide) le_rfl

theorem fixSize_iff_five : Overload.read.transfer 5 [3,2] = ⟨[⟨0,5⟩,⟨3,2⟩],some 5⟩ ∧
    Conforms 5 [3,2] 0 5 (Overload.read.transfer 5 [3,2]) :=
  ⟨by decide +kernel,(fixSize_iff .read 5 [3,2] (by decide) (by decide +kernel)).mpr (.inl (by decide +kernel))⟩

/-- After an error of the first call for five bytes the next call is for six, one byte in front of the buffer. -/
theorem error_goes_on : Overload.read.transfer 5 [-1,0] = ⟨[⟨0,5⟩,⟨2^64 - 1,6⟩],some 0⟩ ∧
    ¬ Conforms 5 [-1,0] 0 5 (Overload.read.transfer 5 [-1,0]) := by
  have hrun : Overload.read.transfer 5 [-1,0] = ⟨[⟨0,5⟩,⟨2^64 - 1,6⟩],some 0⟩ := by decide +kernel
  refine ⟨hrun,fun h => ?_⟩
  have hin := (h.within ⟨2^64 - 1,6⟩ (by rw [hrun]; exact List.mem_cons_of_mem _ List.mem_cons_self)).2
  dsimp only at hin
  omega

end Radixun.Common.Stream
