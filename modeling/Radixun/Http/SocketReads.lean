import Radixun.Common.StreamFixSize
import Radixun.Http.HttpMessage

/-! The reads of a `SocketStream` against what arrives on the connection, and `readFixSize` with the
bytes it stores. -/
namespace Radixun.Http
open Common.Stream

/-- What a read may meet: bytes that arrived together, none for the end of the connection, or an error. -/
inductive Arrival where
  | bytes (s : Text)
  | error
  deriving DecidableEq, Repr

/-- `MAX_RW_COUNT`, the most one call of `recv` transfers. -/
def recvMax : Nat := 0x7ffff000

/-- Nothing has arrived, -1, or the bytes read; with the arrivals left for later reads. -/
inductive ReadResult where
  | waiting
  | failed (rest : List Arrival)
  | got (s : Text) (rest : List Arrival)
  deriving DecidableEq, Repr

def read (n : Nat) : List Arrival → ReadResult
  | [] => .waiting
  | .error :: rest => .failed rest
  | .bytes s :: rest =>
    let n := min n recvMax
    if s.length ≤ n then .got s rest else .got (s.take n) (.bytes (s.drop n) :: rest)

def weight : List Arrival → Nat
  | [] => 0
  | .error :: rest => weight rest + 1
  | .bytes s :: rest => weight rest + 1 + s.length

theorem weight_failed {n : Nat} {as rest : List Arrival} (h : read n as = .failed rest) : weight rest < weight as := by
  cases as with
  | nil => simp [read] at h
  | cons a as =>
    cases a with
    | error =>
      obtain rfl : as = rest := by simpa [read] using h
      simp [weight]
    | bytes s =>
      simp only [read] at h
      split at h <;> simp at h

theorem weight_got {n : Nat} {as rest : List Arrival} {t : Text} (h : read n as = .got t rest) (ht : t ≠ []) :
    weight rest < weight as := by
  cases as with
  | nil => simp [read] at h
  | cons a as =>
    cases a with
    | error => simp [read] at h
    | bytes s =>
      simp only [read] at h
      split at h
      · obtain ⟨rfl,rfl⟩ := by simpa using h
        simp only [weight]
        omega
      · obtain ⟨rfl,rfl⟩ := by simpa using h
        have hpos : 0 < min n recvMax := by
          by_contra h0
          simp [Nat.eq_zero_of_not_pos h0] at ht
        simp only [weight, List.length_drop]
        omega

theorem read_length {n : Nat} {as rest : List Arrival} {t : Text} (h : read n as = .got t rest) : t.length ≤ min n recvMax := by
  cases as with
  | nil => simp [read] at h
  | cons a as =>
    cases a with
    | error => simp [read] at h
    | bytes s =>
      simp only [read] at h
      split at h
      · obtain ⟨rfl,rfl⟩ := by simpa using h
        omega
      · obtain ⟨rfl,rfl⟩ := by simpa using h
        rw [List.length_take]
        omega

/-- A loop around a read: how much it asks for in a state, what it comes to when the read fails or the
peer has closed, and what it does with the bytes it gets. -/
structure ReadLoop (S R : Type) where
  asked : S → Nat
  failed : S → R
  next : S → Text → S ⊕ R

/-- `stopped` with the result of the loop, or `waiting` for more in a state. -/
inductive LoopEnd (S R : Type) where
  | stopped (r : R) (rest : List Arrival)
  | waiting (s : S)

def ReadLoop.run {S R : Type} (L : ReadLoop S R) (s : S) (as : List Arrival) : LoopEnd S R :=
  match _h : read (L.asked s) as with
  | .waiting => .waiting s
  | .failed rest => .stopped (L.failed s) rest
  | .got t rest =>
    if _ht : t = [] then .stopped (L.failed s) rest
    else match L.next s t with
    | .inl s => L.run s rest
    | .inr r => .stopped r rest
termination_by weight as
decreasing_by exact weight_got _h _ht

namespace ReadLoop
variable {S R : Type} {L : ReadLoop S R} {s s' : S} {r : R} {t : Text} {as rest : List Arrival}

theorem run_waiting (h : read (L.asked s) as = .waiting) : L.run s as = .waiting s := by
  rw [run]
  split <;> simp_all

theorem run_closed (h : read (L.asked s) as = .got [] rest) : L.run s as = .stopped (L.failed s) rest := by
  rw [run]
  split <;> simp_all

theorem run_go (h : read (L.asked s) as = .got t rest) (ht : t ≠ []) (hn : L.next s t = .inl s') :
    L.run s as = L.run s' rest := by
  rw [run]
  split
  · simp_all
  · simp_all
  · rename_i t' rest' h'
    obtain ⟨rfl,rfl⟩ : t = t' ∧ rest = rest' := by simpa [h] using h'
    rw [dif_neg ht, hn]

theorem run_stop (h : read (L.asked s) as = .got t rest) (ht : t ≠ []) (hn : L.next s t = .inr r) :
    L.run s as = .stopped r rest := by
  rw [run]
  split
  · simp_all
  · simp_all
  · rename_i t' rest' h'
    obtain ⟨rfl,rfl⟩ : t = t' ∧ rest = rest' := by simpa [h] using h'
    rw [dif_neg ht, hn]

theorem run_failed (h : read (L.asked s) as = .failed rest) : L.run s as = .stopped (L.failed s) rest := by
  rw [run]
  split <;> simp_all

/-- What every turn keeps holds of the result, and one way to leave the loop is through a turn. -/
theorem run_keeps {I : S → Prop} {Q : R → Prop} (hfailed : ∀ s, I s → Q (L.failed s))
    (hgo : ∀ s t s', I s → L.next s t = .inl s' → I s') (hstop : ∀ s t r, I s → L.next s t = .inr r → Q r)
    (hs : I s) (h : L.run s as = .stopped r rest) : Q r := by
  induction hw : weight as using Nat.strong_induction_on generalizing as s with
  | _ w ih =>
    subst hw
    cases hread : read (L.asked s) as with
    | waiting =>
      rw [run_waiting hread] at h
      exact absurd h nofun
    | failed rest' =>
      rw [run_failed hread] at h
      obtain ⟨rfl,-⟩ := LoopEnd.stopped.inj h
      exact hfailed s hs
    | got t rest' =>
      by_cases ht : t = []
      · rw [run_closed (ht ▸ hread)] at h
        obtain ⟨rfl,-⟩ := LoopEnd.stopped.inj h
        exact hfailed s hs
      · cases hnext : L.next s t with
        | inl s' =>
          rw [run_go hread ht hnext] at h
          exact ih _ (weight_got hread ht) (hgo s t s' hs hnext) h rfl
        | inr r' =>
          rw [run_stop hread ht hnext] at h
          obtain ⟨rfl,-⟩ := LoopEnd.stopped.inj h
          exact hstop s t r' hs hnext

end ReadLoop

/-- What `readFixSize` has stored when it returns, or when it waits for more; `overrun` when it stored
outside of the memory of its caller. -/
structure FixRead where
  body : Text
  returned : Option Int
  overrun : Bool
  rest : List Arrival
  deriving DecidableEq, Repr

/-- Stores `t` at `pos` over the first bytes of a memory. -/
def store (body : Text) (pos : Nat) (t : Text) : Text := body.take pos ++ t ++ body.drop (pos + t.length)

/-- The loop of `readFixSize` into the memory behind `base`, the bytes stored so far being `body`. A
result of -1 becomes the largest `size_t`. -/
def readFixSize (base length offset left : Nat) (body : Text) (as : List Arrival) : FixRead :=
  if left = 0 then ⟨body,some (int length),false,as⟩
  else
    match _h : read left as with
    | .waiting => ⟨body,none,false,as⟩
    | .failed rest => readFixSize base length (addOffset offset (-1)) (sizeT ((left : Int) - sizeT (-1))) body rest
    | .got t rest =>
      if _ht : t = [] then ⟨body,some 0,false,rest⟩
      else
        let pos := sizeT ((base : Int) + offset)
        if base + length < pos + t.length then ⟨body,none,true,rest⟩
        else readFixSize base length (addOffset offset t.length) (sizeT ((left : Int) - sizeT t.length)) (store body pos t) rest
termination_by weight as
decreasing_by
  · exact weight_failed _h
  · exact weight_got _h _ht

/-- The results of the reads in it. -/
def readResults (left : Nat) (as : List Arrival) : List Int :=
  if left = 0 then []
  else
    match _h : read left as with
    | .waiting => []
    | .failed rest => -1 :: readResults (sizeT ((left : Int) - sizeT (-1))) rest
    | .got t rest =>
      if _ht : t = [] then [0] else (t.length : Int) :: readResults (sizeT ((left : Int) - sizeT t.length)) rest
termination_by weight as
decreasing_by
  · exact weight_failed _h
  · exact weight_got _h _ht

section
variable {base length offset left : Nat} {body t : Text} {as rest : List Arrival}

theorem readFixSize_zero : readFixSize base length offset 0 body as = ⟨body,some (int length),false,as⟩ := by
  rw [readFixSize, if_pos rfl]

theorem readFixSize_waiting (hl : left ≠ 0) (h : read left as = .waiting) :
    readFixSize base length offset left body as = ⟨body,none,false,as⟩ := by
  rw [readFixSize, if_neg hl]
  split <;> simp_all

theorem readFixSize_failed (hl : left ≠ 0) (h : read left as = .failed rest) :
    readFixSize base length offset left body as =
      readFixSize base length (addOffset offset (-1)) (sizeT ((left : Int) - sizeT (-1))) body rest := by
  rw [readFixSize, if_neg hl]
  split
  · simp_all
  · rename_i rest' h'
    obtain rfl : rest = rest' := by simpa [h] using h'
    rfl
  · simp_all

theorem readFixSize_closed (hl : left ≠ 0) (h : read left as = .got [] rest) :
    readFixSize base length offset left body as = ⟨body,some 0,false,rest⟩ := by
  rw [readFixSize, if_neg hl]
  split <;> simp_all

theorem readFixSize_got (hl : left ≠ 0) (h : read left as = .got t rest) (ht : t ≠ []) :
    readFixSize base length offset left body as =
      if base + length < sizeT ((base : Int) + offset) + t.length then ⟨body,none,true,rest⟩
      else readFixSize base length (addOffset offset t.length) (sizeT ((left : Int) - sizeT t.length))
        (store body (sizeT ((base : Int) + offset)) t) rest := by
  rw [readFixSize, if_neg hl]
  split
  · simp_all
  · simp_all
  · rename_i t' rest' h'
    obtain ⟨rfl,rfl⟩ : t = t' ∧ rest = rest' := by simpa [h] using h'
    rw [dif_neg ht]

theorem readResults_waiting (h : read left as = .waiting) : readResults left as = [] := by
  rw [readResults]
  split
  · rfl
  · split <;> simp_all

theorem readResults_failed (hl : left ≠ 0) (h : read left as = .failed rest) :
    readResults left as = -1 :: readResults (sizeT ((left : Int) - sizeT (-1))) rest := by
  rw [readResults, if_neg hl]
  split
  · simp_all
  · rename_i rest' h'
    obtain rfl : rest = rest' := by simpa [h] using h'
    rfl
  · simp_all

theorem readResults_closed (hl : left ≠ 0) (h : read left as = .got [] rest) : readResults left as = [0] := by
  rw [readResults, if_neg hl]
  split <;> simp_all

theorem readResults_got (hl : left ≠ 0) (h : read left as = .got t rest) (ht : t ≠ []) :
    readResults left as = (t.length : Int) :: readResults (sizeT ((left : Int) - sizeT t.length)) rest := by
  rw [readResults, if_neg hl]
  split
  · simp_all
  · simp_all
  · rename_i t' rest' h'
    obtain ⟨rfl,rfl⟩ : t = t' ∧ rest = rest' := by simpa [h] using h'
    rw [dif_neg ht]

end

private theorem fixSize_returned {length left offset n : Nat} {rt : Int} {rts : List Int} (hn : sizeT rt = n) (h : n ≠ 0) :
    (fixSize addOffset length (rt :: rts) offset (left + 1)).returned =
      (fixSize addOffset length rts (addOffset offset rt) (sizeT (((left + 1 : Nat) : Int) - n))).returned := by
  rw [fixSize, hn, if_neg (by omega)]

/-- The loop returns what `Stream::readFixSize` returns on the results of its reads. -/
theorem readFixSize_returned {base length offset left : Nat} {body : Text} {as : List Arrival}
    (h : (readFixSize base length offset left body as).overrun = false) :
    (readFixSize base length offset left body as).returned =
      (fixSize addOffset length (readResults left as) offset left).returned := by
  induction hw : weight as using Nat.strong_induction_on generalizing as offset left body with
  | _ w ih =>
    subst hw
    cases left with
    | zero =>
      rw [readFixSize, if_pos rfl]
      cases readResults 0 as <;> rfl
    | succ left =>
      have hl : left + 1 ≠ 0 := Nat.succ_ne_zero _
      cases hread : read (left + 1) as with
      | waiting =>
        rw [readFixSize_waiting hl hread, readResults_waiting hread]
        rfl
      | failed rest =>
        rw [readFixSize_failed hl hread] at h ⊢
        rw [readResults_failed hl hread]
        exact (ih _ (weight_failed hread) h rfl).trans (fixSize_returned rfl (by unfold sizeT; omega)).symm
      | got t rest =>
        by_cases ht : t = []
        · subst ht
          rw [readFixSize_closed hl hread, readResults_closed hl hread]
          have h0 : sizeT 0 = 0 := rfl
          rw [fixSize, h0]
          rfl
        · rw [readFixSize_got hl hread ht] at h ⊢
          rw [readResults_got hl hread ht]
          split at h
          · simp at h
          · rename_i hin
            have hle := read_length hread
            have hpos : 0 < t.length := List.length_pos_of_ne_nil ht
            have hlen : sizeT t.length = t.length := sizeT_nat (by unfold recvMax at hle; omega)
            rw [if_neg hin]
            exact (ih _ (weight_got hread ht) h rfl).trans (fixSize_returned rfl (by omega)).symm

/-- What is left of the pieces of a stream behind its first `n` bytes. -/
def dropBytes : Nat → List Text → List Text
  | _, [] => []
  | n, s :: ss => if s.length ≤ n then dropBytes (n - s.length) ss else s.drop n :: ss

/-- Pieces one read each returns whole, when it asks for enough. -/
def Pieces (segs : List Text) : Prop := ∀ s ∈ segs, s ≠ [] ∧ s.length ≤ recvMax

theorem dropBytes_zero {segs : List Text} (h : Pieces segs) : dropBytes 0 segs = segs := by
  cases segs with
  | nil => rfl
  | cons s ss =>
    have hs := (h s (List.mem_cons_self ..)).1
    rw [dropBytes, if_neg (by simpa using hs), List.drop_zero]

theorem dropBytes_dropBytes (m n : Nat) (segs : List Text) : dropBytes m (dropBytes n segs) = dropBytes (n + m) segs := by
  induction segs generalizing n with
  | nil => rfl
  | cons s ss ih =>
    rw [dropBytes]
    by_cases hn : s.length ≤ n
    · rw [if_pos hn, ih, dropBytes, if_pos (by omega), show n - s.length + m = n + m - s.length by omega]
    · rw [if_neg hn, dropBytes, dropBytes, List.length_drop, List.drop_drop]
      by_cases hm : s.length ≤ n + m
      · rw [if_pos (by omega), if_pos hm, show m - (s.length - n) = n + m - s.length by omega]
      · rw [if_neg (by omega), if_neg hm]

theorem dropBytes_flatten (n : Nat) (segs : List Text) : (dropBytes n segs).flatten = segs.flatten.drop n := by
  induction segs generalizing n with
  | nil => simp [dropBytes]
  | cons s ss ih =>
    rw [dropBytes, List.flatten_cons]
    split
    · rename_i hn
      rw [ih, List.drop_append, List.drop_eq_nil_of_le hn, List.nil_append]
    · rename_i hn
      rw [List.flatten_cons, List.drop_append_of_le_length (by omega)]

theorem dropBytes_short {k : Nat} (n : Nat) {segs : List Text} (h : ∀ s ∈ segs, s ≠ [] ∧ s.length ≤ k) :
    ∀ s ∈ dropBytes n segs, s ≠ [] ∧ s.length ≤ k := by
  induction segs generalizing n with
  | nil => exact nofun
  | cons s ss ih =>
    obtain ⟨hs,hss⟩ := List.forall_mem_cons.mp h
    rw [dropBytes]
    split
    · exact ih _ hss
    · rename_i hn
      refine List.forall_mem_cons.mpr ⟨⟨fun hnil => hn (List.drop_eq_nil_iff.mp hnil),?_⟩,hss⟩
      rw [List.length_drop]
      omega

theorem read_piece {n : Nat} {s : Text} (h : s.length ≤ recvMax) (rest : List Arrival) :
    read n (.bytes s :: rest) = .got (s.take n) (if s.length ≤ n then rest else .bytes (s.drop n) :: rest) := by
  simp only [read]
  by_cases hn : s.length ≤ n
  · rw [if_pos (by omega), if_pos hn, List.take_of_length_le hn]
  · rw [if_neg (by omega), if_neg hn, show min n recvMax = n by omega]

theorem read_whole {n : Nat} {s : Text} {rest : List Arrival} (h : s.length ≤ min n recvMax) :
    read n (.bytes s :: rest) = .got s rest := by
  rw [read_piece (by omega), List.take_of_length_le (by omega), if_pos (by omega)]

/-- A read takes some bytes off the front of the stream. -/
theorem read_front {n : Nat} {segs : List Text} (h : Pieces segs) (hn : 0 < n) (hne : segs ≠ []) :
    ∃ t, read n (segs.map .bytes) = .got t ((dropBytes t.length segs).map .bytes) ∧ 0 < t.length ∧ t.length ≤ n ∧
      t = segs.flatten.take t.length := by
  obtain ⟨s,ss,rfl⟩ := List.exists_cons_of_ne_nil hne
  obtain ⟨⟨hs,hlen⟩,hss⟩ := List.forall_mem_cons.mp h
  have hpos : 0 < s.length := List.length_pos_of_ne_nil hs
  refine ⟨s.take n,?_,by rw [List.length_take]; omega,List.length_take_le ..,?_⟩
  · rw [List.map_cons, read_piece hlen, List.length_take, dropBytes]
    by_cases hfit : s.length ≤ n
    · rw [if_pos hfit, if_pos (by omega), Nat.min_eq_right hfit, Nat.sub_self, dropBytes_zero hss]
    · rw [if_neg hfit, if_neg (by omega), Nat.min_eq_left (by omega)]
      rfl
  · rw [List.flatten_cons, List.take_append_of_le_length (List.length_take_le' ..), List.length_take, List.take_eq_take_min]

/-- The loop takes the bytes it was asked for off the front of the stream, or all there are. -/
theorem readFixSize_pieces {base length offset left : Nat} {body : Text} {segs : List Text} (h : Pieces segs)
    (hbody : body.length = base + offset) (hsum : offset + left = length) (hsmall : base + length < 2^63) :
    readFixSize base length offset left body (segs.map .bytes) =
      if left ≤ segs.flatten.length then
        ⟨body ++ segs.flatten.take left,some (int length),false,(dropBytes left segs).map .bytes⟩
      else ⟨body ++ segs.flatten,none,false,[]⟩ := by
  induction segs generalizing offset left body with
  | nil =>
    rcases Nat.eq_zero_or_pos left with rfl | hpos
    · rw [readFixSize_zero]
      simp [dropBytes]
    · rw [List.map_nil, readFixSize_waiting (by omega) rfl, if_neg (by simp; omega)]
      simp
  | cons s ss ih =>
    rcases Nat.eq_zero_or_pos left with rfl | hpos
    · rw [readFixSize_zero, if_pos (Nat.zero_le _), dropBytes_zero h]
      simp
    obtain ⟨hs,hslen⟩ := h s (List.mem_cons_self ..)
    have hss : Pieces ss := fun x hx => h x (List.mem_cons_of_mem _ hx)
    have hspos : 0 < s.length := List.length_pos_of_ne_nil hs
    have hpos' : sizeT ((base : Int) + offset) = base + offset := sizeT_nat (n := base + offset) (by omega)
    unfold recvMax at hslen
    by_cases hfit : s.length ≤ left
    · have hread : read left ((s :: ss).map .bytes) = .got s (ss.map .bytes) := by
        simp only [List.map_cons, read]
        rw [if_pos (by unfold recvMax; omega)]
      have hlen : sizeT s.length = s.length := sizeT_nat (by omega)
      have hoff : addOffset offset s.length = offset + s.length := by
        rw [addOffset, hlen]
        exact sizeT_nat (n := offset + s.length) (by omega)
      have hleft : sizeT ((left : Int) - sizeT s.length) = left - s.length := by
        rw [hlen, show (left : Int) - s.length = ((left - s.length : Nat) : Int) by omega]
        exact sizeT_nat (by omega)
      have hstore : store body (base + offset) s = body ++ s := by
        rw [store, ← hbody, List.take_length, List.drop_eq_nil_of_le (by omega), List.append_nil]
      rw [readFixSize_got (by omega) hread hs, hpos', if_neg (by omega), hoff, hleft, hstore,
        ih hss (by rw [List.length_append]; omega) (by omega)]
      simp only [List.flatten_cons, List.length_append]
      by_cases hall : left ≤ s.length + ss.flatten.length
      · rw [if_pos (by omega), if_pos hall, dropBytes, if_pos hfit, List.take_append, List.take_of_length_le hfit,
          List.append_assoc]
      · rw [if_neg (by omega), if_neg hall, List.append_assoc]
    · -- the piece holds all the bytes that are missing
      have hread : read left ((s :: ss).map .bytes) = .got (s.take left) (.bytes (s.drop left) :: ss.map .bytes) := by
        have hmin : min left recvMax = left := by unfold recvMax; omega
        simp only [List.map_cons, read, hmin]
        rw [if_neg hfit]
      have htake : (s.take left).length = left := by rw [List.length_take]; omega
      have hne : s.take left ≠ [] := fun hnil => by simp [hnil] at htake; omega
      have hleft : sizeT ((left : Int) - sizeT left) = 0 := by
        rw [sizeT_nat (by omega), Int.sub_self]
        rfl
      have hstore : store body (base + offset) (s.take left) = body ++ s.take left := by
        rw [store, ← hbody, List.take_length, List.drop_eq_nil_of_le (by omega), List.append_nil]
      rw [readFixSize_got (by omega) hread hne, hpos', htake, if_neg (by omega), hleft, hstore, readFixSize_zero,
        if_pos (by rw [List.flatten_cons, List.length_append]; omega), dropBytes, if_neg hfit, List.flatten_cons,
        List.take_append_of_le_length (by omega)]
      rfl

end Radixun.Http
