import Radixun.Http.HttpMessage

/-! Percent coding: `Query::Encode` and `Query::Decode`, and what both make of a text. -/
namespace Radixun.Http.Query
open Radixun.Foundation CString

/-- `HEX_2_NUM_MAP()`. -/
def hexDigits : Text := text "0123456789ABCDEF"

/-- `ASCII_EXCEPTION()`. -/
def asciiException : Text := text "\"%<>[\\]^_`\x7b|\x7d"

/-- The place of a character among the digits, 16 for any other one, twice, cut to a byte. -/
def num2Hex (h l : UInt8) : UInt8 := UInt8.ofNat ((hexDigits.idxOf h <<< 4) + hexDigits.idxOf l)

/-- Whether a byte is escaped: the shift brings its sign, or it is an exception. -/
def isEscaped (b : UInt8) : Bool := (b >>> 7) &&& 1 ≠ 0 || asciiException.count b ≠ 0

def highDigit (b : UInt8) : UInt8 := hexDigits.getD ((b >>> 4) &&& 0x0F).toNat 0
def lowDigit (b : UInt8) : UInt8 := hexDigits.getD (b &&& 0x0F).toNat 0

def encode : Text → Text
  | [] => []
  | b :: url => if isEscaped b then 37 :: highDigit b :: lowDigit b :: encode url else b :: encode url

/-- How `Decode` ends: with a text or with `std::invalid_argument`, and whether it has read `*url.end()`. -/
structure Decoded where
  result : Option Text
  pastEnd : Bool
  deriving DecidableEq, Repr

/-- The loop, the iterator being what is left of the text. -/
def decodeLoop (ret : Text) : Text → Decoded
  | [] => ⟨some ret,false⟩
  | b :: url =>
    if b = 37 then
      match url with
      | [] => ⟨none,false⟩
      | [_] => ⟨none,true⟩ -- the second digit is read before the second check
      | h :: l :: url => decodeLoop (ret ++ [num2Hex h l]) url
    else decodeLoop (ret ++ [b]) url

def decode (url : Text) : Decoded := decodeLoop [] url

/-- A byte of a text, or an escape in it. -/
inductive Piece where
  | byte (b : UInt8)
  | escape (h l : UInt8)
  deriving DecidableEq, Repr

/-- What is left at the end: nothing, a lone `%`, or one with a single byte behind it. -/
inductive Ending where
  | complete
  | percent
  | percentAnd (h : UInt8)
  deriving DecidableEq, Repr

def Piece.bytes : Piece → Text
  | .byte b => [b]
  | .escape h l => [37,h,l]

def Ending.bytes : Ending → Text
  | .complete => []
  | .percent => [37]
  | .percentAnd h => [37,h]

/-- A text cut up from the left, a `%` taking two bytes with it. -/
structure Scan where
  pieces : List Piece
  ending : Ending
  deriving DecidableEq, Repr

def Scan.cons (p : Piece) (s : Scan) : Scan := ⟨p :: s.pieces,s.ending⟩

def scan : Text → Scan
  | [] => ⟨[],.complete⟩
  | b :: url =>
    if b = 37 then
      match url with
      | [] => ⟨[],.percent⟩
      | [h] => ⟨[],.percentAnd h⟩
      | h :: l :: url => (scan url).cons (.escape h l)
    else (scan url).cons (.byte b)

/-- Every `%` is followed by two hexadecimal digits in either case. -/
def WellFormed (s : Text) : Prop :=
  ∀ rest, 37 :: rest <:+ s →
    ∃ h l after, rest = h :: l :: after ∧ (digitValue 16 h).isSome = true ∧ (digitValue 16 l).isSome = true

/-- The byte two hexadecimal digits denote. -/
def denotedByte (h l : UInt8) : UInt8 := UInt8.ofNat ((digitValue 16 h).getD 0 * 16 + (digitValue 16 l).getD 0)

def Piece.denoted : Piece → UInt8
  | .byte b => b
  | .escape h l => denotedByte h l

/-- The text with its escapes replaced by the bytes they denote. -/
def denoted (s : Text) : Text := (scan s).pieces.map Piece.denoted ++ (scan s).ending.bytes

/-- `Decode` accepts the well-formed texts, with the text they denote, throws otherwise, and stays inside. -/
structure DecodesExactly (s : Text) : Prop where
  inside : (decode s).pastEnd = false
  accepts : (decode s).result.isSome = true ↔ WellFormed s
  value : ∀ t, (decode s).result = some t → t = denoted s

/-- Digits of `HEX_2_NUM_MAP()` only. -/
def Piece.Upper : Piece → Prop
  | .byte _ => True
  | .escape h l => h ∈ hexDigits ∧ l ∈ hexDigits

def Piece.WellFormed : Piece → Prop
  | .byte _ => True
  | .escape h l => (digitValue 16 h).isSome = true ∧ (digitValue 16 l).isSome = true

/-- What the loop appends for a piece. -/
def Piece.code : Piece → UInt8
  | .byte b => b
  | .escape h l => num2Hex h l

private def digitBytes : Text := [48,49,50,51,52,53,54,55,56,57,65,66,67,68,69,70]
private def exceptionBytes : Text := [34,37,60,62,91,92,93,94,95,96,123,124,125]

private theorem hexDigits_eq : hexDigits = digitBytes := by decide

private theorem asciiException_eq : asciiException = exceptionBytes := by decide

theorem scan_escape (h l : UInt8) (url : Text) : scan (37 :: h :: l :: url) = (scan url).cons (.escape h l) := rfl

theorem scan_byte {b : UInt8} (hb : b ≠ 37) (url : Text) : scan (b :: url) = (scan url).cons (.byte b) := by
  rw [scan.eq_def]
  exact if_neg hb

/-- How the loop ends with the text it has put together. -/
def Ending.finish (ret : Text) : Ending → Decoded
  | .complete => ⟨some ret,false⟩
  | .percent => ⟨none,false⟩
  | .percentAnd _ => ⟨none,true⟩

/-- The loop decodes piece by piece, and what is left at the end decides how it ends. -/
theorem decode_scan (ret s : Text) :
    decodeLoop ret s = (scan s).ending.finish (ret ++ (scan s).pieces.map Piece.code) := by
  induction s using scan.induct generalizing ret with
  | case1 => simp [decodeLoop, scan, Ending.finish]
  | case2 => rfl
  | case3 h => rfl
  | case4 h l url ih =>
    have hstep : decodeLoop ret (37 :: h :: l :: url) = decodeLoop (ret ++ [num2Hex h l]) url := rfl
    rw [hstep, ih, scan_escape, Scan.cons, List.map_cons, List.append_assoc]
    rfl
  | case5 b url hb ih =>
    have hstep : decodeLoop ret (b :: url) = decodeLoop (ret ++ [b]) url := by
      rw [decodeLoop.eq_def]
      exact if_neg hb
    rw [hstep, ih, scan_byte hb, Scan.cons, List.map_cons, List.append_assoc]
    rfl

theorem wellFormed_byte {b : UInt8} {s : Text} (hb : b ≠ 37) : WellFormed (b :: s) ↔ WellFormed s := by
  constructor
  · intro hw rest hin
    exact hw rest (hin.trans (List.suffix_cons b s))
  · intro hw rest hin
    rcases List.suffix_cons_iff.mp hin with heq | hin
    · cases heq
      exact absurd rfl hb
    · exact hw rest hin

theorem wellFormed_escape {h l : UInt8} {s : Text} :
    WellFormed (37 :: h :: l :: s) ↔ (Piece.escape h l).WellFormed ∧ WellFormed s := by
  have hnot : (digitValue 16 37).isSome = false := by decide
  have hne : ∀ {d : UInt8}, (digitValue 16 d).isSome = true → d ≠ 37 := by
    rintro d hd rfl
    rw [hnot] at hd
    cases hd
  constructor
  · intro hw
    obtain ⟨h',l',after,heq,hh,hl⟩ := hw (h :: l :: s) List.suffix_rfl
    cases heq
    refine ⟨⟨hh,hl⟩,fun rest hin => ?_⟩
    exact hw rest (hin.trans ⟨[37,h,l],rfl⟩)
  · rintro ⟨⟨hh,hl⟩,hw⟩ rest hin
    rcases List.suffix_cons_iff.mp hin with heq | hin
    · cases heq
      exact ⟨h,l,s,rfl,hh,hl⟩
    · have hdigits : WellFormed (h :: l :: s) := (wellFormed_byte (hne hh)).mpr ((wellFormed_byte (hne hl)).mpr hw)
      exact hdigits rest hin

/-- Less than two bytes behind a `%`. -/
theorem not_wellFormed_short {s : Text} (hs : s.length < 2) : ¬WellFormed (37 :: s) := by
  intro hw
  obtain ⟨h,l,after,rfl,_⟩ := hw s List.suffix_rfl
  simp only [List.length_cons] at hs
  omega

/-- A text is well formed if its escapes are and nothing is left at the end. -/
theorem wellFormed_scan (s : Text) :
    WellFormed s ↔ (∀ p ∈ (scan s).pieces, p.WellFormed) ∧ (scan s).ending = .complete := by
  induction s using scan.induct with
  | case1 => simp [WellFormed, scan]
  | case2 => exact iff_of_false (not_wellFormed_short (by decide)) fun h => by cases h.2
  | case3 h => exact iff_of_false (not_wellFormed_short (Nat.lt_succ_self 1)) fun h => by cases h.2
  | case4 h l url ih =>
    have hrest : WellFormed url ↔ _ := ih
    rw [scan_escape, Scan.cons, List.forall_mem_cons, and_assoc, ← hrest]
    exact wellFormed_escape
  | case5 b url hb ih =>
    have hrest : WellFormed url ↔ _ := ih
    rw [scan_byte hb, Scan.cons, List.forall_mem_cons, and_assoc, ← hrest, wellFormed_byte hb]
    exact (and_iff_right trivial).symm

/-- The place among the digits: the value of an upper-case digit, and 16 otherwise. -/
private theorem place_of_digit (b : UInt8) :
    (b ∈ hexDigits → digitValue 16 b = some (hexDigits.idxOf b) ∧ hexDigits.idxOf b < 16) ∧
      (b ∉ hexDigits → hexDigits.idxOf b = 16 ∧ ∀ v ∈ digitValue 16 b, 10 ≤ v ∧ v < 16) := by
  rw [hexDigits_eq]
  have hdigits : ∀ d ∈ digitBytes, digitValue 16 d = some (digitBytes.idxOf d) := by decide +kernel
  have hvalues : ∀ d : UInt8, (digitValue 16 d).all (fun v => v < 16 && (10 ≤ v || digitBytes.contains d)) = true :=
    forall_byte (by decide +kernel)
  constructor
  · intro hmem
    exact ⟨hdigits b hmem,List.idxOf_lt_length_of_mem hmem⟩
  · intro hmem
    refine ⟨List.idxOf_of_notMem hmem,?_⟩
    intro v hv
    have hvalue := hvalues b
    rw [Option.mem_def.mp hv] at hvalue
    simpa [hmem, and_comm] using hvalue

private theorem byte_eq_iff (m n : Nat) : UInt8.ofNat m = UInt8.ofNat n ↔ m % 256 = n % 256 := by
  rw [← UInt8.toNat_inj, UInt8.toNat_ofNat', UInt8.toNat_ofNat']

/-- An escape is decoded right if both are digits of the map: a lower-case digit is taken for 16. -/
theorem code_iff (p : Piece) : p.WellFormed ∧ p.code = p.denoted ↔ p.Upper := by
  cases p with
  | byte b => simp [Piece.WellFormed, Piece.code, Piece.denoted, Piece.Upper]
  | escape h l =>
    simp only [Piece.WellFormed, Piece.code, Piece.denoted, Piece.Upper, num2Hex, denotedByte, byte_eq_iff, Nat.shiftLeft_eq]
    obtain ⟨hupper,hother⟩ := place_of_digit h
    obtain ⟨lupper,lother⟩ := place_of_digit l
    constructor
    · rintro ⟨⟨hh,hl⟩,hcode⟩
      obtain ⟨v,hv⟩ := Option.isSome_iff_exists.mp hh
      obtain ⟨w,hw⟩ := Option.isSome_iff_exists.mp hl
      rw [hv, hw, Option.getD_some, Option.getD_some] at hcode
      by_cases hmem : h ∈ hexDigits
      · by_cases lmem : l ∈ hexDigits
        · exact ⟨hmem,lmem⟩
        · obtain ⟨hval,hlt⟩ := hupper hmem
          obtain ⟨hplace,hrange⟩ := lother lmem
          have := hrange w hw
          rw [hv, Option.some.injEq] at hval
          omega
      · obtain ⟨hplace,hrange⟩ := hother hmem
        have := hrange v hv
        by_cases lmem : l ∈ hexDigits
        · obtain ⟨lval,hlt⟩ := lupper lmem
          rw [hw, Option.some.injEq] at lval
          omega
        · obtain ⟨lplace,lrange⟩ := lother lmem
          have := lrange w hw
          omega
    · rintro ⟨hmem,lmem⟩
      obtain ⟨hval,_⟩ := hupper hmem
      obtain ⟨lval,_⟩ := lupper lmem
      rw [hval, lval]
      exact ⟨⟨rfl,rfl⟩,rfl⟩

/-- `Decode` does what it should exactly if every escape from the left has two upper-case digits, or if the
text ends in a lone `%`, where it throws. -/
theorem decodes_exactly_iff (s : Text) : DecodesExactly s ↔
    (∀ p ∈ (scan s).pieces, p.Upper) ∧ (scan s).ending = .complete ∨ (scan s).ending = .percent := by
  have hdecode : decode s = (scan s).ending.finish ((scan s).pieces.map Piece.code) := decode_scan [] s
  have hwell := wellFormed_scan s
  cases hend : (scan s).ending with
  | complete =>
    rw [hend] at hdecode hwell
    simp only [and_true] at hwell
    have hdenoted : denoted s = (scan s).pieces.map Piece.denoted := by
      rw [denoted, hend]
      exact List.append_nil _
    have hupper : (∀ p ∈ (scan s).pieces, p.Upper) ↔
        (∀ p ∈ (scan s).pieces, p.WellFormed) ∧ (scan s).pieces.map Piece.code = (scan s).pieces.map Piece.denoted := by
      rw [List.map_inj_left, ← forall₂_and]
      exact forall₂_congr fun p _ => (code_iff p).symm
    simp only [and_true, reduceCtorEq, or_false]
    rw [hupper, ← hwell, ← hdenoted]
    constructor
    · intro h
      exact ⟨h.accepts.mp (by rw [hdecode]; rfl),h.value _ (by rw [hdecode]; rfl)⟩
    · rintro ⟨hw,hvalue⟩
      refine ⟨by rw [hdecode]; rfl,⟨fun _ => hw,fun _ => by rw [hdecode]; rfl⟩,?_⟩
      intro t ht
      rw [hdecode] at ht
      exact (Option.some.inj ht).symm.trans hvalue
  | percent =>
    rw [hend] at hdecode hwell
    refine iff_of_true ⟨by rw [hdecode]; rfl,?_,?_⟩ (.inr rfl)
    · rw [hdecode, hwell]
      simp [Ending.finish]
    · intro t ht
      rw [hdecode] at ht
      cases ht
  | percentAnd h =>
    rw [hend] at hdecode
    refine iff_of_false ?_ ?_
    · intro hd
      have hinside := hd.inside
      rw [hdecode] at hinside
      cases hinside
    · rintro (⟨_,heq⟩ | heq) <;> cases heq

/-- A lower-case escape comes out as another byte, one that is no escape is accepted, and behind one cut off
the end is read. -/
theorem escapes_misread : ¬DecodesExactly (text "%ab") ∧ ¬DecodesExactly (text "%zz") ∧ ¬DecodesExactly (text "%4") := by
  refine ⟨?_,?_,?_⟩
  · intro h
    exact absurd (h.value [16] (by decide)) (by decide)
  · intro h
    obtain ⟨_,_,_,heq,hz,_⟩ := h.accepts.mp (by decide) (text "zz") List.suffix_rfl
    cases heq
    exact absurd hz (by decide)
  · intro h
    exact absurd h.inside (by decide)

/-- What `Encode` writes for a byte. -/
def encodePiece (b : UInt8) : Piece := if isEscaped b then .escape (highDigit b) (lowDigit b) else .byte b

theorem plain_byte (b : UInt8) (h : isEscaped b = false) : b.toNat ≤ 0x7F ∧ b ∉ asciiException := by
  have hsign : ∀ b : UInt8, (b >>> 7) &&& 1 = 0 → b.toNat ≤ 0x7F := forall_byte (by decide +kernel)
  simp only [isEscaped, ne_eq, Bool.or_eq_false_iff, decide_eq_false_iff_not, not_not] at h
  exact ⟨hsign b h.1,List.count_eq_zero.mp h.2⟩

private theorem digit_bytes (b : UInt8) :
    num2Hex (highDigit b) (lowDigit b) = b ∧ highDigit b ∈ hexDigits ∧ lowDigit b ∈ hexDigits := by
  have hdigit : ∀ i, i < 16 → digitBytes.getD i 0 ∈ digitBytes ∧ digitBytes.idxOf (digitBytes.getD i 0) = i := by decide +kernel
  have hhalves : ∀ b : UInt8, ((b >>> 4) &&& 0x0F).toNat = b.toNat / 16 ∧ (b &&& 0x0F).toNat = b.toNat % 16 :=
    forall_byte (by decide +kernel)
  obtain ⟨hhigh,hlow⟩ := hhalves b
  have hlt := b.toNat_lt
  obtain ⟨hmem,hplace⟩ := hdigit (b.toNat / 16) (by omega)
  obtain ⟨hmem',hplace'⟩ := hdigit (b.toNat % 16) (by omega)
  rw [num2Hex, highDigit, lowDigit, hexDigits_eq, hhigh, hlow, hplace, hplace']
  refine ⟨?_,hmem,hmem'⟩
  rw [Nat.shiftLeft_eq, show b.toNat / 16 * 2 ^ 4 + b.toNat % 16 = b.toNat by omega, UInt8.ofNat_toNat]

private theorem digits_plain : ∀ d ∈ hexDigits, d.toNat ≤ 0x7F ∧ d ∉ asciiException := by
  rw [hexDigits_eq, asciiException_eq]
  decide +kernel

theorem encode_cons (b : UInt8) (s : Text) : encode (b :: s) = (encodePiece b).bytes ++ encode s := by
  rw [encode, encodePiece]
  split <;> rfl

theorem scan_encode (s : Text) : scan (encode s) = ⟨s.map encodePiece,.complete⟩ := by
  induction s with
  | nil => rfl
  | cons b s ih =>
    rw [encode, List.map_cons, encodePiece]
    cases hb : isEscaped b with
    | true =>
      rw [if_pos rfl, if_pos rfl, scan_escape, ih]
      rfl
    | false =>
      have hpercent : b ≠ 37 := by
        rintro rfl
        exact (plain_byte 37 hb).2 (by decide)
      rw [if_neg Bool.false_ne_true, if_neg Bool.false_ne_true, scan_byte hpercent, ih]
      rfl

theorem encodePiece_code (b : UInt8) : (encodePiece b).code = b := by
  rw [encodePiece]
  split
  · exact (digit_bytes b).1
  · rfl

/-- Encoding makes ASCII without the exceptions but for the `%`, and decoding undoes it. -/
theorem decode_encode (s : Text) : decode (encode s) = ⟨some s,false⟩ ∧
    ∀ b ∈ encode s, b.toNat ≤ 0x7F ∧ (b ∈ asciiException → b = 37) := by
  constructor
  · have hcodes : (s.map encodePiece).map Piece.code = s := by
      rw [List.map_map]
      exact List.map_id'' encodePiece_code s
    rw [decode, decode_scan, scan_encode, hcodes]
    rfl
  · induction s with
    | nil => intro b hb; cases hb
    | cons c s ih =>
      intro b hb
      rw [encode_cons, encodePiece] at hb
      rcases List.mem_append.mp hb with hb | hb
      · split at hb
        · rcases List.mem_cons.mp hb with rfl | hb
          · exact ⟨by decide,fun _ => rfl⟩
          · have hdigit : b ∈ hexDigits := by
              obtain rfl | hb := List.mem_cons.mp hb
              · exact (digit_bytes c).2.1
              · rw [List.mem_singleton.mp hb]
                exact (digit_bytes c).2.2
            obtain ⟨hascii,hplain⟩ := digits_plain b hdigit
            exact ⟨hascii,fun hexc => absurd hexc hplain⟩
        · rename_i hc
          rw [List.mem_singleton.mp hb]
          obtain ⟨hascii,hplain⟩ := plain_byte c (by simpa using hc)
          exact ⟨hascii,fun hexc => absurd hexc hplain⟩
      · exact ih b hb

end Radixun.Http.Query
