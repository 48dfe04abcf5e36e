import Radixun.Foundation.TextFrame
import Radixun.Net.SocketAddresses

/-! `Address::Lookup`: what `getaddrinfo` is asked for, and the addresses made of its answer. -/
namespace Radixun.Net
open Radixun.Foundation CString TextFrame

/-- A string without a zero byte. -/
structure HostString where
  bytes : List UInt8
  nonzero : 0 ∉ bytes
  deriving DecidableEq

/-- The node, and the service as a place in the host. -/
structure HostParts where
  node : List UInt8
  service : Option Nat
  deriving DecidableEq, Repr

/-- The two strings that `getaddrinfo` reads. -/
structure NodeService where
  node : List UInt8
  service : Option (List UInt8)
  deriving DecidableEq, Repr

/-- `[address]:80` -/
def ipv6Stage (host : List UInt8) : HostParts :=
  if host ≠ [] ∧ host.head? = some 91 then
    match memchr host 1 93 (host.length - 1) with
    | some endipv6 =>
      ⟨(host.drop 1).take (endipv6 - 1),if host[endipv6 + 1]? = some 58 then some (endipv6 + 2) else none⟩
    | none => ⟨[],none⟩
  else ⟨[],none⟩

/-- `address:80` -/
def addressStage (host : List UInt8) (p : HostParts) : HostParts :=
  if p.node = [] then
    match memchr host 0 58 host.length with
    | some service =>
      match memchr host (service + 1) 58 (host.length - service - 1) with
      | none => ⟨host.take service,some (service + 1)⟩
      | some _ => { p with service := some service }
    | none => { p with service := none }
  else p

def hostStage (host : List UInt8) (p : HostParts) : HostParts := if p.node = [] then { p with node := host } else p

/-- What `Lookup` passes to `getaddrinfo`, where each string ends at its first zero byte. -/
def nodeService (host : List UInt8) : NodeService :=
  let p := hostStage host (addressStage host (ipv6Stage host))
  ⟨cstr p.node,p.service.map fun place => cstr (host.drop place)⟩

structure Hints where
  flags : Int
  family : Int
  socktype : Int
  protocol : Int
  deriving DecidableEq, Repr

/-- `Create` goes by the family that the first two bytes give. -/
def create (addr : Sockaddr) : Address :=
  let family : Int := (addr.getD 0 0).toNat + 256 * (addr.getD 1 0).toNat
  if family = afInet then ⟨.ipv4Address,addr.take 16,16⟩
  else if family = afInet6 then ⟨.ipv6Address,addr.take 28,28⟩
  else ⟨.unknownAddress,addr.take 16,16⟩

def lookup (getaddrinfo : NodeService → Hints → Except Int (List Sockaddr)) (result : List Address) (host : List UInt8)
    (family type protocol : Int) : Bool × List Address :=
  match getaddrinfo (nodeService host) ⟨0,family,type,protocol⟩ with
  | .error _ => (false,result)
  | .ok results => (true,result ++ results.map create)

/-- The text in the brackets a host begins with, and what follows them. -/
def bracketed (host : List UInt8) : Option (List UInt8 × List UInt8) :=
  if host.head? = some 91 ∧ 93 ∈ host.tail ∧ host.tail.head? ≠ some 93 then
    some (host.tail.takeWhile (· ≠ 93),(host.tail.dropWhile (· ≠ 93)).tail)
  else none

/-- Node and service as they are written: in brackets, on both sides of the only colon, or no service. -/
def splitHost (host : List UInt8) : NodeService :=
  match bracketed host with
  | some p => ⟨p.1,if p.2.head? = some 58 then some p.2.tail else none⟩
  | none =>
    if host.count 58 = 1 ∧ host.head? ≠ some 58 then
      ⟨host.takeWhile (· ≠ 58),some (host.dropWhile (· ≠ 58)).tail⟩
    else ⟨host,none⟩

/-- The hosts with brackets, without a colon, or with one colon that is not the first character. -/
def Splits (host : List UInt8) : Prop :=
  (bracketed host).isSome = true ∨ host.count 58 = 0 ∨ host.count 58 = 1 ∧ host.head? ≠ some 58

instance (host : List UInt8) : Decidable (Splits host) := inferInstanceAs (Decidable (_ ∨ _ ∨ _))

section
variable {c : UInt8} {x t : List UInt8}

theorem takeWhile_delimiter (h : c ∉ x) : (x ++ c :: t).takeWhile (· ≠ c) = x := by
  rw [List.takeWhile_append_of_pos, List.takeWhile_cons_of_neg, List.append_nil]
  · simp
  · intro b hb
    exact decide_eq_true fun hbc => h (hbc ▸ hb)

theorem dropWhile_delimiter (h : c ∉ x) : (x ++ c :: t).dropWhile (· ≠ c) = c :: t := by
  rw [List.dropWhile_append_of_pos, List.dropWhile_cons_of_neg]
  · simp
  · intro b hb
    exact decide_eq_true fun hbc => h (hbc ▸ hb)

theorem idxOf_delimiter (h : c ∉ x) : (x ++ c :: t).idxOf? c = some x.length := by
  induction x with
  | nil => rw [List.nil_append, List.idxOf?_cons, if_pos (beq_self_eq_true c), List.length_nil]
  | cons b x ih =>
    have hbc : ¬(b == c) = true := fun hbc => h (eq_of_beq hbc ▸ List.mem_cons_self)
    rw [List.cons_append, List.idxOf?_cons, if_neg hbc, ih fun hx => h (List.mem_cons_of_mem b hx)]
    rfl

end

theorem memchr_eq (s : List UInt8) (start : Nat) (c : UInt8) {n : Nat} (hn : n = s.length - start) :
    memchr s start c n = ((s.drop start).idxOf? c).map (start + ·) := by
  rw [memchr, List.take_of_length_le (by rw [List.length_drop]; omega)]

section
variable {host x t : List UInt8}

theorem bracketed_text (h : 93 ∉ x) (hx : x ≠ []) : bracketed (91 :: (x ++ 93 :: t)) = some (x,t) := by
  have hhead : (x ++ 93 :: t).head? ≠ some 93 := by
    intro heq
    obtain ⟨b,x,rfl⟩ := List.exists_cons_of_ne_nil hx
    rw [List.cons_append, List.head?_cons, Option.some_inj] at heq
    exact h (heq ▸ List.mem_cons_self)
  rw [bracketed, List.tail_cons, if_pos ⟨rfl,List.mem_append_right x List.mem_cons_self,hhead⟩, takeWhile_delimiter h,
    dropWhile_delimiter h, List.tail_cons]

/-- A host that begins with a bracket which is closed, with nothing or something in between. -/
theorem bracketed_cases (host : List UInt8) :
    (∃ x t, host = 91 :: (x ++ 93 :: t) ∧ 93 ∉ x ∧ x ≠ []) ∨
    bracketed host = none ∧ (host.head? = some 91 → 93 ∈ host.tail → host.tail.head? = some 93) := by
  by_cases h : host.head? = some 91 ∧ 93 ∈ host.tail ∧ host.tail.head? ≠ some 93
  · obtain ⟨hhead,hmem,hne⟩ := h
    obtain ⟨rest,rfl⟩ := List.head?_eq_some_iff.mp hhead
    obtain ⟨x,t,heq,hx⟩ := List.eq_append_cons_of_mem hmem
    rw [List.tail_cons] at heq hne
    subst heq
    refine .inl ⟨x,t,rfl,hx,?_⟩
    rintro rfl
    exact hne rfl
  · refine .inr ⟨if_neg h,?_⟩
    intro hhead hmem
    by_contra hne
    exact h ⟨hhead,hmem,hne⟩

theorem ipv6Stage_brackets (h : 93 ∉ x) :
    ipv6Stage (91 :: (x ++ 93 :: t)) = ⟨x,if t.head? = some 58 then some (x.length + 3) else none⟩ := by
  have hplace : memchr (91 :: (x ++ 93 :: t)) 1 93 ((91 :: (x ++ 93 :: t)).length - 1) = some (1 + x.length) := by
    rw [memchr_eq _ _ _ rfl, List.drop_one, List.tail_cons, idxOf_delimiter h]
    rfl
  have hnext : (91 :: (x ++ 93 :: t))[1 + x.length + 1]? = t.head? := by
    rw [List.getElem?_cons_succ, List.getElem?_append_right (by omega), Nat.add_sub_cancel, List.getElem?_cons_succ,
      List.head?_eq_getElem?]
  have htake : ((91 :: (x ++ 93 :: t)).drop 1).take (1 + x.length - 1) = x := by
    rw [List.drop_one, List.tail_cons, Nat.add_sub_cancel_left, List.take_left]
  rw [ipv6Stage, if_pos ⟨List.cons_ne_nil _ _,rfl⟩, hplace]
  simp only [hnext, htake]
  congr 2
  rw [show 1 + x.length + 2 = x.length + 3 by omega]

/-- Without a text in brackets the first stage leaves the node empty. -/
theorem ipv6Stage_none (h : host.head? = some 91 → 93 ∈ host.tail → host.tail.head? = some 93) :
    (ipv6Stage host).node = [] := by
  by_cases hhead : host.head? = some 91
  · obtain ⟨rest,rfl⟩ := List.head?_eq_some_iff.mp hhead
    by_cases hmem : 93 ∈ rest
    · obtain ⟨t,rfl⟩ := List.head?_eq_some_iff.mp (h rfl hmem)
      exact congrArg HostParts.node (@ipv6Stage_brackets [] t List.not_mem_nil)
    · have hplace : memchr (91 :: rest) 1 93 ((91 :: rest).length - 1) = none := by
        rw [memchr_eq _ _ _ rfl, List.drop_one, List.tail_cons, List.idxOf?_eq_none_iff.mpr hmem]
        rfl
      rw [ipv6Stage, if_pos ⟨List.cons_ne_nil _ _,rfl⟩, hplace]
  · rw [ipv6Stage, if_neg fun h => hhead h.2]

theorem addressStage_kept {p : HostParts} (h : p.node ≠ []) : addressStage host p = p := if_neg h

theorem addressStage_none {p : HostParts} (h : p.node = []) (hc : 58 ∉ host) : addressStage host p = ⟨[],none⟩ := by
  have hplace : memchr host 0 58 host.length = none := by
    rw [memchr_eq host 0 58 (Nat.sub_zero _).symm, List.drop_zero, List.idxOf?_eq_none_iff.mpr hc]
    rfl
  rw [addressStage, if_pos h, hplace]
  exact congrArg (HostParts.mk · none) h

/-- One colon splits the host. Of several the first one starts the service, with the node left to the last stage. -/
theorem addressStage_colon {p : HostParts} (h : p.node = []) (hx : 58 ∉ x) :
    addressStage (x ++ 58 :: t) p = if 58 ∈ t then ⟨[],some x.length⟩ else ⟨x,some (x.length + 1)⟩ := by
  have hplace : memchr (x ++ 58 :: t) 0 58 (x ++ 58 :: t).length = some x.length := by
    rw [memchr_eq _ 0 58 (Nat.sub_zero _).symm, List.drop_zero, idxOf_delimiter hx, Option.map_some, Nat.zero_add]
  have hdrop : (x ++ 58 :: t).drop (x.length + 1) = t := by
    rw [← List.drop_drop, List.drop_left, List.drop_one, List.tail_cons]
  have hsecond : memchr (x ++ 58 :: t) (x.length + 1) 58 ((x ++ 58 :: t).length - x.length - 1) =
      (t.idxOf? 58).map (x.length + 1 + ·) := by
    rw [memchr_eq _ _ _ (Nat.sub_sub _ _ _), hdrop]
  rw [addressStage, if_pos h, hplace]
  simp only [hsecond]
  by_cases hmem : 58 ∈ t
  · obtain ⟨i,hi⟩ := Option.isSome_iff_exists.mp (List.isSome_idxOf?.mpr hmem)
    rw [if_pos hmem, hi]
    exact congrArg (HostParts.mk · _) h
  · rw [if_neg hmem, List.idxOf?_eq_none_iff.mpr hmem, Option.map_none, List.take_left]

/-! What is passed on, by the shape of the host. -/

theorem nodeService_brackets (h0 : 0 ∉ 91 :: (x ++ 93 :: t)) (h : 93 ∉ x) (hx : x ≠ []) :
    nodeService (91 :: (x ++ 93 :: t)) = ⟨x,if t.head? = some 58 then some t.tail else none⟩ := by
  have hx0 : 0 ∉ x := fun hm => h0 (List.mem_cons_of_mem 91 (List.mem_append_left _ hm))
  have ht0 : 0 ∉ t := fun hm => h0 (List.mem_cons_of_mem 91 (List.mem_append_right x (List.mem_cons_of_mem 93 hm)))
  have hdrop : (91 :: (x ++ 93 :: t)).drop (x.length + 3) = t.tail := by
    rw [List.drop_succ_cons, ← List.drop_drop, List.drop_left, List.drop_succ_cons, List.drop_one]
  rw [nodeService, ipv6Stage_brackets h, addressStage_kept hx, hostStage, if_neg hx, cstr_of_nonzero hx0]
  congr 1
  by_cases hcolon : t.head? = some 58
  · rw [if_pos hcolon, if_pos hcolon, Option.map_some, hdrop, cstr_of_nonzero fun hm => ht0 (List.mem_of_mem_tail hm)]
  · rw [if_neg hcolon, if_neg hcolon, Option.map_none]

theorem nodeService_none (h0 : 0 ∉ host) (hnode : (ipv6Stage host).node = []) (hc : 58 ∉ host) :
    nodeService host = ⟨host,none⟩ := by
  rw [nodeService, addressStage_none hnode hc, hostStage, if_pos rfl, cstr_of_nonzero h0]
  rfl

theorem nodeService_one (h0 : 0 ∉ x ++ 58 :: t) (hnode : (ipv6Stage (x ++ 58 :: t)).node = []) (hx : 58 ∉ x)
    (ht : 58 ∉ t) : nodeService (x ++ 58 :: t) = ⟨if x = [] then x ++ 58 :: t else x,some t⟩ := by
  have hx0 : 0 ∉ x := fun hm => h0 (List.mem_append_left _ hm)
  have ht0 : 0 ∉ t := fun hm => h0 (List.mem_append_right x (List.mem_cons_of_mem 58 hm))
  have hdrop : (x ++ 58 :: t).drop (x.length + 1) = t := by
    rw [← List.drop_drop, List.drop_left, List.drop_one, List.tail_cons]
  rw [nodeService, addressStage_colon hnode hx, if_neg ht, hostStage]
  by_cases hnil : x = []
  · rw [if_pos hnil, if_pos hnil, Option.map_some, hdrop, cstr_of_nonzero h0, cstr_of_nonzero ht0]
  · rw [if_neg hnil, if_neg hnil, Option.map_some, hdrop, cstr_of_nonzero hx0, cstr_of_nonzero ht0]

theorem nodeService_more (h0 : 0 ∉ x ++ 58 :: t) (hnode : (ipv6Stage (x ++ 58 :: t)).node = []) (hx : 58 ∉ x)
    (ht : 58 ∈ t) : nodeService (x ++ 58 :: t) = ⟨x ++ 58 :: t,some (58 :: t)⟩ := by
  have ht0 : 0 ∉ 58 :: t := fun hm => h0 (List.mem_append_right x hm)
  rw [nodeService, addressStage_colon hnode hx, if_pos ht, hostStage, if_pos rfl, Option.map_some, List.drop_left,
    cstr_of_nonzero h0, cstr_of_nonzero ht0]

theorem head_of_colon (hx : 58 ∉ x) : (x ++ 58 :: t).head? ≠ some 58 ↔ x ≠ [] := by
  cases x with
  | nil => exact iff_of_false (fun h => h rfl) fun h => h rfl
  | cons b x =>
    apply iff_of_true _ (List.cons_ne_nil b x)
    intro h
    exact hx (Option.some.inj h ▸ List.mem_cons_self)

theorem count_colon (hx : 58 ∉ x) : (x ++ 58 :: t).count 58 = t.count 58 + 1 := by
  rw [List.count_append, List.count_eq_zero_of_not_mem hx, List.count_cons_self, Nat.zero_add]

end

/-- The parts of a host are passed on as written where it has brackets, no colon, or one that does not come
first. -/
theorem nodeService_iff (host : HostString) : nodeService host.bytes = splitHost host.bytes ↔ Splits host.bytes := by
  obtain ⟨host,h0⟩ := host
  dsimp only
  rcases bracketed_cases host with ⟨x,t,rfl,h,hx⟩ | ⟨hnone,hclosed⟩
  · rw [nodeService_brackets h0 h hx, splitHost, bracketed_text h hx]
    exact iff_of_true rfl (.inl (by rw [bracketed_text h hx]; rfl))
  have hnode := ipv6Stage_none hclosed
  have hopen : ¬(bracketed host).isSome = true := by
    rw [hnone]
    exact Bool.false_ne_true
  rw [splitHost, hnone, Splits, or_iff_right hopen]
  dsimp only
  by_cases hc : 58 ∈ host
  · obtain ⟨x,t,rfl,hx⟩ := List.eq_append_cons_of_mem hc
    rw [count_colon hx, takeWhile_delimiter hx, dropWhile_delimiter hx, List.tail_cons]
    simp only [head_of_colon hx]
    by_cases ht : 58 ∈ t
    · have hpos := List.count_pos_iff.mpr ht
      rw [nodeService_more h0 hnode hx ht, if_neg (by omega)]
      apply iff_of_false
      · intro heq
        have hservice := congrArg NodeService.service heq
        cases hservice
      · omega
    · rw [nodeService_one h0 hnode hx ht, List.count_eq_zero_of_not_mem ht]
      by_cases hnil : x = []
      · rw [if_pos hnil, if_neg fun h => h.2 hnil]
        apply iff_of_false
        · intro heq
          have hservice := congrArg NodeService.service heq
          cases hservice
        · rintro (hzero | hone)
          · cases hzero
          · exact hone.2 hnil
      · rw [if_neg hnil, if_pos ⟨rfl,hnil⟩]
        exact iff_of_true rfl (.inr ⟨rfl,hnil⟩)
  · have hzero := List.count_eq_zero_of_not_mem hc
    rw [nodeService_none h0 hnode hc, if_neg fun h => absurd (hzero.symm.trans h.1) (by decide)]
    exact iff_of_true rfl (.inl hzero)

/-- A lookup keeps the addresses that were there, and adds one of a known length for each that the kernel names. -/
theorem lookup_appends (getaddrinfo : NodeService → Hints → Except Int (List Sockaddr)) (result : List Address) (host : List UInt8)
    (family type protocol : Int) : ∃ found, (lookup getaddrinfo result host family type protocol).2 = result ++ found ∧
      ∀ a ∈ found, a.length = if a.kind = .ipv6Address then 28 else 16 := by
  rw [lookup]
  cases getaddrinfo (nodeService host) ⟨0,family,type,protocol⟩ with
  | error e => exact ⟨[],(List.append_nil result).symm,fun a ha => absurd ha List.not_mem_nil⟩
  | ok results =>
    refine ⟨_,rfl,?_⟩
    intro a ha
    obtain ⟨addr,-,rfl⟩ := List.mem_map.mp ha
    simp only [create]
    split
    · rfl
    · split <;> rfl

def fe80 : List UInt8 := [102,101,56,48,58,58,49]

/-- `fe80::1` is looked up with the service `::1`. -/
theorem nodeService_bare :
    splitHost fe80 = ⟨fe80,none⟩ ∧ nodeService fe80 = ⟨fe80,some [58,58,49]⟩ ∧
    ¬∀ host : HostString, nodeService host.bytes = splitHost host.bytes := by
  have hsplit : splitHost fe80 = ⟨fe80,none⟩ := by decide +kernel
  have hpassed : nodeService fe80 = ⟨fe80,some [58,58,49]⟩ := by decide +kernel
  refine ⟨hsplit,hpassed,?_⟩
  intro h
  have hall := h ⟨fe80,by decide⟩
  rw [hpassed, hsplit] at hall
  cases hall

end Radixun.Net
