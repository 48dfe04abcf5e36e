import Mathlib.Data.List.Basic
import Mathlib.Data.List.Count

/-! State machines over bytes whose edges carry actions, the form scanner generators emit: a row of
edges for each state, and the walk of a machine over a buffer. The actions do not steer the walk. -/
namespace Radixun.Foundation

/-- Inclusive ranges of byte values. -/
abbrev ByteClass := List (Nat × Nat)

namespace ByteClass

def has (c : ByteClass) (b : UInt8) : Bool := c.any fun r => r.1 ≤ b.toNat && b.toNat ≤ r.2
def one (n : Nat) : ByteClass := [(n,n)]
/-- Two ranges have a byte in common. -/
def meets (c d : ByteClass) : Bool := c.any fun r => d.any fun q => r.1 ≤ q.2 && q.1 ≤ r.2
/-- A letter by its upper case value, in both cases. -/
def letter (n : Nat) : ByteClass := [(n,n),(n + 32,n + 32)]

/-- The bytes from `lo` on that are not in the list. -/
def without (lo : Nat) : List Nat → ByteClass
  | [] => [(lo,255)]
  | d :: ds => if lo < d then (lo,d - 1) :: without (d + 1) ds else without (d + 1) ds

theorem has_without {ds : List Nat} {lo : Nat} {b : UInt8} (hlo : lo ≤ b.toNat) (hb : b.toNat ∉ ds) :
    (without lo ds).has b = true := by
  induction ds generalizing lo with
  | nil =>
    have hlt := b.toNat_lt
    simp only [without, has, List.any_cons, List.any_nil, Bool.or_false, Bool.and_eq_true, decide_eq_true_eq]
    omega
  | cons d ds ih =>
    have hne : b.toNat ≠ d := fun h => hb (h ▸ List.mem_cons_self)
    have hds : b.toNat ∉ ds := fun h => hb (List.mem_cons_of_mem d h)
    rw [without]
    by_cases hbd : b.toNat < d
    · rw [if_pos (by omega)]
      have hin : (decide (lo ≤ b.toNat) && decide (b.toNat ≤ d - 1)) = true := by
        simp only [Bool.and_eq_true, decide_eq_true_eq]
        omega
      rw [has, List.any_cons, hin, Bool.true_or]
    · have hrest : (without (d + 1) ds).has b = true := ih (by omega) hds
      split
      · rw [has, List.any_cons]
        exact Bool.or_eq_true_iff.mpr (.inr hrest)
      · exact hrest

theorem meets_of_has {c d : ByteClass} {b : UInt8} (hc : c.has b = true) (hd : d.has b = true) : c.meets d = true := by
  obtain ⟨r,hr,hrb⟩ := List.any_eq_true.mp hc
  obtain ⟨q,hq,hqb⟩ := List.any_eq_true.mp hd
  simp only [Bool.and_eq_true, decide_eq_true_eq] at hrb hqb
  refine List.any_eq_true.mpr ⟨r,hr,List.any_eq_true.mpr ⟨q,hq,?_⟩⟩
  simp only [Bool.and_eq_true, decide_eq_true_eq]
  omega

end ByteClass

structure Edge (A : Type) where
  on : ByteClass
  acts : List A
  target : Nat

/-- The rows by state; a state without a row has no edges. An action for which `breaks` holds leaves
the loop behind the byte it is taken on. -/
structure ActionMachine (A : Type) where
  start : Nat
  rows : List (Nat × List (Edge A))
  breaks : A → Bool

/-- Why a walk ends: the buffer is used up in a state, an action left the loop, or no edge fits the
byte at a position. -/
inductive Stop where
  | more (cs : Nat)
  | broke (cs p : Nat)
  | failed (p : Nat)
  deriving DecidableEq, Repr

/-- The actions a walk takes, each at the position of its byte. -/
structure Walk (A : Type) where
  events : List (Nat × A)
  stop : Stop

def Walk.after {A : Type} (es : List (Nat × A)) (w : Walk A) : Walk A := ⟨es ++ w.events,w.stop⟩

def Stop.shift (k : Nat) : Stop → Stop
  | .more cs => .more cs
  | .broke cs p => .broke cs (p + k)
  | .failed p => .failed (p + k)

def Walk.shift {A : Type} (k : Nat) (w : Walk A) : Walk A :=
  ⟨w.events.map fun e => (e.1 + k,e.2),w.stop.shift k⟩

namespace ActionMachine
variable {A : Type} (M : ActionMachine A)

def row (cs : Nat) : List (Edge A) := ((M.rows.find? (·.1 == cs)).map (·.2)).getD []
def edge (cs : Nat) (b : UInt8) : Option (Edge A) := (M.row cs).find? (·.on.has b)

def walk : Nat → Nat → List UInt8 → Walk A
  | cs, _, [] => ⟨[],.more cs⟩
  | cs, p, b :: bs =>
    match M.edge cs b with
    | none => ⟨[],.failed p⟩
    | some e =>
      let here := e.acts.map fun a => (p,a)
      if e.acts.any M.breaks then ⟨here,.broke e.target (p + 1)⟩ else (walk e.target (p + 1) bs).after here

/-- A test of every edge together with the state it leaves. -/
def check (f : Nat → Edge A → Bool) : Bool := M.rows.all fun r => r.2.all (f r.1)

variable {M}

theorem edge_mem {cs : Nat} {b : UInt8} {e : Edge A} (h : M.edge cs b = some e) :
    e ∈ M.row cs ∧ e.on.has b = true :=
  ⟨List.mem_of_find?_eq_some h,by simpa using List.find?_some h⟩

theorem check_edge {f : Nat → Edge A → Bool} (hf : M.check f = true) {cs : Nat} {b : UInt8} {e : Edge A}
    (h : M.edge cs b = some e) : f cs e = true := by
  have he := (edge_mem h).1
  simp only [row] at he
  cases hrow : M.rows.find? (·.1 == cs) with
  | none => simp [hrow] at he
  | some r =>
    have hcs : r.1 = cs := by simpa using List.find?_some hrow
    simp only [hrow, Option.map_some, Option.getD_some] at he
    rw [check, List.all_eq_true] at hf
    have hall := hf r (List.mem_of_find?_eq_some hrow)
    rw [List.all_eq_true, hcs] at hall
    exact hall e he

@[simp] theorem walk_nil (cs p : Nat) : M.walk cs p [] = ⟨[],.more cs⟩ := rfl

theorem walk_cons_none {cs p : Nat} {b : UInt8} {bs : List UInt8} (h : M.edge cs b = none) :
    M.walk cs p (b :: bs) = ⟨[],.failed p⟩ := by
  simp [walk, h]

theorem walk_cons_break {cs p : Nat} {b : UInt8} {bs : List UInt8} {e : Edge A}
    (h : M.edge cs b = some e) (hb : e.acts.any M.breaks = true) :
    M.walk cs p (b :: bs) = ⟨e.acts.map fun a => (p,a),.broke e.target (p + 1)⟩ := by
  simp only [walk, h, hb, if_true]

theorem walk_cons_go {cs p : Nat} {b : UInt8} {bs : List UInt8} {e : Edge A}
    (h : M.edge cs b = some e) (hb : e.acts.any M.breaks = false) :
    M.walk cs p (b :: bs) = (M.walk e.target (p + 1) bs).after (e.acts.map fun a => (p,a)) := by
  simp [walk, h, hb]

/-- The three ways of one step, for inductions over a walk. -/
theorem walk_cases (cs p : Nat) (b : UInt8) (bs : List UInt8) :
    (M.edge cs b = none ∧ M.walk cs p (b :: bs) = ⟨[],.failed p⟩) ∨
    (∃ e, M.edge cs b = some e ∧ e.acts.any M.breaks = true ∧
      M.walk cs p (b :: bs) = ⟨e.acts.map fun a => (p,a),.broke e.target (p + 1)⟩) ∨
    ∃ e, M.edge cs b = some e ∧ e.acts.any M.breaks = false ∧
      M.walk cs p (b :: bs) = (M.walk e.target (p + 1) bs).after (e.acts.map fun a => (p,a)) := by
  cases h : M.edge cs b with
  | none => exact .inl ⟨rfl,walk_cons_none h⟩
  | some e =>
    cases hb : e.acts.any M.breaks with
    | true => exact .inr (.inl ⟨e,rfl,hb,walk_cons_break h hb⟩)
    | false => exact .inr (.inr ⟨e,rfl,hb,walk_cons_go h hb⟩)

/-- A walk that uses up its buffer goes on with what comes behind it. -/
theorem walk_append {cs p cs' : Nat} {xs : List UInt8} (h : (M.walk cs p xs).stop = .more cs') (ys : List UInt8) :
    M.walk cs p (xs ++ ys) = (M.walk cs' (p + xs.length) ys).after (M.walk cs p xs).events := by
  induction xs generalizing cs p with
  | nil =>
    obtain rfl : cs = cs' := by simpa using h
    simp [Walk.after]
  | cons b bs ih =>
    obtain ⟨_,hw⟩ | ⟨e,_,_,hw⟩ | ⟨e,he,hb,hw⟩ := M.walk_cases cs p b bs
    · simp [hw] at h
    · simp [hw] at h
    · rw [hw] at h
      rw [List.cons_append, walk_cons_go he hb, ih h, hw]
      simp [Walk.after, Nat.add_assoc, Nat.add_comm 1]

/-- What comes behind the end of a walk does not matter to it. -/
theorem walk_append_ended {cs p : Nat} {xs : List UInt8} (h : ∀ cs', (M.walk cs p xs).stop ≠ .more cs')
    (ys : List UInt8) : M.walk cs p (xs ++ ys) = M.walk cs p xs := by
  induction xs generalizing cs p with
  | nil => exact absurd rfl (h cs)
  | cons b bs ih =>
    obtain ⟨he,hw⟩ | ⟨e,he,hb,hw⟩ | ⟨e,he,hb,hw⟩ := M.walk_cases cs p b bs
    · rw [hw, List.cons_append, walk_cons_none he]
    · rw [hw, List.cons_append, walk_cons_break he hb]
    · rw [hw] at h
      rw [hw, List.cons_append, walk_cons_go he hb, ih h]

theorem walk_shift (cs p k : Nat) (bs : List UInt8) : M.walk cs (p + k) bs = (M.walk cs p bs).shift k := by
  induction bs generalizing cs p with
  | nil => rfl
  | cons b bs ih =>
    obtain ⟨he,hw⟩ | ⟨e,he,hb,hw⟩ | ⟨e,he,hb,hw⟩ := M.walk_cases cs p b bs
    · rw [hw, walk_cons_none he]; rfl
    · rw [hw, walk_cons_break he hb]
      simp [Walk.shift, Stop.shift, Nat.add_right_comm]
    · rw [hw, walk_cons_go he hb, Nat.add_right_comm, ih]
      simp [Walk.shift, Walk.after]

/-- Every action is taken on a byte of the buffer, along an edge for that byte. -/
theorem event_edge {cs p q : Nat} {a : A} {bs : List UInt8} (h : (q,a) ∈ (M.walk cs p bs).events) :
    p ≤ q ∧ ∃ s b e, bs[q - p]? = some b ∧ M.edge s b = some e ∧ a ∈ e.acts := by
  induction bs generalizing cs p with
  | nil => simp at h
  | cons b bs ih =>
    have here : ∀ {e : Edge A}, M.edge cs b = some e → (q,a) ∈ e.acts.map (fun a => (p,a)) →
        p ≤ q ∧ ∃ s b' e, (b :: bs)[q - p]? = some b' ∧ M.edge s b' = some e ∧ a ∈ e.acts := by
      intro e he hm
      obtain ⟨a',ha,heq⟩ := List.mem_map.mp hm
      obtain ⟨rfl,rfl⟩ := Prod.mk.inj heq
      exact ⟨Nat.le_refl _,cs,b,e,by simp,he,ha⟩
    obtain ⟨he,hw⟩ | ⟨e,he,hb,hw⟩ | ⟨e,he,hb,hw⟩ := M.walk_cases cs p b bs
    · simp [hw] at h
    · rw [hw] at h
      exact here he h
    · rw [hw] at h
      rcases List.mem_append.mp h with h | h
      · exact here he h
      · obtain ⟨hle,s,b',e',hb',he',ha⟩ := ih h
        refine ⟨by omega,s,b',e',?_,he',ha⟩
        rw [show q - p = (q - (p + 1)) + 1 by omega]
        simpa using hb'

theorem event_lt {cs p q : Nat} {a : A} {bs : List UInt8} (h : (q,a) ∈ (M.walk cs p bs).events) :
    q < p + bs.length := by
  obtain ⟨hle,_,_,_,hb,_⟩ := event_edge h
  have := (List.getElem?_eq_some_iff.mp hb).1
  omega

theorem events_sorted (cs p : Nat) (bs : List UInt8) : (M.walk cs p bs).events.Pairwise fun a b => a.1 ≤ b.1 := by
  have here : ∀ acts : List A, (acts.map fun a => (p,a)).Pairwise fun a b => a.1 ≤ b.1 := by
    intro acts
    rw [List.pairwise_map]
    exact List.pairwise_of_forall fun _ _ => Nat.le_refl p
  induction bs generalizing cs p with
  | nil => simp
  | cons b bs ih =>
    obtain ⟨_,hw⟩ | ⟨e,_,_,hw⟩ | ⟨e,_,_,hw⟩ := M.walk_cases cs p b bs
    · simp [hw]
    · rw [hw]
      exact here e.acts
    · rw [hw, Walk.after, List.pairwise_append]
      refine ⟨here e.acts,ih _ _ fun acts => by rw [List.pairwise_map]; exact List.pairwise_of_forall fun _ _ => Nat.le_refl _,?_⟩
      rintro ⟨q,a⟩ hq ⟨q',a'⟩ hq'
      obtain ⟨_,_,heq⟩ := List.mem_map.mp hq
      obtain ⟨rfl,_⟩ := Prod.mk.inj heq
      have := (event_edge hq').1
      show p ≤ q'
      omega

/-- A walk that an action ends covers a part of the buffer that is not empty. -/
theorem broke_bounds {cs p cs' n : Nat} {bs : List UInt8} (h : (M.walk cs p bs).stop = .broke cs' n) :
    p < n ∧ n ≤ p + bs.length := by
  induction bs generalizing cs p with
  | nil => simp at h
  | cons b bs ih =>
    obtain ⟨_,hw⟩ | ⟨e,_,_,hw⟩ | ⟨e,_,_,hw⟩ := M.walk_cases cs p b bs
    · simp [hw] at h
    · simp only [hw, Stop.broke.injEq] at h
      simp only [List.length_cons]
      omega
    · rw [hw] at h
      have := ih h
      simp only [List.length_cons]
      omega

/-- Along edges none of which takes `a` from a spent state and none of which leaves the spent states,
`a` is not taken. -/
theorem spent_silent [DecidableEq A] {a : A} {spent : Nat → Bool}
    (hf : M.check (fun s e => !spent s || (!e.acts.contains a && spent e.target)) = true) {cs p : Nat}
    {bs : List UInt8} (hs : spent cs = true) {q : Nat} : (q,a) ∉ (M.walk cs p bs).events := by
  induction bs generalizing cs p with
  | nil => simp
  | cons b bs ih =>
    have hedge : ∀ {e : Edge A}, M.edge cs b = some e → a ∉ e.acts ∧ spent e.target = true := by
      intro e he
      have := check_edge hf he
      simpa [hs] using this
    obtain ⟨he,hw⟩ | ⟨e,he,hb,hw⟩ | ⟨e,he,hb,hw⟩ := M.walk_cases cs p b bs
    · simp [hw]
    · simp [hw, (hedge he).1]
    · rw [hw]
      simp [Walk.after, (hedge he).1, ih (hedge he).2]

/-- An action that leads to its spent states, once along an edge, is taken at most once. -/
theorem count_le_one [DecidableEq A] {a : A} {spent : Nat → Bool}
    (hsilent : M.check (fun s e => !spent s || (!e.acts.contains a && spent e.target)) = true)
    (hspend : M.check (fun _ e => e.acts.count a ≤ 1 && (!e.acts.contains a || spent e.target)) = true)
    (cs p : Nat) (bs : List UInt8) : (M.walk cs p bs).events.countP (·.2 == a) ≤ 1 := by
  have hmap : ∀ (p : Nat) (acts : List A), (acts.map fun x => (p,x)).countP (·.2 == a) = acts.count a := by
    intro p acts
    rw [List.countP_map]
    rfl
  induction bs generalizing cs p with
  | nil => simp
  | cons b bs ih =>
    obtain ⟨he,hw⟩ | ⟨e,he,hb,hw⟩ | ⟨e,he,hb,hw⟩ := M.walk_cases cs p b bs
    · simp [hw]
    · have := check_edge hspend he
      simp only [Bool.and_eq_true, decide_eq_true_eq] at this
      rw [hw]
      simpa [hmap] using this.1
    · have hedge := check_edge hspend he
      simp only [Bool.and_eq_true, Bool.or_eq_true, decide_eq_true_eq, Bool.not_eq_true'] at hedge
      rw [hw]
      simp only [Walk.after, List.countP_append, hmap]
      rcases hedge.2 with hnot | hspent
      · have h0 : e.acts.count a = 0 := List.count_eq_zero.mpr (by simpa using hnot)
        rw [h0, Nat.zero_add]
        exact ih ..
      · have h0 : (M.walk e.target (p + 1) bs).events.countP (·.2 == a) = 0 := by
          rw [List.countP_eq_zero]
          rintro ⟨q,a'⟩ hq hc
          obtain rfl : a' = a := by simpa using hc
          exact spent_silent hsilent hspent hq
        rw [h0]
        exact hedge.1

section Leads
variable {cs cs' p : Nat} {xs : List UInt8} {b : UInt8} {e : Edge A}

/-- The text is used up on the way from one state to another. -/
def Leads (M : ActionMachine A) (cs : Nat) (xs : List UInt8) (cs' : Nat) : Prop := (M.walk cs 0 xs).stop = .more cs'

def events (M : ActionMachine A) (cs p : Nat) (xs : List UInt8) : List (Nat × A) := (M.walk cs p xs).events

/-- Where the text stands does not matter to where it leads. -/
theorem stop_iff_leads (p : Nat) : (M.walk cs p xs).stop = .more cs' ↔ M.Leads cs xs cs' := by
  have hshift := congrArg Walk.stop (M.walk_shift cs 0 p xs)
  rw [Nat.zero_add] at hshift
  rw [hshift, Leads, Walk.shift]
  cases (M.walk cs 0 xs).stop <;> simp [Stop.shift]

theorem leads_nil : M.Leads cs [] cs' ↔ cs' = cs := by
  rw [Leads, walk_nil, Stop.more.injEq, eq_comm]

theorem leads_append {ys : List UInt8} {c : Nat} :
    M.Leads cs (xs ++ ys) c ↔ ∃ cs', M.Leads cs xs cs' ∧ M.Leads cs' ys c := by
  constructor
  · intro h
    by_cases hmore : ∃ cs', M.Leads cs xs cs'
    · obtain ⟨cs',hxs⟩ := hmore
      refine ⟨cs',hxs,?_⟩
      rw [Leads, walk_append hxs] at h
      exact (stop_iff_leads _).mp h
    · have hended := walk_append_ended (fun cs' hcs => hmore ⟨cs',hcs⟩) ys
      rw [Leads, hended] at h
      exact absurd ⟨c,h⟩ hmore
  · rintro ⟨cs',hxs,hys⟩
    rw [Leads, walk_append hxs]
    exact (stop_iff_leads _).mpr hys

theorem events_append (h : M.Leads cs xs cs') (p : Nat) (ys : List UInt8) :
    M.events cs p (xs ++ ys) = M.events cs p xs ++ M.events cs' (p + xs.length) ys := by
  rw [events, walk_append ((stop_iff_leads p).mpr h)]
  rfl

/-- The actions and the state a byte leads to. -/
def move (M : ActionMachine A) (cs : Nat) (b : UInt8) : Option (List A × Nat) :=
  (M.edge cs b).map fun e => (e.acts,e.target)

section Moves
variable {acts : List A} {t : Nat} (hM : ∀ a, M.breaks a = false)
include hM

theorem walk_cons_move (h : M.move cs b = some (acts,t)) (p : Nat) (xs : List UInt8) :
    M.walk cs p (b :: xs) = (M.walk t (p + 1) xs).after (acts.map fun a => (p,a)) := by
  obtain ⟨e,he,heq⟩ := Option.map_eq_some_iff.mp h
  obtain ⟨rfl,rfl⟩ := Prod.mk.inj heq
  apply walk_cons_go he
  rw [List.any_eq_false]
  intro a _
  rw [hM a]
  exact Bool.false_ne_true

theorem leads_cons {c : Nat} :
    M.Leads cs (b :: xs) c ↔ ∃ acts t, M.move cs b = some (acts,t) ∧ M.Leads t xs c := by
  constructor
  · intro h
    cases he : M.edge cs b with
    | none => rw [Leads, walk_cons_none he] at h; cases h
    | some e =>
      have hmove : M.move cs b = some (e.acts,e.target) := by rw [move, he]; rfl
      refine ⟨e.acts,e.target,hmove,?_⟩
      rw [Leads, walk_cons_move hM hmove] at h
      exact (stop_iff_leads _).mp h
  · rintro ⟨acts,t,hmove,h⟩
    rw [Leads, walk_cons_move hM hmove]
    exact (stop_iff_leads _).mpr h

theorem events_cons (h : M.move cs b = some (acts,t)) (p : Nat) (xs : List UInt8) :
    M.events cs p (b :: xs) = acts.map (fun a => (p,a)) ++ M.events t (p + 1) xs := by
  rw [events, walk_cons_move hM h]
  rfl

end Moves

/-- Where a text leads, by the moves alone. -/
def reach (M : ActionMachine A) : Nat → List UInt8 → Option Nat
  | cs, [] => some cs
  | cs, b :: xs => (M.move cs b).bind fun m => M.reach m.2 xs

theorem leads_iff_reach (hM : ∀ a, M.breaks a = false) : M.Leads cs xs cs' ↔ M.reach cs xs = some cs' := by
  induction xs generalizing cs with
  | nil => rw [leads_nil, reach, Option.some.injEq, eq_comm]
  | cons b xs ih =>
    rw [leads_cons hM, reach]
    cases M.move cs b with
    | none => simp
    | some m =>
      obtain ⟨acts,t⟩ := m
      simp [← ih]

theorem reach_append {ys : List UInt8} : M.reach cs (xs ++ ys) = (M.reach cs xs).bind fun t => M.reach t ys := by
  induction xs generalizing cs with
  | nil => rfl
  | cons b xs ih =>
    rw [List.cons_append, reach, reach]
    cases M.move cs b with
    | none => rfl
    | some m => exact ih

/-- The machine with the rows of the states in a range only. -/
def between (M : ActionMachine A) (low high : Nat) : ActionMachine A :=
  { M with rows := M.rows.filter fun r => Nat.ble low r.1 && Nat.ble r.1 high }

section Between
variable {low high t : Nat} {acts : List A}

theorem between_row (hlow : low ≤ cs) (hhigh : cs ≤ high) : (M.between low high).row cs = M.row cs := by
  rw [row, row, between, List.find?_filter]
  congr 3
  funext r
  cases hr : r.1 == cs with
  | false => simp
  | true => simp [beq_iff_eq.mp hr, hlow, hhigh]

theorem between_move (hlow : low ≤ cs) (hhigh : cs ≤ high) : (M.between low high).move cs b = M.move cs b := by
  rw [move, move, edge, edge, between_row hlow hhigh]

theorem move_of_between (h : (M.between low high).move cs b = some (acts,t)) : M.move cs b = some (acts,t) := by
  obtain ⟨e,he,_⟩ := Option.map_eq_some_iff.mp h
  have hmem := (edge_mem he).1
  rw [row] at hmem
  cases hfind : (M.between low high).rows.find? (·.1 == cs) with
  | none =>
    rw [hfind] at hmem
    cases hmem
  | some r =>
    have hkey : r.1 = cs := by simpa using List.find?_some hfind
    have hrange := (List.mem_filter.mp (List.mem_of_find?_eq_some hfind)).2
    rw [hkey, Bool.and_eq_true] at hrange
    rw [← between_move (Nat.le_of_ble_eq_true hrange.1) (Nat.le_of_ble_eq_true hrange.2)]
    exact h

theorem reach_of_between (h : (M.between low high).reach cs xs = some t) : M.reach cs xs = some t := by
  induction xs generalizing cs with
  | nil => exact h
  | cons b xs ih =>
    obtain ⟨⟨acts,s⟩,hmove,hrest⟩ := Option.bind_eq_some_iff.mp h
    rw [reach, move_of_between hmove]
    exact ih hrest

end Between

/-- A test of the moves from some of the states on bytes of a class. -/
def holdsOn (M : ActionMachine A) (src : Nat → Bool) (c : ByteClass) (f : Nat → List A → Nat → Bool) : Bool :=
  M.rows.all fun r => !src r.1 || r.2.all fun e => !e.on.meets c || f r.1 e.acts e.target

theorem holdsOn_move {src : Nat → Bool} {c : ByteClass} {f : Nat → List A → Nat → Bool} (hf : M.holdsOn src c f = true)
    (hcs : src cs = true) (hb : c.has b = true) {acts : List A} {t : Nat} (h : M.move cs b = some (acts,t)) :
    f cs acts t = true := by
  have hcheck : M.check (fun s e => !src s || !e.on.meets c || f s e.acts e.target) = true := by
    rw [check, List.all_eq_true]
    intro r hr
    have hrow := List.all_eq_true.mp hf r hr
    rw [List.all_eq_true]
    intro e he
    rcases Bool.or_eq_true_iff.mp hrow with hsrc | hall
    · rw [hsrc]; rfl
    · rw [Bool.or_assoc, List.all_eq_true.mp hall e he, Bool.or_true]
  obtain ⟨e,he,heq⟩ := Option.map_eq_some_iff.mp h
  obtain ⟨rfl,rfl⟩ := Prod.mk.inj heq
  have hedge := check_edge hcheck he
  simpa [hcs, ByteClass.meets_of_has (edge_mem he).2 hb] using hedge

/-- A test of what one byte does in some of the states. -/
def onByte (M : ActionMachine A) (src : Nat → Bool) (b : UInt8) (f : Nat → Option (List A × Nat) → Bool) : Bool :=
  M.rows.all fun r => !src r.1 || f r.1 ((r.2.find? (·.on.has b)).map fun e => (e.acts,e.target))

theorem onByte_move {src : Nat → Bool} {f : Nat → Option (List A × Nat) → Bool} (hf : M.onByte src b f = true)
    (hrow : cs ∈ M.rows.map (·.1)) (hcs : src cs = true) : f cs (M.move cs b) = true := by
  obtain ⟨r,hr,rfl⟩ := List.mem_map.mp hrow
  cases hfind : M.rows.find? (·.1 == r.1) with
  | none =>
    have hnone := List.find?_eq_none.mp hfind r hr
    simp at hnone
  | some r' =>
    have hkey : r'.1 = r.1 := by simpa using List.find?_some hfind
    have hrow' := List.all_eq_true.mp hf r' (List.mem_of_find?_eq_some hfind)
    rw [hkey, hcs] at hrow'
    rw [move, edge, row, hfind]
    exact hrow'

def onBytes (M : ActionMachine A) (src : Nat → Bool) (bs : List UInt8) (f : Nat → UInt8 → Option (List A × Nat) → Bool) :
    Bool :=
  M.rows.all fun r => !src r.1 || bs.all fun b => f r.1 b ((r.2.find? (·.on.has b)).map fun e => (e.acts,e.target))

theorem onBytes_move {src : Nat → Bool} {bs : List UInt8} {f : Nat → UInt8 → Option (List A × Nat) → Bool}
    (hf : M.onBytes src bs f = true) (hb : b ∈ bs) (hrow : cs ∈ M.rows.map (·.1)) (hcs : src cs = true) :
    f cs b (M.move cs b) = true := by
  have hone : M.onByte src b (fun cs o => f cs b o) = true := by
    rw [onByte, List.all_eq_true]
    intro r hr
    rcases Bool.or_eq_true_iff.mp (List.all_eq_true.mp hf r hr) with hsrc | hall
    · rw [hsrc, Bool.true_or]
    · rw [List.all_eq_true.mp hall b hb, Bool.or_true]
  exact onByte_move hone hrow hcs

/-- Edges on the same classes in the same order, to states that are related. -/
def alike (f : Nat → Nat → Bool) : List (Edge A) → List (Edge A) → Bool
  | [], [] => true
  | e :: es, e' :: es' => e.on == e'.on && f e.target e'.target && alike f es es'
  | _, _ => false

theorem alike_find {f : Nat → Nat → Bool} {es es' : List (Edge A)} (h : alike f es es' = true)
    (he : es.find? (·.on.has b) = some e) : ∃ e', es'.find? (·.on.has b) = some e' ∧ f e.target e'.target = true := by
  induction es generalizing es' with
  | nil => cases he
  | cons d es ih =>
    cases es' with
    | nil => cases h
    | cons d' es' =>
      simp only [alike, Bool.and_eq_true, beq_iff_eq] at h
      obtain ⟨⟨hon,htarget⟩,hrest⟩ := h
      rw [List.find?_cons] at he ⊢
      rw [← hon]
      cases hd : d.on.has b with
      | true =>
        simp only [hd, Option.some.injEq] at he
        exact ⟨d',rfl,he ▸ htarget⟩
      | false =>
        rw [hd] at he
        exact ih hrest he

/-- Two states whose edges on a class are alike move alike on its bytes. -/
theorem alike_move {f : Nat → Nat → Bool} {c : ByteClass} {s t s' : Nat} {acts : List A}
    (h : alike f ((M.row s).filter (·.on.meets c)) ((M.row t).filter (·.on.meets c)) = true) (hb : c.has b = true)
    (hmove : M.move s b = some (acts,s')) : ∃ acts' t', M.move t b = some (acts',t') ∧ f s' t' = true := by
  have hfilter : ∀ es : List (Edge A), (es.filter (·.on.meets c)).find? (·.on.has b) = es.find? (·.on.has b) := by
    intro es
    rw [List.find?_filter]
    congr 1
    funext e
    cases he : e.on.has b with
    | true => simp [ByteClass.meets_of_has he hb]
    | false => simp
  obtain ⟨e,he,heq⟩ := Option.map_eq_some_iff.mp hmove
  obtain ⟨rfl,rfl⟩ := Prod.mk.inj heq
  obtain ⟨e',he',htarget⟩ := alike_find h (by rw [hfilter]; exact he)
  refine ⟨e'.acts,e'.target,?_,htarget⟩
  rw [hfilter] at he'
  rw [move, edge, he']
  rfl

/-- A test that states move on a class like others do. -/
def alikeOn (M : ActionMachine A) (src : Nat → Bool) (c : ByteClass) (g : Nat → Nat) (f : Nat → Nat → Bool) : Bool :=
  M.rows.all fun r => !src r.1 ||
    alike f (r.2.filter (·.on.meets c)) ((M.row (g r.1)).filter (·.on.meets c))

theorem alikeOn_move {src : Nat → Bool} {c : ByteClass} {g : Nat → Nat} {f : Nat → Nat → Bool} {s s' : Nat} {acts : List A}
    (hf : M.alikeOn src c g f = true) (hs : src s = true) (hb : c.has b = true) (hmove : M.move s b = some (acts,s')) :
    ∃ acts' t', M.move (g s) b = some (acts',t') ∧ f s' t' = true := by
  cases hfind : M.rows.find? (·.1 == s) with
  | none => simp [move, edge, row, hfind] at hmove
  | some r =>
    have hkey : r.1 = s := by simpa using List.find?_some hfind
    have hrow := List.all_eq_true.mp hf r (List.mem_of_find?_eq_some hfind)
    rw [hkey, hs, Bool.not_true, Bool.false_or] at hrow
    have hsrow : M.row s = r.2 := by rw [row, hfind]; rfl
    rw [← hsrow] at hrow
    exact alike_move hrow hb hmove

/-- Between states that the bytes of a class do not leave and where they take no action, a text of such
bytes has no events. -/
theorem leads_quiet (hM : ∀ a, M.breaks a = false) {inside : Nat → Bool} {c : ByteClass}
    (hf : M.holdsOn inside c (fun _ acts t => inside t && acts.isEmpty) = true) (hxs : ∀ b ∈ xs, c.has b = true)
    (hcs : inside cs = true) (h : M.Leads cs xs cs') : inside cs' = true ∧ ∀ p, M.events cs p xs = [] := by
  induction xs generalizing cs with
  | nil =>
    rw [leads_nil.mp h]
    exact ⟨hcs,fun _ => rfl⟩
  | cons b xs ih =>
    obtain ⟨acts,t,hmove,hrest⟩ := (leads_cons hM).mp h
    have hedge := holdsOn_move hf hcs (hxs b List.mem_cons_self) hmove
    rw [Bool.and_eq_true, List.isEmpty_iff] at hedge
    obtain ⟨hin,hnone⟩ := ih (fun x hx => hxs x (List.mem_cons_of_mem b hx)) hedge.1 hrest
    refine ⟨hin,?_⟩
    intro p
    rw [events_cons hM hmove, hedge.2, hnone]
    rfl

/-- A relation of states whose moves can be matched holds of where a text leads, too. -/
theorem leads_matched (hM : ∀ a, M.breaks a = false) {R : Nat → Nat → Prop} {P : UInt8 → Prop}
    (hR : ∀ s t, R s t → ∀ b acts s', P b → M.move s b = some (acts,s') →
      ∃ acts' t', M.move t b = some (acts',t') ∧ R s' t')
    {t : Nat} (hxs : ∀ b ∈ xs, P b) (hcs : R cs t) (h : M.Leads cs xs cs') : ∃ t', M.Leads t xs t' ∧ R cs' t' := by
  induction xs generalizing cs t with
  | nil =>
    rw [leads_nil.mp h]
    exact ⟨t,leads_nil.mpr rfl,hcs⟩
  | cons b xs ih =>
    obtain ⟨acts,s',hmove,hrest⟩ := (leads_cons hM).mp h
    obtain ⟨acts',t',hmove',hR'⟩ := hR cs t hcs b acts s' (hxs b List.mem_cons_self) hmove
    obtain ⟨t'',hleads,hR''⟩ := ih (fun x hx => hxs x (List.mem_cons_of_mem b hx)) hR' hrest
    exact ⟨t'',(leads_cons hM).mpr ⟨acts',t',hmove',hleads⟩,hR''⟩

end Leads
end ActionMachine
end Radixun.Foundation
