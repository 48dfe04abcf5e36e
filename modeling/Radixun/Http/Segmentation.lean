import Radixun.Http.RequestStream

/-! A request that comes in several reads against the same bytes in one read. Whenever a new buffer
begins, the registers of the parser are reset to its start, and the one of the query is not. -/
namespace Radixun.Http
open Radixun.Foundation CString Common.Stream RequestMachine

/-- Where the head of a stream ends. -/
def headLength (u : Uninitialised) (stream : Text) : Nat :=
  match (headWalk u stream).stop with
  | .broke _ n => n
  | _ => 0

/-- No read begins inside of a path, a fragment or a query, or right behind one, and what is left of a
method or a version when a read begins inside of it means the same. -/
def Element.Survives (stream : Text) (segs : List Text) : Element → Prop
  | .method s e => charsToHttpMethod (stream.drop (max s (begins segs e))) = charsToHttpMethod (stream.drop s)
  | .version s e =>
    versionOf (stream.drop (max s (begins segs e))) (e - max s (begins segs e)) = versionOf (stream.drop s) (e - s)
  | .path s e | .fragment s e | .query s e => begins segs e ≤ s
  | .field .. => True

/-- The elements survive the reads the stream comes in; for every name of a header the first spelling and
the last value do when each field loses what came in earlier reads than its end; and no read of the head
looks like one that filled the buffer in vain. -/
structure Survives (env : Surroundings) (segs : List Text) : Prop where
  elements : ∀ el ∈ headElements env.uninitialised segs.flatten, el.Survives segs.flatten segs
  headers : SameHeaders
    ((headElements env.uninitialised segs.flatten).filterMap (·.fieldIn segs.flatten (begins segs)))
    ((headElements env.uninitialised segs.flatten).filterMap (·.fieldIn segs.flatten fun _ => 0))
  room : Room env.bufferSize segs (headLength env.uninitialised segs.flatten)

section
variable {stream : Text} {segs : List Text} {env : Surroundings}

private theorem slice_length {s e : Nat} (h : e ≤ stream.length) : (slice stream s e).length = e - s := by
  rw [slice, List.length_take, List.length_drop]
  omega

private theorem deliver_within {base base' : Nat → Nat} {n : Nat} (hbase : ∀ p, p < n → base p = base' p) {el : Element}
    (h : el.within n) (r : Parsed) : deliver stream base r el = deliver stream base' r el := by
  have htake : r.take stream base el = r.take stream base' el := by
    cases el with
    | field ns ne vs ve => simp only [Parsed.take, hbase ve h.2.2.2]
    | query s e => simp only [Parsed.take, hbase e h.2, hbase s (Nat.lt_of_le_of_lt h.1 h.2)]
    | method s e | path s e | fragment s e | version s e => simp only [Parsed.take, hbase e h.2]
  rw [deliver, deliver, htake]

/-- In one read everything lies in the buffer that begins at 0. -/
theorem headParsed_one (u : Uninitialised) (stream : Text) :
    headParsed u [stream] = (headElements u stream).foldl (deliver stream fun _ => 0) ⟨.init,0,none⟩ := by
  have hwithin := headElements_within u stream
  rw [headParsed, List.flatten_singleton]
  refine List.foldl_ext _ _ _ fun r el hel => deliver_within (n := stream.length) (fun p hp => ?_) (hwithin el hel) r
  rw [begins, if_pos hp]

private theorem slice_eq_iff {s s' e : Nat} (he : e ≤ stream.length) (hs : s ≤ e) (hs' : s' ≤ e) :
    slice stream s e = slice stream s' e ↔ s = s' := by
  refine ⟨fun h => ?_,fun h => by rw [h]⟩
  have := congrArg List.length h
  rw [slice_length he, slice_length he] at this
  omega

private theorem max_begins_iff {s e : Nat} (hs : s ≤ e) (he : e ≤ stream.length) :
    slice stream (max s (begins segs e)) e = slice stream (max s 0) e ↔ begins segs e ≤ s := by
  have := begins_le segs e
  rw [slice_eq_iff he (by omega) (by omega)]
  omega

private theorem query_begins_iff {s e : Nat} (hs : s ≤ e) : begins segs e + (s - begins segs s) = s ↔ begins segs e ≤ s := by
  have hle := begins_le segs s
  refine ⟨fun h => by omega,fun h => ?_⟩
  have := begins_same h hs
  omega

/-- An element survives when it is good and sets what it sets in one read. -/
private theorem element_survives_iff {el : Element} (hwithin : el.within stream.length) (hgood : el.Good stream fun _ => 0) :
    el.Survives stream segs ↔ el.Good stream (begins segs) ∧
      el.methodIn stream (begins segs) = el.methodIn stream (fun _ => 0) ∧
      el.versionIn stream (begins segs) = el.versionIn stream (fun _ => 0) ∧
      el.pathIn stream (begins segs) = el.pathIn stream (fun _ => 0) ∧
      el.queryIn stream (begins segs) = el.queryIn stream (fun _ => 0) ∧
      el.fragmentIn stream (begins segs) = el.fragmentIn stream (fun _ => 0) := by
  cases el with
  | method s e =>
    simp only [Element.Good, Nat.max_zero] at hgood
    simp only [Element.Survives, Element.Good, Element.methodIn, Element.versionIn, Element.pathIn, Element.queryIn,
      Element.fragmentIn, Option.some.injEq, Nat.max_zero, and_true]
    exact ⟨fun h => ⟨h ▸ hgood,h⟩,And.right⟩
  | version s e =>
    simp only [Element.Good, Nat.max_zero] at hgood
    simp only [Element.Survives, Element.Good, Element.methodIn, Element.versionIn, Element.pathIn, Element.queryIn,
      Element.fragmentIn, Nat.max_zero, true_and, and_true]
    exact ⟨fun h => ⟨h ▸ hgood,h⟩,And.right⟩
  | path s e | fragment s e =>
    simp only [Element.Survives, Element.Good, Element.methodIn, Element.versionIn, Element.pathIn, Element.queryIn,
      Element.fragmentIn, Option.some.injEq, true_and, and_true]
    exact (max_begins_iff hwithin.1 (Nat.le_of_lt hwithin.2)).symm
  | query s e =>
    simp only [Element.Survives, Element.Good, Element.methodIn, Element.versionIn, Element.pathIn, Element.queryIn,
      Element.fragmentIn, Option.some.injEq, true_and, and_true, Nat.zero_add, Nat.sub_zero]
    rw [← query_begins_iff hwithin.1]
    refine ⟨fun h => ⟨by rw [h]; exact hwithin.1,by rw [h]⟩,fun h => ?_⟩
    exact (slice_eq_iff (Nat.le_of_lt hwithin.2) h.1 hwithin.1).mp h.2
  | field ns ne vs ve =>
    simp [Element.Survives, Element.Good, Element.methodIn, Element.versionIn, Element.pathIn, Element.queryIn,
      Element.fragmentIn]

/-- When a head that completes in one read completes in several with the same request. -/
private theorem survives_iff {n : Nat} (hone : HeadComplete env [segs.flatten] n) :
    HeadComplete env segs n ∧ (headParsed env.uninitialised segs).data = (headParsed env.uninitialised [segs.flatten]).data ↔
      Survives env segs := by
  obtain ⟨cs,hcs⟩ := hone.ends
  rw [List.flatten_singleton] at hcs
  have hlength : headLength env.uninitialised segs.flatten = n := by rw [headLength, hcs]
  have hwithin := headElements_within env.uninitialised segs.flatten
  have hclean := And.intro hone.unthrown hone.fine
  rw [headParsed_one] at hclean ⊢
  have hgood := (deliver_all_iff rfl rfl _).mp hclean
  rw [deliver_all_data rfl hgood]
  have honce : Element.Once (headElements env.uninitialised segs.flatten) segs.flatten (begins segs) :=
    Element.once_walk ..
  constructor
  · rintro ⟨hn,hdata⟩
    have hgood' := (deliver_all_iff rfl rfl _).mp ⟨hn.unthrown,hn.fine⟩
    rw [headParsed, deliver_all_data rfl hgood'] at hdata
    obtain ⟨hm,hv,hp,hq,hf,hheaders⟩ := (Element.assign_all_eq_iff honce hgood' hgood rfl).mp hdata
    refine ⟨fun el hel => ?_,hheaders,hlength ▸ hn.room⟩
    exact (element_survives_iff (hwithin el hel) (hgood el hel)).mpr
      ⟨hgood' el hel,hm el hel,hv el hel,hp el hel,hq el hel,hf el hel⟩
  · intro hs
    have hel := fun el h => (element_survives_iff (hwithin el h) (hgood el h)).mp (hs.elements el h)
    have hgood' := fun el h => (hel el h).1
    have hdone : (headParsed env.uninitialised segs).thrown = none ∧ (headParsed env.uninitialised segs).error = 0 :=
      (deliver_all_iff rfl rfl _).mpr hgood'
    refine ⟨⟨⟨cs,hcs⟩,hdone.1,hdone.2,hlength ▸ hs.room⟩,?_⟩
    rw [headParsed, deliver_all_data rfl hgood']
    exact (Element.assign_all_eq_iff honce hgood' hgood rfl).mpr ⟨fun el h => (hel el h).2.1,fun el h => (hel el h).2.2.1,
      fun el h => (hel el h).2.2.2.1,fun el h => (hel el h).2.2.2.2.1,fun el h => (hel el h).2.2.2.2.2,hs.headers⟩

private theorem body_eq {r r' : HttpRequest} {b b' : Text} (hr : r.body = []) (hr' : r'.body = [])
    (h : { r with body := b } = { r' with body := b' }) : r = r' := by
  cases r
  cases r'
  simp_all

private theorem int_pos {n : Nat} (h : n ≤ recvMax) : n = 0 ∨ 0 < int n := by
  unfold recvMax at h
  rw [int_small (by omega)]
  omega

/-- What a call returns for a complete head with a body that has arrived. -/
private theorem outcome_iff {n : Nat} (hreads : Reads env.bufferSize segs) (hn : HeadComplete env segs n)
    (hsmall : segs.flatten.length ≤ recvMax) (R : HttpRequest) :
    (recvRequest env (segs.map .bytes)).outcome = .returned R ↔
      let P := (headParsed env.uninitialised segs).data
      bodyLength env P ≤ maxSize ∧ bodyLength env P ≤ segs.flatten.length - n ∧
        { P with body := (segs.flatten.drop n).take (bodyLength env P) } = R := by
  obtain ⟨_,h⟩ := recvRequest_complete hreads hn
  have houtcome := congrArg Prod.fst h
  dsimp only at houtcome ⊢
  rw [houtcome]
  by_cases hmax : maxSize < bodyLength env (headParsed env.uninitialised segs).data
  · rw [if_pos hmax]
    exact ⟨nofun,fun h => absurd h.1 (Nat.not_le.mpr hmax)⟩
  rw [if_neg hmax]
  by_cases hall : segs.flatten.length - n < bodyLength env (headParsed env.uninitialised segs).data
  · rw [if_pos hall]
    exact ⟨nofun,fun h => absurd h.2.1 (Nat.not_le.mpr hall)⟩
  rw [if_neg hall, if_pos (int_pos (by omega))]
  simp only [Outcome.returned.injEq]
  exact ⟨fun h => ⟨Nat.not_lt.mp hmax,Nat.not_lt.mp hall,h⟩,fun h => h.2.2⟩

private theorem not_returned_empty {R : HttpRequest} : (recvRequest env [.bytes []]).outcome ≠ .returned R := by
  unfold recvRequest
  rw [ReadLoop.run_closed (show read _ [.bytes []] = .got [] [] by simp [read])]
  intro h
  cases h

end

/-- A call that returns `R` and hands its callbacks only what lies inside the buffer. -/
def Gives (r : Received HttpRequest) (R : HttpRequest) : Prop := r.outcome = .returned R ∧ ∀ x ∈ r.reports, x.Inside

/-- Over every way to cut a request that is accepted in one read, the reads give the same request exactly
when it survives them, and then every pair of a callback lies inside its buffer. -/
theorem segmentation_iff {env : Surroundings} {bytes : Text} {R : HttpRequest} {segs : List Text}
    (hbytes : bytes.length ≤ min env.bufferSize recvMax) (hone : (recvRequest env [.bytes bytes]).outcome = .returned R)
    (hcut : segs.flatten = bytes) (hne : ∀ s ∈ segs, s ≠ []) :
    Gives (recvRequest env (segs.map .bytes)) R ↔ Survives env segs := by
  subst hcut
  have hreads : Reads env.bufferSize segs := fun s hs =>
    ⟨hne s hs,(List.sublist_flatten_of_mem hs).length_le.trans hbytes⟩
  have hreads1 : Reads env.bufferSize [segs.flatten] := by
    intro s hs
    obtain rfl := List.mem_singleton.mp hs
    exact ⟨fun hnil => not_returned_empty (hnil ▸ hone),hbytes⟩
  have hsmall : segs.flatten.length ≤ recvMax := by omega
  obtain ⟨n,hn1⟩ := recvRequest_head hreads1 hone
  obtain ⟨hmax,hall,hR⟩ := (outcome_iff hreads1 hn1 (by simpa using hsmall) R).mp hone
  rw [List.flatten_singleton] at hall hR
  rw [← survives_iff hn1]
  constructor
  · rintro ⟨hout,-⟩
    obtain ⟨n',hn⟩ := recvRequest_head hreads hout
    obtain rfl : n' = n := by
      obtain ⟨_,h⟩ := hn.ends
      obtain ⟨_,h1⟩ := hn1.ends
      rw [List.flatten_singleton, h] at h1
      exact (Stop.broke.inj h1).2
    obtain ⟨_,_,hR'⟩ := (outcome_iff hreads hn hsmall R).mp hout
    exact ⟨hn,body_eq (headParsed_body ..) (headParsed_body ..) (hR'.trans hR.symm)⟩
  · rintro ⟨hn,hdata⟩
    refine ⟨(outcome_iff hreads hn hsmall R).mpr ?_,(recvRequest_complete hreads hn).1⟩
    rw [hdata]
    exact ⟨hmax,hall,hR⟩

private def plainly : Surroundings := ⟨4096,fun _ => none,⟨0,false⟩⟩

/-- A path that comes in two reads, against the request the same bytes give in one. -/
theorem path_cut :
    let R := { HttpRequest.init with path := text "/abc" }
    (recvRequest plainly [.bytes (text "GET /abc HTTP/1.1\r\n\r\n")]).outcome = .returned R ∧
    (recvRequest plainly [.bytes (text "GET /ab"),.bytes (text "c HTTP/1.1\r\n\r\n")]).outcome =
      .returned { R with path := text "c" } ∧
    ¬Gives (recvRequest plainly [.bytes (text "GET /ab"),.bytes (text "c HTTP/1.1\r\n\r\n")]) R := by
  have hcut : (recvRequest plainly [.bytes (text "GET /ab"),.bytes (text "c HTTP/1.1\r\n\r\n")]).outcome =
      .returned { HttpRequest.init with path := text "c" } := by decide +kernel
  refine ⟨by decide +kernel,hcut,fun h => ?_⟩
  have := hcut.symm.trans h.1
  revert this
  decide +kernel

theorem segmentation_at_a_line :
    Gives (recvRequest plainly ([text "GET /abc HTTP/1.1\r\n",text "\r\n"].map .bytes)) { HttpRequest.init with path := text "/abc" } ↔
      Survives plainly [text "GET /abc HTTP/1.1\r\n",text "\r\n"] :=
  segmentation_iff (by decide)
    (show (recvRequest plainly [.bytes (text "GET /abc HTTP/1.1\r\n\r\n")]).outcome = _ by decide +kernel) (by decide) (by decide)

end Radixun.Http
