import Radixun.Http.HttpMessage

/-! The accessors of an `HttpRequest` to its three maps, and what the typed ones read. -/
namespace Radixun.Http
open Radixun.Foundation CString

/-- Whether there is a value that converts, and that value or the default. -/
def checkGetAs {T : Type} (cast : Text → Option T) (m : MapType) (key : Text) (default : T) : Bool × T :=
  match m.find key with
  | none => (false,default)
  | some it =>
    match cast it.2 with
    | some v => (true,v)
    | none => (false,default)

def getOr (m : MapType) (key default : Text) : Text :=
  match m.find key with
  | none => default
  | some it => it.2

/-- Whether the key is there, and what is behind `val` afterwards, if `val` is no null pointer. -/
def hasIn (m : MapType) (key : Text) (val : Option Text) : Bool × Option Text :=
  match m.find key with
  | none => (false,val)
  | some it => (true,val.map fun _ => it.2)

namespace HttpRequest
variable {T : Type}

def getHeader (r : HttpRequest) (key default : Text) : Text := getOr r.headers key default
def getParam (r : HttpRequest) (key default : Text) : Text := getOr r.params key default
def getCookie (r : HttpRequest) (key default : Text) : Text := getOr r.cookies key default

def setHeader (r : HttpRequest) (key val : Text) : HttpRequest := { r with headers := r.headers.put key val }
def setParam (r : HttpRequest) (key val : Text) : HttpRequest := { r with params := r.params.put key val }
def setCookie (r : HttpRequest) (key val : Text) : HttpRequest := { r with cookies := r.cookies.put key val }

def delHeader (r : HttpRequest) (key : Text) : HttpRequest := { r with headers := r.headers.erase key }
def delParam (r : HttpRequest) (key : Text) : HttpRequest := { r with params := r.params.erase key }
def delCookie (r : HttpRequest) (key : Text) : HttpRequest := { r with cookies := r.cookies.erase key }

def hasHeader (r : HttpRequest) (key : Text) (val : Option Text) : Bool × Option Text := hasIn r.headers key val
def hasParam (r : HttpRequest) (key : Text) (val : Option Text) : Bool × Option Text := hasIn r.params key val
def hasCookie (r : HttpRequest) (key : Text) (val : Option Text) : Bool × Option Text := hasIn r.cookies key val

def checkGetHeaderAs (cast : Text → Option T) (r : HttpRequest) (key : Text) (default : T) : Bool × T :=
  checkGetAs cast r.headers key default
def getHeaderAs (cast : Text → Option T) (r : HttpRequest) (key : Text) (default : T) : T :=
  getAs cast r.headers key default

/-- Looks in the headers. -/
def checkGetParamAs (cast : Text → Option T) (r : HttpRequest) (key : Text) (default : T) : Bool × T :=
  checkGetAs cast r.headers key default
def getParamAs (cast : Text → Option T) (r : HttpRequest) (key : Text) (default : T) : T :=
  getAs cast r.headers key default

/-- Looks in the headers. -/
def checkGetCookieAs (cast : Text → Option T) (r : HttpRequest) (key : Text) (default : T) : Bool × T :=
  checkGetAs cast r.headers key default
def getCookieAs (cast : Text → Option T) (r : HttpRequest) (key : Text) (default : T) : T :=
  getAs cast r.headers key default

end HttpRequest

inductive MapName where
  | header | param | cookie
  deriving DecidableEq, Repr

inductive MapCall where
  | setHeader (key val : Text) | delHeader (key : Text)
  | setParam (key val : Text) | delParam (key : Text)
  | setCookie (key val : Text) | delCookie (key : Text)

/-- The map a call is for. -/
def MapCall.on : MapCall → MapName
  | .setHeader .. | .delHeader _ => .header
  | .setParam .. | .delParam _ => .param
  | .setCookie .. | .delCookie _ => .cookie

def HttpRequest.map (r : HttpRequest) : MapName → MapType
  | .header => r.headers
  | .param => r.params
  | .cookie => r.cookies

def HttpRequest.call (r : HttpRequest) : MapCall → HttpRequest
  | .setHeader key val => r.setHeader key val
  | .delHeader key => r.delHeader key
  | .setParam key val => r.setParam key val
  | .delParam key => r.delParam key
  | .setCookie key val => r.setCookie key val
  | .delCookie key => r.delCookie key

def HttpRequest.after (r : HttpRequest) (calls : List MapCall) : HttpRequest := calls.foldl HttpRequest.call r

/-- What the accessors of one map return for a key: whether it is there, its text, and the typed results. -/
structure Readings (T : Type) where
  has : Bool
  get : Text
  check : Bool × T
  getAs : T

/-- The typed results are those of the text: the converted value if there is one, else the default. -/
structure Readings.Typed {T : Type} (x : Readings T) (cast : Text → Option T) (default : T) : Prop where
  succeeds : x.check.1 = true ↔ x.has = true ∧ (cast x.get).isSome = true
  value : ∀ v, x.has = true → cast x.get = some v → x.check.2 = v ∧ x.getAs = v
  fallback : ¬(x.has = true ∧ (cast x.get).isSome = true) → x.check.2 = default ∧ x.getAs = default

section
variable {T : Type} (cast : Text → Option T) (key : Text) (default : T)

def HttpRequest.readings (r : HttpRequest) : MapName → Readings T
  | .header => ⟨(r.hasHeader key none).1,r.getHeader key [],r.checkGetHeaderAs cast key default,r.getHeaderAs cast key default⟩
  | .param => ⟨(r.hasParam key none).1,r.getParam key [],r.checkGetParamAs cast key default,r.getParamAs cast key default⟩
  | .cookie => ⟨(r.hasCookie key none).1,r.getCookie key [],r.checkGetCookieAs cast key default,r.getCookieAs cast key default⟩

/-- In every state of a history the typed accessors read their own map, and no call changes what is read
from another map. -/
structure ReadsOwnMaps (r : HttpRequest) (calls : List MapCall) : Prop where
  own : ∀ done, done <+: calls → ∀ w, ((r.after done).readings cast key default w).Typed cast default
  frame : ∀ done c, done ++ [c] <+: calls → ∀ w, c.on ≠ w →
    (r.after (done ++ [c])).readings cast key default w = (r.after done).readings cast key default w

/-- The readings of one map by all accessors. -/
def Readings.of (m : MapType) : Readings T :=
  ⟨(hasIn m key none).1,getOr m key [],checkGetAs cast m key default,Http.getAs cast m key default⟩

/-- What a key has in a map, converted. -/
def converted (m : MapType) : Option T := (m.find key).bind fun it => cast it.2

end

section
variable {T : Type} {cast : Text → Option T} {key : Text} {default : T}

theorem checkGetAs_converted (m : MapType) :
    checkGetAs cast m key default = ((converted cast key m).isSome,(converted cast key m).getD default) := by
  rw [checkGetAs, converted]
  cases m.find key with
  | none => rfl
  | some it =>
    dsimp only [Option.bind_some]
    cases cast it.2 <;> rfl

theorem getAs_converted (m : MapType) : getAs cast m key default = (converted cast key m).getD default := by
  rw [getAs, converted]
  cases m.find key <;> rfl

/-- The typed results of a lookup are determined by what is found. -/
theorem typed_iff (m : MapType) (check : Bool × T) (as : T) :
    Readings.Typed ⟨(hasIn m key none).1,getOr m key [],check,as⟩ cast default ↔
      check = checkGetAs cast m key default ∧ as = getAs cast m key default := by
  have hfound : (hasIn m key none).1 = true ∧ (cast (getOr m key [])).isSome = true ↔ (converted cast key m).isSome = true := by
    rw [hasIn, getOr, converted]
    cases m.find key with
    | none => simp
    | some it => simp
  have hvalue : ∀ v, (hasIn m key none).1 = true ∧ cast (getOr m key []) = some v ↔ converted cast key m = some v := by
    intro v
    rw [hasIn, getOr, converted]
    cases m.find key with
    | none => simp
    | some it => simp
  rw [checkGetAs_converted, getAs_converted]
  constructor
  · rintro ⟨hsucceeds,hval,hfallback⟩
    rw [hfound] at hsucceeds hfallback
    cases hc : converted cast key m with
    | none =>
      rw [hc] at hsucceeds hfallback
      obtain ⟨h2,has⟩ := hfallback (by simp)
      refine ⟨Prod.ext ?_ h2,has⟩
      simpa using hsucceeds
    | some v =>
      rw [hc] at hsucceeds
      obtain ⟨hhas,hcast⟩ := (hvalue v).mpr hc
      obtain ⟨h2,has⟩ := hval v hhas hcast
      refine ⟨Prod.ext ?_ h2,has⟩
      simpa using hsucceeds
  · rintro ⟨rfl,rfl⟩
    refine ⟨hfound.symm,?_,?_⟩
    · intro v hhas hcast
      have hc := (hvalue v).mp ⟨hhas,hcast⟩
      simp [hc]
    · intro hn
      rw [hfound] at hn
      simp [Option.not_isSome_iff_eq_none.mp hn]

/-- One map answers for another if it has the same converted value. -/
theorem same_converted (default : T) (m m' : MapType) :
    checkGetAs cast m key default = checkGetAs cast m' key default ∧ getAs cast m key default = getAs cast m' key default ↔
      converted cast key m = converted cast key m' := by
  rw [checkGetAs_converted, checkGetAs_converted, getAs_converted, getAs_converted]
  constructor
  · rintro ⟨hcheck,_⟩
    obtain ⟨hsome,hget⟩ := Prod.mk.inj hcheck
    cases hc : converted cast key m <;> cases hc' : converted cast key m' <;> simp_all
  · intro h
    rw [h]
    exact ⟨rfl,rfl⟩

/-- Right results are those of the own map. -/
theorem typed_readings (r : HttpRequest) (w : MapName) :
    (r.readings cast key default w).Typed cast default ↔
      r.readings cast key default w = .of cast key default (r.map w) := by
  have hmap : ∀ (m : MapType) (check : Bool × T) (as : T),
      Readings.Typed ⟨(hasIn m key none).1,getOr m key [],check,as⟩ cast default ↔
        (⟨(hasIn m key none).1,getOr m key [],check,as⟩ : Readings T) = .of cast key default m := by
    intro m check as
    rw [typed_iff, Readings.of, Readings.mk.injEq]
    simp only [true_and]
  cases w <;> exact hmap _ _ _

theorem map_call {c : MapCall} {w : MapName} (r : HttpRequest) (h : c.on ≠ w) : (r.call c).map w = r.map w := by
  cases c <;> cases w <;> first | rfl | exact absurd rfl h

/-- In one state: the headers are always read right, the others if the headers say the same. -/
theorem reads_own_iff (r : HttpRequest) :
    (∀ w, (r.readings cast key default w).Typed cast default) ↔
      converted cast key r.headers = converted cast key r.params ∧
        converted cast key r.headers = converted cast key r.cookies := by
  rw [← same_converted default, ← same_converted default, ← typed_iff, ← typed_iff]
  constructor
  · intro h
    exact ⟨h .param,h .cookie⟩
  · rintro ⟨hparam,hcookie⟩ w
    cases w with
    | header => exact (typed_readings r .header).mpr rfl
    | param => exact hparam
    | cookie => exact hcookie

/-- The typed accessors read their own maps along a history exactly if in every state of it the header, the
parameter and the cookie of the key convert to the same value, or none of them does. -/
theorem reads_own_maps_iff (cast : Text → Option T) (key : Text) (default : T) (r : HttpRequest) (calls : List MapCall) :
    ReadsOwnMaps cast key default r calls ↔ ∀ done, done <+: calls →
      converted cast key (r.after done).headers = converted cast key (r.after done).params ∧
        converted cast key (r.after done).headers = converted cast key (r.after done).cookies := by
  constructor
  · intro h done hdone
    exact (reads_own_iff (r.after done)).mp (h.own done hdone)
  · intro h
    have hown : ∀ done, done <+: calls → ∀ w, ((r.after done).readings cast key default w).Typed cast default :=
      fun done hdone => (reads_own_iff (r.after done)).mpr (h done hdone)
    refine ⟨hown,?_⟩
    intro done c hdone w hw
    have hbefore : done <+: calls := (List.prefix_append done [c]).trans hdone
    have hcall : r.after (done ++ [c]) = (r.after done).call c := by simp [HttpRequest.after]
    rw [(typed_readings _ w).mp (hown _ hdone w), (typed_readings _ w).mp (hown done hbefore w), hcall, map_call _ hw]

end

/-- A parameter that is there is not found. -/
theorem param_unread : ¬ReadsOwnMaps some (text "id") [] .init [.setParam (text "id") (text "7")] := by
  intro h
  have hparam := h.own _ List.prefix_rfl .param
  have hseven := (hparam.value (text "7") (by decide) (by decide)).2
  exact absurd hseven (by decide)

end Radixun.Http
