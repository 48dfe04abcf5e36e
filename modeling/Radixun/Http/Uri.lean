import Radixun.Foundation.CString
import Radixun.Foundation.TextFrame
import Radixun.Http.HttpMessage
import Radixun.Http.UriMachine

/-! `Uri`: its parser, what the actions of the machine do to it, and its printed form. -/
namespace Radixun.Http
open Radixun.Foundation CString TextFrame

structure Uri where
  scheme : Text
  userinfo : Text
  host : Text
  path : Text
  query : Text
  fragment : Text
  port : Int
  deriving DecidableEq, Repr

namespace Uri

def init : Uri := ⟨[],[],[],[],[],[],0⟩

/-- A string made from `mark` while it is `NULL`, and a number read from there. -/
inductive Fault where
  | logicError
  | nullRead
  deriving DecidableEq, Repr

/-- The local variables of `Create`: `mark` as an offset into the text, and `uri`. -/
structure Scan where
  mark : Option Nat
  uri : Uri
  deriving DecidableEq, Repr

/-- `std::string(mark, fpc - mark)`. -/
def marked (s : Text) (mark : Option Nat) (p : Nat) : Except Fault Text :=
  match mark with
  | none => .error .logicError
  | some m => .ok ((s.drop m).take (p - m))

/-- One action of `uri.rl` with `fpc` at the offset `p`. -/
def act (s : Text) (x : Scan) (p : Nat) : UriMachine.Action → Except Fault Scan
  | .mark => .ok { x with mark := some p }
  | .saveScheme => (marked s x.mark p).map fun t => ⟨none,{ x.uri with scheme := t }⟩
  | .savePort =>
    match x.mark with
    | none => .error .nullRead
    | some m => .ok ⟨none,if p ≠ m then { x.uri with port := atoi (s.drop m) } else x.uri⟩
  | .saveUserinfo =>
    if x.mark.isSome then (marked s x.mark p).map fun t => ⟨none,{ x.uri with userinfo := t }⟩ else .ok ⟨none,x.uri⟩
  | .saveHost =>
    if x.mark.isSome then (marked s x.mark p).map fun t => { x with uri := { x.uri with host := t } } else .ok x
  | .savePath => (marked s x.mark p).map fun t => ⟨none,{ x.uri with path := t }⟩
  | .saveQuery => (marked s x.mark p).map fun t => ⟨none,{ x.uri with query := t }⟩
  | .saveFragment => (marked s x.mark p).map fun t => ⟨none,{ x.uri with fragment := t }⟩

/-- The actions of a walk over the text, up to an exception. -/
def perform (s : Text) : List (Nat × UriMachine.Action) → Scan → Except Fault Scan
  | [], x => .ok x
  | (p,a) :: es, x =>
    match act s x p a with
    | .error e => .error e
    | .ok x => perform s es x

def start : Nat := 451
def firstFinal : Nat := 451

/-- The actions of the whole text: along its walk, and at its end where the walk gets there. -/
def trace (cs p : Nat) (xs : Text) : List (Nat × UriMachine.Action) :=
  match (UriMachine.uriMachine.walk cs p xs).stop with
  | .more cs' => UriMachine.uriMachine.events cs p xs ++ (UriMachine.eofActions cs').map fun a => (p + xs.length,a)
  | _ => UriMachine.uriMachine.events cs p xs

/-- Whether the walk ends in a final state. -/
def accepts (s : Text) : Bool :=
  match (UriMachine.uriMachine.walk start 0 s).stop with
  | .more cs => firstFinal ≤ cs
  | _ => false

/-- `Create`, with nothing for `nullptr`. -/
def create (s : Text) : Except Fault (Option Uri) :=
  (perform s (trace start 0 s) ⟨none,init⟩).map fun x => if accepts s then some x.uri else none

def isDefaultPort (u : Uri) : Bool :=
  if u.port = 0 then true
  else if u.scheme = text "http" then u.port = 80
  else if u.scheme = text "https" then u.port = 443
  else false

def getPath (u : Uri) : Text := if u.path = [] then text "/" else u.path

def getPort (u : Uri) : Int :=
  if u.port ≠ 0 then u.port
  else if u.scheme = text "http" then 80
  else if u.scheme = text "https" then 443
  else u.port

/-- `std::to_string`. -/
def printInt (n : Int) : Text := if n < 0 then text "-" ++ decimal n.natAbs else decimal n.natAbs

/-- `toString`, which is what `dump` writes. -/
def toText (u : Uri) : Text :=
  u.scheme ++ text "://" ++ u.userinfo ++ (if u.userinfo = [] then [] else text "@") ++ u.host ++
    (if u.isDefaultPort then [] else text ":" ++ printInt u.port) ++ u.getPath ++
    (if u.query = [] then [] else text "?") ++ u.query ++ (if u.fragment = [] then [] else text "#") ++ u.fragment

end Uri
end Radixun.Http
