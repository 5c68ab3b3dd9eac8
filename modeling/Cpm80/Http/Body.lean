import Cpm80.Http.Message
import Cpm80.Http.MediaType
import Cpm80.Text.Numeral

/-!
# Bodies of requests

A body has to announce its length, and its media type has to be JSON if it has one. Its value
is a record: an object in which no field of the record stands twice and other fields are left
aside, or an array of all fields in order.
-/
namespace Cpm80.Http

/-- The largest body that is read, in bytes. -/
def maxBody : Nat := 1024 * 1024

/-- The length that a request announces. -/
def Request.contentLength? (r : Request) : Option Nat :=
  (r.header? "content-length").bind fun text => Numeral.bounded? 0xFFFFFFFFFFFFFFFF text.toList

def Request.hasJsonType (r : Request) : Bool :=
  match r.header? "content-type" with
  | some text => MediaType.isType "application" "json" text.toList
  | none => true

/-- The value in the body. -/
def Request.jsonBody (r : Request) : Except Rejection Json :=
  match r.contentLength? with
  | none => .error .lengthRequired
  | some length =>
    if maxBody < length then .error .bodyTooLarge
    else if !r.hasJsonType then .error .unsupportedMediaType
    else
      match Json.read? r.body with
      | some v => .ok v
      | none => .error .badRequest

/-- The fields with the given names of a record. -/
def record? (names : List String) : Json → Option (List (Option Json))
  | .array items => if items.length = names.length then some (items.map some) else none
  | .object fields =>
    if fields.all fun f => f.1.isSome then
      names.mapM fun name =>
        match fields.filter fun f => f.1 = some name with
        | [] => some none
        | [f] => some (some f.2)
        | _ => none
    else none
  | _ => none

/-- A field that may be missing or null. -/
def optional? {α : Type} (read : Json → Option α) : Option Json → Option (Option α)
  | none => some none
  | some .null => some none
  | some v => (read v).map some

/-- A number of at most `limit`. -/
def count? (limit : Nat) (v : Json) : Option Nat :=
  v.nat?.filter (· ≤ limit)

def word? (v : Json) : Option UInt16 :=
  (count? 65535 v).map UInt16.ofNat

def bytes? : Json → Option (List UInt8)
  | .array items => items.mapM fun v => (count? 255 v).map UInt8.ofNat
  | _ => none

end Cpm80.Http
