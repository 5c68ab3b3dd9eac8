import Cpm80.Http.MediaType
import Cpm80.Http.Target
import Cpm80.Json
import Cpm80.Text.Blank

/-!
# Requests and responses

A request is a method, a target, headers and a body; a response is a status with a JSON value,
a text or nothing. Names of headers are compared without regard to the case of letters.
-/
namespace Cpm80.Http

structure Request where
  method : String
  target : Target
  headers : List (String × String) := []
  body : List UInt8 := []

/-- The bytes of the value of a header. -/
def isHeaderByte (b : UInt8) : Bool :=
  b = 0x09 || 0x20 ≤ b && b ≠ 0x7F

/-- Whether the method and the names of headers are tokens, and the values of headers hold no
control characters but tabs. -/
def Request.isWellFormed (r : Request) : Bool :=
  let isName (s : String) : Bool := !s.isEmpty && s.toList.all isToken
  isName r.method &&
    r.headers.all fun h => isName h.1 && (Utf8.encode h.2.toList).all isHeaderByte

/-- The first header of a name, which is given in lower case. -/
def Request.header? (r : Request) (name : String) : Option String :=
  (r.headers.find? fun h => h.1.toList.map Char.toLower = name.toList).map Prod.snd

inductive Content
  | none
  | json (value : Json)
  | text (t : String)

structure Response where
  status : Nat
  content : Content := .none

/-- Why a request is turned away before anything is done. -/
inductive Rejection
  | badRequest
  | forbidden
  | notFound
  | methodNotAllowed
  | lengthRequired
  | bodyTooLarge
  | unsupportedMediaType
  deriving DecidableEq, Repr

def Rejection.status : Rejection → Nat
  | badRequest => 400
  | forbidden => 403
  | notFound => 404
  | methodNotAllowed => 405
  | lengthRequired => 411
  | bodyTooLarge => 413
  | unsupportedMediaType => 415

def Rejection.response (r : Rejection) : Response :=
  { status := r.status }

/-! ## Requests from other origins

A browser asks in advance whether a page from another origin may send a request. Any origin
may, with the methods and headers listed here; such a question is answered at once, whatever
its path.
-/

def sharedMethods : List String := ["GET", "POST", "DELETE"]

def sharedHeaders : List String := ["content-type"]

/-- Whether a request only asks if another may be sent. -/
def Request.isPreflight (r : Request) : Bool :=
  r.method = "OPTIONS" && (r.header? "origin").isSome

def isAscii (c : Char) : Bool :=
  c.toNat < 0x80

/-- Whether a name, with or without blanks around it, is that of a header listed here. -/
def isSharedHeader (name : List Char) : Bool :=
  sharedHeaders.contains (String.ofList ((Text.trim name).map Char.toLower))

/-- The answer to the question in advance. -/
def Request.preflight (r : Request) : Response :=
  let methodAllowed := (r.header? "access-control-request-method").any sharedMethods.contains
  let headersAllowed := match r.header? "access-control-request-headers" with
    | some names => names.toList.all isAscii && (partsAt ',' names.toList).all isSharedHeader
    | none => true
  if methodAllowed && headersAllowed then { status := 200 } else Rejection.forbidden.response

end Cpm80.Http
