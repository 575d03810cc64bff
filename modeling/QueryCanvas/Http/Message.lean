/-
  QueryCanvas.Http.Message

  Requests to web services and their answers.
-/

import QueryCanvas.Http.Address

namespace QueryCanvas.Http

/-! ## Requests -/

/-- How a request is made. -/
inductive Method
  | get
  | post
deriving DecidableEq, Repr

def Method.name : Method → String
  | get => "GET"
  | post => "POST"

/-- A request as it is sent. -/
structure Request where
  method : Method
  address : Address
  /-- The media types that are accepted. -/
  accept : String
  /-- The media type of the body, if there is a body. -/
  contentType : Option String
  body : String
deriving DecidableEq, Repr

/-- True for the blanks that may stand around the value of a header. -/
def isHeaderBlank (c : Char) : Bool := c = ' ' || c = '\t'

/-- The value of a header, without blanks around it. Control characters other than the tab are not
    allowed in headers. -/
def headerValue? (s : String) : Option String :=
  if s.toList.all fun c => c = '\t' || (0x20 ≤ c.toNat && c.toNat ≠ 0x7F) then
    let front := s.toList.dropWhile isHeaderBlank
    some (String.ofList (front.reverse.dropWhile isHeaderBlank).reverse)
  else none

namespace Request

/-- Asks for a resource in any form. -/
def get (address : Address) : Request := ⟨.get, address, "*/*", none, ""⟩

/-- Sends one form field. -/
def form (address : Address) (accept name value : String) : Request :=
  ⟨.post, address, accept, some "application/x-www-form-urlencoded", Text.formField name value⟩

end Request

/-! ## Answers -/

/-- The answer to a request. -/
structure Response where
  status : Nat
  body : String
deriving DecidableEq, Repr

namespace Response

/-- True for the statuses that tell of success. -/
def isSuccess (r : Response) : Bool := 200 ≤ r.status && r.status < 300

/-- The content of an answer. Two statuses say that there is none, whatever stands behind them. -/
def content (r : Response) : String := if r.status = 204 || r.status = 304 then "" else r.body

/-- The content for display, without the mark that may stand in front of a text to tell its
    encoding. -/
def message (r : Response) : String :=
  match r.content.toList with
  | '\uFEFF' :: rest => String.ofList rest
  | cs => String.ofList cs

end Response

end QueryCanvas.Http
