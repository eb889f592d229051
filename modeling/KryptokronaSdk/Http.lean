import KryptokronaSdk.JobRuns
import KryptokronaSdk.JsonDocument

/-!
# The HTTP layer

`http.common.get` makes a GET request through the shared client and suspends
until the response is there; `body()` suspends while the content of a response
is decoded to the type asked for, which is the nullable return type of the
method.  These are the two suspension points of the clients;
`http.common.post`, which no client uses, has its own.  Requesting, receiving
and decoding are library code: what comes back at a suspension point is a reply
of the environment, and decoding is a parameter, `ContentNegotiation`.

The client is built without a response validator, so a response of any
status is handed on, and its content is decoded whatever the status.
-/

namespace Kryptokrona

open Coroutine Serialization

/-- A line written by `logger.error(message, e)` of the named logger. -/
structure LogLine where
  logger : String
  message : String
  cause : Throwable
deriving DecidableEq, Repr

/-- A status code, and what the library's `isSuccess()` says of it. -/
structure HttpStatusCode where
  value : Int32
  isSuccess : Bool
deriving DecidableEq, Repr

/-- What a response carries: a JSON document, or anything else. -/
inductive Content
  | json (document : JsonElement)
  | other (text : String)

structure HttpResponse where
  status : HttpStatusCode
  content : Content

/-- A GET request. -/
structure HttpRequest where
  url : String
  headers : List (String × String)
deriving DecidableEq, Repr

/-- The suspension points: `client.get` with a request, and the decoding of a
body at the nullable type of a descriptor. -/
inductive HttpOp
  | request (request : HttpRequest)
  | body (response : HttpResponse) (d : Descriptor)

/-- What a suspension point is resumed with when nothing is thrown. -/
abbrev HttpOp.Result : HttpOp → Type
  | .request _ => HttpResponse
  | .body _ d => Option d.Value

/-- The suspending computations of the SDK. -/
abbrev SuspendFun (α : Type) := Suspend HttpOp.Result LogLine α

/-- `http.common.get`.  What it throws before it suspends, as for an address that
cannot be parsed, is a reply at its suspension point too. -/
def get (url : String) : SuspendFun HttpResponse :=
  Suspend.suspend (HttpOp.request ⟨url, [("Accept", "application/json")]⟩)

/-- A POST request with a JSON body. -/
structure HttpPostRequest where
  url : String
  contentType : String
  body : JsonElement

/-- The suspension point of `http.common.post`. -/
inductive PostOp
  | post (request : HttpPostRequest)

abbrev PostOp.Result : PostOp → Type
  | .post _ => HttpResponse

/-- `http.common.post` of an instance of a `@Serializable` class, which
`writer` encodes. -/
def post {α : Type} [Serializable α] [SerialForm α] (writer : JsonWriter) (url : String)
    (body : α) : Suspend PostOp.Result LogLine HttpResponse :=
  Suspend.suspend (PostOp.post
    { url := url
      contentType := "application/json"
      body := writer.write (Serializable.descriptor α) (SerialForm.toValue body) })

/-- `HttpResponse.body<T?>()`. -/
def HttpResponse.body (α : Type) [Serializable α] (response : HttpResponse) :
    SuspendFun (Option α) := do
  let value ← Suspend.suspend (HttpOp.body response (Serializable.descriptor α))
  return value.map Serializable.ofValue

/-- The content negotiation of the client: JSON documents go to the JSON
format, and what it makes of other content is open. -/
structure ContentNegotiation where
  json : JsonFormat Throwable
  receiveOther : (d : Descriptor) → String → Except Throwable (Option d.Value)

/-- What decoding the content of a response to a nullable type comes to.  A
bare `null` is decoded to `null`. -/
def ContentNegotiation.receive (negotiation : ContentNegotiation) (d : Descriptor) :
    Content → Except Throwable (Option d.Value)
  | .json .null => .ok none
  | .json document => some <$> negotiation.json.decode d document
  | .other text => negotiation.receiveOther d text

/-- A value is received from a document that is decoded to it and is more than a
bare `null`. -/
theorem receive_eq_some_iff {negotiation : ContentNegotiation} {d : Descriptor}
    {document : JsonElement} {v : d.Value} :
    negotiation.receive d (.json document) = .ok (some v) ↔
      document ≠ .null ∧ negotiation.json.decode d document = .ok v := by
  by_cases hnull : document = .null
  · subst hnull
    refine iff_of_false (fun h => ?_) (fun h => h.1 rfl)
    cases h
  · have hreceive : negotiation.receive d (.json document) =
        some <$> negotiation.json.decode d document := by
      cases document with
      | null => exact absurd rfl hnull
      | boolean | number | decimal | string | array | object => rfl
    rw [hreceive, and_iff_right hnull]
    cases negotiation.json.decode d document with
    | ok value => exact ⟨fun h => by cases h; rfl, fun h => by cases h; rfl⟩
    | error e => exact iff_of_false (fun h => by cases h) (fun h => by cases h)

/-- The strict JSON format, and no other content understood. -/
def strictNegotiation : ContentNegotiation where
  json := strictJson Throwable.exception
  receiveOther := fun _ _ => .error (.exception "NoTransformationFoundException")

/-- The replies of the environment: a response to a request, the decoding of
a body, or at either point a failure.  An `ioFailure` is any `Exception` that
is not the cancellation, thrown before the operation suspends (an address that
cannot be parsed) or after; a `fatal` one is an `Error`. -/
inductive HttpReply : HttpOp → Type
  | response {request : HttpRequest} (response : HttpResponse) :
      HttpReply (.request request)
  | decode {response : HttpResponse} {d : Descriptor} : HttpReply (.body response d)
  | ioFailure {op : HttpOp} (name : String) : HttpReply op
  | fatal {op : HttpOp} (name : String) : HttpReply op

/-- What a reply resumes the suspension point with. -/
def HttpReply.result (negotiation : ContentNegotiation) :
    {op : HttpOp} → HttpReply op → Except Throwable op.Result
  | .request _, .response answer => .ok answer
  | .body received d, .decode => negotiation.receive d received.content
  | _, .ioFailure name => .error (.exception name)
  | _, .fatal name => .error (.error name)

/-- Any reply may come at any time. -/
def httpEnvironment (negotiation : ContentNegotiation) : Environment HttpOp.Result where
  Reply := HttpReply
  result := HttpReply.result negotiation

/-- A request is a cancellable operation.  Decoding need not look at the
Job. -/
def HttpOp.Cancellable : HttpOp → Prop
  | .request _ => True
  | .body _ _ => False

/-- The exchange in which the node answers with `response` and nothing fails
on the way. -/
def exchange (response : HttpResponse) : (op : HttpOp) → HttpReply op
  | .request _ => .response response
  | .body _ _ => .decode

/-- The outcome of a call whose exchange delivers `response`. -/
def onResponse (negotiation : ContentNegotiation) (response : HttpResponse) {α : Type}
    (p : SuspendFun α) : Except Throwable α :=
  p.run fun op => (exchange response op).result negotiation

end Kryptokrona
