import Towing.Process.Lift
import Towing.Process.Moments
import Mathlib.Data.List.Sort
import Mathlib.Data.Rat.Defs
import Mathlib.Logic.Function.Basic

namespace Towing.Common

open Towing.Process

mutual
/-- What `JSON.parse` answers; a number too large for a double is infinite. -/
inductive Json
  | null
  | bool (b : Bool)
  | number (x : ℚ)
  | infinity (negative : Bool)
  | string (s : String)
  | array (items : List Json)
  | object (members : List Member)

inductive Member
  | mk (key : String) (value : Json)
end

def Member.key : Member → String
  | .mk key _ => key

mutual
/-- The value with the members of its objects in order, those that `keep` leaves. -/
def Json.ordered (keep : String → Bool) : Json → Json
  | .array items => .array (orderedItems keep items)
  | .object members => .object ((orderedMembers keep members).insertionSort fun m n ↦ m.key ≤ n.key)
  | value => value
termination_by structural value => value

def orderedItems (keep : String → Bool) : List Json → List Json
  | [] => []
  | item :: items => item.ordered keep :: orderedItems keep items
termination_by structural items => items

def orderedMembers (keep : String → Bool) : List Member → List Member
  | [] => []
  | member :: members =>
    if keep member.key then member.ordered keep :: orderedMembers keep members else orderedMembers keep members
termination_by structural members => members

def Member.ordered (keep : String → Bool) : Member → Member
  | .mk key value => .mk key (value.ordered keep)
termination_by structural member => member
end

mutual
/-- What `JSON.stringify` shows of the value. -/
def Json.stringified : Json → Json
  | .array items => .array (stringifiedItems items)
  | .object members => .object (stringifiedMembers members)
  | .infinity _ => .null
  | value => value
termination_by structural value => value

def stringifiedItems : List Json → List Json
  | [] => []
  | item :: items => item.stringified :: stringifiedItems items
termination_by structural items => items

def stringifiedMembers : List Member → List Member
  | [] => []
  | member :: members => member.stringified :: stringifiedMembers members
termination_by structural members => members

def Member.stringified : Member → Member
  | .mk key value => .mk key value.stringified
termination_by structural member => member
end

/-- Setting `__proto__` on the accumulator adds no member to it. -/
def canonicalize (value : Json) : Json := value.ordered (· ≠ "__proto__")

/-- JSON values that differ in the order of members only. -/
def Json.Same (value value' : Json) : Prop := value.ordered (fun _ ↦ true) = value'.ordered fun _ ↦ true

/-- The body as it is sent. What the body parsers in front of the interceptor do not
parse, such as an upload, is not on the request yet. -/
inductive Body
  | parsed (value : Json)
  | unparsed (bytes : String)

/-- `req.body ?? null`. -/
def Body.onRequest : Body → Json
  | .parsed value => value
  | .unparsed _ => .null

def Body.Same : Body → Body → Prop
  | .parsed value, .parsed value' => value.Same value'
  | .unparsed bytes, .unparsed bytes' => bytes = bytes'
  | _, _ => False

inductive Method
  | GET
  | HEAD
  | OPTIONS
  | POST
  | PATCH
  | PUT
  | DELETE
deriving DecidableEq

def Method.name : Method → String
  | .GET => "GET"
  | .HEAD => "HEAD"
  | .OPTIONS => "OPTIONS"
  | .POST => "POST"
  | .PATCH => "PATCH"
  | .PUT => "PUT"
  | .DELETE => "DELETE"

/-- `MUTATING_METHODS`. -/
def Method.mutating : Method → Bool
  | .POST | .PATCH | .PUT | .DELETE => true
  | _ => false

structure Auth where
  fleetId : Option String
  sub : String

structure HttpRequest where
  auth : Option Auth
  method : Method
  originalUrl : String
  query : Json
  body : Body
  /-- The `Idempotency-Key` header, trimmed, where there is one that is not blank. -/
  clientKey : Option String

namespace HttpRequest

def tenant (req : HttpRequest) : String :=
  ((req.auth.bind (·.fleetId)) <|> (req.auth.map (·.sub))).getD "anon"

/-- The URL up to its query. -/
def path (req : HttpRequest) : List Char := req.originalUrl.toList.takeWhile (· ≠ '?')

/-- The same body and the same query. -/
def Same (req req' : HttpRequest) : Prop := req.query.Same req'.query ∧ req.body.Same req'.body

/-- The query and the body as the fingerprint is made of them. -/
def text (req : HttpRequest) : Json × Json :=
  ((canonicalize req.query).stringified, (canonicalize req.body.onRequest).stringified)

end HttpRequest

variable {ω τ ε η β α : Type}

def fingerprint (sha256 : Json × Json → η) (req : HttpRequest) : η := sha256 req.text

/-- `idem:tenant:method:path:digest`, as its characters. -/
def buildKey (sha256 : String → String) (req : HttpRequest) (clientKey : String) : List Char :=
  "idem:".toList ++ req.tenant.toList ++ ':' :: req.method.name.toList ++ ':' :: req.path ++
    ':' :: (sha256 clientKey).toList

/-- The slot of a request that the interceptor is about. -/
def HttpRequest.slot (sha256 : String → String) (req : HttpRequest) : Option (List Char) :=
  match req.clientKey with
  | none => none
  | some clientKey => if req.method.mutating then some (buildKey sha256 req clientKey) else none

/-- What the digests are relied on for: they are hexadecimal, and different for different
keys, as for different texts, of the requests that are asked. -/
structure Digests (shaKey : String → String) (shaBody : Json × Json → η) (Asks : HttpRequest → Prop) : Prop where
  hex (clientKey : String) : ':' ∉ (shaKey clientKey).toList
  key (req req' : HttpRequest) (clientKey clientKey' : String) : Asks req → Asks req' →
    req.clientKey = some clientKey → req'.clientKey = some clientKey' → shaKey clientKey = shaKey clientKey' →
    clientKey = clientKey'
  body (req req' : HttpRequest) : Asks req → Asks req' → fingerprint shaBody req = fingerprint shaBody req' →
    req.text = req'.text

def inFlightTtlSeconds : ℕ := 90

def completedTtlSeconds : ℕ := 60 * 60 * 24

/-- `IdempotencyRecord`. -/
inductive IdempotencyRecord (η β : Type)
  | inFlight (requestHash : η) (holder : ℕ)
  | completed (requestHash : η) (status : ℕ) (body : β)

namespace IdempotencyRecord

def requestHash : IdempotencyRecord η β → η
  | .inFlight hash _ | .completed hash _ _ => hash

/-- Whether it is the marker, byte for byte. -/
def isMarker [DecidableEq η] (hash : η) (holder : ℕ) : IdempotencyRecord η β → Bool
  | .inFlight hash' holder' => hash' = hash && holder' = holder
  | .completed _ _ _ => false

end IdempotencyRecord

/-- What a request is answered with. -/
inductive Reply (ε β : Type)
  | handled (result : Except ε (ℕ × β))
  | replayed (status : ℕ) (body : β)
  | replayMismatch
  | stillProcessed

/-- Redis, as far as the interceptor goes, beside what the handlers work on. -/
structure Interception (η β τ : Type) where
  now : ℕ
  /-- The holder `randomUUID` draws next. -/
  nextHolder : ℕ
  records : List Char → Option (IdempotencyRecord η β × ℕ)
  inner : τ

inductive InterceptStep (ω ε η β : Type)
  /-- A request that has a slot draws its holder. -/
  | randomUUID (req : HttpRequest)
  | setNX (key : List Char) (hash : η) (holder : ℕ)
  | get (key : List Char)
  | work (l : ω)
  /-- The handler is over. -/
  | finish (key : List Char)
  | complete (key : List Char) (hash : η) (holder status : ℕ) (body : β)
  | release (key : List Char) (hash : η) (holder : ℕ)
  /-- The reply leaves the server. -/
  | respond (req : HttpRequest) (reply : Reply ε β)
  | tick (ms : ℕ)

namespace Interception

variable [DecidableEq η] (w : Interception η β τ)

omit [DecidableEq η] in
/-- An expired record is not there. -/
def record (key : List Char) : Option (IdempotencyRecord η β) :=
  ((w.records key).filter fun r ↦ w.now < r.2).map (·.1)

omit [DecidableEq η] in
def put (key : List Char) (record : IdempotencyRecord η β) (seconds : ℕ) : Interception η β τ :=
  { w with records := Function.update w.records key (some (record, w.now + seconds * 1000)) }

/-- `COMPLETE_SCRIPT` stores where the key is gone or the marker is its own. -/
def mayComplete (key : List Char) (hash : η) (holder : ℕ) : Bool :=
  (w.record key).all (·.isMarker hash holder)

/-- `RELEASE_SCRIPT` deletes its own marker only. -/
def mayRelease (key : List Char) (hash : η) (holder : ℕ) : Bool :=
  (w.record key).any (·.isMarker hash holder)

def run [Store ω τ] : InterceptStep ω ε η β → Interception η β τ
  | .randomUUID _ => { w with nextHolder := w.nextHolder + 1 }
  | .setNX key hash holder =>
    if (w.record key).isNone then w.put key (.inFlight hash holder) inFlightTtlSeconds else w
  | .work l => { w with inner := Store.commit l w.inner }
  | .complete key hash holder status body =>
    if w.mayComplete key hash holder then w.put key (.completed hash status body) completedTtlSeconds else w
  | .release key hash holder =>
    if w.mayRelease key hash holder then { w with records := Function.update w.records key none } else w
  | .tick ms => { w with now := w.now + ms }
  | .get _ | .finish _ | .respond _ _ => w

end Interception

instance [Store ω τ] [DecidableEq η] : Store (InterceptStep ω ε η β) (Interception η β τ) where
  commit l w := w.run l

abbrev InterceptRequest (ω τ ε η β α : Type) := Proc (InterceptStep ω ε η β) (Interception η β τ) ε α

namespace IdempotencyInterceptor

/-- A handler, which works on the inner store only. -/
def handler (p : Proc ω τ ε α) : InterceptRequest ω τ ε η β α := p.lift InterceptStep.work Interception.inner

/-- The record that holds the slot, or `none` where the marker was won. -/
def acquire (key : List Char) (hash : η) (holder : ℕ) :
    ℕ → InterceptRequest ω τ ε η β (Option (IdempotencyRecord η β))
  | 0 => pure (some (.inFlight hash holder))
  | attempts + 1 => do
    let won ← Proc.query (.setNX key hash holder) fun w ↦ (w.record key).isNone
    if won then pure none
    else do
      let raw ← Proc.query (.get key) fun w ↦ w.record key
      match raw with
      | none => acquire key hash holder attempts
      | some record => pure (some record)

/-- What who has not won the marker is answered. -/
def judge [DecidableEq η] (hash : η) (existing : IdempotencyRecord η β) : Reply ε β :=
  if existing.requestHash ≠ hash then .replayMismatch
  else
    match existing with
    | .inFlight _ _ => .stillProcessed
    | .completed _ status body => .replayed status body

/-- The handler under the marker: its response is stored, or the marker released. -/
def handle (key : List Char) (hash : η) (holder : ℕ) (next : Proc ω τ ε (ℕ × β)) :
    InterceptRequest ω τ ε η β (Reply ε β) :=
  (handler next).follow fun result ↦ .step (.finish key) fun _ ↦
    match result with
    | .ok (status, body) => .step (.complete key hash holder status body) fun _ ↦ pure (.handled result)
    | .error _ => .step (.release key hash holder) fun _ ↦ pure (.handled result)

variable [DecidableEq η]

def reply (shaKey : String → String) (shaBody : Json × Json → η) (req : HttpRequest)
    (next : Proc ω τ ε (ℕ × β)) : InterceptRequest ω τ ε η β (Reply ε β) :=
  match req.slot shaKey with
  | none => (handler next).follow fun result ↦ pure (.handled result)
  | some key => do
    let holder ← Proc.query (.randomUUID req) (·.nextHolder)
    let existing ← acquire key (fingerprint shaBody req) holder 2
    match existing with
    | some record => pure (judge (fingerprint shaBody req) record)
    | none => handle key (fingerprint shaBody req) holder next

def intercept (shaKey : String → String) (shaBody : Json × Json → η) (req : HttpRequest)
    (next : Proc ω τ ε (ℕ × β)) : InterceptRequest ω τ ε η β Unit := do
  let reply ← reply shaKey shaBody req next
  Proc.write (.respond req reply)

end IdempotencyInterceptor

/-- Requests through the interceptor, with tenants that have no colon, and what goes on
beside them. -/
inductive Intercepts [DecidableEq η] (ω τ ε β : Type) (shaKey : String → String) (shaBody : Json × Json → η)
    (Asks : HttpRequest → Prop) : InterceptRequest ω τ ε η β Unit → Prop
  | intercept (req : HttpRequest) (next : Proc ω τ ε (ℕ × β)) : Asks req → ':' ∉ req.tenant.toList →
      Intercepts ω τ ε β shaKey shaBody Asks (IdempotencyInterceptor.intercept shaKey shaBody req next)
  | work (p : Proc ω τ ε Unit) : Intercepts ω τ ε β shaKey shaBody Asks (IdempotencyInterceptor.handler p)
  | tick (ms : ℕ) : Intercepts ω τ ε β shaKey shaBody Asks (Proc.write (.tick ms))

end Towing.Common
