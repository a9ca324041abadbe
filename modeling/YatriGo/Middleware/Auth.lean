import YatriGo.Text.Json
import YatriGo.Utils.Lock

/-! Signed tokens, and the actor of an HTTP request or a socket. -/

namespace YatriGo
open Js

structure AuthEnv where
  enabled : Bool
  jwtSecret : String
  issuer : String
  audience : String

/-- What the middleware takes from its platform: HMAC-SHA256 in base64url, the decoding of
base64url, and `JSON.parse`, which can throw. -/
structure Platform extends Coercions where
  hmacSha256 : (secret text : String) → String
  decodeBase64Url : String → String
  parse : String → Option Json

def safeJsonParse (P : Platform) (value : String) : Json := (P.parse value).getD .null

def invalidToken (message : String) : AppError := ⟨message, 401, "INVALID_AUTH_TOKEN"⟩

/-- `String(value)` and `Number(value)` throw on objects whose own fields shadow the methods. -/
def conversionError : AppError :=
  ⟨"Cannot convert object to primitive value", 500, "INTERNAL_SERVER_ERROR"⟩

/-- `if (claim && refuses(Number(claim))) throw error`. -/
def checkTime (P : Platform) (claim : Value) (refuses : Number → Bool) (error : AppError) :
    Except AppError Unit :=
  if claim.truthy then
    match claim.toNumber P.toCoercions with
    | none => .error conversionError
    | some n => if refuses n then .error error else .ok ()
  else .ok ()

/-- `if (configured && claim && claim !== configured) throw error`. -/
def checkName (configured : String) (claim : Value) (error : AppError) : Except AppError Unit :=
  if configured ≠ "" ∧ claim.truthy = true ∧ claim.isText configured = false then .error error else .ok ()

def tokenNotActive : AppError := invalidToken "Auth token not active yet"

def tokenExpired : AppError := ⟨"Auth token expired", 401, "AUTH_TOKEN_EXPIRED"⟩

/-- The checks of `verifyHs256Jwt` on the claims of a signed payload; `now` is in seconds. -/
def checkClaims (P : Platform) (auth : AuthEnv) (now : ℕ) (payload : Json) : Except AppError Unit := do
  checkTime P (payload.get "nbf") (fun n => n.exceeds now) tokenNotActive
  checkTime P (payload.get "exp") (fun n => n.atMost now) tokenExpired
  checkName auth.issuer (payload.get "iss") (invalidToken "Auth token issuer mismatch")
  checkName auth.audience (payload.get "aud") (invalidToken "Auth token audience mismatch")

/-- `verifyHs256Jwt` after `String(token || "")`. -/
def verifyText (P : Platform) (auth : AuthEnv) (now : ℕ) (token : String) : Except AppError Json :=
  match split '.' token with
  | [encodedHeader, encodedPayload, signature] =>
    let header := safeJsonParse P (P.decodeBase64Url encodedHeader)
    let payload := safeJsonParse P (P.decodeBase64Url encodedPayload)
    if header.truthy = false ∨ payload.truthy = false ∨ (header.get "alg").isText "HS256" = false then
      .error (invalidToken "Unsupported auth token")
    else if signature ≠ P.hmacSha256 auth.jwtSecret (encodedHeader ++ "." ++ encodedPayload) then
      .error (invalidToken "Invalid auth token signature")
    else do
      checkClaims P auth now payload
      return payload
  | _ => .error (invalidToken "Invalid auth token format")

def emptyText : Value := .json (.string "")

def verifyHs256Jwt (P : Platform) (auth : AuthEnv) (now : ℕ) (token : Value) : Except AppError Json :=
  match (token.or emptyText).toText P.toCoercions with
  | none => .error conversionError
  | some token => verifyText P auth now token

structure AuthenticatedActor where
  actorId : Value
  role : String
  claims : Option Json

/-- `payload.actorId || payload.sub || ...`. -/
def payloadActorId (payload : Json) : Value :=
  ((((payload.get "actorId").or (payload.get "sub")).or (payload.get "userId")).or
    (payload.get "driverId")).or (payload.get "customerId")

def normalizeAuthenticatedActor (P : Platform) (payload : Json) (fallbackRole : Value) :
    Except AppError AuthenticatedActor :=
  match (((payload.get "role").or fallbackRole).or emptyText).toText P.toCoercions with
  | none => .error conversionError
  | some text =>
    let actorId := payloadActorId payload
    let role := toUpperCase P.toCoercions text
    -- any text is taken as a role; a socket joins a room only as CUSTOMER or DRIVER
    if actorId.truthy = false ∨ role = "" then .error (invalidToken "Auth token missing actor identity")
    else .ok { actorId, role, claims := some payload }

/-- The families of routes that `createApp` puts behind `authenticateHttp`. -/
inductive RouteFamily
  | customers
  | drivers
  deriving DecidableEq

def RouteFamily.expectedRole : RouteFamily → String
  | .customers => "CUSTOMER"
  | .drivers => "DRIVER"

/-- The parts of an HTTP request that the middleware and the controllers read. -/
structure HttpRequest where
  authorization : String
  xActorId : Value
  body : Json
  query : Json

def extractBearerToken (req : HttpRequest) : Option String :=
  if "Bearer ".toList.isPrefixOf req.authorization.toList then
    some (trim (String.ofList (req.authorization.toList.drop 7)))
  else none

/-- `req.auth` after the middleware; `none` when auth is disabled. -/
def authenticateHttp (P : Platform) (auth : AuthEnv) (now : ℕ) (family : RouteFamily) (req : HttpRequest) :
    Except AppError (Option AuthenticatedActor) :=
  if auth.enabled = false then .ok none
  else
    match extractBearerToken req with
    | none => .error ⟨"Missing bearer token", 401, "AUTH_REQUIRED"⟩
    | some token =>
      if token = "" then .error ⟨"Missing bearer token", 401, "AUTH_REQUIRED"⟩
      else do
        let payload ← verifyHs256Jwt P auth now (.json (.string token))
        let actor ← normalizeAuthenticatedActor P payload (.json (.string family.expectedRole))
        if actor.role ≠ toUpperCase P.toCoercions family.expectedRole then
          .error ⟨"Forbidden actor role", 403, "AUTH_ROLE_FORBIDDEN"⟩
        else return some actor

def resolveSocketActor (P : Platform) (auth : AuthEnv) (now : ℕ) (handshakeAuth : Json) :
    Except AppError AuthenticatedActor :=
  if auth.enabled = false then
    match ((handshakeAuth.get "role").or emptyText).toText P.toCoercions with
    | none => .error conversionError
    | some text =>
      let role := toUpperCase P.toCoercions text
      let actorId := handshakeAuth.get "actorId"
      if role = "" ∨ actorId.truthy = false then
        .error ⟨"Socket auth requires role and actorId", 401, "SOCKET_AUTH_REQUIRED"⟩
      else .ok { actorId, role, claims := none }
  else
    let token := (handshakeAuth.get "token").or (handshakeAuth.get "accessToken")
    if token.truthy = false then
      .error ⟨"Socket auth token is required", 401, "SOCKET_AUTH_REQUIRED"⟩
    else do
      let payload ← verifyHs256Jwt P auth now token
      normalizeAuthenticatedActor P payload (handshakeAuth.get "role")

/-- `resolveCustomerId` of the customer controller. -/
def resolveCustomerId (actor : Option AuthenticatedActor) (req : HttpRequest) : Value :=
  (((actor.map AuthenticatedActor.actorId).getD .undefined).or req.xActorId).or
    ((req.body.get "customerId").or (req.query.get "customerId"))

/-- The driver id of every handler of the driver controller. -/
def resolveDriverId (actor : Option AuthenticatedActor) (req : HttpRequest) : Value :=
  ((actor.map AuthenticatedActor.actorId).getD .undefined).or (req.body.get "driverId")

inductive Request
  | http (family : RouteFamily) (req : HttpRequest)
  | socket (handshakeAuth : Json)

/-- The text of the token that a request carries. -/
def Request.token (P : Platform) : Request → Option String
  | .http _ req => extractBearerToken req
  | .socket handshakeAuth =>
    (((handshakeAuth.get "token").or (handshakeAuth.get "accessToken")).or emptyText).toText P.toCoercions

/-- The actor id and the role on behalf of which an accepted request is served. -/
def Request.identity (P : Platform) (auth : AuthEnv) (now : ℕ) : Request → Except AppError (Value × String)
  | .http family req => do
    let actor ← authenticateHttp P auth now family req
    let role := (actor.map AuthenticatedActor.role).getD family.expectedRole
    match family with
    | .customers => return (resolveCustomerId actor req, role)
    | .drivers => return (resolveDriverId actor req, role)
  | .socket handshakeAuth => do
    let actor ← resolveSocketActor P auth now handshakeAuth
    return (actor.actorId, actor.role)

/-- The role that a request states outside its token. -/
def Request.statedRole : Request → Value
  | .http family _ => .json (.string family.expectedRole)
  | .socket handshakeAuth => handshakeAuth.get "role"

end YatriGo
