import YatriGo.Middleware.Auth

/-! What an accepted token certifies, and whose identity a request with it acts under. -/

namespace YatriGo
open Js

variable {P : Platform} {auth : AuthEnv} {now : ℕ} {token : String} {payload : Json}

theorem of_bind_ok {ε α β : Type} {x : Except ε α} {f : α → Except ε β} {b : β}
    (h : x >>= f = .ok b) : ∃ a, x = .ok a ∧ f a = .ok b := by
  cases x with
  | error e => cases h
  | ok a => exact ⟨a, rfl, h⟩

theorem checkTime_ok {claim : Value} {refuses : Number → Bool} {error : AppError}
    (h : checkTime P claim refuses error = .ok ()) (hclaim : claim.truthy = true) :
    ∃ n, claim.toNumber P.toCoercions = some n ∧ refuses n = false := by
  rw [checkTime, if_pos hclaim] at h
  cases hn : claim.toNumber P.toCoercions with
  | none => rw [hn] at h; cases h
  | some n =>
    rw [hn] at h
    have hrefuses : ¬ refuses n = true := fun hr => by
      simp only [hr, if_true] at h
      cases h
    exact ⟨n, rfl, Bool.eq_false_of_not_eq_true hrefuses⟩

theorem checkName_ok {configured : String} {claim : Value} {error : AppError}
    (h : checkName configured claim error = .ok ()) (hconfigured : configured ≠ "")
    (hclaim : claim.truthy = true) : claim = .json (.string configured) := by
  have hsame : ¬ claim.isText configured = false := fun hother => by
    rw [checkName, if_pos ⟨hconfigured, hclaim, hother⟩] at h
    cases h
  apply Value.isText_iff.mp
  exact Bool.eq_true_of_not_eq_false hsame

/-- What holds of a token whose payload is used at time `now`. -/
structure Certified (P : Platform) (auth : AuthEnv) (now : ℕ) (token : String) (payload : Json) : Prop where
  signed : ∃ encodedHeader encodedPayload, split '.' token =
      [encodedHeader, encodedPayload,
        P.hmacSha256 auth.jwtSecret (encodedHeader ++ "." ++ encodedPayload)] ∧
    (safeJsonParse P (P.decodeBase64Url encodedHeader)).get "alg" = .json (.string "HS256") ∧
    safeJsonParse P (P.decodeBase64Url encodedPayload) = payload
  active : (payload.get "nbf").truthy = true →
    ∃ n, (payload.get "nbf").toNumber P.toCoercions = some n ∧ n.exceeds now = false
  fresh : (payload.get "exp").truthy = true →
    ∃ n, (payload.get "exp").toNumber P.toCoercions = some n ∧ n.atMost now = false
  issuer : auth.issuer ≠ "" → (payload.get "iss").truthy = true →
    payload.get "iss" = .json (.string auth.issuer)
  audience : auth.audience ≠ "" → (payload.get "aud").truthy = true →
    payload.get "aud" = .json (.string auth.audience)

theorem certified (h : verifyText P auth now token = .ok payload) :
    Certified P auth now token payload := by
  unfold verifyText at h
  split at h
  · rename_i encodedHeader encodedPayload signature hsegments
    simp only at h
    split_ifs at h with hunsupported hforged
    obtain ⟨⟨⟩, hclaims, hpayload⟩ := of_bind_ok h
    have hp : safeJsonParse P (P.decodeBase64Url encodedPayload) = payload := Except.ok.inj hpayload
    have halg : ((safeJsonParse P (P.decodeBase64Url encodedHeader)).get "alg").isText "HS256" = true :=
      Bool.eq_true_of_not_eq_false fun hother => hunsupported (.inr (.inr hother))
    rw [hp] at hclaims
    obtain ⟨⟨⟩, hnbf, hclaims⟩ := of_bind_ok hclaims
    obtain ⟨⟨⟩, hexp, hclaims⟩ := of_bind_ok hclaims
    obtain ⟨⟨⟩, hiss, haud⟩ := of_bind_ok hclaims
    exact {
      signed := ⟨encodedHeader, encodedPayload, by rw [hsegments, not_not.mp hforged],
        Value.isText_iff.mp halg, hp⟩
      active := checkTime_ok hnbf
      fresh := checkTime_ok hexp
      issuer := checkName_ok hiss
      audience := checkName_ok haud }
  · cases h

theorem verifyText_signed (encodedHeader encodedPayload : String) {header : Json}
    (hsegments : split '.' token = [encodedHeader, encodedPayload,
      P.hmacSha256 auth.jwtSecret (encodedHeader ++ "." ++ encodedPayload)])
    (hheader : safeJsonParse P (P.decodeBase64Url encodedHeader) = header)
    (hpayload : safeJsonParse P (P.decodeBase64Url encodedPayload) = payload)
    (hsupported : header.truthy = true ∧ payload.truthy = true ∧ (header.get "alg").isText "HS256" = true)
    (hclaims : checkClaims P auth now payload = .ok ()) : verifyText P auth now token = .ok payload := by
  unfold verifyText
  rw [hsegments]
  simp only [hheader, hpayload, hsupported.1, hsupported.2.1, hsupported.2.2, hclaims, Bool.true_eq_false,
    or_false, if_false, ne_eq, not_true]
  rfl

theorem verify_string (P : Platform) (auth : AuthEnv) (now : ℕ) (token : String) :
    verifyHs256Jwt P auth now (.json (.string token)) = verifyText P auth now token := by
  by_cases hempty : token = ""
  · rw [hempty]
    rfl
  · have htruthy : (Value.json (.string token)).truthy = true := decide_eq_true hempty
    rw [verifyHs256Jwt, Value.or_of_truthy htruthy]
    rfl

/-- A platform on which every token is signed with `signature` and has the payload `payload`. -/
def demoPlatform (signature : String) (payload : Json) : Platform where
  number := fun _ => some .nan
  text := fun _ => some ""
  upper := fun c => [c]
  hmacSha256 := fun _ _ => signature
  decodeBase64Url := fun text => if text = "eyJhbGciOiJIUzI1NiJ9" then "header" else "payload"
  parse := fun text => if text = "header" then some (.object [("alg", .string "HS256")]) else some payload

/-- An accepted token is signed and certifies what it claims: a numeric `exp` other than zero lies
ahead, a numeric `nbf` does not. -/
theorem token_accepted (h : verifyHs256Jwt P auth now (.json (.string token)) = .ok payload) :
    Certified P auth now token payload ∧
      (∀ n, payload.get "exp" = .json (.number n) → n.truthy = true → n.exceeds now = true) ∧
      ∀ n, payload.get "nbf" = .json (.number n) → n.exceeds now = false := by
  rw [verify_string] at h
  have hcertified := certified h
  refine ⟨hcertified, fun n hexp htruthy => ?_, fun n hnbf => ?_⟩
  · have hfresh := hcertified.fresh
    rw [hexp] at hfresh
    obtain ⟨m, hm, hlater⟩ := hfresh htruthy
    have hmn : n = m := Option.some.inj hm
    rw [← hmn] at hlater
    exact Number.exceeds_of_not_atMost htruthy hlater
  · have hactive := hcertified.active
    rw [hnbf] at hactive
    by_cases htruthy : n.truthy = true
    · obtain ⟨m, hm, hearlier⟩ := hactive htruthy
      have hmn : n = m := Option.some.inj hm
      rw [hmn]
      exact hearlier
    · exact Number.exceeds_of_falsy (Bool.eq_false_of_not_eq_true htruthy)

def demoAuth (issuer audience : String) : AuthEnv := ⟨true, "change-me", issuer, audience⟩

def datedClaims : Json :=
  .object [("sub", .string "u1"), ("exp", .number (.finite 1800000000)), ("nbf", .number (.finite 1600000000)),
    ("iss", .string "yatrigo")]

def datedSignature : String := "9C5khAW3WvjHTutxtByPMOkyAmwi-rr-gDPkSKwpqLw"

def datedToken : String :=
  "eyJhbGciOiJIUzI1NiJ9.eyJzdWIiOiJ1MSIsImV4cCI6MTgwMDAwMDAwMCwibmJmIjoxNjAwMDAwMDAwLCJpc3MiOiJ5YXRyaWdvIn0." ++ datedSignature

theorem token_accepted_dated :
    Certified (demoPlatform datedSignature datedClaims) (demoAuth "yatrigo" "") 1700000000 datedToken datedClaims ∧
      (Number.finite 1800000000).exceeds 1700000000 = true ∧
      (Number.finite 1600000000).exceeds 1700000000 = false := by
  have haccepted : verifyText (demoPlatform datedSignature datedClaims) (demoAuth "yatrigo" "") 1700000000
      datedToken = .ok datedClaims :=
    verifyText_signed "eyJhbGciOiJIUzI1NiJ9"
      "eyJzdWIiOiJ1MSIsImV4cCI6MTgwMDAwMDAwMCwibmJmIjoxNjAwMDAwMDAwLCJpc3MiOiJ5YXRyaWdvIn0"
      (by decide +kernel) rfl rfl ⟨rfl, rfl, rfl⟩ rfl
  obtain ⟨hcertified, hexp, hnbf⟩ := token_accepted ((verify_string _ _ _ _).trans haccepted)
  exact ⟨hcertified, hexp _ rfl (by decide +kernel), hnbf _ rfl⟩

/-- The claims of a token without issuer and audience whose times are no numbers. -/
def vagueClaims : Json :=
  .object [("sub", .string "u1"), ("exp", .string "soon"), ("nbf", .string "soon")]

def vagueSignature : String := "VRGKAuQBBZ1XTRcMCQehudeOCwgjedcjiJ9L3nQYsxQ"

def vagueToken : String :=
  "eyJhbGciOiJIUzI1NiJ9.eyJzdWIiOiJ1MSIsImV4cCI6InNvb24iLCJuYmYiOiJzb29uIn0." ++ vagueSignature

/-- A configured issuer and audience do not keep it out. -/
theorem vague_token_accepted :
    verifyHs256Jwt (demoPlatform vagueSignature vagueClaims) (demoAuth "yatrigo" "drivers") 1700000000
        (.json (.string vagueToken)) = .ok vagueClaims ∧
      vagueClaims.get "exp" = .json (.string "soon") ∧ vagueClaims.get "nbf" = .json (.string "soon") ∧
      vagueClaims.get "iss" = .undefined ∧ vagueClaims.get "aud" = .undefined := by
  have haccepted : verifyText (demoPlatform vagueSignature vagueClaims) (demoAuth "yatrigo" "drivers")
      1700000000 vagueToken = .ok vagueClaims :=
    verifyText_signed "eyJhbGciOiJIUzI1NiJ9" "eyJzdWIiOiJ1MSIsImV4cCI6InNvb24iLCJuYmYiOiJzb29uIn0"
      (by decide +kernel) rfl rfl ⟨rfl, rfl, rfl⟩ rfl
  exact ⟨(verify_string _ _ _ _).trans haccepted, rfl, rfl, rfl, rfl⟩

theorem verify_of_text {value : Value} (h : (value.or emptyText).toText P.toCoercions = some token) :
    verifyHs256Jwt P auth now value = verifyText P auth now token := by
  rw [verifyHs256Jwt, h]

theorem normalize_ok {fallbackRole : Value} {actor : AuthenticatedActor}
    (h : normalizeAuthenticatedActor P payload fallbackRole = .ok actor) :
    actor.actorId = payloadActorId payload ∧ actor.actorId.truthy = true ∧
      ∃ text, (((payload.get "role").or fallbackRole).or emptyText).toText P.toCoercions = some text ∧
        actor.role = toUpperCase P.toCoercions text := by
  unfold normalizeAuthenticatedActor at h
  split at h
  · cases h
  · rename_i text htext
    simp only at h
    split_ifs at h with hmissing
    obtain rfl := Except.ok.inj h
    have hid : (payloadActorId payload).truthy = true :=
      Bool.eq_true_of_not_eq_false fun hid => hmissing (.inl hid)
    exact ⟨rfl, hid, text, htext, rfl⟩

/-- The identity of an accepted request is read off its token, but for the role it states. -/
theorem identity_of_token {r : Request} {identity : Value × String} (henabled : auth.enabled = true)
    (htoken : r.token P = some token) (h : r.identity P auth now = .ok identity) :
    ∃ payload actor, verifyText P auth now token = .ok payload ∧
      normalizeAuthenticatedActor P payload r.statedRole = .ok actor ∧
      identity = (actor.actorId, actor.role) := by
  have hauth : ¬ auth.enabled = false := by rw [henabled]; exact Bool.noConfusion
  cases r with
  | http family req =>
    obtain ⟨actor, hactor, hidentity⟩ := of_bind_ok h
    have hbearer : extractBearerToken req = some token := htoken
    rw [authenticateHttp, if_neg hauth, hbearer] at hactor
    simp only at hactor
    split_ifs at hactor with hempty
    obtain ⟨payload, hpayload, hactor⟩ := of_bind_ok hactor
    obtain ⟨signed, hsigned, hactor⟩ := of_bind_ok hactor
    split_ifs at hactor with hrole
    obtain rfl := Except.ok.inj hactor
    rw [verify_string] at hpayload
    refine ⟨payload, signed, hpayload, hsigned, ?_⟩
    -- The actor id of the token comes before the header, the body and the query.
    have hid : signed.actorId.truthy = true := (normalize_ok hsigned).2.1
    cases family with
    | customers =>
      have hi := Except.ok.inj hidentity
      rw [← hi]
      simp only [resolveCustomerId, Option.map_some, Option.getD_some, Value.or_of_truthy hid]
    | drivers =>
      have hi := Except.ok.inj hidentity
      rw [← hi]
      simp only [resolveDriverId, Option.map_some, Option.getD_some, Value.or_of_truthy hid]
  | socket handshakeAuth =>
    obtain ⟨actor, hactor, hidentity⟩ := of_bind_ok h
    rw [resolveSocketActor, if_neg hauth] at hactor
    simp only at hactor
    split_ifs at hactor with hmissing
    obtain ⟨payload, hpayload, hactor⟩ := of_bind_ok hactor
    rw [verify_of_text htoken] at hpayload
    exact ⟨payload, actor, hpayload, hactor, (Except.ok.inj hidentity).symm⟩

/-- What the role of a request is read from when its token has no role. -/
def Request.statedText (P : Platform) (r : Request) : Option String :=
  (r.statedRole.or emptyText).toText P.toCoercions

theorem role_of_claim {r : Request} {actor : AuthenticatedActor}
    (h : normalizeAuthenticatedActor P payload r.statedRole = .ok actor)
    (hclaim : (payload.get "role").truthy = true) :
    ((payload.get "role").toText P.toCoercions).map (toUpperCase P.toCoercions) = some actor.role := by
  obtain ⟨-, -, text, htext, hrole⟩ := normalize_ok h
  rw [Value.or_of_truthy hclaim, Value.or_of_truthy hclaim] at htext
  rw [htext, hrole, Option.map_some]

theorem role_of_request {r : Request} {actor : AuthenticatedActor}
    (h : normalizeAuthenticatedActor P payload r.statedRole = .ok actor)
    (hclaim : (payload.get "role").truthy = false) :
    (r.statedText P).map (toUpperCase P.toCoercions) = some actor.role := by
  obtain ⟨-, -, text, htext, hrole⟩ := normalize_ok h
  rw [Value.or_of_falsy hclaim] at htext
  rw [Request.statedText, htext, hrole, Option.map_some]

/-- Two accepted requests with one token act under one actor id, and under one role when the token
names a role; otherwise each acts under the role that it states itself. -/
theorem same_token_same_actor {r r' : Request} {identity identity' : Value × String}
    (henabled : auth.enabled = true)
    (htoken : r.token P = some token) (htoken' : r'.token P = some token)
    (h : r.identity P auth now = .ok identity) (h' : r'.identity P auth now = .ok identity') :
    identity.1 = identity'.1 ∧
      ∃ payload, verifyText P auth now token = .ok payload ∧
        ((payload.get "role").truthy = true → identity.2 = identity'.2) ∧
        ((payload.get "role").truthy = false →
          (r.statedText P).map (toUpperCase P.toCoercions) = some identity.2 ∧
          (r'.statedText P).map (toUpperCase P.toCoercions) = some identity'.2) := by
  obtain ⟨payload, actor, hpayload, hactor, rfl⟩ := identity_of_token henabled htoken h
  obtain ⟨payload', actor', hpayload', hactor', rfl⟩ := identity_of_token henabled htoken' h'
  have hpayloads : payload = payload' := Except.ok.inj (hpayload.symm.trans hpayload')
  rw [← hpayloads] at hactor'
  have hid := (normalize_ok hactor).1
  have hid' := (normalize_ok hactor').1
  refine ⟨hid.trans hid'.symm, payload, hpayload, fun hclaim => ?_, fun hclaim => ?_⟩
  · have hrole := role_of_claim hactor hclaim
    have hrole' := role_of_claim hactor' hclaim
    exact Option.some.inj (hrole.symm.trans hrole')
  · exact ⟨role_of_request hactor hclaim, role_of_request hactor' hclaim⟩

def plainClaims : Json := .object [("sub", .string "u1")]

def plainSignature : String := "6GncRMaxxTB0rs_kzunydH-GvbvYZvxxMFFYOBTjuV8"

def plainToken : String := "eyJhbGciOiJIUzI1NiJ9.eyJzdWIiOiJ1MSJ9." ++ plainSignature

def plainSocket (role : String) : Request :=
  .socket (.object [("token", .string plainToken), ("role", .string role)])

theorem plainToken_accepted : verifyText (demoPlatform plainSignature plainClaims) (demoAuth "" "") 1700000000
    plainToken = .ok plainClaims :=
  verifyText_signed "eyJhbGciOiJIUzI1NiJ9" "eyJzdWIiOiJ1MSJ9" (by decide +kernel) rfl rfl ⟨rfl, rfl, rfl⟩ rfl

theorem plainSocket_token (role : String) :
    (plainSocket role).token (demoPlatform plainSignature plainClaims) = some plainToken := by
  have htruthy : (Value.json (.string plainToken)).truthy = true := by decide +kernel
  have htoken : (Json.object [("token", .string plainToken), ("role", .string role)]).get "token" =
      .json (.string plainToken) := rfl
  simp only [plainSocket, Request.token, htoken, Value.or_of_truthy htruthy, Value.toText]

theorem socket_identity {handshakeAuth : Json} {actor : AuthenticatedActor} (henabled : auth.enabled = true)
    (hpresent : ((handshakeAuth.get "token").or (handshakeAuth.get "accessToken")).truthy = true)
    (hpayload : verifyHs256Jwt P auth now
      ((handshakeAuth.get "token").or (handshakeAuth.get "accessToken")) = .ok payload)
    (hactor : normalizeAuthenticatedActor P payload (handshakeAuth.get "role") = .ok actor) :
    (Request.socket handshakeAuth).identity P auth now = .ok (actor.actorId, actor.role) := by
  have hsocket : resolveSocketActor P auth now handshakeAuth = .ok actor := by
    simp only [resolveSocketActor, henabled, hpresent, Bool.true_eq_false, if_false]
    rw [hpayload]
    exact hactor
  rw [Request.identity, hsocket]
  rfl

theorem plainSocket_identity {role : String} (hrole : role ≠ "")
    (hupper : toUpperCase (demoPlatform plainSignature plainClaims).toCoercions role = role) :
    (plainSocket role).identity (demoPlatform plainSignature plainClaims) (demoAuth "" "") 1700000000 =
      .ok (.json (.string "u1"), role) := by
  have htruthy : (Value.json (.string plainToken)).truthy = true := by decide +kernel
  have htoken : ((Json.object [("token", .string plainToken), ("role", .string role)]).get "token").or
      ((Json.object [("token", .string plainToken), ("role", .string role)]).get "accessToken") =
        .json (.string plainToken) := Value.or_of_truthy htruthy
  have hactor : normalizeAuthenticatedActor (demoPlatform plainSignature plainClaims) plainClaims
      (.json (.string role)) = .ok ⟨.json (.string "u1"), role, some plainClaims⟩ := by
    have hnamed : (Value.json (.string role)).truthy = true := decide_eq_true hrole
    have htext : ((((plainClaims.get "role").or (.json (.string role))).or emptyText)).toText
        (demoPlatform plainSignature plainClaims).toCoercions = some role := by
      rw [Value.or_of_falsy (a := plainClaims.get "role") rfl, Value.or_of_truthy hnamed]
      rfl
    have hid : (payloadActorId plainClaims).truthy = true := rfl
    rw [normalizeAuthenticatedActor, htext]
    simp only [hupper, hid, hrole, Bool.true_eq_false, or_false, if_false]
    rfl
  have hverified : verifyHs256Jwt (demoPlatform plainSignature plainClaims) (demoAuth "" "") 1700000000
      (.json (.string plainToken)) = .ok plainClaims := by
    rw [verify_string]
    exact plainToken_accepted
  rw [← htoken] at htruthy hverified
  exact socket_identity rfl htruthy hverified hactor

/-- A token without a role acts as a customer on one socket and as a driver on another. -/
theorem one_token_two_roles :
    (plainSocket "CUSTOMER").token (demoPlatform plainSignature plainClaims) = some plainToken ∧
      (plainSocket "DRIVER").token (demoPlatform plainSignature plainClaims) = some plainToken ∧
      (plainSocket "CUSTOMER").identity (demoPlatform plainSignature plainClaims) (demoAuth "" "") 1700000000 =
        .ok (.json (.string "u1"), "CUSTOMER") ∧
      (plainSocket "DRIVER").identity (demoPlatform plainSignature plainClaims) (demoAuth "" "") 1700000000 =
        .ok (.json (.string "u1"), "DRIVER") :=
  ⟨plainSocket_token _, plainSocket_token _, plainSocket_identity (by decide) rfl,
    plainSocket_identity (by decide) rfl⟩

/-- On these two sockets the token acts under the actor id `u1` both times. -/
theorem same_token_same_actor_sockets :
    ∃ payload, verifyText (demoPlatform plainSignature plainClaims) (demoAuth "" "") 1700000000 plainToken =
      .ok payload ∧ ((payload.get "role").truthy = true → "CUSTOMER" = "DRIVER") := by
  obtain ⟨-, payload, hpayload, hsame, -⟩ := same_token_same_actor (rfl : (demoAuth "" "").enabled = true)
    (plainSocket_token "CUSTOMER") (plainSocket_token "DRIVER")
    (plainSocket_identity (by decide) rfl) (plainSocket_identity (by decide) rfl)
  exact ⟨payload, hpayload, hsame⟩

end YatriGo
