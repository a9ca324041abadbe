import YatriGo.Proofs.JobIds
import YatriGo.Redis.Keys

/-! No two data share a key of Redis and no two messages share the key by which they are published once. -/

namespace YatriGo
open Text Js

variable {text : Units} {n : ℕ}

section keys

/-- What a key is called, and the text around its id. -/
abbrev KeyName := SharedKey ⊕ OwnKey

def KeyName.frame : KeyName → Frame CodeUnit
  | .inl name => between name.text ""
  | .inr name => name.frame

def Key.name : Key → KeyName
  | .shared name => .inl name
  | .own name _ => .inr name

def Key.id : Key → Units
  | .shared _ => []
  | .own _ id => id

theorem Key.text_eq (key : Key) : key.text = key.name.frame.fill key.id := by
  cases key with
  | shared name => exact (List.append_nil _).symm
  | own name id => rfl

theorem Key.ext_name {key key' : Key} (hname : key.name = key'.name) (hid : key.id = key'.id) : key = key' := by
  cases key with
  | shared name =>
    cases key' with
    | shared name' => rw [Sum.inl.inj hname]
    | own name' id' => cases hname
  | own name id =>
    cases key' with
    | shared name' => cases hname
    | own name' id' => rw [Sum.inr.inj hname, show id = id' from hid]

def KeyName.all : List KeyName :=
  [.inl .activeRides, .inl .availableDrivers, .inl .busyDrivers, .inl .onlineDrivers, .inl .availableDriversGeo,
    .inr .rideHash, .inr .rideTimeline, .inr .rideNotifiedDrivers, .inr .rideResponses, .inr .rideLock,
    .inr .driverHash, .inr .driverHeartbeat, .inr .driverLock, .inr .driverActiveRide, .inr .driverPendingDispatches,
    .inr .driverReservation, .inr .customerActiveRide, .inr .customerLock, .inr .socketEventAck, .inr .rejectCooldown,
    .inr .requestRideLimit, .inr .acceptRideLimit, .inr .socketPublish, .inr .socketInbound, .inr .lastDisconnect]

theorem KeyName.mem_all (name : KeyName) : name ∈ KeyName.all := by
  cases name with
  | inl name => cases name <;> simp [KeyName.all]
  | inr name => cases name <;> simp [KeyName.all]

theorem KeyName.apart : KeyName.all.Pairwise fun name name' => name.frame.Apart name'.frame := by
  decide +kernel

theorem Key.text_inj {key key' : Key} : key.text = key'.text ↔ key = key' := by
  constructor
  · intro h
    rw [Key.text_eq, Key.text_eq] at h
    obtain ⟨hname, hid⟩ := Frame.fill_inj_of_apart KeyName.apart key.name.mem_all key'.name.mem_all h
    exact Key.ext_name hname hid
  · exact congrArg Key.text

end keys

section messages

theorem ProperPart.no_colon (h : ProperPart text) : colon ∉ text := by
  intro hmem
  have hnone : ¬ (letterOrDigit colon = true ∨ colon = dash ∨ colon = underscore) := by decide
  exact hnone (h.legal colon hmem)

theorem uuid_no_colon (id : UuidText) : colon ∉ id.val := id.property.proper.no_colon

theorem number_no_colon : colon ∉ numberText n := proper_numberText.no_colon

/-- What a message is called, and the text around its parts. -/
abbrev NewsName := RideNews ⊕ PartyNews ⊕ TripNews ⊕ LoneNews

def NewsName.frame : NewsName → Frame CodeUnit
  | .inl news => between news.text ""
  | .inr (.inl news) => between news.text ""
  | .inr (.inr (.inl news)) => between news.text ""
  | .inr (.inr (.inr news)) => between news.text ""

def MessageKey.name : MessageKey → NewsName
  | .ride news .. => .inl news
  | .party news .. => .inr (.inl news)
  | .trip news .. => .inr (.inr (.inl news))
  | .newRideRequest .. => .inr (.inr (.inr .newRideRequest))
  | .driverState .. => .inr (.inr (.inr .driverState))

def MessageKey.parts : MessageKey → Units
  | .ride _ rideId version => rideId.val ++ colon :: numberText version
  | .party _ rideId version driverId => rideId.val ++ colon :: (numberText version ++ colon :: driverId)
  | .trip _ rideId driverId time => rideId.val ++ colon :: (driverId ++ colon :: time.val)
  | .newRideRequest rideId batchId driverId => rideId.val ++ colon :: (batchId.val ++ colon :: driverId)
  | .driverState driverId updatedAt => driverId ++ colon :: updatedAt.val

theorem MessageKey.text_eq (key : MessageKey) : key.text = key.name.frame.fill key.parts := by
  have hend : ∀ (before : String) parts, units before ++ parts = (between before "").fill parts := by
    intro before parts
    exact congrArg _ (List.append_nil parts).symm
  cases key <;> exact hend _ _

def NewsName.all : List NewsName :=
  [.inl .rideRequested, .inl .rideStatus, .inl .rideStatusDriver, .inl .driverAssigned, .inl .driverArriving,
    .inl .rideStarted, .inl .rideCompleted, .inr (.inl .rideAssigned), .inr (.inl .rideCancelled),
    .inr (.inr (.inl .driverLocation)), .inr (.inr (.inl .driverConnectionLost)), .inr (.inr (.inr .newRideRequest)),
    .inr (.inr (.inr .driverState))]

theorem NewsName.mem_all (name : NewsName) : name ∈ NewsName.all := by
  rcases name with news | news | news | news <;> cases news <;> simp [NewsName.all]

theorem NewsName.apart : NewsName.all.Pairwise fun name name' => name.frame.Apart name'.frame := by
  decide +kernel

theorem ride_parts {r r' : UuidText} {rest rest' : Units} (h : r.val ++ colon :: rest = r'.val ++ colon :: rest') :
    r = r' ∧ rest = rest' := by
  obtain ⟨hr, hrest⟩ := pair_inj (uuid_no_colon r) (uuid_no_colon r') h
  exact ⟨Subtype.ext hr, hrest⟩

theorem time_parts {d d' : Units} {t t' : TimeText} (h : d ++ colon :: t.val = d' ++ colon :: t'.val) :
    d = d' ∧ t = t' := by
  have hlength : (colon :: t.val).length = (colon :: t'.val).length := by
    rw [List.length_cons, List.length_cons, t.property, t'.property]
  obtain ⟨hd, ht⟩ := List.append_inj' h hlength
  exact ⟨hd, Subtype.ext (List.cons.inj ht).2⟩

theorem version_parts {version version' : ℕ} {rest rest' : Units}
    (h : numberText version ++ colon :: rest = numberText version' ++ colon :: rest') : version = version' ∧ rest = rest' := by
  obtain ⟨hversion, hrest⟩ := pair_inj number_no_colon number_no_colon h
  exact ⟨numberText_inj hversion, hrest⟩

/-- Within one name the parts are read from left to right. -/
theorem MessageKey.ext_name {key key' : MessageKey} (hname : key.name = key'.name) (hparts : key.parts = key'.parts) :
    key = key' := by
  cases key with
  | ride news rideId version =>
    cases key' with
    | ride news' rideId' version' =>
      obtain ⟨hride, hversion⟩ := ride_parts hparts
      rw [Sum.inl.inj hname, hride, numberText_inj hversion]
    | _ => cases hname
  | party news rideId version driverId =>
    cases key' with
    | party news' rideId' version' driverId' =>
      obtain ⟨hride, hrest⟩ := ride_parts hparts
      obtain ⟨hversion, hdriver⟩ := version_parts hrest
      rw [Sum.inl.inj (Sum.inr.inj hname), hride, hversion, hdriver]
    | _ => cases hname
  | trip news rideId driverId time =>
    cases key' with
    | trip news' rideId' driverId' time' =>
      obtain ⟨hride, hrest⟩ := ride_parts hparts
      obtain ⟨hdriver, htime⟩ := time_parts hrest
      rw [Sum.inl.inj (Sum.inr.inj (Sum.inr.inj hname)), hride, hdriver, htime]
    | _ => cases hname
  | newRideRequest rideId batchId driverId =>
    cases key' with
    | newRideRequest rideId' batchId' driverId' =>
      obtain ⟨hride, hrest⟩ := ride_parts hparts
      obtain ⟨hbatch, hdriver⟩ := ride_parts hrest
      rw [hride, hbatch, hdriver]
    | _ => cases hname
  | driverState driverId updatedAt =>
    cases key' with
    | driverState driverId' updatedAt' =>
      obtain ⟨hdriver, htime⟩ := time_parts hparts
      rw [hdriver, htime]
    | _ => cases hname

theorem MessageKey.text_inj {key key' : MessageKey} : key.text = key'.text ↔ key = key' := by
  constructor
  · intro h
    rw [MessageKey.text_eq, MessageKey.text_eq] at h
    obtain ⟨hname, hparts⟩ := Frame.fill_inj_of_apart NewsName.apart key.name.mem_all key'.name.mem_all h
    exact MessageKey.ext_name hname hparts
  · exact congrArg MessageKey.text

end messages

section store

variable {T : Texts} {B : Texts.Back} {key key' : PublishKey}

/-- The ids and the time in the key are read back from their texts. -/
def PublishKey.ReadBack (T : Texts) (B : Texts.Back) : PublishKey → Prop
  | .rideRequested r _ => B.uuid (T.uuid r) = r
  | .rideStatus r _ => B.uuid (T.uuid r) = r
  | .rideStatusDriver r _ => B.uuid (T.uuid r) = r
  | .driverState d updatedAt => B.driver (T.driver d) = d ∧ B.time (T.time updatedAt) = updatedAt
  | .driverAssigned r _ => B.uuid (T.uuid r) = r
  | .newRideRequest r batchId d => B.uuid (T.uuid r) = r ∧ B.uuid (T.uuid batchId) = batchId ∧ B.driver (T.driver d) = d
  | .rideAssigned r _ d => B.uuid (T.uuid r) = r ∧ B.driver (T.driver d) = d
  | .rideCancelled r _ d => B.uuid (T.uuid r) = r ∧ B.driver (T.driver d) = d
  | .driverConnectionLost r d atTime =>
    B.uuid (T.uuid r) = r ∧ B.driver (T.driver d) = d ∧ B.time (T.time atTime) = atTime

theorem PublishKey.publishKey_messageKey (h : key.ReadBack T B) : (key.messageKey T).publishKey B = some key := by
  cases key <;> simp_all [PublishKey.ReadBack, PublishKey.messageKey, MessageKey.publishKey]

theorem PublishKey.text_inj (h : key.ReadBack T B) (h' : key'.ReadBack T B) :
    (key.messageKey T).text = (key'.messageKey T).text ↔ key = key' := by
  rw [MessageKey.text_inj]
  constructor
  · intro hsame
    have hback := PublishKey.publishKey_messageKey h
    rw [hsame, PublishKey.publishKey_messageKey h'] at hback
    exact (Option.some.inj hback).symm
  · exact fun hsame => hsame ▸ rfl

end store

/-- Every key of Redis tells what it is about, whatever the ids are; and so does every key by which a message is
published once. -/
theorem keys_tell_apart :
    (∀ key key' : Key, key.text = key'.text ↔ key = key') ∧
      ∀ key key' : MessageKey, key.text = key'.text ↔ key = key' :=
  ⟨fun _ _ => Key.text_inj, fun _ _ => MessageKey.text_inj⟩

end YatriGo
