import YatriGo.Socket.Helpers
import YatriGo.Text.Separated

/-! Which events of clients are checked under the same idempotency key. -/

namespace YatriGo
open Concurrent

/-- An event with what its payload leaves out: the batch whose offer it answers, or which of
the customer's requests it makes. -/
structure ClientEvent extends InboundEvent where
  occasion : ℕ

/-- The last part of a key that is built from the event. -/
def rideText (event : InboundEvent) : String := (truthy event.rideId).getD "NA"

/-- `validateInboundEvent` marks the key for the event. -/
def ChecksUnder (event : InboundEvent) (key : String) : Prop :=
  ∀ tolerateDuplicates, ∃ k,
    validateInboundEvent tolerateDuplicates event = .cmd (.markIdempotent "socket-inbound" key) k

/-- The events make the same request, answer the same offer or take the same step of a ride. -/
def SameStep (e e' : ClientEvent) : Prop :=
  (e.eventName ≠ .requestRide → truthy e.rideId = truthy e'.rideId) ∧
  (e.eventName ∈ [.requestRide, .acceptRide, .rejectRide] → e.occasion = e'.occasion)

/-- The events are deliveries of one action of the client. -/
def SameAction (e e' : ClientEvent) : Prop :=
  truthy e.eventId = truthy e'.eventId ∧ (truthy e.eventId = none → SameStep e e')

def NeverMistaken (e e' : ClientEvent) : Prop :=
  ∀ key, ChecksUnder e.toInboundEvent key → ChecksUnder e'.toInboundEvent key →
    e.actorId = e'.actorId ∧ e.eventName = e'.eventName ∧ SameAction e e'

/-- As `NeverMistaken`, of the keys themselves. -/
def KeyTells (e e' : ClientEvent) : Prop :=
  idempotencyKey e.toInboundEvent = idempotencyKey e'.toInboundEvent →
    e.actorId = e'.actorId ∧ e.eventName = e'.eventName ∧ SameAction e e'

/-- The first event has an id and the second one none, and the id is the text of its fields. -/
def Imitates (e e' : ClientEvent) : Prop :=
  truthy e'.eventId = none ∧
    truthy e.eventId = some (e'.actorId ++ ":" ++ e'.eventName.toString ++ ":" ++ rideText e'.toInboundEvent)

def CutElsewhere (e e' : ClientEvent) : Prop :=
  Text.Shifted ':' e.actorId.toList e.eventName.toString.toList (rideText e.toInboundEvent).toList
    e'.actorId.toList e'.eventName.toString.toList (rideText e'.toInboundEvent).toList

/-- Events with ids share one only within one actor and event name. Events without ids differ
in a field unless they are the same step, and their colons do not make up for the difference. -/
structure ToldApart (e e' : ClientEvent) : Prop where
  ids : truthy e.eventId = truthy e'.eventId → truthy e.eventId ≠ none →
    e.actorId = e'.actorId ∧ e.eventName = e'.eventName
  mixed : ¬ Imitates e e' ∧ ¬ Imitates e' e
  colons : truthy e.eventId = none → truthy e'.eventId = none → ¬ CutElsewhere e e' ∧ ¬ CutElsewhere e' e
  repeated : truthy e.eventId = none → truthy e'.eventId = none → e.actorId = e'.actorId →
    e.eventName = e'.eventName → rideText e.toInboundEvent = rideText e'.toInboundEvent →
    (e.eventName ≠ .requestRide → (truthy e.rideId = none ↔ truthy e'.rideId = none)) ∧
    (e.eventName ∈ [.requestRide, .acceptRide, .rejectRide] → e.occasion = e'.occasion)

variable {event : InboundEvent} {e e' : ClientEvent} {key : String}

theorem checksUnder_iff (h : event.eventName ∉ skipIdempotencyEvents) :
    ChecksUnder event key ↔ key = idempotencyKey event := by
  have hcode : ∀ tolerateDuplicates, ∃ k, validateInboundEvent tolerateDuplicates event =
      .cmd (.markIdempotent "socket-inbound" (idempotencyKey event)) k := by
    intro tolerateDuplicates
    unfold validateInboundEvent
    rw [if_neg h]
    exact ⟨_, rfl⟩
  constructor
  · intro hchecks
    obtain ⟨k, hk⟩ := hcode true
    obtain ⟨k', hk'⟩ := hchecks true
    rw [hk] at hk'
    cases hk'
    rfl
  · rintro rfl
    exact hcode

theorem eventName_noColon (name : SocketEventName) : ':' ∉ name.toString.toList := by
  cases name <;> decide

theorem eventName_toString {name name' : SocketEventName} : name.toString = name'.toString ↔ name = name' := by
  constructor
  · cases name <;> cases name' <;> decide
  · rintro rfl
    rfl

theorem fieldsText_toList (actorId name ride : String) :
    (actorId ++ ":" ++ name ++ ":" ++ ride).toList =
      actorId.toList ++ ':' :: (name.toList ++ ':' :: ride.toList) := by
  simp only [String.toList_append, List.append_assoc]
  rfl

theorem fieldsText_agree :
    e.actorId ++ ":" ++ e.eventName.toString ++ ":" ++ rideText e.toInboundEvent =
        e'.actorId ++ ":" ++ e'.eventName.toString ++ ":" ++ rideText e'.toInboundEvent ↔
      (e.actorId = e'.actorId ∧ e.eventName = e'.eventName ∧
        rideText e.toInboundEvent = rideText e'.toInboundEvent) ∨ CutElsewhere e e' ∨ CutElsewhere e' e := by
  rw [← String.toList_inj, fieldsText_toList, fieldsText_toList,
    Text.fields_agree (eventName_noColon _) (eventName_noColon _), String.toList_inj, String.toList_inj,
    String.toList_inj, eventName_toString]
  rfl

theorem CutElsewhere.actor (h : CutElsewhere e e') : e.actorId ≠ e'.actorId := by
  intro hactor
  have hlists : e.actorId.toList = e'.actorId.toList := congrArg String.toList hactor
  exact Text.Shifted.ne h hlists

theorem idempotencyKey_of_id {id : String} (h : truthy event.eventId = some id) :
    idempotencyKey event = id := by
  rw [idempotencyKey, h]
  rfl

theorem idempotencyKey_of_none (h : truthy event.eventId = none) :
    idempotencyKey event = event.actorId ++ ":" ++ event.eventName.toString ++ ":" ++ rideText event := by
  rw [idempotencyKey, h]
  rfl

theorem rideId_of_text (h : rideText event = rideText e.toInboundEvent)
    (hmissing : truthy event.rideId = none ↔ truthy e.rideId = none) :
    truthy event.rideId = truthy e.rideId := by
  cases hfirst : truthy event.rideId with
  | none => exact (hmissing.mp hfirst).symm
  | some ride =>
    cases hsecond : truthy e.rideId with
    | none =>
      rw [hmissing.mpr hsecond] at hfirst
      exact hfirst.symm
    | some ride' =>
      simp only [rideText, hfirst, hsecond, Option.getD_some] at h
      rw [h]

theorem neverMistaken_iff (he : e.eventName ∉ skipIdempotencyEvents)
    (he' : e'.eventName ∉ skipIdempotencyEvents) : NeverMistaken e e' ↔ KeyTells e e' := by
  unfold NeverMistaken KeyTells
  constructor
  · intro h hkey
    exact h _ ((checksUnder_iff he).mpr rfl) ((checksUnder_iff he').mpr hkey)
  · intro h key hfirst hsecond
    have hkey : key = idempotencyKey e.toInboundEvent := (checksUnder_iff he).mp hfirst
    have hkey' : key = idempotencyKey e'.toInboundEvent := (checksUnder_iff he').mp hsecond
    exact h (hkey.symm.trans hkey')

theorem keyTells_ids {id id' : String} (hid : truthy e.eventId = some id)
    (hid' : truthy e'.eventId = some id') :
    KeyTells e e' ↔ ToldApart e e' := by
  have hne : truthy e.eventId ≠ none := by simp [hid]
  have hne' : truthy e'.eventId ≠ none := by simp [hid']
  have hkeys : idempotencyKey e.toInboundEvent = idempotencyKey e'.toInboundEvent ↔
      truthy e.eventId = truthy e'.eventId := by
    rw [idempotencyKey_of_id hid, idempotencyKey_of_id hid', hid, hid', Option.some_inj]
  rw [KeyTells, hkeys]
  constructor
  · intro h
    refine ⟨fun hsame _ => ⟨(h hsame).1, (h hsame).2.1⟩, ⟨fun hi => hne' hi.1, fun hi => hne hi.1⟩,
      fun hnone => absurd hnone hne, fun hnone => absurd hnone hne⟩
  · intro h hsame
    obtain ⟨hactor, hname⟩ := h.ids hsame hne
    exact ⟨hactor, hname, hsame, fun hnone => absurd hnone hne⟩

theorem keyTells_mixed {id : String} (hid : truthy e.eventId = some id) (hnone : truthy e'.eventId = none) :
    KeyTells e e' ↔ ToldApart e e' := by
  have hne : truthy e.eventId ≠ none := by simp [hid]
  have hdiffer : truthy e.eventId ≠ truthy e'.eventId := by simp [hid, hnone]
  have hkeys : idempotencyKey e.toInboundEvent = idempotencyKey e'.toInboundEvent ↔ Imitates e e' := by
    rw [idempotencyKey_of_id hid, idempotencyKey_of_none hnone, Imitates, hid, Option.some_inj]
    exact (and_iff_right hnone).symm
  rw [KeyTells, hkeys]
  constructor
  · intro h
    have hno : ¬ Imitates e e' := fun hi => hdiffer (h hi).2.2.1
    exact ⟨fun hsame => absurd hsame hdiffer, ⟨hno, fun hi => hne hi.1⟩, fun hfirst => absurd hfirst hne,
      fun hfirst => absurd hfirst hne⟩
  · intro h hi
    exact absurd hi h.mixed.1

/-- Without ids, the keys agree when all fields do, or when one text is cut. -/
theorem keyTells_fields (hnone : truthy e.eventId = none) (hnone' : truthy e'.eventId = none) :
    KeyTells e e' ↔ ToldApart e e' := by
  have hkeys : idempotencyKey e.toInboundEvent = idempotencyKey e'.toInboundEvent ↔
      (e.actorId = e'.actorId ∧ e.eventName = e'.eventName ∧
        rideText e.toInboundEvent = rideText e'.toInboundEvent) ∨ CutElsewhere e e' ∨ CutElsewhere e' e := by
    rw [idempotencyKey_of_none hnone, idempotencyKey_of_none hnone', fieldsText_agree]
  rw [KeyTells, hkeys]
  constructor
  · intro h
    have himitates : ¬ Imitates e e' ∧ ¬ Imitates e' e := by
      refine ⟨fun hi => ?_, fun hi => ?_⟩
      · have hid := hi.2
        rw [hnone] at hid
        cases hid
      · have hid := hi.2
        rw [hnone'] at hid
        cases hid
    have hcut : ¬ CutElsewhere e e' ∧ ¬ CutElsewhere e' e :=
      ⟨fun hc => hc.actor (h (Or.inr (Or.inl hc))).1, fun hc => hc.actor (h (Or.inr (Or.inr hc))).1.symm⟩
    refine ⟨fun _ hne => absurd hnone hne, himitates, fun _ _ => hcut, ?_⟩
    intro _ _ hactor hname hride
    obtain ⟨-, -, -, hsame⟩ := h (Or.inl ⟨hactor, hname, hride⟩)
    obtain ⟨hrides, hoccasion⟩ := hsame hnone
    exact ⟨fun hrequest => by rw [hrides hrequest], hoccasion⟩
  · intro h hagree
    obtain ⟨hcut, hcut'⟩ := h.colons hnone hnone'
    rcases hagree with ⟨hactor, hname, hride⟩ | hc | hc
    · obtain ⟨hmissing, hoccasion⟩ := h.repeated hnone hnone' hactor hname hride
      refine ⟨hactor, hname, hnone.trans hnone'.symm, fun _ => ⟨fun hrequest => ?_, hoccasion⟩⟩
      exact rideId_of_text hride (hmissing hrequest)
    · exact absurd hc hcut
    · exact absurd hc hcut'

theorem KeyTells.symm (h : KeyTells e e') : KeyTells e' e := by
  intro hkey
  obtain ⟨hactor, hname, hids, hstep⟩ := h hkey.symm
  refine ⟨hactor.symm, hname.symm, hids.symm, fun hnone => ?_⟩
  obtain ⟨hrides, hoccasion⟩ := hstep (hids.trans hnone)
  rw [hname] at hrides hoccasion
  exact ⟨fun hrequest => (hrides hrequest).symm, fun hmem => (hoccasion hmem).symm⟩

theorem ToldApart.symm (h : ToldApart e e') : ToldApart e' e where
  ids := by
    intro hsame hne
    obtain ⟨hactor, hname⟩ := h.ids hsame.symm (hsame ▸ hne)
    exact ⟨hactor.symm, hname.symm⟩
  mixed := h.mixed.symm
  colons := fun hnone hnone' => (h.colons hnone' hnone).symm
  repeated := by
    intro hnone hnone' hactor hname hride
    obtain ⟨hmissing, hoccasion⟩ := h.repeated hnone' hnone hactor.symm hname.symm hride.symm
    rw [← hname] at hmissing hoccasion
    exact ⟨fun hrequest => (hmissing hrequest).symm, fun hmem => (hoccasion hmem).symm⟩

/-- Two events are never mistaken for each other when the key tells them apart. -/
theorem never_mistaken (e e' : ClientEvent) (he : e.eventName ∉ skipIdempotencyEvents)
    (he' : e'.eventName ∉ skipIdempotencyEvents) : NeverMistaken e e' ↔ ToldApart e e' := by
  rw [neverMistaken_iff he he']
  cases hid : truthy e.eventId with
  | some id =>
    cases hid' : truthy e'.eventId with
    | some id' => exact keyTells_ids hid hid'
    | none => exact keyTells_mixed hid hid'
  | none =>
    cases hid' : truthy e'.eventId with
    | some id' =>
      have hmixed : KeyTells e' e ↔ ToldApart e' e := keyTells_mixed hid' hid
      exact ⟨fun h => (hmixed.mp h.symm).symm, fun h => (hmixed.mpr h.symm).symm⟩
    | none => exact keyTells_fields hid hid'

theorem ToldApart.of_ids (hne : truthy e.eventId ≠ none) (hne' : truthy e'.eventId ≠ none)
    (hdiffer : truthy e.eventId ≠ truthy e'.eventId) : ToldApart e e' where
  ids := fun hsame => absurd hsame hdiffer
  mixed := ⟨fun hi => hne' hi.1, fun hi => hne hi.1⟩
  colons := fun hnone => absurd hnone hne
  repeated := fun hnone => absurd hnone hne

/-- A customer asks for a ride. -/
def requesting (eventId : Option String) (request : ℕ) : ClientEvent where
  actorId := "c1"
  eventName := .requestRide
  eventId := eventId
  rideId := none
  occasion := request

theorem never_mistaken_requests : NeverMistaken (requesting (some "e1") 1) (requesting (some "e2") 2) :=
  (never_mistaken _ _ (by decide) (by decide)).mpr (.of_ids (by decide) (by decide) (by decide))

/-- A driver answers the offer of ride r1 in a batch. -/
def answering (eventName : SocketEventName) (batch : ℕ) : ClientEvent where
  actorId := "d1"
  eventName := eventName
  eventId := none
  rideId := some "r1"
  occasion := batch

/-- An arrival with the id e1. -/
def arrivingAs (actorId : String) : ClientEvent where
  actorId := actorId
  eventName := .rideArriving
  eventId := some "e1"
  rideId := some "r1"
  occasion := 0

/-- The second request of a customer, and the answers to a later offer of a ride, get the key of
the first. So do events of two drivers with one id. -/
theorem mistaken : ¬ NeverMistaken (requesting none 1) (requesting none 2) ∧
    ¬ NeverMistaken (answering .acceptRide 1) (answering .acceptRide 2) ∧
    ¬ NeverMistaken (answering .rejectRide 1) (answering .rejectRide 2) ∧
    ¬ NeverMistaken (arrivingAs "d1") (arrivingAs "d2") := by
  refine ⟨fun h => ?_, fun h => ?_, fun h => ?_, fun h => ?_⟩
  · obtain ⟨-, -, -, hsame⟩ := (neverMistaken_iff (by decide) (by decide)).mp h rfl
    have hoccasion : (1 : ℕ) = 2 := (hsame rfl).2 (by decide)
    omega
  · obtain ⟨-, -, -, hsame⟩ := (neverMistaken_iff (by decide) (by decide)).mp h rfl
    have hoccasion : (1 : ℕ) = 2 := (hsame rfl).2 (by decide)
    omega
  · obtain ⟨-, -, -, hsame⟩ := (neverMistaken_iff (by decide) (by decide)).mp h rfl
    have hoccasion : (1 : ℕ) = 2 := (hsame rfl).2 (by decide)
    omega
  · obtain ⟨hactor, -⟩ := (neverMistaken_iff (by decide) (by decide)).mp h rfl
    exact absurd hactor (by decide)

end YatriGo
