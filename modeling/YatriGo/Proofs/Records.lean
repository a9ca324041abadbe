import YatriGo.Proofs.FirstVersion

/-! What the sync jobs copy: the status, driver and billing of a ride, the status and active
ride of a driver. Here is which commands set them in Redis, and that a hash that exists stays. -/

namespace YatriGo
open Concurrent

inductive Entity
  | ride (rideId : RideId)
  | driver (driverId : DriverId)
  deriving DecidableEq

def JobId.entity : JobId → Option Entity
  | .persistRide r _ => some (.ride r)
  | .persistDriver d _ _ => some (.driver d)
  | _ => none

inductive Record
  | ride (status : Option RideStatus) (driverId : Option DriverId) (billing : Option Billing)
  | driver (status : Option DriverStatus) (activeRideId : Option RideId)
  deriving DecidableEq

def RideHash.record (h : RideHash) : Record := .ride h.status h.driverId h.billing

def DriverHash.record (h : DriverHash) : Record := .driver h.status h.activeRideId

def DriverDoc.record (doc : DriverDoc) : Record := .driver (some doc.status) doc.activeRideId

/-- The fields as Redis has them. -/
def Store.record (s : Store) : Entity → Record
  | .ride r => (s.ride r).record
  | .driver d => (s.driverHash d).record

/-- The fields as Mongo has them. -/
def Store.document (s : Store) : Entity → Option Record
  | .ride r => (s.rideDocs r).map fun doc => doc.fields.record
  | .driver d => (s.driverDocs d).map DriverDoc.record

/-- The hash exists. -/
def Record.stored : Record → Prop
  | .ride status _ _ => status ≠ none
  | .driver status _ => status ≠ none

abbrev Store.knows (s : Store) (x : Entity) : Prop := (s.record x).stored

abbrev Store.mirrors (s : Store) (x : Entity) : Prop := s.document x = some (s.record x)

def RideField.unrecorded : RideField → Bool
  | .status _ => false
  | .driverId _ => false
  | .billing _ => false
  | _ => true

/-- The entity whose record the write can change. -/
def Write.sets : Write → Option Entity
  | .createRide r _ => some (.ride r)
  | .hsetRide r fields => if fields.all RideField.unrecorded then none else some (.ride r)
  | .hsetDriver d _ => some (.driver d)
  | _ => none

def Cmd.sets : ⦃β : Type⦄ → Cmd β → Set Entity
  | _, .multi ws => {x | ∃ w ∈ ws, w.sets = some x}
  | _, .evalAcceptRide r d _ _ => {.ride r, .driver d}
  | _, _ => ∅

/-- Commands that leave all records as they are, and take no job. -/
def Cmd.uneventful : ⦃β : Type⦄ → Cmd β → Prop
  | _, .multi ws => ∀ w ∈ ws, w.sets = none
  | _, .evalAcceptRide .. => False
  | _, .takeJob _ => False
  | _, _ => True

variable {env : Env} {i : ℕ} {α β : Type} {c : Cmd β} {s t : Store} {x : Entity} {r : RideId} {d : DriverId}

theorem hset_record {h : RideHash} {fields : List RideField} (hf : fields.all RideField.unrecorded = true) :
    (h.hset fields).record = h.record := by
  induction fields generalizing h with
  | nil => rfl
  | cons f fields ih =>
    rw [List.all_cons, Bool.and_eq_true] at hf
    rw [hset_cons, ih hf.2]
    cases f <;> first | rfl | cases hf.1

theorem Write.apply_record {w : Write} (h : w.sets ≠ some x) : (w.apply s).record x = s.record x := by
  cases w with
  | createRide r payload =>
    cases x with
    | ride r' =>
      have hne : r' ≠ r := fun heq => h (congrArg (some ∘ Entity.ride) heq.symm)
      exact congrArg RideHash.record (put_of_ne hne)
    | driver d => rfl
  | hsetRide r fields =>
    cases x with
    | ride r' =>
      rcases eq_or_ne r' r with rfl | hne
      · have hf : fields.all RideField.unrecorded = true := by
          by_contra hf
          exact h (if_neg hf)
        show (put s.ride r' ((s.ride r').hset fields) r').record = _
        rw [put_self]
        exact hset_record hf
      · exact congrArg RideHash.record (put_of_ne hne)
    | driver d => rfl
  | hsetDriver d fields =>
    cases x with
    | ride r => rfl
    | driver d' =>
      have hne : d' ≠ d := fun heq => h (congrArg (some ∘ Entity.driver) heq.symm)
      exact congrArg DriverHash.record (put_of_ne hne)
  | _ => cases x <;> rfl

theorem multi_record {ws : List Write} (h : ∀ w ∈ ws, w.sets ≠ some x) :
    (s.multi ws).record x = s.record x := by
  induction ws generalizing s with
  | nil => rfl
  | cons w ws ih =>
    rw [multi_cons, ih fun v hv => h v (List.mem_cons_of_mem _ hv)]
    exact Write.apply_record (h w List.mem_cons_self)

theorem SameKeys.record (h : SameKeys s t) : t.record = s.record := by
  funext x
  cases x with
  | ride r => exact congrArg RideHash.record (congrFun h.ride r)
  | driver d => exact congrArg DriverHash.record (congrFun h.driverHash d)

theorem exec_record (h : x ∉ c.sets) : (exec env i c s).2.record x = s.record x := by
  by_cases hsingle : c.single
  · rw [(exec_sameKeys hsingle).record]
  · cases c with
    | multi ws => exact multi_record fun w hw hsets => h ⟨w, hw, hsets⟩
    | evalAcceptRide r d acceptedAt reservation =>
      rcases @acceptRideScript_cases s r d acceptedAt reservation with ⟨-, heq⟩ | ⟨-, heq, -⟩
      · simp only [exec, heq]
      · simp only [exec, heq]
        cases x with
        | ride r' =>
          have hne : r' ≠ r := fun hr => h (.inl (congrArg Entity.ride hr))
          exact congrArg RideHash.record (put_of_ne hne)
        | driver d' =>
          have hne : d' ≠ d := fun hd => h (.inr (congrArg Entity.driver hd))
          exact congrArg DriverHash.record (put_of_ne hne)
    | _ => exact absurd trivial hsingle

theorem Cmd.uneventful.not_mem (h : c.uneventful) : x ∉ c.sets := by
  cases c with
  | multi ws =>
    rintro ⟨w, hw, hsets⟩
    rw [h w hw] at hsets
    cases hsets
  | evalAcceptRide r d acceptedAt reservation => exact h.elim
  | takeJob job => exact h.elim
  | _ => exact id

theorem Write.minor.sets {w : Write} (h : w.minor) : w.sets = none := by
  cases w <;> first | rfl | exact h.elim

theorem Slight.uneventful {p : App α} (h : Slight p) : p.Uses Cmd.uneventful := by
  refine h.mono fun β c hc => ?_
  cases c with
  | multi ws => exact fun w hw => (hc w hw : w.minor).sets
  | evalAcceptRide r d acceptedAt reservation => exact hc
  | takeJob job => exact hc
  | _ => trivial

section knows

variable {seen : ReadVersions}

theorem hset_driver_status {h : DriverHash} {fields : List DriverField} (hs : h.status ≠ none) :
    (h.hset fields).status ≠ none := by
  induction fields generalizing h with
  | nil => exact hs
  | cons f fields ih =>
    refine ih ?_
    cases f <;> first | exact hs | exact Option.some_ne_none _

theorem Write.countsOn.knows {w : Write} (hw : w.countsOn env seen) (h : s.knows x) : (w.apply s).knows x := by
  cases x with
  | ride r =>
    cases w with
    | createRide r' payload =>
      obtain ⟨c, origin, destination, metadata, now, rfl⟩ := hw
      show (put s.ride r' _ r).status ≠ none
      rw [put_apply]
      split_ifs
      · exact Option.some_ne_none _
      · exact h
    | hsetRide r' fields =>
      show (put s.ride r' _ r).status ≠ none
      rw [put_apply]
      split_ifs with hr
      · rw [← hr]
        exact hset_status_ne_none h
      · exact h
    | _ => exact h
  | driver d =>
    cases w with
    | hsetDriver d' fields =>
      show (put s.driverHash d' _ d).status ≠ none
      rw [put_apply]
      split_ifs with hd
      · rw [← hd]
        exact hset_driver_status h
      · exact h
    | _ => exact h

theorem multi_knows {ws : List Write} (hws : ∀ w ∈ ws, w.countsOn env seen) (h : s.knows x) : (s.multi ws).knows x := by
  induction ws generalizing s with
  | nil => exact h
  | cons w ws ih =>
    have hw : w.countsOn env seen := hws w List.mem_cons_self
    exact ih (fun v hv => hws v (List.mem_cons_of_mem _ hv)) (hw.knows h)

theorem accept_knows {acceptedAt : Time} (h : s.knows x) : (acceptRideCommit r d acceptedAt s).knows x := by
  cases x with
  | ride r' =>
    show (put s.ride r _ r').status ≠ none
    rw [put_apply]
    split_ifs
    · exact Option.some_ne_none _
    · exact h
  | driver d' =>
    show (put s.driverHash d _ d').status ≠ none
    rw [put_apply]
    split_ifs
    · exact Option.some_ne_none _
    · exact h

theorem exec_knows (hc : c.countsOn env seen) (h : s.knows x) : (exec env i c s).2.knows x := by
  by_cases hsingle : c.single
  · rw [Store.knows, (exec_sameKeys hsingle).record]
    exact h
  · cases c with
    | multi ws => exact multi_knows hc h
    | evalAcceptRide r d acceptedAt reservation =>
      rcases @acceptRideScript_cases s r d acceptedAt reservation with ⟨-, heq⟩ | ⟨-, heq, -⟩
      · simp only [exec, heq]
        exact h
      · simp only [exec, heq]
        exact accept_knows h
    | _ => exact absurd trivial hsingle

end knows

end YatriGo
