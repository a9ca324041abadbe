import YatriGo.Concurrent.RelyGuarantee
import YatriGo.Services.RideState
import YatriGo.Socket.Helpers

/-! Deliveries of one inbound event: the first one runs the handler, all others are
duplicates. Each entry of the history is explained by those before it. -/

namespace YatriGo
open Concurrent

/-- No delivery has been told of a success before a run of the handler returned. -/
def Truthful (history : List SocketEntry) : Prop :=
  ∀ pre i response post, history = pre ++ .acked i response :: post → response.success = true →
    ∃ j, .returned j ∈ pre

/-- What a client would hope for: the handler takes effect once, an acknowledged success
comes after it, and no delivery is refused once every earlier run has thrown. -/
structure Honest (history : List SocketEntry) : Prop where
  once : ∀ i j, .returned i ∈ history → .returned j ∈ history → i = j
  truthful : Truthful history
  retried : ∀ pre i post, history = pre ++ .refused i :: post → ∃ j, .begun j ∈ pre ∧ .threw j ∉ pre

/-- `Honest` histories only, for every event that has a key and whatever its handler does. -/
def ActsHonestly (tolerateDuplicates : Bool) : Prop :=
  ∀ event outcome as p, event.eventName ∉ skipIdempotencyEvents →
    (socketSystem tolerateDuplicates event outcome).Run (fun _ _ => True) ⟨{}, []⟩ as p → Honest p.store.history

/-- The handler takes effect once. An acknowledged success comes after the delivery's own run,
or says that the delivery is a tolerated duplicate. The first delivery is not refused. -/
structure HonestBut (tolerated : Bool) (history : List SocketEntry) : Prop where
  once : ∀ i j, .returned i ∈ history → .returned j ∈ history → i = j
  truthful : ∀ pre i response post, history = pre ++ .acked i response :: post →
    response.success = true → .returned i ∈ pre ∨
      tolerated = true ∧ .refused i ∈ pre ∧ response.duplicate = true
  refused : ∀ pre i post, history = pre ++ .refused i :: post → ∃ j, .begun j ∈ pre

/-- The entry can come after `pre`. -/
def Explains (tolerated : Bool) (pre : List SocketEntry) : SocketEntry → Prop
  | .begun _ => ∀ j, .begun j ∉ pre
  | .refused _ => ∃ j, .begun j ∈ pre
  | .returned i => .begun i ∈ pre
  | .threw i => .begun i ∈ pre
  | .acked i response => response.success = true → .returned i ∈ pre ∨
      tolerated = true ∧ .refused i ∈ pre ∧ response.duplicate = true

def Explained (tolerated : Bool) (history : List SocketEntry) : Prop :=
  ∀ pre entry post, history = pre ++ entry :: post → Explains tolerated pre entry

section history

variable {tolerated : Bool} {history pre : List SocketEntry} {entry : SocketEntry} {i j : ℕ}

theorem explained_nil : Explained tolerated [] := by
  intro pre entry post h
  have hlen : pre.length + (post.length + 1) = 0 := by
    have := congrArg List.length h
    simpa using this.symm
  omega

theorem Explained.snoc (h : Explained tolerated history) (hentry : Explains tolerated history entry) :
    Explained tolerated (history ++ [entry]) := by
  intro pre x post heq
  rcases List.eq_nil_or_concat post with rfl | ⟨post', y, rfl⟩
  · obtain ⟨hpre, hx⟩ := List.append_inj' heq rfl
    rw [← hpre, ← List.singleton_inj.mp hx]
    exact hentry
  · have hlast : history ++ [entry] = (pre ++ x :: post') ++ [y] := by
      rw [heq]
      simp
    exact h pre x post' (List.append_inj' hlast rfl).1

theorem Explained.mem (h : Explained tolerated history) (hmem : entry ∈ history) :
    ∃ pre post, history = pre ++ entry :: post ∧ Explains tolerated pre entry := by
  obtain ⟨pre, post, rfl⟩ := List.append_of_mem hmem
  exact ⟨pre, post, rfl, h pre entry post rfl⟩

theorem Explained.begun (h : Explained tolerated history) (hi : .begun i ∈ history)
    (hj : .begun j ∈ history) : i = j := by
  obtain ⟨pre, post, rfl, hfirst⟩ := h.mem hi
  rcases List.mem_append.mp hj with hpre | hpost
  · exact absurd hpre (hfirst j)
  · rcases List.mem_cons.mp hpost with heq | hlater
    · exact (SocketEntry.begun.inj heq).symm
    · -- a later run would find the first one before it
      obtain ⟨mid, rest, rfl⟩ := List.append_of_mem hlater
      have hsecond := h (pre ++ .begun i :: mid) (.begun j) rest (by simp)
      exact absurd (List.mem_append_right pre List.mem_cons_self) (hsecond i)

theorem Explained.returned (h : Explained tolerated history) (hi : .returned i ∈ history) :
    .begun i ∈ history := by
  obtain ⟨pre, post, rfl, hbegun⟩ := h.mem hi
  exact List.mem_append_left _ hbegun

theorem Explained.honest (h : Explained tolerated history) : HonestBut tolerated history where
  once := fun _ _ hi hj => h.begun (h.returned hi) (h.returned hj)
  truthful := fun pre i response post heq => h pre (.acked i response) post heq
  refused := fun pre i post heq => h pre (.refused i) post heq

end history

section deliveries

variable {tolerateDuplicates : Bool} {event : InboundEvent} {outcome : ℕ → Except AppError String}
  {entry : SocketEntry} {i : ℕ} {s t : SocketStore}

/-- Duplicates of the event are acknowledged with success. -/
def toleratesDuplicates (tolerateDuplicates : Bool) (event : InboundEvent) : Bool :=
  tolerateDuplicates && event.eventName ≠ .acceptRide

def duplicateAck (tolerateDuplicates : Bool) (event : InboundEvent) : Ack :=
  if event.eventName = .acceptRide then { success := false, error := some "Duplicate accept not allowed" }
  else if tolerateDuplicates = false then { success := false, error := some "Duplicate event rejected" }
  else { success := true, data := some "\x7b\x7d", duplicate := true, tolerated := tolerateDuplicates }

def outcomeAck : Except AppError String → Ack
  | .ok data => { success := true, data := some data }
  | .error error => { success := false, error := some error.message }

/-- The delivery of an event that has a key, command by command. -/
theorem handleSocketEvent_eq (h : event.eventName ∉ skipIdempotencyEvents) :
    handleSocketEvent tolerateDuplicates event =
      .cmd (.markIdempotent "socket-inbound" (idempotencyKey event)) fun accepted =>
        if accepted then .cmd .handler fun result => .cmd (.ack (outcomeAck result)) .ret
        else .cmd (.ack (duplicateAck tolerateDuplicates event)) .ret := by
  unfold handleSocketEvent validateInboundEvent
  rw [if_neg h]
  simp only [Prog.bind_eq, Prog.perform_bind, Prog.cmd_bind, Prog.tryCatch]
  congr 1
  funext accepted
  cases accepted with
  | true =>
    simp only [runHandler, if_true, Prog.pure_eq, Prog.ret_bind, Prog.bind_eq, Prog.perform_bind,
      Prog.cmd_bind, Bool.true_eq_false, false_and, if_false, Prog.tryCatch]
    congr 1
    funext result
    cases result <;> rfl
  | false =>
    simp only [Bool.false_eq_true, if_false, Prog.pure_eq, Prog.ret_bind, true_and, if_true,
      answerDuplicate, duplicateAck]
    split_ifs <;> rfl

theorem duplicateAck_explained (hrefused : .refused i ∈ history) :
    Explains (toleratesDuplicates tolerateDuplicates event) history
      (.acked i (duplicateAck tolerateDuplicates event)) := by
  unfold duplicateAck toleratesDuplicates
  intro hsuccess
  split_ifs at hsuccess with haccept hrejected
  right
  refine ⟨?_, hrefused, ?_⟩
  · simp [haccept, hrejected]
  · rw [if_neg haccept, if_neg hrejected]

/-- The key of the event is marked as soon as a delivery runs the handler. -/
structure Kept (tolerateDuplicates : Bool) (event : InboundEvent) (s : SocketStore) : Prop where
  explained : Explained (toleratesDuplicates tolerateDuplicates event) s.history
  marked : s.idempotency (namespacedKey "socket-inbound" (idempotencyKey event)) = true ↔
    ∃ j, .begun j ∈ s.history

/-- What delivery `i` promises of its commands. -/
def Justified (tolerateDuplicates : Bool) (event : InboundEvent) (i : ℕ) :
    ⦃β : Type⦄ → SocketCmd β → SocketStore → Prop
  | _, .markIdempotent scope key, _ => scope = "socket-inbound" ∧ key = idempotencyKey event
  | _, .handler, s => .begun i ∈ s.history
  | _, .ack response, s => Explains (toleratesDuplicates tolerateDuplicates event) s.history (.acked i response)

/-- Between the commands of a delivery the others append to the history. -/
def deliveries (tolerateDuplicates : Bool) (event : InboundEvent) (outcome : ℕ → Except AppError String) :
    Contract (socketSystem tolerateDuplicates event outcome) where
  inv := fun _ s => Kept tolerateDuplicates event s
  rely := fun _ s t => ∃ more, t.history = s.history ++ more
  assume := fun _ _ _ _ => True
  guar := fun i _ c s => Justified tolerateDuplicates event i c s
  post := fun _ _ => True
  okOp := fun _ => True
  okEnv := fun _ => True
  refl := fun _ s => ⟨[], (List.append_nil _).symm⟩
  trans := by
    rintro _ s t u ⟨more, ht⟩ ⟨more', hu⟩
    exact ⟨more ++ more', by rw [hu, ht, List.append_assoc]⟩

theorem Kept.snoc (h : Kept tolerateDuplicates event s)
    (hentry : Explains (toleratesDuplicates tolerateDuplicates event) s.history entry)
    (hsame : t.idempotency = s.idempotency) (hhistory : t.history = s.history ++ [entry])
    (hbegun : ∀ j, entry ≠ .begun j) : Kept tolerateDuplicates event t where
  explained := by
    rw [hhistory]
    exact h.explained.snoc hentry
  marked := by
    have hother : ∀ j, .begun j ∈ s.history ++ [entry] ↔ .begun j ∈ s.history := by
      intro j
      simp [(hbegun j).symm]
    rw [hsame, hhistory, h.marked]
    simp only [hother]

/-- The history goes on by one entry, which it explains. -/
theorem Kept.exec {β : Type} {c : SocketCmd β} (h : Kept tolerateDuplicates event s)
    (hc : Justified tolerateDuplicates event i c s) :
    Kept tolerateDuplicates event (socketExec outcome i c s).2 := by
  cases c with
  | markIdempotent scope key =>
    obtain ⟨rfl, rfl⟩ := hc
    by_cases hmark : s.idempotency (namespacedKey "socket-inbound" (idempotencyKey event)) = true
    · have hexec : socketExec outcome i (.markIdempotent "socket-inbound" (idempotencyKey event)) s =
          (false, { s with history := s.history ++ [.refused i] }) := if_pos hmark
      rw [hexec]
      have hentry : Explains (toleratesDuplicates tolerateDuplicates event) s.history (.refused i) :=
        h.marked.mp hmark
      exact h.snoc hentry rfl rfl fun j => by simp
    · have hexec : socketExec outcome i (.markIdempotent "socket-inbound" (idempotencyKey event)) s =
          (true, { s with
            idempotency := put s.idempotency (namespacedKey "socket-inbound" (idempotencyKey event)) true
            history := s.history ++ [.begun i] }) := if_neg hmark
      have hentry : Explains (toleratesDuplicates tolerateDuplicates event) s.history (.begun i) :=
        fun j hj => hmark (h.marked.mpr ⟨j, hj⟩)
      rw [hexec]
      refine ⟨h.explained.snoc hentry, ?_⟩
      simp only [put_self, true_iff]
      exact ⟨i, List.mem_append_right _ (List.mem_singleton_self _)⟩
  | handler =>
    cases hrun : outcome i with
    | ok data =>
      have hentry : Explains (toleratesDuplicates tolerateDuplicates event) s.history (.returned i) := hc
      exact h.snoc hentry rfl (by simp [socketExec, hrun]) fun j => by simp
    | error error =>
      have hentry : Explains (toleratesDuplicates tolerateDuplicates event) s.history (.threw i) := hc
      exact h.snoc hentry rfl (by simp [socketExec, hrun]) fun j => by simp
  | ack response =>
    have hentry : Explains (toleratesDuplicates tolerateDuplicates event) s.history (.acked i response) := hc
    exact h.snoc hentry rfl rfl fun j => by simp

theorem exec_appends {β : Type} {c : SocketCmd β} :
    ∃ more, (socketExec outcome i c s).2.history = s.history ++ more := by
  cases c with
  | markIdempotent scope key =>
    simp only [socketExec]
    split_ifs
    · exact ⟨_, rfl⟩
    · exact ⟨_, rfl⟩
  | handler => exact ⟨_, rfl⟩
  | ack response => exact ⟨_, rfl⟩

/-- A delivery runs the handler once its mark is set, and says of it what it returned. -/
theorem delivery_safe (hkey : event.eventName ∉ skipIdempotencyEvents) :
    ((deliveries tolerateDuplicates event outcome).view i).Safe (fun _ _ => True)
      (handleSocketEvent tolerateDuplicates event) s := by
  rw [handleSocketEvent_eq hkey]
  intro t _ _
  refine ⟨⟨rfl, rfl⟩, ?_⟩
  by_cases hmark : t.idempotency (namespacedKey "socket-inbound" (idempotencyKey event)) = true
  · have hexec : ((deliveries tolerateDuplicates event outcome).view i).exec
        (.markIdempotent "socket-inbound" (idempotencyKey event)) t =
        (false, { t with history := t.history ++ [.refused i] }) := if_pos hmark
    rw [hexec]
    intro u ⟨more, hu⟩ _
    have hrefused : .refused i ∈ u.history := by
      rw [hu]
      simp
    exact ⟨duplicateAck_explained hrefused, fun _ _ => trivial⟩
  · have hexec : ((deliveries tolerateDuplicates event outcome).view i).exec
        (.markIdempotent "socket-inbound" (idempotencyKey event)) t =
        (true, { t with
          idempotency := put t.idempotency (namespacedKey "socket-inbound" (idempotencyKey event)) true
          history := t.history ++ [.begun i] }) := if_neg hmark
    rw [hexec]
    intro u ⟨more, hu⟩ _
    have hbegun : .begun i ∈ u.history := by
      rw [hu]
      simp
    refine ⟨hbegun, fun v ⟨more', hv⟩ _ => ⟨?_, fun _ _ => trivial⟩⟩
    intro hsuccess
    cases hrun : outcome i with
    | ok data =>
      left
      rw [hv]
      simp [deliveries, Contract.view, socketSystem, socketExec, hrun]
    | error error =>
      -- a handler that threw is answered with its error
      have hfailed : (outcomeAck (outcome i)).success = false := by rw [hrun]; rfl
      have hanswer : (outcomeAck (outcome i)).success = true := hsuccess
      rw [hfailed] at hanswer
      cases hanswer

theorem deliveries_sound (hkey : event.eventName ∉ skipIdempotencyEvents) :
    (deliveries tolerateDuplicates event outcome).Sound where
  call := fun _ _ _ _ h => h
  spawn := fun _ _ _ _ _ => delivery_safe hkey
  step := fun _ _ _ _ _ _ h _ hc => h.exec hc
  others := fun _ _ _ _ _ _ _ _ _ _ _ _ => exec_appends
  env := fun e => e.elim

theorem deliveries_ok (p : Pool SocketCmd AppError SocketStore Unit) (a : Action Unit Empty) :
    (deliveries tolerateDuplicates event outcome).Ok p a := by
  cases a with
  | call op => trivial
  | step i => exact fun _ _ _ _ _ => trivial
  | env e => exact e.elim

theorem kept_empty : Kept tolerateDuplicates event {} where
  explained := explained_nil
  marked := by simp

/-- However its deliveries overlap, an event takes effect once, and it is acknowledged with
success after that, or as a tolerated duplicate. -/
theorem takes_effect_once (tolerateDuplicates : Bool) (event : InboundEvent)
    (outcome : ℕ → Except AppError String) (hkey : event.eventName ∉ skipIdempotencyEvents)
    (as : List (Action Unit Empty)) (p : Pool SocketCmd AppError SocketStore Unit)
    (hrun : (socketSystem tolerateDuplicates event outcome).Run (fun _ _ => True) ⟨{}, []⟩ as p) :
    HonestBut (toleratesDuplicates tolerateDuplicates event) p.store.history := by
  have hholds : (deliveries tolerateDuplicates event outcome).Holds p :=
    (deliveries_sound hkey).run (fun p a _ => deliveries_ok p a) hrun (Contract.holds_empty kept_empty)
  exact hholds.inv.explained.honest

/-- A driver's arrival, without an id of its own. -/
def arriving : InboundEvent where
  actorId := "1"
  eventName := .rideArriving
  eventId := none
  rideId := some "7"

/-- The second delivery comes in while the handler of the first one runs. -/
def overlapping : List (Action Unit Empty) :=
  [.call (), .step 0, .call (), .step 1, .step 1, .step 0, .step 0]

theorem takes_effect_once_overlapping : ∃ p : Pool SocketCmd AppError SocketStore Unit,
    p.store.history =
      [.begun 0, .refused 1, .acked 1 (duplicateAck true arriving), .returned 0, .acked 0 (outcomeAck (.ok ""))] ∧
    HonestBut true p.store.history := by
  have hsteps : ((socketSystem true arriving fun _ => .ok "").steps (fun _ _ => true) overlapping ⟨{}, []⟩).any
      (fun p => p.store.history = [.begun 0, .refused 1, .acked 1 (duplicateAck true arriving), .returned 0,
        .acked 0 (outcomeAck (.ok ""))]) = true := by decide +kernel
  obtain ⟨p, hrun, hp⟩ := System.exists_run (fun _ _ _ => trivial) hsteps
  exact ⟨p, of_decide_eq_true hp, takes_effect_once true arriving _ (by decide) overlapping p hrun⟩

/-- The first delivery finds the ride's lock busy. The second one does not run the handler again. -/
def retriedLater : List (Action Unit Empty) :=
  [.call (), .step 0, .step 0, .step 0, .call (), .step 1, .step 1]

def retryHistory (tolerateDuplicates : Bool) : List SocketEntry :=
  [.begun 0, .threw 0, .acked 0 (outcomeAck (.error rideLocked)), .refused 1,
    .acked 1 (duplicateAck tolerateDuplicates arriving)]

theorem retry_answered :
    (∃ as p, (socketSystem true arriving fun _ => .error rideLocked).Run (fun _ _ => True) ⟨{}, []⟩ as p ∧
      ¬ Truthful p.store.history) ∧
    ¬ ActsHonestly true ∧ ¬ ActsHonestly false := by
  have hsteps : ∀ tolerateDuplicates : Bool,
      ((socketSystem tolerateDuplicates arriving fun _ => .error rideLocked).steps (fun _ _ => true) retriedLater
        ⟨{}, []⟩).any (fun p => p.store.history = retryHistory tolerateDuplicates) = true := by decide +kernel
  have hdishonest : ∀ tolerateDuplicates : Bool, ¬ ActsHonestly tolerateDuplicates := by
    intro tolerateDuplicates h
    obtain ⟨p, hrun, hp⟩ := System.exists_run (fun _ _ _ => trivial) (hsteps tolerateDuplicates)
    have hhonest : Honest p.store.history := h arriving _ retriedLater p (by decide) hrun
    rw [of_decide_eq_true hp] at hhonest
    obtain ⟨j, hbegun, hthrew⟩ :=
      hhonest.retried [.begun 0, .threw 0, .acked 0 (outcomeAck (.error rideLocked))] 1 _ rfl
    simp only [List.mem_cons, SocketEntry.begun.injEq, reduceCtorEq, List.not_mem_nil, or_false] at hbegun
    subst hbegun
    exact hthrew (by simp)
  refine ⟨?_, hdishonest true, hdishonest false⟩
  obtain ⟨p, hrun, hp⟩ := System.exists_run (fun _ _ _ => trivial) (hsteps true)
  refine ⟨retriedLater, p, hrun, fun htruthful => ?_⟩
  rw [of_decide_eq_true hp] at htruthful
  obtain ⟨j, hj⟩ := htruthful
    [.begun 0, .threw 0, .acked 0 (outcomeAck (.error rideLocked)), .refused 1] 1 _ [] rfl rfl
  simp at hj

end deliveries

end YatriGo
