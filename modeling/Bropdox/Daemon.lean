import Bropdox.FileHandler
import Bropdox.Runs

/-!
# The watcher and the daemon

`client/Watcher.cpp` and the loop that `parse_input` starts after a login.  The watcher queues an
event for every notification; the loop takes the whole queue, asks the server for a synchronisation,
and hands the events to `sync_client` if the server agrees.  By then the queue is empty, whatever
the server says.

## What is here

* `Watcher` is the queue, with `getEvents` and `handleFileModification`.
* `Daemon` is what the loop works with, and a record of what it has done; `Daemon.iterate` is one
  round of the loop and `sendHandshake` the handshake in it, which may fail in the ways of `Reply`.
* `Daemon.step` is one move: a notification, a command of the user that changes the device and the
  request socket, or a round.
* `Conserved` is the property: what was recorded is what was handed on and then what is queued.
  `Accepted` is the condition on a move.
* `step_conserved` and `step_loses` are the two directions for one move.
* `events_conserved_iff`: no event is lost in a run if and only if every handshake that is made for
  a batch of events succeeds.
* `negative_answer_loses_event` is one file and one refusal.
-/

set_option autoImplicit false

namespace Bropdox

open FileSystem

/-- What a computation comes to, each of its parts has come to. -/
theorem ok_of_bind {ε α β : Type} {x : Except ε α} {f : α → Except ε β} {b : β}
    (h : x >>= f = .ok b) : ∃ a, x = .ok a ∧ f a = .ok b := by
  cases x with
  | error e => cases h
  | ok a => exact ⟨a, rfl, h⟩

/-- What inotify tells about an entry of the watched directory. -/
structure Notification where
  /-- `path` -/
  path : Name
  /-- `event` -/
  event : Event

/-- `Watcher` -/
structure Watcher where
  /-- `running` -/
  running : Bool := false
  /-- `modified_files` -/
  modifiedFiles : List FileEvent := []

namespace Watcher

/-- `run`, as far as the watcher itself is concerned. -/
def run (w : Watcher) : Watcher := { w with running := true }

/-- `get_events` -/
def getEvents (w : Watcher) : List FileEvent × Watcher :=
  (w.modifiedFiles, { w with modifiedFiles := [] })

/-- The event `handle_file_modification` makes of a notification, on the machine as it is then. -/
def eventOf (m : Machine) (event : Notification) : Except Exn FileEvent := do
  let file ← fileInfo m event.path []
  return ⟨file, event.event⟩

/-- `handle_file_modification` -/
def handleFileModification (m : Machine) (event : Notification) (w : Watcher) :
    Except Exn Watcher := do
  let event ← eventOf m event
  return { w with modifiedFiles := w.modifiedFiles ++ [event] }

end Watcher

/-- How a handshake comes out. -/
structure Reply where
  /-- The answer of the server, unless none could be received. -/
  syn : Option Syn
  /-- Whether a request socket can be set up. -/
  connects : Bool

/-- What the loop works with, and a record of what it has done. -/
structure Daemon where
  /-- `watcher` -/
  watcher : Watcher
  /-- `userid` -/
  userid : Name
  /-- `device` -/
  device : UInt16
  /-- `sock_handler_req`: the port it is connected to, if there is one. -/
  sockHandlerReq : Option UInt32
  /-- The handshakes that were sent. -/
  handshakes : List Handshake := []
  /-- The events that were recorded. -/
  recorded : List FileEvent := []
  /-- The events that were handed to `sync_client`. -/
  handed : List FileEvent := []

namespace Daemon

/-- `send_handshake` -/
def sendHandshake (request : Req) (reply : Reply) (d : Daemon) : Except Exn (Bool × Daemon) :=
  let hand : Handshake := ⟨request, d.userid, d.device, {}⟩
  let d := { d with handshakes := d.handshakes ++ [hand] }
  match reply.syn with
  | none => .error .nullPointer
  | some syn =>
    -- the device is that of the answer even if the answer is negative
    let d := { d with device := syn.device }
    if !syn.confirmation then .ok (false, d)
    else if d.sockHandlerReq.isSome then .ok (true, d)
    else if reply.connects then .ok (true, { d with sockHandlerReq := some syn.port })
    else .ok (false, d)

/-- The state after a round of the loop; what `sync_client` does with the events is the matter of
`Sync.lean`. -/
def iterate (reply : Reply) (d : Daemon) : Except Exn Daemon := do
  let (modifiedFiles, watcher) := d.watcher.getEvents
  let d := { d with watcher := watcher }
  if modifiedFiles.isEmpty then return d
  else
    let (confirmed, d) ← d.sendHandshake .sync reply
    return if confirmed then { d with handed := d.handed ++ modifiedFiles } else d

/-- What can happen: the watcher is notified, a command of the user changes the device and the
request socket, or the loop does one round. -/
inductive Move
  | notify (m : Machine) (event : Notification)
  | command (device : UInt16) (sock : Option UInt32)
  | iterate (reply : Reply)

/-- The state after a move; there is none after an exception has ended the client, and no round
after the loop. -/
def step (d : Daemon) : Move → Option Daemon
  | .notify m event =>
    match Watcher.eventOf m event, d.watcher.handleFileModification m event with
    | .ok e, .ok w => some { d with watcher := w, recorded := d.recorded ++ [e] }
    | _, _ => none
  | .command device sock => some { d with device := device, sockHandlerReq := sock }
  | .iterate reply =>
    if d.watcher.running then
      match d.iterate reply with
      | .ok d => some d
      | .error _ => none
    else none

/-- The daemon after a login; a command may already have set up the request socket. -/
def start (userid : Name) (device : UInt16) (sock : Option UInt32) : Daemon :=
  ⟨Watcher.run {}, userid, device, sock, [], [], []⟩

/-! ### What becomes of the events

The queue, the record, and the moves that keep the two in agreement. -/

/-- What was recorded is what was handed on and then what is queued. -/
def Conserved (d : Daemon) : Prop := d.recorded = d.handed ++ d.watcher.modifiedFiles

/-- The server agrees, and there is a request socket to go on with. -/
def Confirmed (d : Daemon) (reply : Reply) : Prop :=
  (∃ syn ∈ reply.syn, syn.confirmation) ∧ (d.sockHandlerReq.isSome ∨ reply.connects)

/-- The handshake that a round makes, if it makes one, is to succeed. -/
def Accepted (d : Daemon) : Move → Prop
  | .iterate reply => d.watcher.modifiedFiles = [] ∨ d.Confirmed reply
  | _ => True

variable {d d' : Daemon} {reply : Reply}

/-- A handshake says whether it has succeeded, and leaves the events alone. -/
theorem sendHandshake_cases {request : Req} {b : Bool}
    (h : d.sendHandshake request reply = .ok (b, d')) :
    (b = true ↔ d.Confirmed reply) ∧ d'.watcher = d.watcher ∧ d'.recorded = d.recorded ∧
      d'.handed = d.handed := by
  obtain ⟨_ | syn, connects⟩ := reply
  · cases h
  · simp only [sendHandshake] at h
    split at h
    case isTrue hneg =>
      cases h
      simp_all [Confirmed]
    case isFalse hpos =>
      split at h
      · cases h
        simp_all [Confirmed]
      · split at h <;>
        · cases h
          simp_all [Confirmed]

/-- A round takes the whole queue, and hands it on only if the handshake succeeds. -/
theorem iterate_cases (h : d.iterate reply = .ok d') :
    d'.recorded = d.recorded ∧ d'.watcher.modifiedFiles = [] ∧
      (d.watcher.modifiedFiles = [] ∧ d'.handed = d.handed ∨
        d.Confirmed reply ∧ d'.handed = d.handed ++ d.watcher.modifiedFiles ∨
        d.watcher.modifiedFiles ≠ [] ∧ ¬ d.Confirmed reply ∧ d'.handed = d.handed) := by
  by_cases hnil : d.watcher.modifiedFiles = []
  · simp only [iterate, Watcher.getEvents, hnil, List.isEmpty_nil, if_true, pure, Except.pure,
      Except.ok.injEq] at h
    subst h
    exact ⟨rfl, rfl, .inl ⟨hnil, rfl⟩⟩
  · simp only [iterate, Watcher.getEvents, List.isEmpty_iff, hnil, if_false] at h
    obtain ⟨⟨confirmed, d₁⟩, hsend, h⟩ := ok_of_bind h
    obtain ⟨hconf, hw, hr, hh⟩ := sendHandshake_cases hsend
    cases h
    cases confirmed with
    | false => exact ⟨hr, congrArg _ hw, .inr (.inr ⟨hnil, by simpa [Confirmed] using hconf, hh⟩)⟩
    | true => exact ⟨hr, congrArg _ hw, .inr (.inl ⟨hconf.mp rfl, congrArg (· ++ _) hh⟩)⟩

/-- A notification is recorded and queued. -/
theorem notify_cases {m : Machine} {event : Notification}
    (h : d.step (.notify m event) = some d') :
    ∃ e, d'.recorded = d.recorded ++ [e] ∧ d'.handed = d.handed ∧
      d'.watcher.modifiedFiles = d.watcher.modifiedFiles ++ [e] := by
  simp only [step, Watcher.handleFileModification] at h
  cases he : Watcher.eventOf m event with
  | error x => simp [he] at h
  | ok e =>
    simp only [he] at h
    cases h
    exact ⟨e, rfl, rfl, rfl⟩

/-- A round is made by a running daemon that no exception ends. -/
theorem iterate_of_step (h : d.step (.iterate reply) = some d') : d.iterate reply = .ok d' := by
  simp only [step] at h
  split at h
  · cases hi : d.iterate reply with
    | error x => simp [hi] at h
    | ok d₁ =>
      simp only [hi, Option.some.injEq] at h
      rw [h]
  · cases h

/-- No event is lost in an accepted move. -/
theorem step_conserved {m : Move} (hd : d.Conserved) (hm : d.Accepted m)
    (h : d.step m = some d') : d'.Conserved := by
  cases m with
  | notify machine event =>
    obtain ⟨e, hr, hh, hq⟩ := notify_cases h
    rw [Conserved, hr, hh, hq, hd, List.append_assoc]
  | command device sock =>
    cases h
    exact hd
  | iterate reply =>
    obtain ⟨hr, hq, hh⟩ := iterate_cases (iterate_of_step h)
    rw [Conserved, hr, hq, hd, List.append_nil]
    obtain ⟨hnil, hh⟩ | ⟨-, hh⟩ | ⟨hnil, hconf, -⟩ := hh
    · rw [hh, hnil, List.append_nil]
    · rw [hh]
    · exact absurd hm (not_or.mpr ⟨hnil, hconf⟩)

/-- In a round that is not accepted, events are lost. -/
theorem step_loses {m : Move} (hd : d.Conserved) (hm : ¬ d.Accepted m)
    (h : d.step m = some d') : ¬ d'.Conserved := by
  cases m with
  | notify machine event => exact absurd trivial hm
  | command device sock => exact absurd trivial hm
  | iterate reply =>
    obtain ⟨hnil, hconf⟩ := not_or.mp hm
    obtain ⟨hr, hq, hh⟩ := iterate_cases (iterate_of_step h)
    obtain ⟨h', -⟩ | ⟨h', -⟩ | ⟨-, -, hh⟩ := hh
    · exact absurd h' hnil
    · exact absurd h' hconf
    · -- the queue is gone, and nobody was given what it held
      rw [Conserved, hr, hq, hh, hd, List.append_nil, List.append_right_eq_self]
      exact hnil

theorem start_conserved (userid : Name) (device : UInt16) (sock : Option UInt32) :
    (start userid device sock).Conserved := rfl

/-- **No event is lost before, between or after the rounds of a run if and only if every handshake
that the daemon makes in it succeeds.** -/
theorem events_conserved_iff (userid : Name) (device : UInt16) (sock : Option UInt32)
    (ms : List Move) :
    Runs.Always step Conserved ms (start userid device sock) ↔
      Runs.Along step Accepted ms (start userid device sock) :=
  Runs.always_iff_along (I := Conserved) (fun _ ↦ id) (fun _ _ _ ↦ step_conserved)
    (fun _ _ _ ↦ step_loses) ms (start_conserved userid device sock)

/-- A machine with one file, `/f`. -/
def watchedMachine : Machine where
  disk := .ofList [([['f']], .file ⟨.single 0, 1⟩)]
  cwd := []
  clock := Nat.cast
  order := .asStored

/-- A negative answer is enough: a file is created, the server declines the handshake, and nothing
is left of the event. -/
theorem negative_answer_loses_event :
    ¬ ∀ ms, Runs.Always step Conserved ms (start ['u'] 0 none) := by
  intro h
  let declined : Reply := ⟨some ⟨false, 0, 0⟩, true⟩
  let ms : List Move := [.notify watchedMachine ⟨['/', 'f'], .create⟩, .iterate declined]
  have hrun : Runs.after step ms (start ['u'] 0 none) = some ⟨⟨true, []⟩, ['u'], 0, none,
    [⟨.sync, ['u'], 0, {}⟩], [⟨⟨['/', 'f'], 1, 1⟩, .create⟩], []⟩ := rfl
  have hlost := (h ms).after hrun
  cases hlost

end Daemon
end Bropdox
