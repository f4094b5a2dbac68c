import Bropdox.RequestHandler

/-!
# Running a client against its request handler

The rules of `Session/Pair.lean` at the two programs of this development, in the form `simp` uses
them (the type of a message is kept out of its index, since it may stand there unfolded).  Unfolding
a program and simplifying follows the session for as long as it does straight-line work; what is
left to the reader of a proof is where it loops and what the file operations did.

## What is here

* `PeerPair` is a session of a client, on the left, with its request handler, and `parcel` a
  datagram between the two.
* `left_file`, `left_query` and `left_file_error` are an operation of the client's file handler that
  succeeds, one that only looks and one that throws; `right_file`, `right_attempt` and their
  neighbours are those of the server, whose exceptions may be caught.
* `socketAfter` and `keptAfter` are the ends that the client's programs have in common.
* `left_waitAll`, `left_waitMore` and `right_list` are the loops around `send_packet` and
  `wait_packet`.
-/

set_option autoImplicit false

namespace Bropdox

open FileSystem Session Program SocketHandler

/-- A session in the middle, the client on the left. -/
abbrev PeerPair (α β : Type) := Pair sessionWire Client.sig RequestHandler.sig α β

/-- A datagram between the two. -/
abbrev parcel (κ : Kind) (m : κ.Msg) : Parcel sessionWire := ((), ⟨κ, m⟩)

/-- Counting in 32 bits never counts too many. -/
theorem toNat_ofNat_le (n : Nat) : (UInt32.ofNat n).toNat ≤ n := by
  rw [UInt32.toNat_ofNat']
  exact Nat.mod_le ..

namespace Peers

section Rules

variable {L : Session.Link sessionWire Client.sig RequestHandler.sig} {α β : Type}
  {h : Client.Host} {h' : FileHost}
  {l : Endpoint sessionWire Client.sig α} {r : Endpoint sessionWire RequestHandler.sig β}
  {i j : Inbox sessionWire} {m m' : List (Parcel sessionWire)} {t : PeerPair α β}

@[simp] theorem left_send {κ : Kind} {d : κ.Msg} {k : Unit → Client.Prog α} :
    Pair.EndsIn L ⟨⟨h, (sendPacket κ d).bind k⟩, r, i, j, m, m'⟩ t ↔
      Pair.EndsIn L ⟨⟨h, k ()⟩, r, i, deliver j [parcel κ d], m, m'⟩ t :=
  Pair.left_emit

@[simp] theorem left_wait {κ : Kind} {d : κ.Msg} {rest : List (Parcel sessionWire)}
    {k : Option κ.Msg → Client.Prog α} :
    Pair.EndsIn L ⟨⟨h, @Program.bind sessionWire Client.sig (no_index (Option κ.Msg)) α
        (waitPacket κ) k⟩, r, some (parcel κ d :: rest), j, m, m'⟩ t ↔
      Pair.EndsIn L ⟨⟨h, k (some d)⟩, r, some rest, j, m, m'⟩ t :=
  Pair.left_await

@[simp] theorem left_reset {k : Unit → Client.Prog α} :
    Pair.EndsIn L ⟨⟨h, shut.bind k⟩, r, i, j, m, m'⟩ t ↔
      Pair.EndsIn L ⟨⟨h, k ()⟩, r, none, j, m, m'⟩ t :=
  Pair.left_shut

@[simp] theorem left_isSyncing {k : Bool → Client.Prog α} :
    Pair.EndsIn L ⟨⟨h, Client.isSyncing.bind k⟩, r, i, j, m, m'⟩ t ↔
      Pair.EndsIn L ⟨⟨h, k h.syncing⟩, r, i, j, m, m'⟩ t :=
  Pair.left_run rfl

@[simp] theorem left_setSyncing {b : Bool} {k : Unit → Client.Prog α} :
    Pair.EndsIn L ⟨⟨h, (Client.setSyncing b).bind k⟩, r, i, j, m, m'⟩ t ↔
      Pair.EndsIn L ⟨⟨{ h with syncing := b }, k ()⟩, r, i, j, m, m'⟩ t :=
  Pair.left_run rfl

/-- Where `resetUnlessSyncing` leaves the socket of the client. -/
def socketAfter (h : Client.Host) (i : Inbox sessionWire) : Inbox sessionWire :=
  if h.syncing then i else none

@[simp] theorem socketAfter_none (h : Client.Host) : socketAfter h none = none := by
  rw [socketAfter, ite_self]

@[simp] theorem left_resetUnlessSyncing {k : Unit → Client.Prog α} :
    Pair.EndsIn L ⟨⟨h, Client.resetUnlessSyncing.bind k⟩, r, i, j, m, m'⟩ t ↔
      Pair.EndsIn L ⟨⟨h, k ()⟩, r, socketAfter h i, j, m, m'⟩ t := by
  simp only [Client.resetUnlessSyncing, bind_eq, bind_assoc, left_isSyncing, socketAfter]
  cases h.syncing <;> simp

/-- An operation of the client's file handler. -/
theorem left_file {o : FileOp} {v : o.Res} {s : FileHost} (ho : o.exec h.files = .ok (v, s))
    {k : o.Res → Client.Prog α} :
    Pair.EndsIn L ⟨⟨h, (Client.file o).bind k⟩, r, i, j, m, m'⟩ t ↔
      Pair.EndsIn L ⟨⟨{ h with files := s }, k v⟩, r, i, j, m, m'⟩ t :=
  Pair.left_run (P := Client.sig) (Client.Op.exec_file ho)

/-- An operation of the client's file handler that only looks. -/
theorem left_query {o : FileOp} {v : o.Res} (ho : o.exec h.files = .ok (v, h.files))
    {k : o.Res → Client.Prog α} :
    Pair.EndsIn L ⟨⟨h, (Client.file o).bind k⟩, r, i, j, m, m'⟩ t ↔
      Pair.EndsIn L ⟨⟨h, k v⟩, r, i, j, m, m'⟩ t :=
  left_file ho

/-- An operation of the client's file handler that throws. -/
theorem left_file_error {o : FileOp} {e : Exn} (ho : o.exec h.files = .error e)
    {k : o.Res → Client.Prog α} :
    Pair.EndsIn L ⟨⟨h, (Client.file o).bind k⟩, r, i, j, m, m'⟩ t ↔
      Pair.EndsIn L ⟨⟨h, .throw e⟩, r, i, j, m, m'⟩ t :=
  Pair.left_run_error (P := Client.sig) (Client.Op.exec_file_error ho)

/-- The client's host after `keepUnlessSyncing`. -/
def keptAfter (h : Client.Host) (file : Name) : Client.Host :=
  if h.syncing then h else { h with files := (h.files.copyFileToSyncDir file).2 }

@[simp] theorem keptAfter_syncing (h : Client.Host) (file : Name) :
    (keptAfter h file).syncing = h.syncing := by
  rw [keptAfter]
  split <;> rfl

theorem left_keepUnlessSyncing {file : Name} {k : Unit → Client.Prog α} :
    Pair.EndsIn L ⟨⟨h, (Client.keepUnlessSyncing file).bind k⟩, r, i, j, m, m'⟩ t ↔
      Pair.EndsIn L ⟨⟨keptAfter h file, k ()⟩, r, socketAfter h i, j, m, m'⟩ t := by
  simp only [Client.keepUnlessSyncing, bind_eq, bind_assoc, left_isSyncing, socketAfter, keptAfter]
  by_cases hs : h.syncing = true
  · simp [hs]
  · have hcopy : (FileOp.copyFileToSyncDir file).exec h.files
        = .ok ((h.files.copyFileToSyncDir file).1, (h.files.copyFileToSyncDir file).2) := rfl
    simp only [Bool.not_eq_true] at hs
    simp only [hs, Bool.not_false, if_true, discard_eq, bind_assoc, ret_bind]
    rw [left_file hcopy]
    simp [hs]

theorem left_callReceiveFiles {k : Unit → Client.Prog α} :
    Pair.EndsIn peers ⟨⟨h, Client.callReceiveFiles.bind k⟩, r, i, j, m, m'⟩ t ↔
      Pair.EndsIn peers ⟨⟨h, Client.receiveFiles.bind k⟩, r, i, j, m, m'⟩ t :=
  Pair.left_invoke

theorem left_callSendFile {file : Name} {k : Bool → Client.Prog α} :
    Pair.EndsIn peers ⟨⟨h, (Client.callSendFile file).bind k⟩, r, i, j, m, m'⟩ t ↔
      Pair.EndsIn peers ⟨⟨h, (Client.sendFile file).bind k⟩, r, i, j, m, m'⟩ t :=
  Pair.left_invoke

@[simp] theorem right_send {κ : Kind} {d : κ.Msg} {k : Unit → RequestHandler.Prog β} :
    Pair.EndsIn L ⟨l, ⟨h', (sendPacket κ d).bind k⟩, i, j, m, m'⟩ t ↔
      Pair.EndsIn L ⟨l, ⟨h', k ()⟩, deliver i [parcel κ d], j, m, m'⟩ t :=
  Pair.right_emit

@[simp] theorem right_wait {κ : Kind} {d : κ.Msg} {rest : List (Parcel sessionWire)}
    {k : Option κ.Msg → RequestHandler.Prog β} :
    Pair.EndsIn L ⟨l, ⟨h', @Program.bind sessionWire RequestHandler.sig
        (no_index (Option κ.Msg)) β (waitPacket κ) k⟩, i, some (parcel κ d :: rest), m, m'⟩ t ↔
      Pair.EndsIn L ⟨l, ⟨h', k (some d)⟩, i, some rest, m, m'⟩ t :=
  Pair.right_await

/-- An operation of the server's file handler. -/
theorem right_file {o : FileOp} {v : o.Res} {s : FileHost} (ho : o.exec h' = .ok (v, s))
    {k : o.Res → RequestHandler.Prog β} :
    Pair.EndsIn L ⟨l, ⟨h', (RequestHandler.file o).bind k⟩, i, j, m, m'⟩ t ↔
      Pair.EndsIn L ⟨l, ⟨s, k v⟩, i, j, m, m'⟩ t :=
  Pair.right_run (Q := RequestHandler.sig) ho

/-- An operation of the server's file handler that throws. -/
theorem right_file_error {o : FileOp} {e : Exn} (ho : o.exec h' = .error e)
    {k : o.Res → RequestHandler.Prog β} :
    Pair.EndsIn L ⟨l, ⟨h', (RequestHandler.file o).bind k⟩, i, j, m, m'⟩ t ↔
      Pair.EndsIn L ⟨l, ⟨h', .throw e⟩, i, j, m, m'⟩ t :=
  Pair.right_run_error (Q := RequestHandler.sig) ho

/-- An operation of the server's file handler whose exception would be caught. -/
theorem right_attempt {o : FileOp} {v : o.Res} {s : FileHost} (ho : o.exec h' = .ok (v, s))
    {k : Except Exn o.Res → RequestHandler.Prog β} :
    Pair.EndsIn L ⟨l, ⟨h', (attempt (P := RequestHandler.sig) o).bind k⟩, i, j, m, m'⟩ t ↔
      Pair.EndsIn L ⟨l, ⟨s, k (.ok v)⟩, i, j, m, m'⟩ t :=
  Pair.right_attempt (Q := RequestHandler.sig) ho

/-- An operation of the server's file handler whose exception is handed to the program. -/
theorem right_attempt_error {o : FileOp} {e : Exn} (ho : o.exec h' = .error e)
    {k : Except Exn o.Res → RequestHandler.Prog β} :
    Pair.EndsIn L ⟨l, ⟨h', (attempt (P := RequestHandler.sig) o).bind k⟩, i, j, m, m'⟩ t ↔
      Pair.EndsIn L ⟨l, ⟨h', k (.error e)⟩, i, j, m, m'⟩ t :=
  Pair.right_attempt_error (Q := RequestHandler.sig) ho

theorem right_callReceiveEvents {k : Unit → RequestHandler.Prog β} :
    Pair.EndsIn peers ⟨l, ⟨h', RequestHandler.callReceiveEvents.bind k⟩, i, j, m, m'⟩ t ↔
      Pair.EndsIn peers ⟨l, ⟨h', RequestHandler.receiveEvents.bind k⟩, i, j, m, m'⟩ t :=
  Pair.right_invoke

theorem right_callSendFile {file : Name} {k : Unit → RequestHandler.Prog β} :
    Pair.EndsIn peers ⟨l, ⟨h', (RequestHandler.callSendFile file).bind k⟩, i, j, m, m'⟩ t ↔
      Pair.EndsIn peers ⟨l, ⟨h', (RequestHandler.sendFile file).bind k⟩, i, j, m, m'⟩ t :=
  Pair.right_invoke

/-! ## The loops around `send_packet` and `wait_packet`

A loop of either program is one step for whoever follows the session: all its datagrams go out at
once, and those it waits for are taken from the front of the channel at once. -/

theorem left_sendPackets {κ : Kind} (ms : List κ.Msg) {k : Unit → Client.Prog α} :
    Pair.EndsIn L ⟨⟨h, (sendPackets κ ms).bind k⟩, r, i, j, m, m'⟩ t ↔
      Pair.EndsIn L ⟨⟨h, k ()⟩, r, i, deliver j (ms.map (parcel κ)), m, m'⟩ t := by
  induction ms generalizing j with
  | nil => simp [sendPackets]
  | cons d ms ih =>
    simp only [sendPackets, bind_eq, bind_assoc, left_send, ih]
    cases j <;> simp

theorem right_sendPackets {κ : Kind} (ms : List κ.Msg) {k : Unit → RequestHandler.Prog β} :
    Pair.EndsIn L ⟨l, ⟨h', (sendPackets κ ms).bind k⟩, i, j, m, m'⟩ t ↔
      Pair.EndsIn L ⟨l, ⟨h', k ()⟩, deliver i (ms.map (parcel κ)), j, m, m'⟩ t := by
  induction ms generalizing i with
  | nil => simp [sendPackets]
  | cons d ms ih =>
    simp only [sendPackets, bind_eq, bind_assoc, right_send, ih]
    cases i <;> simp

/-- The messages that are there are taken, and the loop waits for the others. -/
theorem left_waitPackets {κ : Kind} (ms : List κ.Msg) (n : Nat) {rest : List (Parcel sessionWire)}
    {k : List (Option κ.Msg) → Client.Prog α} :
    Pair.EndsIn L ⟨⟨h, (waitPackets κ (ms.length + n)).bind k⟩, r,
        some (ms.map (parcel κ) ++ rest), j, m, m'⟩ t ↔
      Pair.EndsIn L ⟨⟨h, (waitPackets κ n).bind fun more ↦ k (ms.map some ++ more)⟩, r,
        some rest, j, m, m'⟩ t :=
  Pair.left_awaitAll (L := L) (κ := κ) () ms n

theorem right_waitPackets {κ : Kind} (ms : List κ.Msg) (n : Nat)
    {rest : List (Parcel sessionWire)} {k : List (Option κ.Msg) → RequestHandler.Prog β} :
    Pair.EndsIn L ⟨l, ⟨h', (waitPackets κ (ms.length + n)).bind k⟩, i,
        some (ms.map (parcel κ) ++ rest), m, m'⟩ t ↔
      Pair.EndsIn L ⟨l, ⟨h', (waitPackets κ n).bind fun more ↦ k (ms.map some ++ more)⟩, i,
        some rest, m, m'⟩ t :=
  Pair.right_awaitAll (L := L) (κ := κ) () ms n

/-- A loop whose messages are all there. -/
theorem left_waitAll (κ : Kind) (ms : List κ.Msg) {n : Nat} (hn : n ≤ ms.length)
    {k : List (Option κ.Msg) → Client.Prog α} :
    Pair.EndsIn L ⟨⟨h, (waitPackets κ n).bind k⟩, r, some (ms.map (parcel κ)), j, m, m'⟩ t ↔
      Pair.EndsIn L ⟨⟨h, k ((ms.take n).map some)⟩, r,
        some ((ms.drop n).map (parcel κ)), j, m, m'⟩ t := by
  obtain ⟨front, back, rfl, rfl⟩ := exists_append_of_le hn
  rw [List.take_left, List.drop_left, List.map_append, ← Nat.add_zero front.length,
    left_waitPackets]
  simp [awaitAll]

theorem right_waitAll (κ : Kind) (ms : List κ.Msg) {n : Nat} (hn : n ≤ ms.length)
    {k : List (Option κ.Msg) → RequestHandler.Prog β} :
    Pair.EndsIn L ⟨l, ⟨h', (waitPackets κ n).bind k⟩, i, some (ms.map (parcel κ)), m, m'⟩ t ↔
      Pair.EndsIn L ⟨l, ⟨h', k ((ms.take n).map some)⟩, i,
        some ((ms.drop n).map (parcel κ)), m, m'⟩ t := by
  obtain ⟨front, back, rfl, rfl⟩ := exists_append_of_le hn
  rw [List.take_left, List.drop_left, List.map_append, ← Nat.add_zero front.length,
    right_waitPackets]
  simp [awaitAll]

/-- A loop that is promised more messages than there are takes them all and waits. -/
theorem left_waitMore (κ : Kind) (ms : List κ.Msg) {n : Nat} (hn : ms.length < n)
    (k : List (Option κ.Msg) → Client.Prog α) :
    ∃ k', ∀ t : PeerPair α β,
      Pair.EndsIn L ⟨⟨h, (waitPackets κ n).bind k⟩, r, some (ms.map (parcel κ)), j, m, m'⟩ t ↔
      Pair.EndsIn L ⟨⟨h, (waitPacket κ).bind k'⟩, r, some [], j, m, m'⟩ t := by
  obtain ⟨n, rfl⟩ := Nat.exists_eq_add_of_lt hn
  refine ⟨fun d ↦ (waitPackets κ n).bind fun more ↦ k (ms.map some ++ d :: more), fun t ↦ ?_⟩
  rw [← List.append_nil (ms.map (parcel κ)), Nat.add_assoc, left_waitPackets]
  simp only [awaitAll, bind_eq, bind_assoc, pure_eq, ret_bind]

theorem right_waitMore (κ : Kind) (ms : List κ.Msg) {n : Nat} (hn : ms.length < n)
    (k : List (Option κ.Msg) → RequestHandler.Prog β) :
    ∃ k', ∀ t : PeerPair α β,
      Pair.EndsIn L ⟨l, ⟨h', (waitPackets κ n).bind k⟩, i, some (ms.map (parcel κ)), m, m'⟩ t ↔
      Pair.EndsIn L ⟨l, ⟨h', (waitPacket κ).bind k'⟩, i, some [], m, m'⟩ t := by
  obtain ⟨n, rfl⟩ := Nat.exists_eq_add_of_lt hn
  refine ⟨fun d ↦ (waitPackets κ n).bind fun more ↦ k (ms.map some ++ d :: more), fun t ↦ ?_⟩
  rw [← List.append_nil (ms.map (parcel κ)), Nat.add_assoc, right_waitPackets]
  simp only [awaitAll, bind_eq, bind_assoc, pure_eq, ret_bind]

/-- The listing that a client is waiting for, all at once. -/
theorem right_list {l : Endpoint sessionWire Client.sig α} {t : PeerPair α Bool} {ack : Ack}
    {entries : List FileData} (hlist : h'.getFileInfoList = .ok entries) :
    Pair.EndsIn L ⟨l, ⟨h', RequestHandler.handleRequest .list⟩, some [], some [parcel .ack ack],
        m, m'⟩ t ↔
      Pair.EndsIn L ⟨l, ⟨h', (RequestHandler.waitFor .ack).bind fun ack ↦
          (RequestHandler.relistUnless ack.confirmation).bind fun _ ↦ .ret true⟩,
        some (parcel .fileData ⟨{}, .ofNat entries.length⟩ :: entries.map (parcel .fileData)),
        some [], m, m'⟩ t := by
  rw [RequestHandler.handleRequest, RequestHandler.listFiles]
  simp only [bind_eq, bind_assoc, discard_eq, right_wait, ret_bind]
  rw [right_file (FileOp.exec_getFileInfoList hlist)]
  simp [right_sendPackets]

end Rules
end Peers
end Bropdox
