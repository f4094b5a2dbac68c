import Bropdox.Chunks
import Bropdox.ReplicaManager
import Bropdox.RequestHandler
import Bropdox.Session.Played

/-!
# Receiving is all or nothing

Three loops receive a file: `RequestHandler::receive_file`, `Client::get_file` once a number of
packets has been announced, and `ReplicaManager::receive_file`.  Each fills a vector of that many
slots, leaves a slot empty where `wait_packet` gives a null pointer, and decides by a counter
whether to write.

## What is here

* `countP_isSome_eq_length`: the counter of a receiver tells exactly whether a slot is empty.
* `Receiver` is how a receiver is seen from outside, by the calls that it makes of its file handler
  and the acknowledgements that it sends; the three receivers are instances of it.
* `AllOrNothing` says what a receiver has done when its waits gave `came`: either `write_file` gets
  all the packets, in the order in which they came, or it is not called, and then the receiver
  answers as it does for a refusal.
* `Receives` says of a program that there is one way to play it on every list of outcomes of its
  waits, and that this way is all or nothing.
* `RequestHandler.receives`, `Client.receives` and `ReplicaManager.receives` are the three loops,
  and `receiving_all_or_nothing` has all of them.  The replica manager sends no acknowledgement in
  either case.
* `stored_of_run`: on a socket that loses nothing, a handler that has returned has written what it
  read.

The outcomes of the waits are given in advance, so that nothing is assumed of who sends the packets
or whether they come (`Session/Played.lean`).
-/

set_option autoImplicit false

namespace Bropdox

open FileSystem Session Program SocketHandler

/-! ## Slots

A vector of `packet_t *`, and the counter that is compared with its size. -/

section Slots

variable {γ : Type}

/-- **The counter of a receiver tells whether a slot is empty.** -/
theorem countP_isSome_eq_length {ms : List (Option γ)} :
    ms.countP Option.isSome = ms.length ↔ none ∉ ms := by
  rw [List.countP_eq_length]
  constructor
  · intro hall hnone
    exact absurd (hall none hnone) (by simp)
  · intro hnone m hm
    cases m with
    | none => exact absurd hm hnone
    | some p => rfl

/-- Slots that are all filled. -/
theorem exists_eq_map_some {ms : List (Option γ)} (h : none ∉ ms) :
    ∃ ps : List γ, ms = ps.map some := by
  induction ms with
  | nil => exact ⟨[], rfl⟩
  | cons m ms ih =>
    obtain ⟨hm, hms⟩ := not_or.mp (List.mem_cons.not.mp h)
    obtain ⟨ps, rfl⟩ := ih hms
    cases m with
    | none => exact absurd rfl hm
    | some p => exact ⟨p :: ps, rfl⟩

theorem none_not_mem_map_some (ps : List γ) : none ∉ ps.map some := by
  simp

end Slots

/-! ## What is owed

What is to be seen of a receiver, whatever its program is. -/

namespace FileOp

/-- A call of `write_file`. -/
def IsWrite : FileOp → Prop
  | writeFile .. => True
  | _ => False

/-- A call that touches no file. -/
def Looks : FileOp → Prop
  | readFile _ | getFileInfo _ | checkFreshness _ | getFileInfoList => True
  | writeFile .. | deleteFile _ | copyFileToSyncDir _ => False

theorem Looks.not_isWrite {o : FileOp} (h : o.Looks) : ¬ o.IsWrite := by
  cases o with
  | writeFile f d p => exact h.elim
  | _ => exact id

end FileOp

/-- How a receiver is seen from outside. -/
structure Receiver (W : Wire) (P : Sig) where
  /-- The outcome of a wait for a packet. -/
  outcome : Option (W.Addr × Packet) → Outcome W
  /-- The file handler. -/
  files : P.Host → FileHost
  /-- Which operations are calls of the file handler. -/
  fileOp : P.Op → Option FileOp
  /-- Which datagrams are acknowledgements. -/
  ack : Datagram W → Option Ack

/-- The handler of one client. -/
def RequestHandler.receiver : Receiver sessionWire RequestHandler.sig where
  outcome m := ⟨.packet, m⟩
  files := id
  fileOp := some
  ack := typed (W := sessionWire) .ack

/-- A client. -/
def Client.receiver : Receiver sessionWire Client.sig where
  outcome m := ⟨.packet, m⟩
  files := Client.Host.files
  fileOp
    | .file o => some o
    | _ => none
  ack := typed (W := sessionWire) .ack

/-- A replica manager. -/
def ReplicaManager.receiver : Receiver groupWire ReplicaManager.sig where
  outcome m := ⟨.packet, m⟩
  files := ReplicaManager.Host.files
  fileOp
    | .file o => some o
    | _ => none
  ack := typed (W := groupWire) .ack

namespace Receiver

variable {W : Wire} {P : Sig} (v : Receiver W P)

/-- The calls of the file handler. -/
def ops (acts : List (Act W P)) : List FileOp := (calls acts).filterMap v.fileOp

/-- The acknowledgements that are sent. -/
def acks (acts : List (Act W P)) : List Ack := (sends acts).filterMap fun p ↦ v.ack p.2

/-- **All or nothing**: what a receiver has done when its waits gave `came`. -/
structure AllOrNothing {α : Type} (file path : Name) (refusal : List Ack)
    (came : List (Option Packet)) (h : P.Host) (acts : List (Act W P)) (t : P.Host)
    (r : Except P.Exn α) : Prop where
  /-- The receiver writes if and only if every wait gave a packet. -/
  writes : (∃ o ∈ v.ops acts, o.IsWrite) ↔ ∀ m ∈ came, m.isSome
  /-- What the receiver writes are these packets in the order in which they came. -/
  exact : ∀ o ∈ v.ops acts, o.IsWrite → o = .writeFile file came path
  /-- The receiver writes at most once. -/
  once : (v.ops acts).Pairwise fun o o' ↦ ¬ (o.IsWrite ∧ o'.IsWrite)
  /-- Where a wait gave no packet no file is touched. -/
  untouched : none ∈ came → (∀ o ∈ v.ops acts, o.Looks) ∧ v.files t = v.files h
  /-- Where a wait gave no packet the refusal is what is sent. -/
  refuses : none ∈ came → v.acks acts = refusal
  /-- Nothing is dereferenced that is null. -/
  safe : ∃ a, r = .ok a

namespace AllOrNothing

variable {v : Receiver W P} {α : Type} {file path : Name} {refusal : List Ack}
  {came : List (Option Packet)} {h t : P.Host} {acts : List (Act W P)} {r : Except P.Exn α}

/-- Nothing: the file handler is only looked at. -/
theorem of_none (hcame : none ∈ came) (hlooks : ∀ o ∈ v.ops acts, o.Looks)
    (hfiles : v.files t = v.files h) (hacks : v.acks acts = refusal) (hr : ∃ a, r = .ok a) :
    v.AllOrNothing file path refusal came h acts t r where
  writes := by
    constructor
    · rintro ⟨o, ho, hw⟩
      exact absurd hw (hlooks o ho).not_isWrite
    · intro hall
      exact absurd (hall none hcame) (by simp)
  exact o ho hw := absurd hw (hlooks o ho).not_isWrite
  once := List.pairwise_of_forall_mem_list fun o ho _ _ hw ↦ (hlooks o ho).not_isWrite hw.1
  untouched _ := ⟨hlooks, hfiles⟩
  refuses _ := hacks
  safe := hr

/-- All: after some looks there is one write. -/
theorem of_all {packets : List Packet} (hcame : came = packets.map some) {looks : List FileOp}
    (hlooks : ∀ o ∈ looks, o.Looks)
    (hops : v.ops acts = looks ++ [.writeFile file (packets.map some) path])
    (hr : ∃ a, r = .ok a) : v.AllOrNothing file path refusal came h acts t r := by
  have hnone : none ∉ came := hcame ▸ none_not_mem_map_some packets
  have hmem : ∀ o, o ∈ v.ops acts ↔ o ∈ looks ∨ o = .writeFile file came path := by
    intro o
    rw [hops, List.mem_append, List.mem_singleton, hcame]
  exact {
    writes := by
      refine ⟨fun _ m hm ↦ ?_, fun _ ↦ ⟨_, (hmem _).mpr (.inr rfl), trivial⟩⟩
      cases m with
      | none => exact absurd hm hnone
      | some p => rfl
    exact := fun o ho hw ↦ ((hmem o).mp ho).resolve_left fun hl ↦ (hlooks o hl).not_isWrite hw
    once := by
      rw [hops, List.pairwise_append]
      refine ⟨?_, List.pairwise_singleton .., ?_⟩
      · exact List.pairwise_of_forall_mem_list fun o ho _ _ hw ↦ (hlooks o ho).not_isWrite hw.1
      · exact fun o ho _ _ hw ↦ (hlooks o ho).not_isWrite hw.1
    untouched := fun hn ↦ absurd hn hnone
    refuses := fun hn ↦ absurd hn hnone
    safe := hr }

end AllOrNothing

/-- A program that receives `n` packets, after the outcomes `before`, does so all or nothing: there
is one way to play it on whatever its waits give. -/
def Receives {α : Type} (body : Bodies W P) (h : P.Host) (p : Program W P α)
    (before : List (Outcome W)) (n : Nat) (file path : Name) (refusal : List Ack) : Prop :=
  ∀ ws : List (Option (W.Addr × Packet)), ws.length = n → ∃ acts t r,
    (∀ acts' t' r', p.Plays P.exec body h (before ++ ws.map v.outcome) acts' t' r' ↔
      acts' = acts ∧ t' = t ∧ r' = r) ∧
    v.AllOrNothing file path refusal (ws.map (Option.map Prod.snd)) h acts t r

end Receiver

/-! ## The three receivers

Each program is played on the outcomes: first the waits one by one, then what it does at their
end. -/

section Counting

variable {γ δ : Type} {ws : List (Option (δ × γ))} {n : Nat}

theorem countP_of_all (hn : ws.length = n) {packets : List γ}
    (hws : ws.map (Option.map Prod.snd) = packets.map some) :
    (packets.map some).countP Option.isSome = n := by
  rw [countP_some, ← List.length_map some, ← hws, List.length_map, hn]

theorem countP_of_none (hn : ws.length = n) (hws : none ∈ ws.map (Option.map Prod.snd)) :
    ¬ (ws.map (Option.map Prod.snd)).countP Option.isSome = n := by
  intro hcount
  refine countP_isSome_eq_length.mp (hcount.trans ?_) hws
  rw [List.length_map, hn]

end Counting

/-- Two acts are done first. -/
theorem exists_called_iff {β : Type} {acts : List β} {x y : β} {l : List β} {q : List β → Prop}
    {c : Prop} (hq : ∀ acts', q acts' ↔ acts' = l ∧ c) :
    (∃ acts', acts = x :: y :: acts' ∧ q acts') ↔ acts = x :: y :: l ∧ c := by
  simp only [hq]
  constructor
  · rintro ⟨_, rfl, rfl, hc⟩
    exact ⟨rfl, hc⟩
  · rintro ⟨rfl, hc⟩
    exact ⟨l, rfl, rfl, hc⟩

namespace RequestHandler

variable {ws : List (Option (Unit × Packet))} {file : Name} {n : UInt32} {H : Type}
  {exec : Meaning sig H} {h h' t : H} {acts : List (Act sessionWire sig)} {r : Except Exn Unit}

/-- The handler of a client with all the packets passes on what `write_file` answers. -/
theorem plays_receiveFile (hn : ws.length = n.toNat) {packets : List Packet}
    (hws : ws.map (Option.map Prod.snd) = packets.map some) {write : Bool}
    (hexec : exec (.writeFile file (packets.map some) []) h = .ok (write, h')) :
    (receiveFile file n).Plays exec body h (ws.map receiver.outcome) acts t r ↔
      acts = [.called (.writeFile file (packets.map some) []), .sent ((), ⟨.ack, ⟨write⟩⟩)] ∧
        t = h' ∧ r = .ok () := by
  rw [receiveFile, bind_eq, ← List.append_nil (ws.map _)]
  refine (plays_awaitAll hn hws).trans ?_
  rw [if_pos (countP_of_all hn hws), bind_eq]
  refine (plays_run (P := sig) hexec).trans ?_
  simp only [plays_emit_last]
  constructor
  · rintro ⟨_, rfl, -, rfl, rfl, rfl⟩
    exact ⟨rfl, rfl, rfl⟩
  · rintro ⟨rfl, rfl, rfl⟩
    exact ⟨_, rfl, trivial, rfl, rfl, rfl⟩

/-- The handler of a client with a packet missing. -/
theorem plays_receiveFile_none (hn : ws.length = n.toNat)
    (hws : none ∈ ws.map (Option.map Prod.snd)) :
    (receiveFile file n).Plays exec body h (ws.map receiver.outcome) acts t r ↔
      acts = [.sent ((), ⟨.ack, ⟨false⟩⟩)] ∧ t = h ∧ r = .ok () := by
  rw [receiveFile, bind_eq, ← List.append_nil (ws.map _)]
  refine (plays_awaitAll hn rfl).trans ?_
  rw [if_neg (countP_of_none hn hws), plays_emit_last]
  exact and_iff_right rfl

end RequestHandler

namespace Client

variable {ws : List (Option (Unit × Packet))} {file path : Name} {d : FileData} {h t : Host}
  {acts : List (Act sessionWire sig)}

/-- The end of a transfer, in which nothing is called but `syncing` is read. -/
theorem plays_reset {α : Type} {a : α} {r : Except Exn α} :
    (resetUnlessSyncing.bind fun _ ↦ .ret a).Plays sig.exec body h [] acts t r ↔
      acts = [.called .isSyncing] ∧ t = h ∧ r = .ok a := by
  have hlast : ∀ acts', (Program.ret a : Prog α).Plays sig.exec body h [] acts' t r ↔
      acts' = [] ∧ t = h ∧ r = .ok a := fun _ ↦ plays_ret.trans (and_iff_right rfl)
  have hreset : (resetUnlessSyncing.bind fun _ ↦ .ret a).Plays sig.exec body h [] acts t r ↔
      ∃ acts', acts = .called .isSyncing :: acts' ∧
        (Program.ret a : Prog α).Plays sig.exec body h [] acts' t r := by
    rw [resetUnlessSyncing, isSyncing, bind_eq, bind_assoc]
    refine (plays_run (P := sig) rfl).trans ?_
    cases h.syncing with
    | true => rfl
    | false => exact exists_congr fun _ ↦ and_congr_right fun _ ↦ plays_shut
  simp only [hreset, hlast]
  constructor
  · rintro ⟨_, rfl, rfl, rfl, rfl⟩
    exact ⟨rfl, rfl, rfl⟩
  · rintro ⟨rfl, rfl, rfl⟩
    exact ⟨_, rfl, rfl, rfl, rfl⟩

variable {r : Except Exn Bool}

/-- The request. -/
theorem plays_getFile {info : FileInfo} {before : List (Outcome sessionWire)}
    (hinfo : h.files.getFileInfo file = .ok info) :
    (getFile file path).Plays sig.exec body h before acts t r ↔
      ∃ acts', acts = .called (.file (.getFileInfo file)) ::
          .sent ((), ⟨.fileData, ⟨info, 0⟩⟩) :: acts' ∧
        (receiveRequested file path).Plays sig.exec body h before acts' t r := by
  have hexec : sig.exec (.file (.getFileInfo file)) h = .ok (info, h) :=
    Op.exec_file (FileOp.exec_getFileInfo hinfo)
  rw [getFile, bind_eq]
  refine (plays_run (P := sig) hexec).trans ?_
  simp only [bind_eq, plays_emit]
  constructor
  · rintro ⟨_, rfl, acts', rfl, hr⟩
    exact ⟨acts', rfl, hr⟩
  · rintro ⟨acts', rfl, hr⟩
    exact ⟨_, rfl, acts', rfl, hr⟩

variable (hd : d.numPackets ≠ 0) (hn : ws.length = d.numPackets.toNat)
include hd hn

/-- A client with all the packets acknowledges first and writes then. -/
theorem plays_receiveRequested {packets : List Packet}
    (hws : ws.map (Option.map Prod.snd) = packets.map some) :
    (receiveRequested file path).Plays sig.exec body h
        ([⟨.fileData, some ((), d)⟩] ++ ws.map receiver.outcome) acts t r ↔
      acts = [.sent ((), ⟨.ack, ⟨true⟩⟩),
          .called (.file (.writeFile file (packets.map some) path)), .called .isSyncing] ∧
        t = { h with files := h.files.store file path packets } ∧ r = .ok true := by
  have hexec : sig.exec (.file (.writeFile file (packets.map some) path)) h
      = .ok (true, { h with files := h.files.store file path packets }) :=
    Op.exec_file (FileHost.writeFile_some file path packets)
  rw [receiveRequested, bind_eq, ← List.append_nil (_ ++ _), List.append_assoc]
  refine plays_await.trans ?_
  simp only [Option.map_some, expect_some, bind_eq, ret_bind, if_neg hd]
  refine (plays_awaitAll hn hws).trans ?_
  rw [if_pos (countP_of_all hn hws)]
  simp only [bind_assoc, discard_eq, plays_emit, ret_bind, Client.file, pure_eq,
    plays_run (P := sig) hexec]
  constructor
  · rintro ⟨_, rfl, _, rfl, hr⟩
    obtain ⟨rfl, rfl, rfl⟩ := plays_reset.mp hr
    exact ⟨rfl, rfl, rfl⟩
  · rintro ⟨rfl, rfl, rfl⟩
    exact ⟨_, rfl, _, rfl, plays_reset.mpr ⟨rfl, rfl, rfl⟩⟩

/-- A client with a packet missing. -/
theorem plays_receiveRequested_none (hws : none ∈ ws.map (Option.map Prod.snd)) :
    (receiveRequested file path).Plays sig.exec body h
        ([⟨.fileData, some ((), d)⟩] ++ ws.map receiver.outcome) acts t r ↔
      acts = [.sent ((), ⟨.ack, ⟨false⟩⟩), .called .isSyncing] ∧ t = h ∧ r = .ok true := by
  rw [receiveRequested, bind_eq, ← List.append_nil (_ ++ _), List.append_assoc]
  refine plays_await.trans ?_
  simp only [Option.map_some, expect_some, bind_eq, ret_bind, if_neg hd]
  refine (plays_awaitAll hn rfl).trans ?_
  rw [if_neg (countP_of_none hn hws)]
  simp only [plays_emit, pure_eq]
  constructor
  · rintro ⟨_, rfl, hr⟩
    obtain ⟨rfl, rfl, rfl⟩ := plays_reset.mp hr
    exact ⟨rfl, rfl, rfl⟩
  · rintro ⟨rfl, rfl, rfl⟩
    exact ⟨_, rfl, plays_reset.mpr ⟨rfl, rfl, rfl⟩⟩

end Client

/-- **A handler receives all or nothing.** -/
theorem RequestHandler.receives (h : FileHost) (file : Name) (n : UInt32) :
    RequestHandler.receiver.Receives RequestHandler.body h (RequestHandler.receiveFile file n) []
      n.toNat file [] [⟨false⟩] := by
  intro ws hn
  by_cases hws : none ∈ ws.map (Option.map Prod.snd)
  · refine ⟨_, _, _, fun _ _ _ ↦ RequestHandler.plays_receiveFile_none hn hws, ?_⟩
    exact .of_none hws (List.forall_mem_nil _) rfl rfl ⟨_, rfl⟩
  · obtain ⟨packets, hpackets⟩ := exists_eq_map_some hws
    refine ⟨_, _, _, fun _ _ _ ↦ RequestHandler.plays_receiveFile hn hpackets
      (h.writeFile_some file [] packets), ?_⟩
    exact .of_all hpackets (List.forall_mem_nil _) rfl ⟨_, rfl⟩

/-- **A client receives all or nothing**, once it is told of some packets. -/
theorem Client.receives {h : Client.Host} {file : Name} {info : FileInfo}
    (hinfo : h.files.getFileInfo file = .ok info) (path : Name) {d : FileData}
    (hd : d.numPackets ≠ 0) :
    Client.receiver.Receives Client.body h (Client.getFile file path)
      [⟨.fileData, some ((), d)⟩] d.numPackets.toNat file path [⟨false⟩] := by
  intro ws hn
  have hlooks : ∀ o ∈ [FileOp.getFileInfo file], o.Looks := List.forall_mem_singleton.mpr trivial
  by_cases hws : none ∈ ws.map (Option.map Prod.snd)
  · refine ⟨_ :: _ :: _, _, _, fun _ _ _ ↦ (Client.plays_getFile hinfo).trans
      (exists_called_iff fun _ ↦ Client.plays_receiveRequested_none hd hn hws), ?_⟩
    exact .of_none hws hlooks rfl rfl ⟨_, rfl⟩
  · obtain ⟨packets, hpackets⟩ := exists_eq_map_some hws
    refine ⟨_ :: _ :: _, _, _, fun _ _ _ ↦ (Client.plays_getFile hinfo).trans
      (exists_called_iff fun _ ↦ Client.plays_receiveRequested hd hn hpackets), ?_⟩
    exact .of_all hpackets hlooks rfl ⟨_, rfl⟩

namespace ReplicaManager

variable {ws : List (Option (SockAddr × Packet))} {file : Name} {n : UInt32} {h t : Host}
  {acts : List (Act groupWire sig)} {r : Except Exn Unit}

/-- A replica manager with all the packets. -/
theorem plays_receiveFile (hn : ws.length = n.toNat) {packets : List Packet}
    (hws : ws.map (Option.map Prod.snd) = packets.map some) :
    (receiveFile file n).Plays sig.exec body h (ws.map receiver.outcome) acts t r ↔
      acts = [.called (.file (.writeFile file (packets.map some) []))] ∧
        t = { h with files := h.files.store file [] packets } ∧ r = .ok () := by
  have hexec : sig.exec (.file (.writeFile file (packets.map some) [])) h
      = .ok (true, { h with files := h.files.store file [] packets }) :=
    Op.exec_file (FileHost.writeFile_some file [] packets)
  rw [receiveFile, bind_eq, ← List.append_nil (ws.map _)]
  refine (plays_awaitAll hn hws).trans ?_
  rw [if_pos (countP_of_all hn hws), discard_eq]
  refine (plays_run (P := sig) hexec).trans ?_
  simp only [plays_ret]
  constructor
  · rintro ⟨_, rfl, -, rfl, rfl, rfl⟩
    exact ⟨rfl, rfl, rfl⟩
  · rintro ⟨rfl, rfl, rfl⟩
    exact ⟨_, rfl, trivial, rfl, rfl, rfl⟩

/-- A replica manager with a packet missing. -/
theorem plays_receiveFile_none (hn : ws.length = n.toNat)
    (hws : none ∈ ws.map (Option.map Prod.snd)) :
    (receiveFile file n).Plays sig.exec body h (ws.map receiver.outcome) acts t r ↔
      acts = [] ∧ t = h ∧ r = .ok () := by
  rw [receiveFile, bind_eq, ← List.append_nil (ws.map _)]
  refine (plays_awaitAll hn rfl).trans ?_
  rw [if_neg (countP_of_none hn hws), pure_eq, plays_ret]
  exact and_iff_right rfl

end ReplicaManager

/-- **A replica manager receives all or nothing**, and says nothing. -/
theorem ReplicaManager.receives (h : ReplicaManager.Host) (file : Name) (n : UInt32) :
    ReplicaManager.receiver.Receives ReplicaManager.body h (ReplicaManager.receiveFile file n) []
      n.toNat file [] [] := by
  intro ws hn
  by_cases hws : none ∈ ws.map (Option.map Prod.snd)
  · refine ⟨_, _, _, fun _ _ _ ↦ ReplicaManager.plays_receiveFile_none hn hws, ?_⟩
    exact .of_none hws (List.forall_mem_nil _) rfl rfl ⟨_, rfl⟩
  · obtain ⟨packets, hpackets⟩ := exists_eq_map_some hws
    refine ⟨_, _, _, fun _ _ _ ↦ ReplicaManager.plays_receiveFile hn hpackets, ?_⟩
    exact .of_all hpackets (List.forall_mem_nil _) rfl ⟨_, rfl⟩

/-- **Receiving is all or nothing**, in all three receivers. -/
theorem receiving_all_or_nothing :
    (∀ (h : FileHost) (file : Name) (n : UInt32),
      RequestHandler.receiver.Receives RequestHandler.body h (RequestHandler.receiveFile file n) []
        n.toNat file [] [⟨false⟩]) ∧
    (∀ (h : Client.Host) (file : Name) (info : FileInfo),
      h.files.getFileInfo file = .ok info → ∀ (path : Name) (d : FileData), d.numPackets ≠ 0 →
        Client.receiver.Receives Client.body h (Client.getFile file path)
          [⟨.fileData, some ((), d)⟩] d.numPackets.toNat file path [⟨false⟩]) ∧
    ∀ (h : ReplicaManager.Host) (file : Name) (n : UInt32),
      ReplicaManager.receiver.Receives ReplicaManager.body h (ReplicaManager.receiveFile file n) []
        n.toNat file [] [] :=
  ⟨RequestHandler.receives, fun _ _ _ hinfo path _ hd ↦ Client.receives hinfo path hd,
    ReplicaManager.receives⟩

/-- A file of two packets is asked for by a client that does not have it. -/
theorem asked_all_or_nothing :
    Client.receiver.Receives Client.body ⟨rootHost oneFileMachine, false⟩
      (Client.getFile ['g'] []) [⟨.fileData, some ((), ⟨⟨['g'], 20000, 0⟩, 2⟩)⟩] 2 ['g'] []
      [⟨false⟩] :=
  receiving_all_or_nothing.2.1 _ _ ⟨['g'], 0, 0⟩ rfl _ _ (by decide)

namespace RequestHandler

/-- **On a socket that loses nothing, a handler that has returned has written** what it read. -/
theorem stored_of_run {read : Reading sessionWire} {h : FileHost} {file : Name}
    {n : UInt32} {i i' : Inbox sessionWire} {evs : List (Session.Event sessionWire)}
    {e' : Endpoint sessionWire sig Unit}
    (hr : Endpoint.Run read body ⟨h, receiveFile file n⟩ i evs e' i')
    (ha : e'.Returned ()) :
    ∃ packets : List Packet, packets.length = n.toNat ∧
      outcomes read evs = packets.map (fun p ↦ ⟨.packet, some ((), p)⟩) ∧
      e'.host = h.store file [] packets := by
  obtain ⟨acts, hp, -, hsome⟩ := plays_of_run hr ha
  obtain ⟨ms, rest, hn, hws, hrest⟩ := exists_of_plays_awaitAll hp
  have hms : ∀ m ∈ ms, m.isSome := fun m hm ↦
    hsome ⟨.packet, m⟩ (hws ▸ List.mem_append_left _ (List.mem_map_of_mem hm))
  obtain ⟨qs, rfl⟩ : ∃ qs : List (Unit × Packet), ms = qs.map some :=
    exists_eq_map_some fun hnone ↦ absurd (hms none hnone) (by simp)
  have hslots : (qs.map some).map (Option.map Prod.snd) = (qs.map Prod.snd).map some := by
    simp only [List.map_map]
    rfl
  rw [hslots, if_pos (countP_of_all hn hslots), bind_eq] at hrest
  obtain ⟨_, rfl, hlast⟩ := (plays_run (P := sig) (h.writeFile_some file [] _)).mp hrest
  obtain ⟨rfl, -, hhost, -⟩ := plays_emit_last.mp hlast
  refine ⟨qs.map Prod.snd, ?_, ?_, hhost⟩
  · rw [← hn, List.length_map, List.length_map]
  · rw [hws, List.append_nil, List.map_map, List.map_map]
    rfl

end RequestHandler
end Bropdox
