import Bropdox.Naming
import Bropdox.Receiving
import Bropdox.Session.Conduct
import Bropdox.Sync

/-!
# Files of one name

The watcher watches a directory with everything below it, and its events carry full paths.  Of such
a path the client and the server keep the last component, in `check_freshness`, in `send_file` and
in `delete_file`, so that on the server all files of a tree that have one name are one file.

## What is here

* `TreePaths`, `EventOn` and `Batch` say what a batch of events on distinct files of a tree is, and
  `InSync` in which states a session can be with events still to come.
* `MergesNone` is the property: whatever events are still to come, a session leaves alone what the
  server has of any other file of the tree.
* `serverCode` and `clientCode` are codes of conduct (`Session/Conduct.lean`): as long as the server
  receives events, the only names that the client sends are those of the files of the batch, and
  nothing else is written or deleted.  `follows_syncServer` and `follows_announce` with the lemmas
  around them say that the programs keep to their codes, and `Client.sound` and
  `RequestHandler.sound` what the two hosts keep in return.
* `spares_of_inSync` puts the two sides together: a session spares every file whose name the client
  cannot send.
* `not_mergesNone` is the other direction, by a session that consists of one removal
  (`removal_endsIn`).
* `mergesNone_iff`: files are not merged if and only if any two of one name share it with something
  at the top of the tree that is no file.  Then `get_file_info` looks at that instead, throws, and
  the synchronisation is over.
* `treeHost` is a client with two files of one name in two directories.
-/

set_option autoImplicit false

namespace Bropdox

open FileSystem Session Program SocketHandler Peers

open Relation (ReflTransGen)

/-! ## Trees and batches

What is said of a tree and its events, and the states of a session that the property is about. -/

/-- The path string of a path below a directory. -/
def pathString : Path → Name
  | [] => []
  | [c] => c
  | c :: q => c ++ '/' :: pathString q

/-- What the code keeps of a path. -/
def baseName (q : Path) : Name := q.getLast?.getD []

/-- Paths of files below a directory. -/
def TreePaths (T : Set Path) : Prop := ∀ q ∈ T, q ≠ [] ∧ ∀ c ∈ q, Plain c

/-- An event of the watcher on the file at a path below the directory. -/
structure EventOn (dir : Name) (q : Path) (event : FileEvent) : Prop where
  /-- The kind. -/
  kind : event.event = .create ∨ event.event = .modify ∨ event.event = .remove
  /-- The full path. -/
  name : event.file.name = dir ++ pathString q

/-- A batch of events on distinct files. -/
structure Batch (dir : Name) (T : Set Path) (qs : List Path) (events : List FileEvent) : Prop where
  /-- The files are distinct. -/
  nodup : qs.Nodup
  /-- The events are on files of the tree. -/
  mem : ∀ q ∈ qs, q ∈ T
  /-- The events are on them. -/
  events : List.Forall₂ (EventOn dir) qs events

/-- A sync directory: an absolute path with a separator at the end. -/
structure SyncDir (dir : Name) : Prop where
  /-- The path of the directory starts at the root. -/
  absolute : isAbsolute dir = true
  /-- The path of the directory ends in a separator. -/
  trailing : ∃ s, dir = s ++ ['/']
  /-- The path of the directory is not the string of two separators, which would make the name of a
  net of what follows. -/
  ne_net : dir ≠ ['/', '/']

/-- The sync directory of a server is at `r`, or is missing. -/
structure Rooted (s : FileHost) (r : Path) : Prop where
  /-- The name of the sync directory ends in a separator. -/
  trailing : ∃ d, s.syncDir = d ++ ['/']
  /-- The sync directory is nowhere else. -/
  resolves : ∀ p, s.machine.resolve s.syncDir = some p → p = r

/-- At the top of the sync directory there is something of this name that is no file. -/
def Blocked (h : FileHost) (f : Name) : Prop :=
  h.machine.exists (h.syncDir ++ f) = true ∧ h.machine.stat (h.syncDir ++ f) = none

/-- A synchronisation that begins with empty channels. -/
def syncSession (h : Client.Host) (s : FileHost) (events : List FileEvent) : PeerPair Bool Unit :=
  ⟨⟨h, Client.syncClient events⟩, ⟨s, RequestHandler.syncServer⟩, some [], some [], [], []⟩

/-- A synchronisation at the heads of both loops, with these events to come. -/
def syncRest (h : Client.Host) (s : FileHost) (events : List FileEvent) : PeerPair Bool Unit :=
  ⟨⟨{ h with syncing := true }, do
      Client.sendEvents events
      sendPacket .fileEvent {}
      Client.callReceiveFiles
      Client.concludeSync⟩,
    ⟨s, RequestHandler.syncServer⟩, some [], some [], [], []⟩

/-- A synchronisation with these events to come: at its beginning, or when others are done. -/
inductive InSync (h : Client.Host) (s : FileHost) (events : List FileEvent) :
    PeerPair Bool Unit → Prop
  | start : InSync h s events (syncSession h s events)
  | rest : InSync h s events (syncRest h s events)

/-- **No two files of the tree are merged**: whatever events there are to come on some of its files,
and whatever the server has by now, its copy of any other file of the tree is never changed, be it
that the other one has had its own event or that it has none. -/
def MergesNone (h : Client.Host) (T : Set Path) : Prop :=
  ∀ qs events, Batch h.files.syncDir T qs events → ∀ s r, Rooted s r → ∀ q ∈ T, q ∉ qs →
    ∀ x, InSync h s events x → ∀ y, ReflTransGen (Pair.Step peers) x y →
      y.right.host.machine.disk.at? (r ++ [baseName q]) = s.machine.disk.at? (r ++ [baseName q])

section Names

variable {dir : Name} {q : Path} {f : Name}

theorem pathString_cons_cons (c b : Name) (q : Path) :
    pathString (c :: b :: q) = c ++ '/' :: pathString (b :: q) := rfl

theorem pathString_concat (hq : q ≠ []) (f : Name) :
    pathString (q ++ [f]) = pathString q ++ '/' :: f := by
  induction q with
  | nil => exact absurd rfl hq
  | cons c q ih =>
    cases q with
    | nil => rfl
    | cons b q =>
      rw [List.cons_append, List.cons_append, pathString_cons_cons, ← List.cons_append,
        ih (by simp),
        pathString_cons_cons, List.append_assoc, List.cons_append]

theorem pathString_ne_nil (hq : q ≠ []) (hplain : ∀ c ∈ q, Plain c) : pathString q ≠ [] := by
  obtain ⟨c, q, rfl⟩ := List.exists_cons_of_ne_nil hq
  have hc : c ≠ [] := (hplain c List.mem_cons_self).ne_nil
  cases q with
  | nil => exact hc
  | cons b q =>
    rw [pathString_cons_cons]
    simp

/-- **The name that is kept.** -/
theorem filename_pathString (hd : SyncDir dir) (hq : q ≠ []) (hplain : ∀ c ∈ q, Plain c) :
    filename (dir ++ pathString q) = baseName q := by
  obtain ⟨s, rfl⟩ := hd.trailing
  rcases List.eq_nil_or_concat q with rfl | ⟨q, f, rfl⟩
  · exact absurd rfl hq
  · rw [List.concat_eq_append] at hplain ⊢
    have hf : Plain f := hplain f (by simp)
    rw [baseName, List.getLast?_concat, Option.getD_some, List.append_assoc, List.singleton_append]
    by_cases hq' : q = []
    · rw [hq']
      exact hf.filename_slash fun hs ↦ hd.ne_net (by rw [hs]; rfl)
    · rw [pathString_concat hq', ← List.cons_append, ← List.append_assoc]
      refine hf.filename_slash fun hs ↦ pathString_ne_nil hq' (fun c hc ↦ ?_) ?_
      · exact hplain c (List.mem_append_left _ hc)
      · rcases List.append_eq_singleton_iff.mp hs with ⟨-, hs⟩ | ⟨-, hs⟩
        · exact (List.cons.inj hs).2
        · cases hs

theorem plain_baseName (hq : q ≠ []) (hplain : ∀ c ∈ q, Plain c) : Plain (baseName q) := by
  rcases List.eq_nil_or_concat q with rfl | ⟨q, f, rfl⟩
  · exact absurd rfl hq
  · rw [List.concat_eq_append] at hplain ⊢
    rw [baseName, List.getLast?_concat]
    exact hplain f (by simp)

theorem soughtName_pathString (hd : SyncDir dir) (hq : q ≠ []) (hplain : ∀ c ∈ q, Plain c) :
    soughtName (dir ++ pathString q) = baseName q := by
  rw [soughtName, if_pos (isAbsolute_append hd.absolute _), filename_pathString hd hq hplain]

end Names

/-! ## How the server conducts itself

The statements of `sync_server`, up to the end of the events and after it. -/

/-- While it receives events, the server writes and deletes only files it has been told of, and asks
for nothing by itself. -/
def serverCode (names : Set Name) : Code sessionWire RequestHandler.sig where
  op o := o.Looks ∨ ∃ f ∈ names, (∃ data, o = .writeFile f data []) ∨ o = .deleteFile f
  result _ _ := True
  send d := d.1 ≠ .fileData
  hear d := ∀ fileData, d = ⟨.fileData, fileData⟩ → fileData.file.name ∈ names
  call l := l = .receiveEvents

/-- The code of a server that has received all events: it changes nothing any more. -/
def readingCode : Code sessionWire RequestHandler.sig where
  op := FileOp.Looks
  result _ _ := True
  send _ := True
  hear _ := True
  call l := l ≠ .receiveEvents

section Loops

variable {P : Sig} {c : Code sessionWire P} {body : Bodies sessionWire P} {α : Type}
  {S : Program sessionWire P α → Prop}

theorem follows_sendPackets {κ : Kind} {ms : List κ.Msg} {k : Unit → Program sessionWire P α}
    (hms : ∀ m ∈ ms, c.send ⟨κ, m⟩) (hk : (k ()).Follows c body S) :
    ((sendPackets κ ms).bind k).Follows c body S := by
  induction ms with
  | nil => exact hk
  | cons m ms ih =>
    obtain ⟨hm, hms⟩ := List.forall_mem_cons.mp hms
    simp only [sendPackets, bind_eq, bind_assoc]
    exact follows_emit hm (ih hms)

end Loops

namespace RequestHandler

variable {names : Set Name} {α : Type} {S : Prog α → Prop}

theorem follows_waitFor {c : Code sessionWire sig} {κ : Kind} {k : κ.Msg → Prog α}
    (hk : ∀ m, c.hear ⟨κ, m⟩ → (k m).Follows c body S) :
    ((waitFor κ).bind k).Follows c body S := by
  rw [waitFor, bind_eq, bind_assoc]
  refine follows_await fun m hm ↦ ?_
  exact hk m hm

/-- The reaction to an announced upload. -/
theorem heeds_receiveAnnounced {fileData : FileData} (h : fileData.file.name ∈ names) :
    (receiveAnnounced fileData).Heeds (serverCode names) body := by
  have hack : ∀ b, (serverCode names).send ⟨.ack, ⟨b⟩⟩ := fun b ↦ by
    intro he
    cases he
  rw [receiveAnnounced]
  split
  · exact follows_emit (hack _) (.ret _)
  · refine follows_emit (hack _) ?_
    simp only [receiveFile, bind_eq, bind_assoc]
    refine follows_awaitAll fun slots _ ↦ ?_
    split
    · have hwrite : (serverCode names).op (.writeFile fileData.file.name slots []) :=
        .inr ⟨_, h, .inl ⟨slots, rfl⟩⟩
      rw [bind_assoc]
      refine follows_run hwrite fun write _ ↦ ?_
      exact follows_emit (hack _) (.ret _)
    · exact follows_emit (hack _) (.ret _)

/-- The reaction of the server to one event. -/
theorem heeds_receiveEvent (event : FileEvent) :
    (receiveEvent event).Heeds (serverCode names) body := by
  have hack : ∀ b, (serverCode names).send ⟨.ack, ⟨b⟩⟩ := fun b ↦ by
    intro he
    cases he
  have hupload : Program.Heeds (serverCode names) body (do
      let fresh ← RequestHandler.file (.checkFreshness event.file)
      sendPacket .ack ⟨fresh⟩
      if !fresh then pure ()
      else
        let fileData ← waitFor .fileData
        discard (receiveAnnounced fileData) : Prog Unit) := by
    refine follows_run (P := sig) (.inl trivial) fun fresh _ ↦ follows_emit (hack _) ?_
    split
    · exact .ret _
    · refine follows_waitFor fun fileData hhear ↦ ?_
      exact follows_bind (heeds_receiveAnnounced (hhear _ rfl)) fun _ ↦ .ret _
  rw [receiveEvent]
  split
  · exact hupload
  · exact hupload
  · refine follows_emit (hack _) (follows_waitFor fun fileData hhear ↦ ?_)
    rw [deleteFile, bind_eq]
    have hdelete : (serverCode names).op (.deleteFile fileData.file.name) :=
      .inr ⟨_, hhear _ rfl, .inr rfl⟩
    refine follows_run hdelete fun deleted _ ↦ ?_
    split
    · exact .send (hack _) (.ret _)
    · exact .send (hack _) (.ret _)
  · exact .ret _

/-- The loop over the events. -/
theorem heeds_receiveEvents : receiveEvents.Heeds (serverCode names) body := by
  refine follows_waitFor fun event _ ↦ ?_
  split
  · exact .ret _
  · refine follows_bind (heeds_receiveEvent event) fun _ ↦ ?_
    exact .call rfl fun _ ↦ .ret _

/-- A file that is offered is only read. -/
theorem heeds_sendFile (file : Name) : (sendFile file).Heeds readingCode body := by
  refine follows_attempt (P := sig) trivial fun read _ ↦ ?_
  split
  · exact .send trivial (.ret _)
  · exact .throw _
  · refine follows_run (P := sig) trivial fun info _ ↦ follows_emit trivial ?_
    refine follows_sendPackets (fun _ _ ↦ trivial) (follows_waitFor fun ack _ ↦ ?_)
    rw [resendUnless]
    split
    · exact .call (by simp [readingCode]) fun _ ↦ .ret _
    · exact .ret _

theorem heeds_listFiles : listFiles.Heeds readingCode body := by
  refine follows_run (P := sig) trivial fun entries _ ↦ follows_emit trivial ?_
  refine follows_sendPackets (fun _ _ ↦ trivial) (follows_waitFor fun ack _ ↦ ?_)
  rw [relistUnless]
  split
  · exact .call (by simp [readingCode]) fun _ ↦ .ret _
  · exact .ret _

/-- The files that are offered. -/
theorem heeds_offerFiles (entries : List FileData) :
    (offerFiles entries).Heeds readingCode body := by
  induction entries with
  | nil => exact .ret _
  | cons fileInfo entries ih =>
    refine follows_emit trivial (follows_await fun ack _ ↦ ?_)
    simp only
    split
    · exact ih
    · refine follows_bind ?_ fun _ ↦ .call (by simp [readingCode]) fun _ ↦ ih
      exact follows_await fun m _ ↦ .ret _

/-- The server conducts itself while it receives, and then it only reads. -/
theorem follows_syncServer :
    syncServer.Follows (serverCode names) body (·.Heeds readingCode body) := by
  refine follows_invoke rfl fun _ ↦ .stop ?_
  refine follows_run (P := sig) trivial fun entries _ ↦ follows_bind (heeds_offerFiles entries) ?_
  exact fun _ ↦ follows_emit trivial (follows_await fun _ _ ↦ .ret _)

end RequestHandler

/-! ## How the client conducts itself

The statements of `sync_client`, up to the end of the events and after it. -/

/-- As long as nothing is offered to it, the client sends no names but those of the files it has
been told of, and only if `get_file_info` finds a file of this name or nothing. -/
def clientCode (files : FileHost) (bases : Set Name) : Code sessionWire Client.sig where
  op
    | .file o => o.Looks
    | .isSyncing => True
    | .setSyncing _ => False
  result
    | .file (.getFileInfo f), .ok v => v.name = soughtName f ∧ ¬ Blocked files (soughtName f)
    | .isSyncing, .ok syncing => syncing = true
    | _, _ => True
  send d := ∀ fileData, d = ⟨.fileData, fileData⟩ →
    fileData.file.name ∈ bases ∧ ¬ Blocked files fileData.file.name
  hear d := d.1 ≠ .fileData
  call
    | .sendFile f => soughtName f ∈ bases
    | .receiveFiles => False

namespace Client

variable {files : FileHost} {bases : Set Name} {α : Type} {S : Prog α → Prop} {f : Name}

theorem follows_waitAck {k : Bool → Prog α}
    (hk : ∀ b, (k b).Follows (clientCode files bases) body S) :
    (waitAck.bind k).Follows (clientCode files bases) body S := by
  rw [waitAck, bind_eq, bind_assoc]
  exact follows_await fun m _ ↦ hk _

theorem follows_isSyncing {k : Bool → Prog α}
    (hk : (k true).Follows (clientCode files bases) body S) :
    (isSyncing.bind k).Follows (clientCode files bases) body S := by
  have hop : (clientCode files bases).op .isSyncing := trivial
  refine follows_run hop fun syncing hsyncing ↦ ?_
  obtain rfl : syncing = true := hsyncing
  exact hk

/-- The name that is announced. -/
theorem follows_announce {n : FileInfo → UInt32} {k : FileInfo → Prog α} (hf : soughtName f ∈ bases)
    (hk : ∀ info, (k info).Follows (clientCode files bases) body S) :
    ((Client.file (.getFileInfo f)).bind fun info ↦ (sendPacket .fileData ⟨info, n info⟩).bind
      fun _ ↦ k info).Follows (clientCode files bases) body S := by
  have hop : (clientCode files bases).op (.file (.getFileInfo f)) := trivial
  refine follows_run hop fun info hinfo ↦ follows_emit ?_ (hk info)
  intro fileData he
  cases he
  obtain ⟨hname, hfree⟩ := hinfo
  rw [hname]
  exact ⟨hf, hfree⟩

theorem heeds_sendFile (hf : soughtName f ∈ bases) :
    (sendFile f).Heeds (clientCode files bases) body := by
  have hop : (clientCode files bases).op (.file (.readFile f)) := trivial
  refine follows_run hop fun read _ ↦ follows_announce hf fun info ↦
    follows_waitAck fun accepted ↦ ?_
  split
  · exact .ret _
  · refine follows_sendPackets (fun m _ fileData he ↦ by cases he) ?_
    have hkept : ((keepUnlessSyncing f).bind fun _ ↦ .ret true).Heeds (clientCode files bases)
        body := follows_bind (follows_isSyncing (.ret _)) fun _ ↦ .ret _
    refine follows_waitAck fun stored ↦ ?_
    simp only
    split
    · exact follows_invoke hf fun _ ↦ hkept
    · exact hkept

theorem heeds_deleteFile (hf : soughtName f ∈ bases) :
    (deleteFile f).Heeds (clientCode files bases) body := by
  refine follows_announce hf fun info ↦ follows_isSyncing ?_
  refine follows_waitAck fun deleted ↦ ?_
  exact follows_bind (follows_isSyncing (.ret _)) fun _ ↦ .ret _

/-- What the client does for one event. -/
theorem heeds_sendEvent {event : FileEvent} (hf : soughtName event.file.name ∈ bases) :
    (sendEvent event).Heeds (clientCode files bases) body := by
  refine follows_emit (fun fileData he ↦ by cases he) (follows_waitAck fun wanted ↦ ?_)
  split
  · exact .ret _
  · split
    · exact follows_invoke hf fun _ ↦ .ret _
    · exact follows_invoke hf fun _ ↦ .ret _
    · exact follows_bind (heeds_deleteFile hf) fun _ ↦ .ret _
    · exact .ret _

theorem heeds_sendEvents {events : List FileEvent}
    (hevents : ∀ event ∈ events, soughtName event.file.name ∈ bases) :
    (sendEvents events).Heeds (clientCode files bases) body := by
  induction events with
  | nil => exact .ret _
  | cons event events ih =>
    obtain ⟨hevent, hevents⟩ := List.forall_mem_cons.mp hevents
    exact follows_bind (heeds_sendEvent hevent) fun _ ↦ ih hevents

/-- All that is left to do when `syncing` has been set.  The second loop begins with a datagram that
does not come yet. -/
theorem heeds_afterSyncing {events : List FileEvent}
    (hevents : ∀ event ∈ events, soughtName event.file.name ∈ bases) {k : Unit → Prog α} :
    ((sendEvents events).bind fun _ ↦ (sendPacket .fileEvent {}).bind fun _ ↦
      callReceiveFiles.bind k).Heeds (clientCode files bases) body := by
  refine follows_bind (heeds_sendEvents hevents) fun _ ↦ ?_
  refine follows_emit (fun fileData he ↦ by cases he) (.unfold (.wait fun _ m hm ↦ ?_))
  exact absurd rfl hm

end Client

/-! ## What the two hosts keep

What the codes demand of the operations, shown of the two file handlers. -/

theorem FileOp.Looks.exec_eq {o : FileOp} (ho : o.Looks) {h s : FileHost} {v : o.Res}
    (hx : o.exec h = .ok (v, s)) : s = h := by
  rcases FileOp.exec_cases hx with
    hs | ⟨f, data, path, bytes, rfl, -⟩ | ⟨f, m, rfl, -⟩ | ⟨f, rfl⟩
  · exact hs
  · exact ho.elim
  · exact ho.elim
  · exact ho.elim

/-- Where something else has the name of a file, `get_file_info` throws. -/
theorem not_blocked_of_getFileInfo {h : FileHost} {f : Name} {v : FileInfo}
    (hv : h.getFileInfo f = .ok v) : v.name = soughtName f ∧ ¬ Blocked h (soughtName f) := by
  refine ⟨fileInfo_name hv, fun hblocked ↦ ?_⟩
  rw [FileHost.getFileInfo, ← soughtName, fileInfo, if_pos hblocked.1, hblocked.2] at hv
  cases hv

theorem FileOp.getFileInfo_of_exec {h s : FileHost} {f : Name} {v : FileInfo}
    (hx : (FileOp.getFileInfo f).exec h = .ok (v, s)) : h.getFileInfo f = .ok v := by
  simp only [FileOp.exec] at hx
  cases hr : h.getFileInfo f with
  | error e =>
    rw [hr] at hx
    cases hx
  | ok w =>
    rw [hr] at hx
    cases hx
    rfl

/-- While it synchronises, a client changes no file of its own before it is offered one. -/
theorem Client.sound (files : FileHost) (bases : Set Name) :
    (clientCode files bases).Sound Client.body fun h ↦ h.files = files ∧ h.syncing = true where
  ok o h v h' ho hI hx := by
    obtain ⟨rfl, hsync⟩ := hI
    cases o with
    | file o =>
      obtain ⟨s, hs, rfl⟩ := Client.Op.of_exec_file hx
      refine ⟨?_, FileOp.Looks.exec_eq ho hs, hsync⟩
      cases o with
      | getFileInfo f => exact not_blocked_of_getFileInfo (FileOp.getFileInfo_of_exec hs)
      | _ => trivial
    | isSyncing =>
      cases hx
      exact ⟨hsync, rfl, hsync⟩
    | setSyncing b => exact ho.elim
  error o h e ho hI hx := by
    cases o with
    | file o => cases o <;> trivial
    | isSyncing => cases hx
    | setSyncing b => trivial
  bodies l hl := by
    cases l with
    | receiveFiles => exact hl.elim
    | sendFile f => exact heeds_sendFile hl

/-- A server on which one file is what it was, and the names that may be used lead elsewhere. -/
structure Spares (dir : Name) (names : Set Name) (p : Path) (n : Option Node) (s : FileHost) :
    Prop where
  /-- The sync directory. -/
  syncDir : s.syncDir = dir
  /-- The file. -/
  at? : s.machine.disk.at? p = n
  /-- The names. -/
  apart : ∀ f ∈ names, s.machine.resolve (dir ++ f) ≠ some p

section Spares

variable {dir : Name} {names : Set Name} {p : Path} {n : Option Node} {s : FileHost} {f : Name}

theorem Spares.write (hs : Spares dir names p n s) (hplain : ∀ f ∈ names, Plain f)
    (hf : f ∈ names) (bytes : List UInt8) :
    Spares dir names p n { s with machine := s.machine.write (s.writePath f []) bytes } := by
  have hpath : s.writePath f [] = dir ++ f := by
    rw [FileHost.writePath_eq (soughtName_plain (hplain f hf)), hs.syncDir]
  refine ⟨hs.syncDir, ?_, fun g hg ↦ ?_⟩
  · rw [hpath]
    exact (Machine.at?_write_of_ne (hs.apart f hf) bytes).trans hs.at?
  · rw [(Machine.sameTree_write s.machine _ bytes).resolve]
    exact hs.apart g hg

theorem Spares.remove (hs : Spares dir names p n s) (hf : f ∈ names) {m : Machine}
    (hm : s.machine.remove (s.syncDir ++ f) = some m) :
    Spares dir names p n { s with machine := m } := by
  rw [hs.syncDir] at hm
  refine ⟨hs.syncDir, (Machine.at?_remove_of_ne hm (hs.apart f hf)).trans hs.at?, fun g hg hr ↦ ?_⟩
  exact hs.apart g hg (Machine.resolve_of_remove hm hr)

/-- While it receives events, a server spares every file that it is not told of. -/
theorem RequestHandler.sound (hplain : ∀ f ∈ names, Plain f) :
    (serverCode names).Sound RequestHandler.body (Spares dir names p n) where
  ok o h v h' ho hI hx := by
    refine ⟨trivial, ?_⟩
    rcases FileOp.exec_cases hx with
      rfl | ⟨f, data, path, bytes, rfl, rfl⟩ | ⟨f, m, rfl, hm, rfl⟩ | ⟨f, rfl⟩
    · exact hI
    · rcases ho with ho | ⟨g, hg, ⟨data', he⟩ | he⟩
      · exact ho.elim
      · cases he
        exact hI.write hplain hg bytes
      · cases he
    · rcases ho with ho | ⟨g, hg, ⟨data', he⟩ | he⟩
      · exact ho.elim
      · cases he
      · cases he
        exact hI.remove hg hm
    · rcases ho with ho | ⟨g, hg, ⟨data', he⟩ | he⟩
      · exact ho.elim
      · cases he
      · cases he
  error _ _ _ _ _ _ := trivial
  bodies l hl := by
    obtain rfl : l = .receiveEvents := hl
    exact heeds_receiveEvents

/-- A server that only reads changes nothing. -/
theorem RequestHandler.sound_reading (I : FileHost → Prop) :
    readingCode.Sound RequestHandler.body I where
  ok o h v h' ho hI hx := by
    rw [FileOp.Looks.exec_eq ho hx]
    exact ⟨trivial, hI⟩
  error _ _ _ _ _ _ := trivial
  bodies l hl := by
    cases l with
    | receiveEvents => exact absurd rfl hl
    | sendFile f => exact heeds_sendFile f
    | listFiles => exact heeds_listFiles

end Spares

/-! ## Both together

Each side keeps to its code as long as the other one does, so the two inductions are one. -/

section Batches

variable {dir : Name} {T : Set Path} {qs : List Path} {events : List FileEvent}

theorem exists_eventOn (h : List.Forall₂ (EventOn dir) qs events) :
    ∀ event ∈ events, ∃ q ∈ qs, EventOn dir q event := by
  induction h with
  | nil => exact List.forall_mem_nil _
  | cons hon _ ih =>
    refine List.forall_mem_cons.mpr ⟨⟨_, List.mem_cons_self, hon⟩, fun event hevent ↦ ?_⟩
    obtain ⟨q, hq, hon⟩ := ih event hevent
    exact ⟨q, List.mem_cons_of_mem _ hq, hon⟩

/-- What the events of a batch are about. -/
theorem Batch.soughtName_mem (hb : Batch dir T qs events) (hd : SyncDir dir) (hT : TreePaths T) :
    ∀ event ∈ events, soughtName event.file.name ∈ {f | ∃ q ∈ qs, baseName q = f} := by
  intro event hevent
  obtain ⟨q, hq, hon⟩ := exists_eventOn hb.events event hevent
  obtain ⟨hne, hplain⟩ := hT q (hb.mem q hq)
  rw [hon.name, soughtName_pathString hd hne hplain]
  exact ⟨q, hq, rfl⟩

end Batches

section Sides

variable {files : FileHost} {bases names : Set Name} {events : List FileEvent} {I : FileHost → Prop}

/-- A client that is about to set `syncing`, or that conducts itself. -/
def Client.Announces (files : FileHost) (bases : Set Name) (events : List FileEvent)
    (e : Endpoint sessionWire Client.sig Bool) : Prop :=
  (e.prog = Client.syncClient events ∧ e.host.files = files) ∨
    (e.prog.Heeds (clientCode files bases) Client.body ∧ e.host.files = files ∧
      e.host.syncing = true)

theorem Client.Announces.step (hevents : ∀ event ∈ events, soughtName event.file.name ∈ bases)
    {e e' : Endpoint sessionWire Client.sig Bool} (he : Client.Announces files bases events e)
    {i i' : Inbox sessionWire} {out : List (Parcel sessionWire)}
    (hi : ∀ p ∈ i.getD [], (clientCode files bases).hear p.2)
    (hs : e.step typed Client.body i = some (e', i', out)) :
    Client.Announces files bases events e' ∧ ∀ p ∈ out, (clientCode files bases).send p.2 := by
  rcases he with ⟨hprog, hfiles⟩ | ⟨hprog, hI⟩
  · obtain ⟨host, prog⟩ := e
    subst hprog
    cases hs
    exact ⟨.inr ⟨Client.heeds_afterSyncing hevents, hfiles, rfl⟩, List.forall_mem_nil _⟩
  · rcases Endpoint.follows_step (Client.sound _ _) hprog hI hi hs with hF | ⟨hprog, hI, hout⟩
    · exact hF.elim
    · exact ⟨.inr ⟨hprog, hI⟩, hout⟩

/-- A server that has received all it will receive. -/
def RequestHandler.Reads (I : FileHost → Prop) (e : Endpoint sessionWire RequestHandler.sig Unit) :
    Prop :=
  e.prog.Heeds readingCode RequestHandler.body ∧ I e.host

theorem RequestHandler.Reads.step {e e' : Endpoint sessionWire RequestHandler.sig Unit}
    (he : RequestHandler.Reads I e) {i i' : Inbox sessionWire} {out : List (Parcel sessionWire)}
    (hs : e.step typed RequestHandler.body i = some (e', i', out)) : RequestHandler.Reads I e' := by
  rcases Endpoint.follows_step (RequestHandler.sound_reading I) he.1 he.2 (fun _ _ ↦ trivial) hs
    with hF | ⟨hprog, hI, -⟩
  · exact hF.elim
  · exact ⟨hprog, hI⟩

/-- A server that receives. -/
def RequestHandler.Receives (names : Set Name) (I : FileHost → Prop)
    (e : Endpoint sessionWire RequestHandler.sig Unit) : Prop :=
  e.prog.Follows (serverCode names) RequestHandler.body (·.Heeds readingCode RequestHandler.body) ∧
    I e.host

theorem RequestHandler.Receives.step (hc : (serverCode names).Sound RequestHandler.body I)
    {e e' : Endpoint sessionWire RequestHandler.sig Unit} (he : RequestHandler.Receives names I e)
    {i i' : Inbox sessionWire} {out : List (Parcel sessionWire)}
    (hi : ∀ p ∈ i.getD [], (serverCode names).hear p.2)
    (hs : e.step typed RequestHandler.body i = some (e', i', out)) :
    RequestHandler.Reads I e' ∨
      (RequestHandler.Receives names I e' ∧ ∀ p ∈ out, (serverCode names).send p.2) := by
  rcases Endpoint.follows_step hc he.1 he.2 hi hs with hreads | ⟨hprog, hI, hout⟩
  · exact .inl (RequestHandler.Reads.step ⟨hreads, he.2⟩ hs)
  · exact .inr ⟨⟨hprog, hI⟩, hout⟩

/-- **A session spares what has none of the names** that the client can send. -/
theorem spares_of_inSync {h : Client.Host} {s : FileHost}
    (hevents : ∀ event ∈ events, soughtName event.file.name ∈ bases)
    (hplain : ∀ f ∈ bases, Plain f) {p : Path} {n : Option Node}
    (hs : Spares s.syncDir {f | f ∈ bases ∧ ¬ Blocked h.files f} p n s) {x y : PeerPair Bool Unit}
    (hx : InSync h s events x) (hy : ReflTransGen (Pair.Step peers) x y) :
    y.right.host.machine.disk.at? p = n := by
  set names : Set Name := {f | f ∈ bases ∧ ¬ Blocked h.files f}
  have hsound : (serverCode names).Sound RequestHandler.body (Spares s.syncDir names p n) :=
    RequestHandler.sound fun f hf ↦ hplain f hf.1
  have hclient : Client.Announces h.files bases events x.left := by
    cases hx with
    | start => exact .inl ⟨rfl, rfl⟩
    | rest => exact .inr ⟨Client.heeds_afterSyncing hevents, rfl, rfl⟩
  have hserver : RequestHandler.Receives names (Spares s.syncDir names p n) x.right := by
    cases hx with
    | start => exact ⟨RequestHandler.follows_syncServer, hs⟩
    | rest => exact ⟨RequestHandler.follows_syncServer, hs⟩
  have hstart : x.Conducted (Client.Announces h.files bases events)
      (RequestHandler.Receives names (Spares s.syncDir names p n))
      (clientCode h.files bases).hear (serverCode names).hear := by
    refine ⟨hclient, hserver, ?_, ?_⟩ <;> cases hx <;> exact List.forall_mem_nil _
  rcases Pair.conducted (fun _ _ _ _ _ hJ hi hs ↦ hJ.step hevents hi hs)
    (fun _ _ _ _ _ hJ hi hs ↦ hJ.step hsound hi hs) (fun _ _ _ _ _ hD hs ↦ hD.step hs) hstart hy
    with hreads | hconducted
  · exact hreads.2.at?
  · exact hconducted.right.2.at?

end Sides

/-! ## A removal

A server with a single file is told of the removal of another one, of the same name.  Whether it
loses its own tells which files are merged, and so `mergesNone_iff` is decided by pairs of files. -/

/-- The event that a file has been removed. -/
def removal (file : Name) : FileEvent where
  file := { name := file }
  event := .remove

/-- A server with one file. -/
def loneFile (f : Name) : FileHost where
  machine := Machine.ofFiles Nat.cast [] [(f, ⟨.empty, 0⟩)]
  syncDir := ['/']

theorem rooted_loneFile (f : Name) : Rooted (loneFile f) [] :=
  ⟨⟨[], rfl⟩, fun _ hp ↦ (Option.some_inj.mp hp).symm⟩

theorem mirrors_loneFile {f : Name} (hf : Plain f) :
    (loneFile f).Mirrors [] ((loneFile f).replica []) :=
  ⟨FlatDir.ofFiles (s := []) rfl (List.forall_mem_singleton.mpr hf) (by decide), rfl, rfl⟩

theorem view_loneFile (f : Name) : ∃ x, (loneFile f).machine.view [] f = some x :=
  Machine.exists_view_ofFiles (List.mem_singleton_self _)

theorem getFileInfo_of_not_blocked {h : FileHost} {f : Name} (hf : ¬ Blocked h (soughtName f)) :
    ∃ v, h.getFileInfo f = .ok v := by
  rw [FileHost.getFileInfo, ← soughtName, fileInfo]
  split_ifs with hex
  · cases hx : h.machine.stat (h.syncDir ++ soughtName f) with
    | none => exact absurd ⟨hex, hx⟩ hf
    | some x => exact ⟨_, rfl⟩
  · exact ⟨_, rfl⟩

/-- A server with one file has no file once the client has told it of the removal of one with this
name. -/
theorem removal_endsIn {h : Client.Host} {file : Name} {v : FileInfo}
    (hv : h.files.getFileInfo file = .ok v) (hplain : Plain v.name) :
    ∃ t, (syncSession h (loneFile v.name) [removal file]).EndsIn peers t ∧
      t.right.host.machine.disk.at? [v.name] = none := by
  obtain ⟨s, hdel, hs, -⟩ := (mirrors_loneFile hplain).delete hplain
  -- nothing is left that could be offered
  have hempty (f : Name) : (((loneFile v.name).replica []).remove v.name).store f = none := by
    by_cases hf : f = v.name
    · rw [hf]
      exact Store.remove_self ..
    · refine (Store.remove_of_ne _ hf).trans
        (Option.eq_none_iff_forall_ne_some.mpr fun x hx ↦ hf ?_)
      exact (Prod.mk.inj (List.mem_singleton.mp (Machine.mem_of_view_ofFiles hx))).1
  have hlist := hs.getFileInfoList_eq_nil hempty
  have hgone : s.machine.disk.at? [v.name] = none := by
    have hview : s.machine.view [] v.name = none := (congrFun hs.view_eq v.name).trans (hempty _)
    have hat := hs.flat.at?_eq v.name
    rwa [hview] at hat
  refine ⟨⟨⟨{ h with syncing := false }, .ret true⟩, ⟨s, .ret ()⟩, some [], some [], [], []⟩, ?_,
    hgone⟩
  have hsync : syncSession h (loneFile v.name) [removal file] =
      ⟨⟨h, (Client.setSyncing true).bind fun _ ↦ (Client.sendEvent (removal file)).bind fun _ ↦
        (sendPacket .fileEvent {}).bind fun _ ↦
          Client.callReceiveFiles.bind fun _ ↦ Client.concludeSync⟩,
        ⟨loneFile v.name, RequestHandler.callReceiveEvents.bind fun _ ↦
          (RequestHandler.file .getFileInfoList).bind fun entries ↦
            (RequestHandler.offerFiles entries).bind fun _ ↦ (sendPacket .fileData {}).bind fun _ ↦
              (waitPacket .ack).bind fun _ ↦ .ret ()⟩, some [], some [], [], []⟩ := by
    rw [syncSession, Client.syncClient, Client.sendEvents, Client.sendEvents]
    simp only [bind_eq, Program.bind_assoc, pure_eq, ret_bind]
    rfl
  rw [hsync, left_setSyncing, sendRemoval_endsIn rfl rfl hv hdel, closeEvents_endsIn hlist]
  exact closeOffers_endsIn.mpr ⟨.refl, Pair.Returned.terminal ⟨rfl, rfl⟩⟩

/-! ## The law

The names that a session can use lead to other files, or one of them leads to the file that was to
be spared. -/

section Law

variable {h : Client.Host} {T : Set Path}

/-- The names of other files lead elsewhere. -/
theorem Rooted.resolve_ne {s : FileHost} {r : Path} (hs : Rooted s r) {f g : Name} (hf : Plain f)
    (hne : f ≠ g) : s.machine.resolve (s.syncDir ++ f) ≠ some (r ++ [g]) := by
  obtain ⟨d, hd⟩ := hs.trailing
  intro hr
  have hdir := hs.resolves
  rw [hd] at hdir hr
  rw [List.append_assoc, List.singleton_append] at hr
  obtain ⟨p, hp, he⟩ := Machine.exists_resolve_of_plain hf hr
  rw [hdir p hp] at he
  exact hne (List.singleton_inj.mp (List.append_cancel_left he)).symm

/-- Files of different names are not merged. -/
theorem mergesNone_of_blocked (hdir : SyncDir h.files.syncDir) (hT : TreePaths T)
    (hall : ∀ q ∈ T, ∀ q' ∈ T, q ≠ q' → baseName q = baseName q' → Blocked h.files (baseName q)) :
    MergesNone h T := by
  intro qs events hb s r hs q hq hnot x hx y hy
  refine spares_of_inSync (hb.soughtName_mem hdir hT) ?_ ⟨rfl, rfl, ?_⟩ hx hy
  · rintro f ⟨q', hq', rfl⟩
    exact plain_baseName (hT q' (hb.mem q' hq')).1 (hT q' (hb.mem q' hq')).2
  · rintro f ⟨⟨q', hq', rfl⟩, hfree⟩
    have hmem := hb.mem q' hq'
    refine hs.resolve_ne (plain_baseName (hT q' hmem).1 (hT q' hmem).2) fun he ↦ hfree ?_
    exact hall q' hmem q hq (fun hqq ↦ hnot (hqq ▸ hq')) he

/-- Two files of one name are merged, if `get_file_info` finds one of them or nothing: the removal
of one removes the server's copy of the other. -/
theorem not_mergesNone (hdir : SyncDir h.files.syncDir) (hT : TreePaths T) {q q' : Path}
    (hq : q ∈ T) (hq' : q' ∈ T) (hne : q ≠ q') (hbase : baseName q = baseName q')
    (hfree : ¬ Blocked h.files (baseName q)) : ¬ MergesNone h T := by
  intro hM
  obtain ⟨hnil, hplain⟩ := hT q hq
  have hsought := soughtName_pathString hdir hnil hplain
  rw [← hsought] at hfree
  obtain ⟨v, hv⟩ := getFileInfo_of_not_blocked hfree
  have hname : v.name = baseName q := by rw [fileInfo_name hv, ← soughtName, hsought]
  obtain ⟨t, ht, hgone⟩ := removal_endsIn hv (hname ▸ plain_baseName hnil hplain)
  have hbatch : Batch h.files.syncDir T [q] [removal (h.files.syncDir ++ pathString q)] :=
    ⟨List.nodup_singleton q, List.forall_mem_singleton.mpr hq,
      .cons ⟨.inr (.inr rfl), rfl⟩ .nil⟩
  have hkept := hM [q] _ hbatch (loneFile v.name) [] (rooted_loneFile _) q' hq'
    (fun hmem ↦ hne (List.mem_singleton.mp hmem).symm) _ .start t ht.1
  rw [← hbase, ← hname, List.nil_append, hgone] at hkept
  obtain ⟨x, hx⟩ := view_loneFile v.name
  cases hkept.trans (Machine.view_eq_some.mp hx)

/-- **Files are not merged** if and only if any two of one name share it with something at the top
of the tree that is no file. -/
theorem mergesNone_iff (hdir : SyncDir h.files.syncDir) (hT : TreePaths T) :
    MergesNone h T ↔
      ∀ q ∈ T, ∀ q' ∈ T, q ≠ q' → baseName q = baseName q' → Blocked h.files (baseName q) := by
  refine ⟨fun hM q hq q' hq' hne hbase ↦ ?_, mergesNone_of_blocked hdir hT⟩
  by_contra hfree
  exact not_mergesNone hdir hT hq hq' hne hbase hfree hM

end Law

/-! Two files in two directories. -/

/-- A client with the files `f`, `d/f` and `d/g`. -/
def treeHost : Client.Host where
  files :=
    { machine :=
        { disk := .ofList [([['s']], .dir), ([['s'], ['f']], .file ⟨.empty, 1⟩),
            ([['s'], ['d']], .dir), ([['s'], ['d'], ['f']], .file ⟨.single 1, 2⟩),
            ([['s'], ['d'], ['g']], .file ⟨.single 2, 3⟩)]
          cwd := []
          clock := Nat.cast
          order := .asStored }
      syncDir := ['/', 's', '/'] }
  syncing := false

theorem syncDir_treeHost : SyncDir treeHost.files.syncDir := ⟨rfl, ⟨['/', 's'], rfl⟩, by decide⟩

theorem different_names_not_merged : MergesNone treeHost {[['f']], [['d'], ['g']]} := by
  refine (mergesNone_iff syncDir_treeHost ?_).mpr ?_
  · rintro q (rfl | rfl) <;> exact ⟨by simp, by decide⟩
  · rintro q (rfl | rfl) q' (rfl | rfl) hne hbase
    · exact absurd rfl hne
    · exact absurd hbase (by decide)
    · exact absurd hbase (by decide)
    · exact absurd rfl hne

theorem one_name_merged : ¬ ∀ (h : Client.Host) (T : Set Path), SyncDir h.files.syncDir →
    TreePaths T → MergesNone h T := by
  intro hall
  have hT : TreePaths {[['f']], [['d'], ['f']]} := by
    rintro q (rfl | rfl) <;> exact ⟨by simp, by decide⟩
  have hfree : ¬ Blocked treeHost.files (baseName [['d'], ['f']]) := fun hblocked ↦
    absurd hblocked.2 (by decide)
  exact not_mergesNone syncDir_treeHost hT (.inr rfl) (.inl rfl) (by decide) rfl hfree
    (hall _ _ syncDir_treeHost hT)

end Bropdox
