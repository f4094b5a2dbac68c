import Bropdox.Announcing

/-!
# Copying the primary's files to a backup

The primary's `sync` against the `sync` case of a backup's `listen`.  The primary announces every
file twice: once as the listing has it, and once in `send_file`.  The backup's loop over the files
of a user reads both as files, the first with no packets, and takes a second listed entry for the
end of the loop; where there is no file at all it takes the end for a file.  Both are right about a
user that has exactly one file.

## What is here

* `ReplicationCorrect` says what a synchronisation is to achieve: under every schedule it comes to
  an end at which the backup has exactly the primary's directories and files and listens again, with
  nothing unread and nothing misread on the way.
* `Sendable` and `Followed` are the conditions for one user and for one file of a user, and
  `Replicable` is the condition on the two disks.
* The lemmas come in pairs along the three nested loops: `right_receiveFile`, `right_fileNews`,
  `right_user`, `right_users` where the backup can follow, and `lost_receiveFile`, `lost_fileNews`,
  `lost_user`, `lost_users` where it cannot.  The latter need the backup to be lost for good, which
  `Settled` excludes whatever comes next.
* `Received` is what the backup's disk has in the middle of the loop over the users.
* `replication_copies_iff`: the synchronisation copies the primary if and only if the disks are
  `Replicable`, for all disks of the primary and of the backup, and under every schedule.
* `one_file_replicated` and `two_files_lost` are the smallest disks on either side of the condition.
-/

set_option autoImplicit false

namespace Bropdox

open FileSystem Session Program ReplicaManager Members

/-! ## The backup hears of one file

What the backup does from an announcement to the end of the packets, and what it then reads. -/

section Backup

variable {a b : SockAddr} {α β : Type} {B : Host} {l : Endpoint groupWire sig α}
  {i : Inbox groupWire} {m m' : List (Parcel groupWire)} {t : ReplicaPair α β}
  {rest : List (Parcel groupWire)}

/-- The backup once it has stored a file. -/
def stored (B : Host) (f : Name) (packets : List Packet) : Host :=
  { B with files := B.files.store f [] packets }

theorem right_callReceiveFiles {info : FileData} {k : Unit → Prog β} :
    Pair.EndsIn (replicas a b) ⟨l, ⟨B, (callReceiveFiles info).bind k⟩, i, some rest, m, m'⟩ t ↔
      Pair.EndsIn (replicas a b) ⟨l, ⟨B, (receiveFiles info).bind k⟩, i, some rest, m, m'⟩ t :=
  Pair.right_invoke

theorem right_callReceiveClients {k : Unit → Prog β} :
    Pair.EndsIn (replicas a b) ⟨l, ⟨B, callReceiveClients.bind k⟩, i, some rest, m, m'⟩ t ↔
      Pair.EndsIn (replicas a b) ⟨l, ⟨B, receiveClients.bind k⟩, i, some rest, m, m'⟩ t :=
  Pair.right_invoke

/-- The packets of a file arrive, and possibly others. -/
theorem right_awaitPackets (packets : List Packet) (n : Nat)
    {k : List (Option Packet) → Prog β} :
    Pair.EndsIn (replicas a b) ⟨l, ⟨B, (awaitAll (W := groupWire) .packet
        (packets.length + n)).bind k⟩, i, some (heard a (packetNews packets) ++ rest), m, m'⟩ t ↔
      Pair.EndsIn (replicas a b) ⟨l, ⟨B, (awaitAll (W := groupWire) .packet n).bind fun more ↦
        k (packets.map some ++ more)⟩, i, some rest, m, m'⟩ t := by
  have hheard : heard a (packetNews packets)
      = packets.map fun packet ↦ (a, (⟨Kind.packet, packet⟩ : Datagram groupWire)) := by
    simp [heard, packetNews]
  rw [hheard]
  exact Pair.right_awaitAll (L := replicas a b) (κ := .packet) a packets n

/-- **A file with the announced number of packets** is stored. -/
theorem right_receiveFile {f : Name} {packets : List Packet} {n : UInt32}
    (hn : n.toNat = packets.length) {k : Unit → Prog β} :
    Pair.EndsIn (replicas a b) ⟨l, ⟨B, (receiveFile f n).bind k⟩, i,
        some (heard a (packetNews packets) ++ rest), m, m'⟩ t ↔
      Pair.EndsIn (replicas a b) ⟨l, ⟨stored B f packets, k ()⟩, i, some rest, m, m'⟩ t := by
  have hwrite : ∀ recv : List (Option Packet), recv = packets.map some →
      (Op.file (.writeFile f recv [])).exec B = .ok (true, stored B f packets) := by
    rintro recv rfl
    exact Op.exec_file (FileHost.writeFile_some f [] packets)
  rw [receiveFile, bind_eq, Program.bind_assoc, hn, ← Nat.add_zero packets.length,
    right_awaitPackets]
  simp only [awaitAll, ret_bind, Nat.add_zero]
  rw [if_pos (by rw [List.append_nil, countP_some]), discard_eq, Program.bind_assoc]
  exact Pair.right_run (Q := sig) (hwrite _ (List.append_nil _))

/-- The backup goes on with the loop if the next file has packets. -/
def nextFile (next : FileData) : Prog Unit :=
  if next.numPackets ≠ 0 then callReceiveFiles next else pure ()

/-- The loop over the files of a user turns once. -/
theorem right_receiveFiles {info next : FileData} {packets : List Packet}
    (hn : info.numPackets.toNat = packets.length) {k : Unit → Prog β} :
    Pair.EndsIn (replicas a b) ⟨l, ⟨B, (receiveFiles info).bind k⟩, i,
        some (heard a (packetNews packets) ++ letter a .fileData next :: rest), m, m'⟩ t ↔
      Pair.EndsIn (replicas a b) ⟨l, ⟨stored B info.file.name packets, (nextFile next).bind k⟩, i,
        some rest, m, m'⟩ t := by
  rw [receiveFiles, bind_eq, Program.bind_assoc, right_receiveFile hn]
  simp only [bind_eq, Program.bind_assoc, right_wait]
  rfl

end Backup

/-! ## Where the backup is lost

The ways in which the backup comes to wait for a kind of datagram that does not come. -/

/-- How a synchronisation is to end: the primary is done, and the backup listens again and has
nothing left to read. -/
structure Settled (t : ReplicaPair Unit Unit) : Prop where
  /-- The primary is done. -/
  returned : t.left.prog = .ret ()
  /-- The backup listens. -/
  listening : t.right.prog = listen
  /-- The backup has read everything. -/
  consumed : t.toRight = some []

theorem Settled.not_confused {t : ReplicaPair Unit Unit} (ht : Settled t) : ¬ t.Confused := by
  rintro (⟨κ, k, c, d, rest, hp, -⟩ | ⟨κ, k, c, d, rest, -, hi, -⟩)
  · rw [ht.returned] at hp
    cases hp
  · rw [ht.consumed] at hi
    cases hi

section Lost

variable {a b c : SockAddr} {B : Host} {l : Endpoint groupWire sig Unit} {i : Inbox groupWire}
  {m m' : List (Parcel groupWire)} {rest : List (Parcel groupWire)} {d : Datagram groupWire}

/-- A datagram of the wrong kind is read. -/
theorem lost_awaitFrom {κ : Kind} (hd : d.1 ≠ κ) {k : Option (SockAddr × κ.Msg) → Prog Unit} :
    ¬ Pair.Attains (replicas a b) Settled ⟨l, ⟨B, .wait κ k⟩, i, some ((c, d) :: rest), m, m'⟩ :=
  Pair.not_attains_of_confused (fun _ ↦ Settled.not_confused)
    (.inr ⟨κ, k, c, d, rest, rfl, rfl, hd⟩)

theorem lost_wait {κ : Kind} (hd : d.1 ≠ κ) {k : Option κ.Msg → Prog Unit} :
    ¬ Pair.Attains (replicas a b) Settled
      ⟨l, ⟨B, (waitPacket κ).bind k⟩, i, some ((c, d) :: rest), m, m'⟩ :=
  lost_awaitFrom hd

/-- More packets are announced than come. -/
theorem lost_receiveFile {f : Name} {packets : List Packet} {n : UInt32}
    (hn : packets.length < n.toNat) (hd : d.1 ≠ Kind.packet) {k : Unit → Prog Unit} :
    ¬ Pair.Attains (replicas a b) Settled ⟨l, ⟨B, (receiveFile f n).bind k⟩, i,
      some (heard a (packetNews packets) ++ (c, d) :: rest), m, m'⟩ := by
  obtain ⟨n', hn'⟩ := Nat.exists_eq_add_of_lt hn
  rw [receiveFile, bind_eq, Program.bind_assoc, hn', Nat.add_assoc,
    Pair.attains_congr fun _ ↦ right_awaitPackets packets (n' + 1), awaitAll, bind_eq,
    Program.bind_assoc]
  exact lost_wait hd

theorem lost_receiveFiles {info : FileData} {packets : List Packet}
    (hn : packets.length < info.numPackets.toNat) (hd : d.1 ≠ Kind.packet)
    {k : Unit → Prog Unit} :
    ¬ Pair.Attains (replicas a b) Settled ⟨l, ⟨B, (receiveFiles info).bind k⟩, i,
      some (heard a (packetNews packets) ++ (c, d) :: rest), m, m'⟩ := by
  rw [receiveFiles, bind_eq, Program.bind_assoc]
  exact lost_receiveFile hn hd

/-- The backup waits for a user, or for packets, where a file is announced. -/
theorem lost_nextFile {next : FileData} {k : Unit → Prog Unit} {d' : FileData} :
    ¬ Pair.Attains (replicas a b) Settled ⟨l, ⟨B, (nextFile next).bind fun _ ↦
      callReceiveClients.bind k⟩, i, some (letter c .fileData d' :: rest), m, m'⟩ := by
  rw [nextFile]
  by_cases hnext : next.numPackets = 0
  · rw [if_neg (not_not.mpr hnext), pure_eq, ret_bind,
      Pair.attains_congr fun _ ↦ right_callReceiveClients, receiveClients, bind_eq,
      Program.bind_assoc]
    exact lost_wait (by simp)
  · rw [if_pos hnext, Pair.attains_congr fun _ ↦ right_callReceiveFiles]
    have hpos : ([] : List Packet).length < next.numPackets.toNat :=
      Nat.pos_of_ne_zero fun h0 ↦ hnext (UInt32.toNat_inj.mp h0)
    exact lost_receiveFiles hpos (by simp)

/-- The loop over the files, where a packet or a user comes instead of the next file. -/
theorem lost_afterFile {info : FileData} {packets : List Packet}
    (hn : info.numPackets.toNat = packets.length) (hd : d.1 ≠ Kind.fileData)
    {k : Unit → Prog Unit} :
    ¬ Pair.Attains (replicas a b) Settled ⟨l, ⟨B, (receiveFiles info).bind k⟩, i,
      some (heard a (packetNews packets) ++ (c, d) :: rest), m, m'⟩ := by
  rw [receiveFiles, bind_eq, Program.bind_assoc,
    Pair.attains_congr fun _ ↦ right_receiveFile hn, bind_eq, Program.bind_assoc]
  exact lost_wait hd

end Lost

/-! ## One file of a user

The two announcements of a file and its packets, as the backup's loop reads them. -/

/-- The primary announces a file in a way the backup can follow: as empty in the listing, and with
the right number of packets after that. -/
structure Followed (h : FileHost) (u f : Name) (x : File) : Prop where
  /-- The listing has no packets for it. -/
  listed : listedCount ((stray h.machine u).size f) = 0
  /-- The packets of the file are counted right. -/
  counted : WellCounted h x.contents

section OneFile

variable {a b c : SockAddr} {B : Host} {i : Inbox groupWire} {m m' : List (Parcel groupWire)}
  {rest : List (Parcel groupWire)} {h : FileHost} {u : Name} {e : Name × File}

/-- The file of the listing, if it has no packets there. -/
theorem right_listedFile (hf : listedCount ((stray h.machine u).size e.1) = 0) {α β : Type}
    {l : Endpoint groupWire sig α} {t : ReplicaPair α β} {next : FileData} {k : Unit → Prog β} :
    Pair.EndsIn (replicas a b) ⟨l, ⟨B, (receiveFiles (listedFile h u e.1)).bind k⟩, i,
        some (letter a .fileData next :: rest), m, m'⟩ t ↔
      Pair.EndsIn (replicas a b) ⟨l, ⟨stored B e.1 [], (nextFile next).bind k⟩, i, some rest,
        m, m'⟩ t := by
  have hzero : (listedFile h u e.1).numPackets.toNat = ([] : List Packet).length :=
    congrArg UInt32.toNat hf
  exact right_receiveFiles hzero

/-- **A file that the backup can follow** is stored. -/
theorem right_fileNews (hf : Followed h u e.1 e.2) {α β : Type} {l : Endpoint groupWire sig α}
    {t : ReplicaPair α β} {next : FileData} {k : Unit → Prog β} :
    Pair.EndsIn (replicas a b) ⟨l, ⟨B, (receiveFiles (listedFile h u e.1)).bind k⟩, i,
        some (letter a .fileData (announcedFile h u e) ::
          (heard a (packetNews (packetsOf e.2.contents)) ++ letter a .fileData next :: rest)),
        m, m'⟩ t ↔
      Pair.EndsIn (replicas a b) ⟨l, ⟨stored (stored B e.1 []) e.1 (packetsOf e.2.contents),
        (nextFile next).bind k⟩, i, some rest, m, m'⟩ t := by
  have hpos : (announcedFile h u e).numPackets ≠ 0 := hf.counted.pos
  rw [right_listedFile hf.listed, nextFile, if_pos hpos, right_callReceiveFiles]
  exact right_receiveFiles hf.counted.eq_length

/-- **A file that the backup cannot follow.** -/
theorem lost_fileNews (hf : ¬ Followed h u e.1 e.2) {l : Endpoint groupWire sig Unit}
    {next : FileData} {k : Unit → Prog Unit} :
    ¬ Pair.Attains (replicas a b) Settled ⟨l, ⟨B, (receiveFiles (listedFile h u e.1)).bind fun _ ↦
      callReceiveClients.bind k⟩, i,
      some (letter a .fileData (announcedFile h u e) ::
        (heard a (packetNews (packetsOf e.2.contents)) ++ letter a .fileData next :: rest)),
      m, m'⟩ := by
  by_cases hlisted : listedCount ((stray h.machine u).size e.1) = 0
  · rw [Pair.attains_congr fun _ ↦ right_listedFile hlisted]
    by_cases hzero : (announcedFile h u e).numPackets = 0
    · -- the announced file is taken for the end, and its first packet for a user
      obtain ⟨packet, packets, hpackets⟩ :=
        List.exists_cons_of_ne_nil (packetsOf_ne_nil e.2.contents)
      rw [nextFile, if_neg (not_not.mpr hzero), pure_eq, ret_bind,
        Pair.attains_congr fun _ ↦ right_callReceiveClients, receiveClients, bind_eq,
        Program.bind_assoc, hpackets]
      exact lost_wait (by simp)
    rw [nextFile, if_pos hzero, Pair.attains_congr fun _ ↦ right_callReceiveFiles]
    rcases Nat.lt_trichotomy (announcedFile h u e).numPackets.toNat (packetsOf e.2.contents).length
      with hlt | heq | hgt
    · -- a packet is left over, and is taken for the next file
      obtain ⟨front, back, hcut, hlen⟩ := exists_append_of_le hlt.le
      obtain ⟨packet, back, rfl⟩ := List.exists_cons_of_ne_nil (l := back) (by
        rintro rfl
        rw [hcut, List.append_nil] at hlt
        omega)
      rw [hcut, packetNews, List.map_append, heard_append, List.append_assoc]
      exact lost_afterFile hlen.symm (by simp)
    · exact absurd ⟨hlisted, hzero, heq⟩ hf
    · exact lost_receiveFiles hgt (by simp)
  · have hpos : ([] : List Packet).length < (listedFile h u e.1).numPackets.toNat :=
      Nat.pos_of_ne_zero fun h0 ↦ hlisted (UInt32.toNat_inj.mp h0)
    exact lost_receiveFiles hpos (by simp)

end OneFile

/-! ## One user

The name of the user, and then the loop over the files. -/

/-- The backup in the directory of a user. -/
def entered (B : Host) (u : Name) : Host :=
  { B with files :=
    { B.files with machine := withUser B.files.machine u, syncDir := backupDir ('_' :: u) } }

/-- The backup with the only file of a user. -/
def copied (B : Host) (u : Name) (e : Name × File) : Host :=
  stored (stored (entered B u) e.1 []) e.1 (packetsOf e.2.contents)

/-- The user has exactly one file, and the backup can follow what is said of it. -/
def Sendable (h : FileHost) (u : Name) : Prop :=
  ∃ f x, (∀ g y, h.machine.view (userPath h.machine u) g = some y ↔ g = f ∧ y = x) ∧
    Followed h u f x

theorem sendable_iff {h : FileHost} {u : Name} (hm : Serves h.machine) (hu : HasUser h.machine u) :
    Sendable h u ↔ ∃ e, FlatDir.listing h.machine (userPath h.machine u) = [e] ∧
      Followed h u e.1 e.2 := by
  have hflat := hm.flat u hu
  have hnodup : (FlatDir.listing h.machine (userPath h.machine u)).Nodup := by
    refine List.Nodup.of_map Prod.fst ?_
    rw [hflat.map_fst_listing]
    exact hflat.names_nodup
  constructor
  · rintro ⟨f, x, hsole, hf⟩
    refine ⟨(f, x), List.perm_singleton.mp ?_, hf⟩
    refine (List.perm_ext_iff_of_nodup hnodup (List.nodup_singleton _)).mpr fun e ↦ ?_
    rw [hflat.mem_listing, hsole, List.mem_singleton, Prod.ext_iff]
  · rintro ⟨e, he, hf⟩
    refine ⟨e.1, e.2, fun g y ↦ ?_, hf⟩
    rw [← hflat.mem_listing (e := (g, y)), he, List.mem_singleton, Prod.ext_iff]

section OneUser

variable {a b c : SockAddr} {B : Host} {i : Inbox groupWire} {m m' : List (Parcel groupWire)}
  {rest : List (Parcel groupWire)} {h : FileHost} {u : Name} {e : Name × File}

/-- The backup enters the directory of a user. -/
theorem right_client (ho : B.files.machine.Ordinary) (hu : UserId u)
    (hroom : Roomy B.files.machine u) {α β : Type} {l : Endpoint groupWire sig α}
    {t : ReplicaPair α β} {info : FileData} {k : Unit → Prog β} :
    Pair.EndsIn (replicas a b) ⟨l, ⟨B, receiveClients.bind k⟩, i,
        some (letter a .client ⟨'_' :: u⟩ :: letter a .fileData info :: rest), m, m'⟩ t ↔
      Pair.EndsIn (replicas a b) ⟨l, ⟨entered B u, (receiveFiles info).bind fun _ ↦
        callReceiveClients.bind k⟩, i, some rest, m, m'⟩ t := by
  have hexec : (Op.ensureDirectory (backupDir ('_' :: u))).exec B
      = .ok ((), { B with files := { B.files with machine := withUser B.files.machine u } }) := by
    simp [Op.exec, ensureDirectory_eq ho hu hroom, Except.map]
  rw [receiveClients]
  simp only [bind_eq, Program.bind_assoc, right_wait, ne_eq, List.cons_ne_nil, not_false_eq_true,
    if_true, discard_eq, ret_bind]
  rw [Pair.right_run (Q := sig) hexec]
  simp only [setSyncDir, right_update, waitFor, bind_eq, Program.bind_assoc, right_wait,
    expect_some, ret_bind, right_callReceiveFiles]
  rfl

/-- The backup cannot enter the directory of a user where there is a file instead. -/
theorem lost_client (ho : B.files.machine.Ordinary) (hu : UserId u)
    (hroom : ¬ Roomy B.files.machine u) {l : Endpoint groupWire sig Unit} {k : Unit → Prog Unit} :
    ¬ Pair.Attains (replicas a b) Settled ⟨l, ⟨B, receiveClients.bind k⟩, i,
      some (letter a .client ⟨'_' :: u⟩ :: rest), m, m'⟩ := by
  have hexec : (Op.ensureDirectory (backupDir ('_' :: u))).exec B = .error .filesystemError := by
    simp [Op.exec, ensureDirectory_error ho hu hroom, Except.map]
  rintro ⟨t, ht, hgood⟩
  rw [receiveClients] at ht
  simp only [bind_eq, Program.bind_assoc, right_wait, ne_eq, List.cons_ne_nil, not_false_eq_true,
    if_true, discard_eq, ret_bind] at ht
  rw [Pair.right_run_error (Q := sig) hexec] at ht
  have hright := Pair.right_of_reaches_inert (fun i ↦ Endpoint.step_throw _ _ i) ht.1
  have hlisten := hgood.listening
  rw [hright] at hlisten
  cases hlisten

/-- **A user whose file the backup can follow.** -/
theorem right_user (ho : B.files.machine.Ordinary) (hu : UserId u)
    (hroom : Roomy B.files.machine u)
    (he : FlatDir.listing h.machine (userPath h.machine u) = [e]) (hf : Followed h u e.1 e.2)
    {α β : Type} {l : Endpoint groupWire sig α} {t : ReplicaPair α β} {k : Unit → Prog β} :
    Pair.EndsIn (replicas a b) ⟨l, ⟨B, receiveClients.bind k⟩, i,
        some (heard a (userNews h u) ++ rest), m, m'⟩ t ↔
      Pair.EndsIn (replicas a b) ⟨l, ⟨copied B u e, receiveClients.bind k⟩, i, some rest, m, m'⟩
        t := by
  rw [userNews, he]
  simp only [List.flatMap_cons, List.flatMap_nil, List.append_nil, fileNews, heard_cons,
    heard_append, List.cons_append, List.append_assoc]
  rw [right_client ho hu hroom]
  refine (right_fileNews hf).trans ?_
  rw [nextFile, if_neg (by simp), pure_eq, ret_bind, right_callReceiveClients]
  rfl

/-- **A user whose files the backup cannot follow.** -/
theorem lost_user (ho : B.files.machine.Ordinary) (hu : UserId u) {client : ClientName}
    (hbad : ¬ (Roomy B.files.machine u ∧
      ∃ e, FlatDir.listing h.machine (userPath h.machine u) = [e] ∧ Followed h u e.1 e.2))
    {l : Endpoint groupWire sig Unit} {k : Unit → Prog Unit} :
    ¬ Pair.Attains (replicas a b) Settled ⟨l, ⟨B, receiveClients.bind k⟩, i,
      some (heard a (userNews h u) ++ letter c .client client :: rest), m, m'⟩ := by
  rw [userNews, heard_cons, List.cons_append]
  by_cases hroom : Roomy B.files.machine u
  swap
  · exact lost_client ho hu hroom
  generalize hfiles : FlatDir.listing h.machine (userPath h.machine u) = files at hbad
  rcases files with - | ⟨e, - | ⟨e', files⟩⟩
  · -- the end of the files is taken for a file, and the next user for the end
    have hzero : ({} : FileData).numPackets.toNat = ([] : List Packet).length := rfl
    rw [List.flatMap_nil, List.nil_append, heard_cons, List.cons_append,
      Pair.attains_congr fun _ ↦ right_client ho hu hroom]
    exact lost_afterFile hzero (by simp)
  · simp only [List.flatMap_cons, List.flatMap_nil, List.append_nil, fileNews, heard_cons,
      heard_append, List.cons_append, List.append_assoc]
    rw [Pair.attains_congr fun _ ↦ right_client ho hu hroom]
    exact lost_fileNews fun hf ↦ hbad ⟨hroom, e, rfl, hf⟩
  · -- the second file of the listing is taken for the end, and what is said of it for a user
    simp only [List.flatMap_cons, fileNews, heard_cons, heard_append, List.cons_append,
      List.append_assoc]
    rw [Pair.attains_congr fun _ ↦ right_client ho hu hroom]
    by_cases hf : Followed h u e.1 e.2
    · rw [Pair.attains_congr fun _ ↦ right_fileNews hf]
      exact lost_nextFile
    · exact lost_fileNews hf

/-- What a user's file does to the backup. -/
theorem took_copied (ho : B.files.machine.Ordinary) (hu : UserId u) (he : Plain e.1) :
    Took B.files.machine (copied B u e).files.machine u e.1 e.2.contents := by
  have hfirst : Machine.Wrote (withUser B.files.machine u)
    (stored (entered B u) e.1 []).files.machine
      (userPath B.files.machine u ++ [e.1]) .empty := by
    rw [← userPath_withUser]
    exact wrote_store (h := (entered B u).files) (ordinary_withUser ho) hu hasUser_withUser rfl he
      rfl
  have hmid := took ho hfirst
  have hsecond := wrote_store (h := (stored (entered B u) e.1 []).files) hmid.ordinary hu
    hmid.hasUser rfl he (flatMap_packetsOf _ e.2.contents)
  rw [hmid.userPath_eq] at hsecond
  exact took ho (hfirst.trans hsecond)

end OneUser

/-! ## All users

The induction over the users, which carries what the backup has received so far. -/

/-- The files of a user whose directory is flat. -/
theorem syncFiles_file {m : Machine} (hm : Serves m) {u : Name} (hu : HasUser m u) (g : Name) :
    syncFiles m u [g] = (m.view (userPath m u) g).map File.contents := by
  rw [syncFiles, if_pos hu, contentsAt, (hm.flat u hu).at?_eq]
  cases m.view (userPath m u) g <;> rfl

/-- The directory of a user contains nothing but its regular files. -/
theorem syncFiles_of_ne_file {m : Machine} (hm : Serves m) {u : Name} (hu : HasUser m u) {q : Path}
    (hq : ∀ g, q ≠ [g]) : syncFiles m u q = none := by
  rw [syncFiles, if_pos hu, contentsAt]
  by_cases hnil : q = []
  · rw [hnil, List.append_nil, hasUser_iff.mp hu]
  · have hnone : m.disk.at? (userPath m u ++ q) = none := by
      rw [Option.eq_none_iff_forall_ne_some]
      intro n hn
      obtain ⟨f, x, hf, -⟩ := (hm.flat u hu).flat _ n hn (List.prefix_append ..)
        (by simpa using hnil)
      exact hq f (List.append_cancel_left hf)
    rw [hnone]

/-- What a backup has once it has received the files of some users: those that it could write. -/
structure Received (P m m' : Machine) (us : List Name) : Prop where
  /-- The working directory is the same. -/
  cwd : m'.cwd = m.cwd
  /-- The files of the users that were received are those of the primary, as far as they could be
  written, and the others are as before. -/
  syncFiles_eq : ∀ v q, syncFiles m' v q =
    if v ∈ us ∧ (syncFiles P v q).isSome then
      if m.disk.isDir (userPath m v ++ q) then none else syncFiles P v q
    else syncFiles m v q

theorem Received.cons {P m m₁ m' : Machine} {u : Name} {us : List Name} {e : Name × File}
    (hu : u ∉ us) (ht : Took m m₁ u e.1 e.2.contents)
    (hsent : ∀ q, syncFiles P u q = if q = [e.1] then some e.2.contents else none)
    (hr : Received P m₁ m' us) : Received P m m' (u :: us) where
  cwd := hr.cwd.trans ht.cwd
  syncFiles_eq v q := by
    rw [hr.syncFiles_eq]
    by_cases hv : v = u
    · subst hv
      rw [if_neg fun h ↦ hu h.1, hsent]
      by_cases hq : q = [e.1]
      · subst hq
        simp [ht.syncFiles_self]
      · simp [hq, ht.syncFiles_of_ne q hq]
    · simp only [List.mem_cons, hv, false_or, ht.userPath_eq, ht.isDir_of_ne hv,
        ht.syncFiles_of_ne_user hv]

section AllUsers

variable {a b : SockAddr} {B : Host} {i : Inbox groupWire} {m m' : List (Parcel groupWire)}
  {h : FileHost} {us : List Name} {l : Endpoint groupWire sig Unit}

theorem Sendable.syncFiles_eq (hm : Serves h.machine) {u : Name} (hu : HasUser h.machine u)
    {e : Name × File} (he : FlatDir.listing h.machine (userPath h.machine u) = [e]) (q : Path) :
    syncFiles h.machine u q = if q = [e.1] then some e.2.contents else none := by
  have hmem : ∀ g y, h.machine.view (userPath h.machine u) g = some y ↔ (g, y) = e := fun g y ↦ by
    rw [← (hm.flat u hu).mem_listing (e := (g, y)), he, List.mem_singleton]
  by_cases hq : ∃ g, q = [g]
  · obtain ⟨g, rfl⟩ := hq
    rw [syncFiles_file hm hu]
    by_cases hg : g = e.1
    · subst hg
      simp [(hmem e.1 e.2).mpr rfl]
    · have hnone : h.machine.view (userPath h.machine u) g = none :=
        Option.eq_none_iff_forall_ne_some.mpr fun y hy ↦ hg (congrArg Prod.fst ((hmem g y).mp hy))
      simp [hnone, hg]
  · rw [not_exists] at hq
    rw [syncFiles_of_ne_file hm hu hq, if_neg (hq e.1)]

theorem plain_of_listing_eq {u : Name} (hm : Serves h.machine) (hu : HasUser h.machine u)
    {e : Name × File} (he : FlatDir.listing h.machine (userPath h.machine u) = [e]) : Plain e.1 :=
  (hm.flat u hu).plain ((hm.flat u hu).mem_listing.mp (he ▸ List.mem_singleton_self e))

/-- **Users whose files the backup can follow**, one after the other. -/
theorem right_users (hm : Serves h.machine) (hnodup : us.Nodup)
    (hus : ∀ u ∈ us, HasUser h.machine u) (ho : B.files.machine.Ordinary)
    (hgood : ∀ u ∈ us, Sendable h u ∧ Roomy B.files.machine u) :
    ∃ B', Received h.machine B.files.machine B'.files.machine us ∧ ∀ rest k t,
      Pair.EndsIn (replicas a b) ⟨l, ⟨B, receiveClients.bind k⟩, i,
          some (heard a (us.flatMap (userNews h)) ++ rest), m, m'⟩ t ↔
        Pair.EndsIn (β := Unit) (replicas a b) ⟨l, ⟨B', receiveClients.bind k⟩, i, some rest, m,
          m'⟩ t := by
  induction us generalizing B with
  | nil => exact ⟨B, ⟨rfl, by simp⟩, fun _ _ _ ↦ .rfl⟩
  | cons u us ih =>
    obtain ⟨hnot, hnodup⟩ := List.nodup_cons.mp hnodup
    have hu := hus u List.mem_cons_self
    obtain ⟨hsend, hroom⟩ := hgood u List.mem_cons_self
    obtain ⟨e, he, hf⟩ := (sendable_iff hm hu).mp hsend
    have htook := took_copied ho (hm.userId hu) (plain_of_listing_eq hm hu he)
    obtain ⟨B', hreceived, hrest⟩ := ih (B := copied B u e) hnodup
      (fun v hv ↦ hus v (List.mem_cons_of_mem _ hv)) htook.ordinary fun v hv ↦ by
        have hne : v ≠ u := fun hvu ↦ hnot (hvu ▸ hv)
        obtain ⟨hsend, hroom⟩ := hgood v (List.mem_cons_of_mem _ hv)
        exact ⟨hsend, (htook.roomy_of_ne hne).mpr hroom⟩
    refine ⟨B', .cons hnot htook (Sendable.syncFiles_eq hm hu he) hreceived, fun rest k t ↦ ?_⟩
    rw [List.flatMap_cons, heard_append, List.append_assoc,
      right_user ho (hm.userId hu) hroom he hf]
    exact hrest rest k t

/-- What comes after a user is another one, or the end. -/
theorem exists_next_client (a : SockAddr) (h : FileHost) (us : List Name) (client : ClientName)
    (rest : List (Parcel groupWire)) : ∃ client' rest',
      heard a (us.flatMap (userNews h)) ++ letter a .client client :: rest
        = letter a .client client' :: rest' := by
  cases us with
  | nil => exact ⟨client, rest, rfl⟩
  | cons u us => exact ⟨⟨'_' :: u⟩, _, rfl⟩

/-- **Users of whom the backup cannot follow one.** -/
theorem lost_users (hm : Serves h.machine) (hnodup : us.Nodup)
    (hus : ∀ u ∈ us, HasUser h.machine u) (ho : B.files.machine.Ordinary)
    (hbad : ∃ u ∈ us, ¬ (Sendable h u ∧ Roomy B.files.machine u)) {client : ClientName}
    {rest : List (Parcel groupWire)} {k : Unit → Prog Unit} :
    ¬ Pair.Attains (replicas a b) Settled ⟨l, ⟨B, receiveClients.bind k⟩, i,
      some (heard a (us.flatMap (userNews h)) ++ letter a .client client :: rest), m, m'⟩ := by
  induction us generalizing B with
  | nil =>
    obtain ⟨u, hu, -⟩ := hbad
    cases hu
  | cons u us ih =>
    obtain ⟨hnot, hnodup⟩ := List.nodup_cons.mp hnodup
    have hu := hus u List.mem_cons_self
    rw [List.flatMap_cons, heard_append, List.append_assoc]
    by_cases hone : Roomy B.files.machine u ∧
      ∃ e, FlatDir.listing h.machine (userPath h.machine u) = [e] ∧ Followed h u e.1 e.2
    · obtain ⟨hroom, e, he, hf⟩ := hone
      have htook := took_copied ho (hm.userId hu) (plain_of_listing_eq hm hu he)
      rw [Pair.attains_congr fun _ ↦ right_user ho (hm.userId hu) hroom he hf]
      refine ih hnodup (fun v hv ↦ hus v (List.mem_cons_of_mem _ hv)) htook.ordinary ?_
      obtain ⟨v, hv, hvbad⟩ := hbad
      have hvu : v ≠ u := by
        rintro rfl
        exact hvbad ⟨(sendable_iff hm hu).mpr ⟨e, he, hf⟩, hroom⟩
      refine ⟨v, (List.mem_cons.mp hv).resolve_left hvu, fun hgood ↦ hvbad ⟨hgood.1, ?_⟩⟩
      exact (htook.roomy_of_ne hvu).mp hgood.2
    · obtain ⟨client', rest', hnext⟩ := exists_next_client a h us client rest
      rw [hnext]
      exact lost_user ho (hm.userId hu) hone

end AllUsers

/-! ## The session

From the primary's decision to synchronise to the last message. -/

/-- A primary about to synchronise, and a backup that listens. -/
def replicationStart (P B : Host) : ReplicaPair Unit Unit where
  left := ⟨P, sync⟩
  right := ⟨B, callListen⟩
  toLeft := some []
  toRight := some []

/-- A primary and a backup of its group. -/
structure ReplicationSetting (P B : Host) : Prop where
  /-- The backup is in the group of the primary, once. -/
  member : P.group.values.count B.ownAddress = 1
  /-- The receiving host is a backup. -/
  backup : B.primary = false
  /-- The primary has directories of users, which are flat. -/
  primaryDisk : Serves P.files.machine
  /-- The backup has any disk. -/
  backupDisk : B.files.machine.Ordinary

/-- What a synchronisation is to achieve. -/
structure Replicated (P : Host) (t : ReplicaPair Unit Unit) : Prop where
  /-- The synchronisation has come to its end. -/
  settled : Settled t
  /-- The primary's disk is as it was. -/
  kept : t.left.host.files.machine = P.files.machine
  /-- The backup has the same files. -/
  copied : ∀ u q, syncFiles t.right.host.files.machine u q = syncFiles P.files.machine u q

/-- **The synchronisation copies the primary**, and no datagram is read as what it is not. -/
def ReplicationCorrect (P B : Host) : Prop :=
  ∃ t, (replicationStart P B).SettlesIn (replicas P.ownAddress B.ownAddress) t ∧ Replicated P t ∧
    ∀ y, Relation.ReflTransGen (Pair.Step (replicas P.ownAddress B.ownAddress))
      (replicationStart P B) y → ¬ y.Confused

/-- The disks with which a synchronisation copies the primary. -/
structure Replicable (P B : Host) : Prop where
  /-- No directory has the name of a user's directory with that of a file of the user glued to
  it. -/
  listable : ∀ u, HasUser P.files.machine u → Listable P.files.machine u
  /-- Every user has exactly one file, and the announcements of it can be followed. -/
  sendable : ∀ u, HasUser P.files.machine u → Sendable P.files u
  /-- The backup has no file in the place of a user's directory. -/
  roomy : ∀ u, HasUser P.files.machine u → Roomy B.files.machine u
  /-- The backup has no directory in the place of a user's file. -/
  writable : ∀ u q, (syncFiles P.files.machine u q).isSome →
    B.files.machine.disk.isDir (userPath B.files.machine u ++ q) = false
  /-- The backup has no file that the primary does not have. -/
  noOther : ∀ u q, (syncFiles B.files.machine u q).isSome → (syncFiles P.files.machine u q).isSome

section Session

variable {P B : Host} {us : List Name}

/-- The backup has what the primary has if it could write it, and had nothing else. -/
theorem Received.eq_iff {m₀ m m' : Machine} (hr : Received m₀ m m' us)
    (hus : ∀ u, u ∈ us ↔ HasUser m₀ u) :
    (∀ u q, syncFiles m' u q = syncFiles m₀ u q) ↔
      (∀ u q, (syncFiles m₀ u q).isSome → m.disk.isDir (userPath m u ++ q) = false) ∧
        ∀ u q, (syncFiles m u q).isSome → (syncFiles m₀ u q).isSome := by
  have hmem : ∀ u q, (syncFiles m₀ u q).isSome → u ∈ us := by
    intro u q hsome
    rw [hus]
    by_contra hu
    rw [syncFiles, if_neg hu] at hsome
    cases hsome
  constructor
  · intro heq
    refine ⟨fun u q hsome ↦ ?_, fun u q hsome ↦ ?_⟩
    · have hone := hr.syncFiles_eq u q
      rw [heq, if_pos ⟨hmem u q hsome, hsome⟩] at hone
      by_contra hdir
      rw [if_pos (by simpa using hdir)] at hone
      rw [hone] at hsome
      cases hsome
    · by_contra hnone
      have hone := hr.syncFiles_eq u q
      rw [heq, if_neg fun h ↦ hnone h.2] at hone
      exact hnone (hone ▸ hsome)
  · rintro ⟨hwritable, hno⟩ u q
    rw [hr.syncFiles_eq]
    by_cases hsome : (syncFiles m₀ u q).isSome
    · rw [if_pos ⟨hmem u q hsome, hsome⟩, hwritable u q hsome]
      rfl
    · rw [if_neg fun h ↦ hsome h.2]
      have hnone : ¬ (syncFiles m u q).isSome := fun h ↦ hsome (hno u q h)
      rw [Option.not_isSome_iff_eq_none] at hsome hnone
      rw [hsome, hnone]

/-- The backup turns to a synchronisation. -/
theorem right_sync (hbackup : B.primary = false) {a b : SockAddr} {l : Endpoint groupWire sig Unit}
    {i : Inbox groupWire} {m m' rest : List (Parcel groupWire)} {t : ReplicaPair Unit Unit} :
    Pair.EndsIn (replicas a b) ⟨l, ⟨B, callListen⟩, i,
        some (letter a .rmOperation ⟨.sync⟩ :: rest), m, m'⟩ t ↔
      Pair.EndsIn (replicas a b) ⟨l, ⟨B, receiveClients.bind fun _ ↦
        (setSyncDir ['.', '/']).bind fun _ ↦ callListen⟩, i, some rest, m, m'⟩ t := by
  rw [← bind_ret callListen, right_callListen, ReplicaManager.listen]
  simp only [bind_eq, Program.bind_assoc, right_waitFrom, expect_some, ret_bind, serve, receiveSync,
    right_get, hbackup, Bool.not_false, if_true, pure_eq, right_callReceiveClients]

/-- What the primary says, as the backup finds it. -/
theorem replicationStart_endsIn (hs : ReplicationSetting P B)
    (hdirs : directories P.files = .ok (us.map userDirPath))
    (hus : ∀ u ∈ us, HasUser P.files.machine u ∧ Listable P.files.machine u) :
    ∃ path mail, ∀ t,
      (replicationStart P B).EndsIn (replicas P.ownAddress B.ownAddress) t ↔
        Pair.EndsIn (replicas P.ownAddress B.ownAddress)
          ⟨⟨lookingAt P path, .ret ()⟩, ⟨B, receiveClients.bind fun _ ↦
            (setSyncDir ['.', '/']).bind fun _ ↦ callListen⟩, some [],
            some (heard P.ownAddress (us.flatMap (userNews P.files)) ++
              [letter P.ownAddress .client ⟨[]⟩]), mail, []⟩ t := by
  obtain ⟨path, hsays⟩ := says_sync hs.primaryDisk hdirs hus
  refine ⟨path, [] ++ forOthers B.ownAddress (toGroup P.group.values
    (⟨Kind.rmOperation, ⟨.sync⟩⟩ :: syncNews P.files us)), fun t ↦ ?_⟩
  rw [replicationStart, Pair.endsIn_says (L := replicas P.ownAddress B.ownAddress) hsays,
    forPeer_toGroup hs.member, deliver_some, List.nil_append, heard_cons, right_sync hs.backup,
    syncNews, heard_append]
  rfl

/-- The last message of a synchronisation. -/
theorem right_end {a b : SockAddr} {l : Endpoint groupWire sig Unit} {i : Inbox groupWire}
    {m m' : List (Parcel groupWire)} {t : ReplicaPair Unit Unit} :
    Pair.EndsIn (replicas a b) ⟨l, ⟨B, receiveClients.bind fun _ ↦
        (setSyncDir ['.', '/']).bind fun _ ↦ callListen⟩, i, some [letter a .client ⟨[]⟩], m, m'⟩
        t ↔
      Pair.EndsIn (replicas a b) ⟨l, ⟨lookingAt B ['.', '/'], listen⟩, i, some [], m, m'⟩ t := by
  rw [receiveClients]
  simp only [bind_eq, Program.bind_assoc, right_wait, ne_eq, not_true_eq_false, if_false, pure_eq,
    ret_bind, setSyncDir, right_update]
  rw [← bind_ret callListen, right_callListen, bind_ret]
  rfl

/-- **A synchronisation that can be made and followed** comes to its end. -/
theorem settles_sync (hs : ReplicationSetting P B) (hgood : ∀ u, HasUser P.files.machine u →
      Listable P.files.machine u ∧ Sendable P.files u ∧ Roomy B.files.machine u) :
    ∃ t, (replicationStart P B).EndsIn (replicas P.ownAddress B.ownAddress) t ∧ Settled t ∧
      t.left.host.files.machine = P.files.machine ∧
      ∃ us : List Name, (∀ u, u ∈ us ↔ HasUser P.files.machine u) ∧
        Received P.files.machine B.files.machine t.right.host.files.machine us := by
  obtain ⟨us, hdirs, hnodup, hus⟩ := exists_users hs.primaryDisk
  have hhas : ∀ u ∈ us, HasUser P.files.machine u := fun u hu ↦ (hus u).mp hu
  obtain ⟨path, mail, hstart⟩ := replicationStart_endsIn hs hdirs fun u hu ↦
    ⟨hhas u hu, (hgood u (hhas u hu)).1⟩
  obtain ⟨B', hreceived, hrest⟩ := right_users hs.primaryDisk hnodup hhas hs.backupDisk
    fun u hu ↦ (hgood u (hhas u hu)).2
  refine ⟨⟨⟨lookingAt P path, .ret ()⟩, ⟨lookingAt B' ['.', '/'], listen⟩, some [], some [], mail,
    []⟩, ?_, ⟨rfl, rfl, rfl⟩, rfl, us, hus, hreceived⟩
  rw [hstart, hrest, right_end]
  exact ⟨.refl, Pair.terminal_of_stuck (Endpoint.step_ret ..) rfl⟩

/-- **A synchronisation that cannot be made or followed** does not come to its end, or not as it
should. -/
theorem lost_sync (hs : ReplicationSetting P B) (hbad : ¬ ∀ u, HasUser P.files.machine u →
      Listable P.files.machine u ∧ Sendable P.files u ∧ Roomy B.files.machine u) :
    ¬ Pair.Attains (replicas P.ownAddress B.ownAddress) Settled (replicationStart P B) := by
  obtain ⟨us, hdirs, hnodup, hus⟩ := exists_users hs.primaryDisk
  have hhas : ∀ u ∈ us, HasUser P.files.machine u := fun u hu ↦ (hus u).mp hu
  by_cases hlist : ∀ u ∈ us, Listable P.files.machine u
  · obtain ⟨path, mail, hstart⟩ := replicationStart_endsIn hs hdirs fun u hu ↦
      ⟨hhas u hu, hlist u hu⟩
    rw [Pair.attains_congr hstart]
    refine lost_users hs.primaryDisk hnodup hhas hs.backupDisk ?_
    by_contra hnone
    push Not at hnone
    exact hbad fun u hu ↦ ⟨hlist u ((hus u).mpr hu), hnone u ((hus u).mpr hu)⟩
  · -- the exception of the listing leaves the primary's `sync`
    push Not at hlist
    obtain ⟨out, P', x, hsays⟩ := says_sync_throws hs.primaryDisk hdirs hhas hlist
    rintro ⟨t, ht, hsettled⟩
    rw [replicationStart, Pair.endsIn_says (L := replicas P.ownAddress B.ownAddress) hsays] at ht
    have hleft := Pair.left_of_reaches_inert (fun i ↦ Endpoint.step_throw _ _ i) ht.1
    have hreturned := hsettled.returned
    rw [hleft] at hreturned
    cases hreturned

end Session

/-- **When a synchronisation copies the primary**, for all disks of the primary and of the backup,
and under every schedule. -/
theorem replication_copies_iff {P B : Host} (hs : ReplicationSetting P B) :
    ReplicationCorrect P B ↔ Replicable P B := by
  constructor
  · rintro ⟨t, ht, hr, -⟩
    have hgood := by_contra fun hbad ↦ lost_sync hs hbad ⟨t, ht.ends, hr.settled⟩
    obtain ⟨t', ht', -, -, us, hus, hreceived⟩ := settles_sync hs hgood
    obtain rfl := ht.unique ht'
    obtain ⟨hwritable, hnoOther⟩ := (hreceived.eq_iff hus).mp hr.copied
    exact ⟨fun u hu ↦ (hgood u hu).1, fun u hu ↦ (hgood u hu).2.1, fun u hu ↦ (hgood u hu).2.2,
      hwritable, hnoOther⟩
  · intro hr
    obtain ⟨t, ht, hsettled, hkept, us, hus, hreceived⟩ := settles_sync hs fun u hu ↦
      ⟨hr.listable u hu, hr.sendable u hu, hr.roomy u hu⟩
    refine ⟨t, ht.settlesIn, ⟨hsettled, hkept, ?_⟩, fun y hy ↦
      ht.settlesIn.not_confused_of hsettled.not_confused hy⟩
    exact (hreceived.eq_iff hus).mpr ⟨hr.writable, hr.noOther⟩

/-! ## Small disks

Disks with nothing but the directories of some users, on which both sides of the condition can be
seen. -/

/-- A machine in the root of its disk, with nothing there but directories of users. -/
def machineOf (users : List (Name × List (Name × File))) : Machine where
  disk := .ofList (users.flatMap fun e ↦
    ([userDir e.1], .dir) :: e.2.map fun f ↦ ([userDir e.1, f.1], .file f.2))
  cwd := []
  clock := Nat.cast
  order := .asStored

section Small

variable {users : List (Name × List (Name × File))}

@[simp] theorem userPath_machineOf {u : Name} : userPath (machineOf users) u = [userDir u] := rfl

theorem at?_machineOf {p : Path} {n : Node} (h : (machineOf users).disk.at? p = some n) :
    ∃ e ∈ users, (p = [userDir e.1] ∧ n = .dir) ∨
      ∃ f ∈ e.2, p = [userDir e.1, f.1] ∧ n = .file f.2 := by
  obtain ⟨e, he, hmem⟩ := List.mem_flatMap.mp (Disk.mem_of_at?_ofList h)
  refine ⟨e, he, ?_⟩
  rcases List.mem_cons.mp hmem with heq | hfile
  · exact .inl (Prod.mk.inj heq)
  · obtain ⟨f, hf, heq⟩ := List.mem_map.mp hfile
    exact .inr ⟨f, hf, (Prod.mk.inj heq).imp Eq.symm Eq.symm⟩

theorem isDir_machineOf {n : Name} (h : (machineOf users).disk.isDir [n] = true) :
    ∃ e ∈ users, n = userDir e.1 := by
  obtain ⟨e, he, ⟨hp, -⟩ | ⟨f, hf, hp, -⟩⟩ := at?_machineOf ((Disk.isDir_iff.mp h).resolve_left
    (by simp))
  · exact ⟨e, he, List.singleton_inj.mp hp⟩
  · cases hp

theorem view_machineOf {u f : Name} {x : File}
    (h : (machineOf users).view (userPath (machineOf users) u) f = some x) :
    ∃ e ∈ users, e.1 = u ∧ (f, x) ∈ e.2 := by
  obtain ⟨e, he, ⟨hp, -⟩ | ⟨g, hg, hp, hx⟩⟩ := at?_machineOf (Machine.view_eq_some.mp h)
  · cases hp
  · obtain ⟨hdir, hname⟩ : userDir u = userDir e.1 ∧ f = g.1 := by simpa using hp
    obtain rfl : x = g.2 := Node.file.inj hx
    exact ⟨e, he, (userDir_injective hdir).symm, hname ▸ hg⟩

/-- A machine with nothing but users' directories will do for a primary. -/
theorem serves_machineOf (husers : ∀ e ∈ users, UserId e.1 ∧ ∀ f ∈ e.2, Plain f.1) :
    Serves (machineOf users) where
  here := rfl
  users n hn := by
    obtain ⟨e, he, hname⟩ := isDir_machineOf hn
    exact ⟨e.1, (husers e he).1, hname⟩
  flat u hu := by
    obtain ⟨e, he, hname⟩ := isDir_machineOf hu
    obtain rfl : u = e.1 := userDir_injective hname
    refine ⟨⟨_, rfl⟩, by simp [userDirPath], ?_, fun q n hq hpre hne ↦ ?_⟩
    · exact Machine.resolve_concat_slash (Machine.resolve_plain (s := ['.'])
        (Machine.resolve_dot_slash rfl) (husers e he).1.plain) hu
    · obtain ⟨e', he', ⟨rfl, -⟩ | ⟨f, hf, rfl, rfl⟩⟩ := at?_machineOf hq
      · exact absurd (hpre.eq_of_length rfl) hne
      · obtain ⟨hdir, -⟩ := List.cons_prefix_cons.mp hpre
        exact ⟨f.1, f.2, by rw [userPath, hdir]; rfl, (husers e' he').2 f hf, rfl⟩

/-- A host with the directories of some users. -/
def filesOf (users : List (Name × List (Name × File))) : FileHost where
  machine := machineOf users
  syncDir := ['.', '/']

/-- A primary with some users. -/
def primaryWith (users : List (Name × List (Name × File))) : Host :=
  { makePrimary ⟨1, 5001⟩ ⟨1, 5000⟩ (filesOf users) with
    group := OrderedMap.empty.assign 1 ⟨2, 5001⟩ }

/-- A backup in its group, with nothing on its disk. -/
def blankBackup : Host := newBackup ⟨2, 5001⟩ {} (filesOf [])

theorem replicationSetting_blank (husers : ∀ e ∈ users, UserId e.1 ∧ ∀ f ∈ e.2, Plain f.1) :
    ReplicationSetting (primaryWith users) blankBackup where
  member := rfl
  backup := rfl
  primaryDisk := serves_machineOf husers
  backupDisk := ⟨rfl, fun _ _ _ hn ↦ nomatch hn⟩

end Small

/-- A file of one byte. -/
def oneByte : File := ⟨.single 1, 1⟩

/-- A primary with one user that has one file. -/
def oneFile : Host := primaryWith [(['a'], [(['f'], oneByte)])]

/-- A primary with one user that has one file is copied. -/
theorem one_file_replicated : ReplicationCorrect oneFile blankBackup := by
  have hs : ReplicationSetting oneFile blankBackup := replicationSetting_blank (by decide)
  have hone : ∀ u, HasUser oneFile.files.machine u → u = ['a'] := fun u hu ↦ by
    obtain ⟨e, he, hname⟩ := isDir_machineOf hu
    rw [userDir_injective hname, List.mem_singleton.mp he]
  refine (replication_copies_iff hs).mpr
    ⟨fun u hu f x hx ↦ ?_, fun u hu ↦ ?_, fun u hu x ↦ nofun, fun u q hsome ↦ rfl,
      fun u q hsome ↦ nomatch hsome⟩
  · obtain ⟨e, he, -, hmem⟩ := view_machineOf hx
    obtain rfl := List.mem_singleton.mp he
    obtain rfl : f = ['f'] := congrArg Prod.fst (List.mem_singleton.mp hmem)
    obtain rfl := hone u hu
    decide
  · obtain rfl := hone u hu
    exact (sendable_iff hs.primaryDisk hu).mpr ⟨(['f'], oneByte), by decide, listedCount_zero,
      wellCounted_of_lt rfl (by decide) (by decide)⟩

/-- A primary with one user that has two files. -/
def twoFiles : Host := primaryWith [(['a'], [(['f'], oneByte), (['g'], oneByte)])]

/-- **A primary with one user that has two files is not copied**: the backup takes what is said of
the second for a user. -/
theorem two_files_lost :
    ReplicationSetting twoFiles blankBackup ∧
      (∀ u f x, twoFiles.files.machine.view (userPath twoFiles.files.machine u) f = some x →
        x.contents.bytes ≠ []) ∧
      ¬ ReplicationCorrect twoFiles blankBackup := by
  have hs : ReplicationSetting twoFiles blankBackup := replicationSetting_blank (by decide)
  refine ⟨hs, fun u f x hx ↦ ?_, ?_⟩
  · obtain ⟨e, he, -, hmem⟩ := view_machineOf hx
    obtain rfl := List.mem_singleton.mp he
    have hx' : x = oneByte := by
      rcases List.mem_pair.mp hmem with heq | heq <;> exact congrArg Prod.snd heq
    rw [hx']
    nofun
  · rintro ⟨t, ht, hr, -⟩
    refine lost_sync hs (fun hgood ↦ ?_) ⟨t, ht.ends, hr.settled⟩
    have huser : HasUser twoFiles.files.machine ['a'] := by decide
    obtain ⟨e, he, -⟩ := (sendable_iff hs.primaryDisk huser).mp (hgood _ huser).2.1
    have hlen : (FlatDir.listing twoFiles.files.machine
        (userPath twoFiles.files.machine ['a'])).length = 2 := by decide
    rw [he] at hlen
    cases hlen

end Bropdox
