import Bropdox.FlatHost
import Bropdox.Transfer

/-!
# What a positive acknowledgement is worth

A transfer that was acknowledged has written the announced number of packets, which is not the
number of packets the file was cut into.  The two formulas differ in both directions: at a size that
is a multiple of the packet size one packet, an empty one, is not announced, which does no harm;
beyond the 24 bits of a float the rounding may lose a packet that was not empty.

## What is here

* `CountCovers` says when the announced packets can hold the file, for every size; it holds below
  the 24 bits of a float (`CountCovers.of_lt`).
* `Upload` and `Download` are transfers without a file error, `UploadAcked` and `DownloadAcked` say
  that the receiver has answered positively, and `UploadDelivers` and `DownloadDelivers` that it
  then holds the file.
* `uploadDelivers_iff` and `downloadDelivers_iff`: an acknowledgement can be trusted exactly if the
  announced count covers the file, or when nothing is announced, since then nothing is acknowledged
  either.
* `acked_transfer_delivers_iff` has both directions, each for its own hosts.
* `three_bytes_delivered` and `last_byte_lost` are a file of three bytes that the receiver does not
  have, and a file whose last byte is not announced.

A transfer announced with *too many* packets never ends.
-/

set_option autoImplicit false

namespace Bropdox

open FileSystem Session Program SocketHandler Peers

open Relation (ReflTransGen)

/-- What is announced for a file of this size is nothing, or enough packets for all its bytes. -/
def CountCovers (size : Nat) : Prop :=
  listedCount size = 0 ∨ size ≤ (listedCount size).toNat * packetSize

instance (size : Nat) : Decidable (CountCovers size) := inferInstanceAs (Decidable (_ ∨ _))

/-- A file announced with more packets than it has is covered. -/
theorem CountCovers.of_length_lt {c : Contents}
    (h : (packetsOf c).length < (listedCount c.bytes.length).toNat) :
    CountCovers c.bytes.length := by
  have hdiv := Nat.div_add_mod c.bytes.length packetSize
  have hmod := Nat.mod_lt c.bytes.length (by decide : 0 < packetSize)
  rw [length_packetsOf] at h
  rw [packetSize_eq] at h hdiv hmod
  refine .inr ?_
  rw [packetSize_eq]
  omega

/-- Below the 24 bits of a float every file is covered. -/
theorem CountCovers.of_lt {size : Nat} (h : size < 2 ^ 24) : CountCovers size := by
  have htoNat : (listedCount size).toNat = (size + (packetSize - 1)) / packetSize := by
    rw [listedCount, countPackets_of_lt h, UInt32.toNat_ofNat', Nat.mod_eq_of_lt]
    rw [packetSize_eq]
    omega
  refine .inr ?_
  rw [htoNat, packetSize_eq]
  omega

/-- The disk holds a file with these contents at a path. -/
def Holds (h : FileHost) (p : Path) (c : Contents) : Prop :=
  ∃ z, h.machine.disk.at? p = some (.file z) ∧ z.contents = c

/-- Storing the first `n` packets of a file stores all of it if they are long enough. -/
theorem holds_store {h : FileHost} {file path : Name} {p : Path} {c : Contents}
    (hopen : h.machine.resolve (h.writePath file path) = some p)
    (hdir : h.machine.disk.isDir p = false) (n : Nat) :
    Holds (h.store file path ((packetsOf c).take n)) p c ↔ c.bytes.length ≤ n * packetSize := by
  have hfits : (c.bytes.take (n * packetSize)).length < 2 ^ 64 :=
    lt_of_le_of_lt (List.length_take_le' ..) c.fits
  have hwrite : (h.store file path ((packetsOf c).take n)).machine
      = h.machine.put p ⟨c.bytes.take (n * packetSize), hfits⟩ := by
    rw [FileHost.store, take_packetsOf]
    exact Machine.write_of_resolve hopen hdir ⟨_, hfits⟩
  rw [Holds, hwrite, Machine.put, Disk.at?_set_self]
  simp [Contents.ext_iff]

/-! ## Uploads

`Client::send_file` against `RequestHandler::receive_file`. -/

/-- A client about to run `send_file`, and the server about to handle the request. -/
def uploadStart (h : Client.Host) (h' : FileHost) (file : Name) : PeerPair Bool Bool where
  left := ⟨h, Client.sendFile file⟩
  right := ⟨h', RequestHandler.handleRequest .receive⟩
  toLeft := some []
  toRight := some []

/-- An upload without a file error: the client reads the file `x`, and the server can open `p`. -/
structure Upload (h : Client.Host) (h' : FileHost) (file : Name) (x : File) (p : Path) : Prop where
  /-- The client counts packets the way the source does. -/
  counts : h.files.reported = countPackets
  /-- The client finds the file. -/
  reads : h.files.machine.stat (h.files.readPath file) = some x
  /-- The client can describe it, and the server opens `p` under the name it is given. -/
  opens : ∃ info, h.files.getFileInfo file = .ok info ∧
    h'.machine.resolve (h'.writePath info.name []) = some p
  /-- No directory is in the way. -/
  notDir : h'.machine.disk.isDir p = false

/-- The server has handled the upload, and the last thing it sent was a positive acknowledgement:
it is on its way, or the client has read it and returned. -/
def UploadAcked (y : PeerPair Bool Bool) : Prop :=
  y.right.prog = .ret true ∧
    (y.left.prog = .ret true ∨ ∃ i, y.toLeft = some (i ++ [parcel .ack ⟨true⟩]))

/-- Whenever the upload is acknowledged, the server holds the file. -/
def UploadDelivers (h : Client.Host) (h' : FileHost) (file : Name) (x : File) (p : Path) : Prop :=
  ∀ y, ReflTransGen (Pair.Step peers) (uploadStart h h' file) y → UploadAcked y →
    Holds y.right.host p x.contents

/-- An upload that ends without the server having accepted it is never acknowledged. -/
theorem uploadDelivers_of_unacked {h : Client.Host} {h' : FileHost} {file : Name} {x : File}
    {p : Path} {t : PeerPair Bool Bool} (ht : (uploadStart h h' file).EndsIn peers t)
    (hret : t.right.prog ≠ .ret true) : UploadDelivers h h' file x p := by
  intro y hy hacked
  have hend : t.right = y.right := Pair.right_of_reaches hacked.1 (ht.settlesIn.every y hy)
  exact absurd (hend ▸ hacked.1) hret

/-- Of an upload that is acknowledged at the end, only the end matters. -/
theorem uploadDelivers_iff_of_acked {h : Client.Host} {h' : FileHost} {file : Name} {x : File}
    {p : Path} {t : PeerPair Bool Bool} (ht : (uploadStart h h' file).EndsIn peers t)
    (hacked : UploadAcked t) :
    UploadDelivers h h' file x p ↔ Holds t.right.host p x.contents := by
  constructor
  · intro hd
    exact hd t ht.1 hacked
  · intro hholds y hy hy'
    have hend : t.right = y.right := Pair.right_of_reaches hy'.1 (ht.settlesIn.every y hy)
    exact hend ▸ hholds

/-- The start of an upload, in the form the rules of a transfer have. -/
theorem uploadStart_eq (h : Client.Host) (h' : FileHost) (file : Name) :
    uploadStart h h' file = ⟨⟨h, (Client.sendFile file).bind .ret⟩, ⟨h', expectUpload .ret⟩,
      some [], some [], [], []⟩ := by
  rw [uploadStart, handleRequest_receive, bind_ret]

/-- **An acknowledged upload can be trusted exactly when the announced count covers the file.** -/
theorem uploadDelivers_iff {h : Client.Host} {h' : FileHost} {file : Name} {x : File} {p : Path}
    (up : Upload h h' file x p) : UploadDelivers h h' file x p ↔ CountCovers x.size := by
  obtain ⟨info, hinfo, hopen⟩ := up.opens
  have hread := FileHost.readFile_of_stat up.reads
  rw [up.counts] at hread
  by_cases hzero : listedCount x.size = 0
  · -- nothing is announced, and the server returns `false`
    have hend : ∀ t, (uploadStart h h' file).EndsIn peers t ↔
        Pair.EndsIn peers ⟨⟨h, .ret false⟩, ⟨h', .ret false⟩, some [], some [], [], []⟩ t := by
      intro t
      rw [uploadStart_eq, upload_refused hread hinfo hzero]
    have ht := (hend _).mpr ⟨.refl, Pair.Returned.terminal ⟨rfl, rfl⟩⟩
    exact iff_of_true (uploadDelivers_of_unacked ht (by simp)) (.inl hzero)
  rcases Nat.lt_or_ge (packetsOf x.contents).length (listedCount x.size).toNat with hlt | hle
  · -- too much is announced, and the server never returns
    obtain ⟨t, ht, -, hret⟩ : ∃ t, (uploadStart h h' file).EndsIn peers t ∧
        (∀ a, t.left.prog ≠ .ret a) ∧ ∀ b, t.right.prog ≠ .ret b := by
      rw [uploadStart_eq]
      exact upload_starved hread hinfo hlt
    exact iff_of_true (uploadDelivers_of_unacked ht (hret true)) (.of_length_lt hlt)
  · -- the server stores what was announced
    have hend : ∀ t, (uploadStart h h' file).EndsIn peers t ↔
        Pair.EndsIn peers ⟨⟨keptAfter h file, .ret true⟩,
          ⟨h'.store info.name [] ((packetsOf x.contents).take (listedCount x.size).toNat),
            .ret true⟩, socketAfter h (some []),
          some (((packetsOf x.contents).drop (listedCount x.size).toNat).map (parcel .packet)),
          [], []⟩ t := by
      intro t
      rw [uploadStart_eq, upload_stored hread hinfo hzero rfl hle, left_keepUnlessSyncing]
      rfl
    have ht := (hend _).mpr ⟨.refl, Pair.Returned.terminal ⟨rfl, rfl⟩⟩
    rw [uploadDelivers_iff_of_acked ht ⟨rfl, .inl rfl⟩, CountCovers, or_iff_right hzero]
    exact holds_store hopen up.notDir _

/-! ## Downloads

`RequestHandler::send_file` against `Client::get_file`. -/

/-- A client about to run `get_file`, and the server about to handle the request. -/
def downloadStart (h : Client.Host) (h' : FileHost) (file path : Name) : PeerPair Bool Bool where
  left := ⟨h, Client.getFile file path⟩
  right := ⟨h', RequestHandler.handleRequest .send⟩
  toLeft := some []
  toRight := some []

/-- A download without a file error: the server reads the file `x`, and the client can open `p`. -/
structure Download (h : Client.Host) (h' : FileHost) (file path : Name) (x : File) (p : Path) :
    Prop where
  /-- The server counts packets the way the source does. -/
  counts : h'.reported = countPackets
  /-- The client can describe what it asks for; the server finds it under the name it is given and
  can describe it too. -/
  reads : ∃ info info', h.files.getFileInfo file = .ok info ∧
    h'.machine.stat (h'.readPath info.name) = some x ∧ h'.getFileInfo info.name = .ok info'
  /-- The client opens `p`. -/
  opens : h.files.machine.resolve (h.files.writePath file path) = some p
  /-- No directory is in the way. -/
  notDir : h.files.machine.disk.isDir p = false

/-- The client has returned from the download, and the last thing it sent was a positive
acknowledgement: it is on its way, or the server has read it and returned. -/
def DownloadAcked (y : PeerPair Bool Bool) : Prop :=
  y.left.prog = .ret true ∧
    (y.right.prog = .ret true ∨ ∃ j, y.toRight = some (j ++ [parcel .ack ⟨true⟩]))

/-- Whenever the download is acknowledged, the client holds the file. -/
def DownloadDelivers (h : Client.Host) (h' : FileHost) (file path : Name) (x : File) (p : Path) :
    Prop :=
  ∀ y, ReflTransGen (Pair.Step peers) (downloadStart h h' file path) y → DownloadAcked y →
    Holds y.left.host.files p x.contents

/-- A download that the client gives up is never acknowledged. -/
theorem downloadDelivers_of_unacked {h : Client.Host} {h' : FileHost} {file path : Name} {x : File}
    {p : Path} {t : PeerPair Bool Bool} (ht : (downloadStart h h' file path).EndsIn peers t)
    (hret : t.left.prog ≠ .ret true) : DownloadDelivers h h' file path x p := by
  intro y hy hacked
  have hend : t.left = y.left := Pair.left_of_reaches hacked.1 (ht.settlesIn.every y hy)
  exact absurd (hend ▸ hacked.1) hret

/-- Of a download that is acknowledged at the end, only the end matters. -/
theorem downloadDelivers_iff_of_acked {h : Client.Host} {h' : FileHost} {file path : Name}
    {x : File} {p : Path} {t : PeerPair Bool Bool}
    (ht : (downloadStart h h' file path).EndsIn peers t) (hacked : DownloadAcked t) :
    DownloadDelivers h h' file path x p ↔ Holds t.left.host.files p x.contents := by
  constructor
  · intro hd
    exact hd t ht.1 hacked
  · intro hholds y hy hy'
    have hend : t.left = y.left := Pair.left_of_reaches hy'.1 (ht.settlesIn.every y hy)
    exact hend ▸ hholds

/-- The request has arrived, and the server answers it. -/
theorem downloadStart_endsIn {h : Client.Host} {h' : FileHost} {file path : Name} {info : FileInfo}
    (hinfo : h.files.getFileInfo file = .ok info) (t : PeerPair Bool Bool) :
    (downloadStart h h' file path).EndsIn peers t ↔
      Pair.EndsIn peers ⟨⟨h, (Client.receiveRequested file path).bind .ret⟩,
        ⟨h', (RequestHandler.sendFile info.name).bind fun _ ↦ .ret true⟩,
        some [], some [], [], []⟩ t := by
  rw [downloadStart, Client.getFile, RequestHandler.handleRequest, bind_ret]
  exact request_endsIn hinfo

/-- **An acknowledged download can be trusted exactly when the announced count covers the file.** -/
theorem downloadDelivers_iff {h : Client.Host} {h' : FileHost} {file path : Name} {x : File}
    {p : Path} (down : Download h h' file path x p) :
    DownloadDelivers h h' file path x p ↔ CountCovers x.size := by
  obtain ⟨info, info', hinfo, hstat, hinfo'⟩ := down.reads
  have hread := FileHost.readFile_of_stat hstat
  rw [down.counts] at hread
  by_cases hzero : listedCount x.size = 0
  · -- nothing is announced, and the client gives up
    obtain ⟨t, ht, hret⟩ : ∃ t, (downloadStart h h' file path).EndsIn peers t ∧
        t.left.prog = .ret false := by
      simp only [downloadStart_endsIn hinfo, download_refused hread hinfo' hzero,
        left_resetUnlessSyncing]
      exact ⟨_, ⟨.refl, Pair.terminal_of_stuck (Endpoint.step_ret ..) rfl⟩, rfl⟩
    exact iff_of_true (downloadDelivers_of_unacked ht (by simp [hret])) (.inl hzero)
  rcases Nat.lt_or_ge (packetsOf x.contents).length (listedCount x.size).toNat with hlt | hle
  · -- too much is announced, and the client never returns
    obtain ⟨t, ht, hret, -⟩ : ∃ t, (downloadStart h h' file path).EndsIn peers t ∧
        (∀ a, t.left.prog ≠ .ret a) ∧ ∀ b, t.right.prog ≠ .ret b := by
      simp only [downloadStart_endsIn hinfo]
      exact download_starved hread hinfo' hlt
    exact iff_of_true (downloadDelivers_of_unacked ht (hret true)) (.of_length_lt hlt)
  · -- the client stores what was announced
    have hend : ∀ t, (downloadStart h h' file path).EndsIn peers t ↔
        Pair.EndsIn peers
          ⟨⟨{ h with
                files := h.files.store file path
                  ((packetsOf x.contents).take (listedCount x.size).toNat) }, .ret true⟩,
            ⟨h', .ret true⟩,
            socketAfter h (some (((packetsOf x.contents).drop (listedCount x.size).toNat).map
              (parcel .packet))), some [], [], []⟩ t := by
      intro t
      rw [downloadStart_endsIn hinfo, download_stored hread hinfo' hzero rfl hle,
        left_resetUnlessSyncing]
      rfl
    have ht := (hend _).mpr ⟨.refl, Pair.Returned.terminal ⟨rfl, rfl⟩⟩
    rw [downloadDelivers_iff_of_acked ht ⟨rfl, .inl rfl⟩, CountCovers, or_iff_right hzero]
    exact holds_store down.opens down.notDir _

/-! ## Both directions

The two transfers side by side, and three files. -/

/-- **A transfer that ends in a positive acknowledgement delivered the file if and only if the
announced count covers the file or is zero.**  This holds of every upload of the file and of every
download of it, from any host to any other; neither needs the receiver to have a file of that name
already. -/
theorem acked_transfer_delivers_iff (x : File) :
    (∀ (h : Client.Host) (h' : FileHost) (file : Name) (p : Path),
      Upload h h' file x p → (UploadDelivers h h' file x p ↔ CountCovers x.size)) ∧
    (∀ (h : Client.Host) (h' : FileHost) (file path : Name) (p : Path),
      Download h h' file path x p → (DownloadDelivers h h' file path x p ↔ CountCovers x.size)) :=
  ⟨fun _ _ _ _ up ↦ uploadDelivers_iff up, fun _ _ _ _ _ down ↦ downloadDelivers_iff down⟩

/-- A client and a server with these files. -/
def hosts (mine theirs : List (Name × File)) : Client.Host × FileHost :=
  (⟨.ofFiles Nat.cast ['c'] mine countPackets, false⟩, .ofFiles Nat.cast ['s'] theirs countPackets)

/-- A client with a file `f`, and a server without files. -/
def clientHas (c : Contents) : Client.Host × FileHost := hosts [(['f'], ⟨c, 0⟩)] []

/-- A client without files, and a server with a file `f`. -/
def serverHas (c : Contents) : Client.Host × FileHost := hosts [] [(['f'], ⟨c, 0⟩)]

theorem upload_clientHas (c : Contents) :
    Upload (clientHas c).1 (clientHas c).2 ['f'] ⟨c, 0⟩ [['s'], ['f']] where
  counts := rfl
  reads := rfl
  opens := ⟨_, rfl, rfl⟩
  notDir := rfl

theorem download_serverHas (c : Contents) :
    Download (serverHas c).1 (serverHas c).2 ['f'] [] ⟨c, 0⟩ [['c'], ['f']] where
  counts := rfl
  reads := ⟨_, _, rfl, rfl, rfl⟩
  opens := rfl
  notDir := rfl

/-- A file of three bytes that the receiver does not have is delivered, in either direction. -/
theorem three_bytes_delivered :
    UploadDelivers (clientHas .threeBytes).1 (clientHas .threeBytes).2 ['f']
        ⟨.threeBytes, 0⟩ [['s'], ['f']] ∧
      DownloadDelivers (serverHas .threeBytes).1 (serverHas .threeBytes).2 ['f']
        [] ⟨.threeBytes, 0⟩ [['c'], ['f']] :=
  have hfile := acked_transfer_delivers_iff ⟨.threeBytes, 0⟩
  ⟨(hfile.1 _ _ _ _ (upload_clientHas .threeBytes)).mpr (by decide),
    (hfile.2 _ _ _ _ _ (download_serverHas .threeBytes)).mpr (by decide)⟩

/-- A file with one byte more than a float can count. -/
def tooPrecise : Contents := ⟨List.replicate 16777217 0, by rw [List.length_replicate]; decide⟩

/-- The last byte of that file is not announced. -/
theorem not_countCovers_tooPrecise : ¬ CountCovers 16777217 := by decide

/-- The upload and the download of the file `tooPrecise` are both acknowledged, and neither is
complete. -/
theorem last_byte_lost :
    ¬ UploadDelivers (clientHas tooPrecise).1 (clientHas tooPrecise).2 ['f'] ⟨tooPrecise, 0⟩
        [['s'], ['f']] ∧
      ¬ DownloadDelivers (serverHas tooPrecise).1 (serverHas tooPrecise).2 ['f'] []
        ⟨tooPrecise, 0⟩ [['c'], ['f']] := by
  have hsize : File.size ⟨tooPrecise, 0⟩ = 16777217 := List.length_replicate
  constructor
  · rw [uploadDelivers_iff (upload_clientHas tooPrecise), hsize]
    exact not_countCovers_tooPrecise
  · rw [downloadDelivers_iff (download_serverHas tooPrecise), hsize]
    exact not_countCovers_tooPrecise

end Bropdox
