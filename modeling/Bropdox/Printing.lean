import Bropdox.Commands
import Bropdox.Images
import Bropdox.Receiving

/-!
# What `ls` prints

`Client::list_server_files` prints an entry for everything the server has listed.  The client of
this development leaves that out, so here it is once more with what it prints.

## What is here

* `Line` is a line of output, and `FileData.line` the one for an entry.
* `printServerFiles` is the program with what it prints, which otherwise is the same program
  (`printServerFiles_fst`), and `printServerFiles_endsIn` the whole session with it.
* `Shows` says how a session of `ls` should go: both sides return with nothing unread, and what has
  been printed is the files of the server, each once, with their times and in the order of the
  listing.
* `FittingDir` is a flat directory of files whose names fit `file_info::name`.
* `shows_iff`: the session shows the server's files if and only if their number fits the 32 bits in
  which it is announced.  If it does not, the client takes the rest of the number for the number.
* `two_files_shown` and `wrapped_listing_not_shown` are a server with two files and one with `2 ^
  32`.
-/

set_option autoImplicit false

namespace Bropdox

open FileSystem Session Program SocketHandler Peers

open Relation (ReflTransGen)

/-- A line of output. -/
abbrev Line := List Char

/-- `std::cout << *data`, for a file of this name and time -/
def listingLine (name : Name) (modifiedTime : Int) : Line :=
  name ++ "\t\t\t".toList ++ "last modified: ".toList ++ (toString modifiedTime).toList

/-- `operator<<` -/
def FileData.line (data : FileData) : Line := listingLine data.file.name data.file.modifiedTime

namespace Client

/-- The loop that prints the entries. -/
def printEntries : List (Option FileData) → Prog (List Line)
  | [] => return []
  | data :: receivedFileData => do
    let data ← expect .nullPointer data
    let lines ← printEntries receivedFileData
    return data.line :: lines

/-- `list_server_files`, from the answer of the server on, with what it prints. -/
def printList (fileData : Option FileData) : Prog (Bool × List Line) := do
  let fileData ← expect .nullPointer fileData
  if fileData.numPackets = 0 then
    sendPacket .ack ⟨true⟩
    return (true, [])
  else
    let receivedFileData ← waitPackets .fileData fileData.numPackets.toNat
    let lines ←
      if receivedFileData.countP Option.isSome = fileData.numPackets.toNat then do
        sendPacket .ack ⟨true⟩
        printEntries receivedFileData
      else do
        sendPacket .ack ⟨false⟩
        pure []
    resetUnlessSyncing
    return (true, lines)

/-- `list_server_files`, with what it prints. -/
def printServerFiles : Prog (Bool × List Line) := do
  sendPacket .ack ⟨true⟩
  let fileData ← waitPacket .fileData
  printList fileData

/-- Entries that have all been received are printed. -/
theorem printEntries_some (entries : List FileData) :
    printEntries (entries.map some) = .ret (entries.map FileData.line) := by
  induction entries with
  | nil => rfl
  | cons data entries ih =>
    rw [List.map_cons, printEntries, ih]
    rfl

/-- **Printing changes nothing else.** -/
theorem printServerFiles_fst :
    (printServerFiles.bind fun r ↦ .ret r.1) = listServerFiles := by
  have hlist : ∀ fileData, ((printList fileData).bind fun r ↦ .ret r.1) = receiveList fileData := by
    intro fileData
    cases fileData with
    | none => rfl
    | some fileData =>
      simp only [printList, receiveList, expect_some, bind_eq, ret_bind, ite_bind, bind_assoc,
        pure_eq]
      refine congrArg _ (awaitAll_bind_congr fun ms hms ↦ ?_)
      split
      · rename_i hcount
        obtain ⟨entries, rfl⟩ :=
          exists_eq_map_some (countP_isSome_eq_length.mp (hcount.trans hms.symm))
        rw [printEntries_some]
        rfl
      · rfl
  simp only [printServerFiles, listServerFiles, bind_eq, bind_assoc, hlist]

end Client

section Session

variable {L : Session.Link sessionWire Client.sig RequestHandler.sig} {h : Client.Host}
  {h' : FileHost} {entries : List FileData}

/-- Where the socket of the client is after `ls`: a client that is told of no files does not close
it. -/
def socketAfterList (h : Client.Host) (entries : List FileData) : Inbox sessionWire :=
  let rest := (entries.drop (UInt32.ofNat entries.length).toNat).map (parcel .fileData)
  if UInt32.ofNat entries.length = 0 then some rest else socketAfter h (some rest)

/-- **The whole session**: as many entries are taken and printed as were announced, and the server,
which has been told that all is well, calls nothing. -/
theorem printServerFiles_endsIn (hlist : h'.getFileInfoList = .ok entries)
    (t : PeerPair (Bool × List Line) Bool) :
    Pair.EndsIn L ⟨⟨h, Client.printServerFiles⟩, ⟨h', RequestHandler.handleRequest .list⟩,
        some [], some [], [], []⟩ t ↔
      Pair.EndsIn L ⟨⟨h, .ret (true,
          (entries.take (UInt32.ofNat entries.length).toNat).map FileData.line)⟩, ⟨h', .ret true⟩,
        socketAfterList h entries, some [], [], []⟩ t := by
  rw [Client.printServerFiles, bind_eq, left_send, deliver_some, List.nil_append, right_list hlist,
    bind_eq, left_wait, Client.printList, socketAfterList]
  simp only [expect_some, bind_eq, ret_bind]
  split
  · rename_i hzero
    rw [hzero]
    simp [RequestHandler.waitFor, RequestHandler.relistUnless]
  · have hle := toNat_ofNat_le entries.length
    rw [left_waitAll .fileData entries hle, countP_some, List.length_take_of_le hle, if_pos rfl]
    generalize entries.take (UInt32.ofNat entries.length).toNat = taken
    generalize entries.drop (UInt32.ofNat entries.length).toNat = left
    simp [Client.printEntries_some, RequestHandler.waitFor, RequestHandler.relistUnless]

end Session

/-! ## What is shown

The session from the handshake to the last line. -/

/-- A session of `ls` that begins with empty channels. -/
def lsSession (h : Client.Host) (h' : FileHost) : PeerPair (Bool × List Line) Bool :=
  ⟨⟨h, Client.printServerFiles⟩, ⟨h', RequestHandler.handleRequest .list⟩, some [], some [], [], []⟩

/-- How a session of `ls` should go. -/
structure Shows (h : Client.Host) (h' : FileHost) (p : Path) : Prop where
  /-- Both sides return with empty channels, and a line has been printed for every file of the
  directory, in the order in which the directory is listed. -/
  ends : ∃ (t : PeerPair (Bool × List Line) Bool) (fs : List Name),
    (lsSession h h').EndsIn peers t ∧
    t.Returned (true, fs.map fun f ↦ listingLine f ((h'.view p).modifiedTime f)) true ∧
    t.toLeft.getD [] = [] ∧ t.toRight.getD [] = [] ∧
    h'.machine.listRecursive h'.syncDir = some (fs.map fun f ↦ p ++ [f]) ∧ fs.Nodup ∧
    ∀ f, f ∈ fs ↔ ∃ x, h'.view p f = some x
  /-- Every datagram is read as what it was sent as. -/
  typed : ∀ y, ReflTransGen (Pair.Step peers) (lsSession h h') y → ¬ y.Confused
  /-- The server is never asked to repeat. -/
  unasked : ∀ y, ReflTransGen (Pair.Step peers) (lsSession h h') y → ¬ y.Calls

section Shows

variable (h : Client.Host) {h' : FileHost} {p : Path}

/-- The end of the session, whatever the procedures are. -/
theorem lsSession_endsIn (L : Session.Link sessionWire Client.sig RequestHandler.sig)
    (hd : FlatDir h'.machine h'.syncDir p) :
    let entries := (FlatDir.names h'.machine p).map (FileHost.entryOf (h'.view p))
    (lsSession h h').EndsIn L ⟨⟨h, .ret (true,
        (entries.take (UInt32.ofNat entries.length).toNat).map FileData.line)⟩, ⟨h', .ret true⟩,
      socketAfterList h entries, some [], [], []⟩ :=
  (printServerFiles_endsIn (FileHost.getFileInfoList_eq hd) _).mpr
    ⟨.refl, Pair.Returned.terminal ⟨rfl, rfl⟩⟩

variable {h}

/-- No more lines are printed than can be announced. -/
theorem Shows.length_lt (hs : Shows h h' p) (hd : FlatDir h'.machine h'.syncDir p) :
    (FlatDir.names h'.machine p).length < 2 ^ 32 := by
  have hend := lsSession_endsIn h peers hd
  simp only [List.length_map, UInt32.toNat_ofNat'] at hend
  obtain ⟨⟨t, fs, ht, hret, -, -, hlist, -, -⟩, -, -⟩ := hs
  obtain rfl := hend.settlesIn.unique ht
  have hfs : fs = FlatDir.names h'.machine p := by
    rw [hd.list, Option.some_inj] at hlist
    exact (List.map_injective_iff.mpr (fun f g hfg ↦ by simpa using hfg) hlist).symm
  have hlines := congrArg (fun r ↦ r.2.length) (Program.ret.inj hret.1)
  simp only [List.length_map, List.length_take, hfs] at hlines
  have hmod := Nat.mod_lt (FlatDir.names h'.machine p).length (Nat.two_pow_pos 32)
  omega

/-- As long as their number can be announced, all the files are shown. -/
theorem shows_of_length_lt (h : Client.Host) (hd : FlatDir h'.machine h'.syncDir p)
    (hlt : (FlatDir.names h'.machine p).length < 2 ^ 32) : Shows h h' p := by
  have hend := lsSession_endsIn h peers hd
  have hbar := lsSession_endsIn h (peers.barred .nullPointer) hd
  simp only [List.length_map, UInt32.toNat_ofNat'] at hend hbar
  refine ⟨⟨_, FlatDir.names h'.machine p, hend, ⟨?_, rfl⟩, ?_, rfl, hd.list, hd.names_nodup,
    fun f ↦ hd.mem_names⟩, fun y hy ↦ ?_, fun y hy ↦ Pair.not_calls hbar rfl hy⟩
  · rw [Nat.mod_eq_of_lt hlt, List.take_of_length_le (List.length_map _).le, List.map_map]
    rfl
  · rw [socketAfterList, List.length_map, UInt32.toNat_ofNat', Nat.mod_eq_of_lt hlt,
      List.drop_of_length_le (List.length_map _).le, socketAfter]
    split
    · rfl
    · split <;> rfl
  · exact hend.settlesIn.not_confused_of (Pair.Returned.not_confused ⟨rfl, rfl⟩) hy

/-- A flat directory of files whose names fit `file_info::name`. -/
structure FittingDir (m : Machine) (dir : Name) (p : Path) : Prop extends FlatDir m dir p where
  /-- A name leaves room for its terminator in the array. -/
  fits : ∀ f ∈ FlatDir.names m p, Storable 510 f

/-- **The session shows the server's files, whose names fit, exactly if their number fits
32 bits.** -/
theorem shows_iff (h : Client.Host) (hd : FittingDir h'.machine h'.syncDir p) :
    Shows h h' p ↔ (FlatDir.names h'.machine p).length < 2 ^ 32 :=
  ⟨fun hs ↦ hs.length_lt hd.toFlatDir, shows_of_length_lt h hd.toFlatDir⟩

end Shows

/-! ## So many files that they cannot be counted

The names of the files are the numbers below `2 ^ 32` in 32 binary digits, so that there are
enough of them although each is short. -/

/-- The 32 low binary digits of a number, written with the letters `a` and `b`. -/
def digits (i : Nat) : Name := (List.range 32).map fun j ↦ if i.testBit j then 'b' else 'a'

theorem digits_injOn {i j : Nat} (hi : i < 2 ^ 32) (hj : j < 2 ^ 32) (h : digits i = digits j) :
    i = j := by
  refine Nat.eq_of_testBit_eq fun k ↦ ?_
  by_cases hk : k < 32
  · have hbit := List.map_inj_left.mp h k (List.mem_range.mpr hk)
    by_cases hik : i.testBit k <;> by_cases hjk : j.testBit k <;> simp_all
  · have hle : 2 ^ 32 ≤ 2 ^ k := Nat.pow_le_pow_right (by decide) (Nat.le_of_not_lt hk)
    rw [Nat.testBit_lt_two_pow (hi.trans_le hle), Nat.testBit_lt_two_pow (hj.trans_le hle)]

theorem mem_digits {i : Nat} {c : Char} (h : c ∈ digits i) : c = 'a' ∨ c = 'b' := by
  obtain ⟨j, -, rfl⟩ := List.mem_map.mp h
  split
  · exact .inr rfl
  · exact .inl rfl

theorem length_digits (i : Nat) : (digits i).length = 32 := by
  rw [digits, List.length_map, List.length_range]

theorem plain_digits (i : Nat) : Plain (digits i) where
  ne_nil h := by simpa [h] using length_digits i
  noSlash h := absurd (mem_digits h) (by decide)
  ne_dot h := by simpa [h] using length_digits i
  ne_dotdot h := by simpa [h] using length_digits i

theorem storable_digits (i : Nat) : Storable 510 (digits i) := by
  refine ⟨(length_digits i).trans_lt (by decide), fun c hc ↦ ?_⟩
  rcases mem_digits hc with rfl | rfl <;> decide

/-- A server with `n` empty files, named by their numbers. -/
def manyFiles (n : Nat) : FileHost where
  machine := .ofFiles Nat.cast [] ((List.range n).map fun i ↦ (digits i, ⟨.empty, 0⟩))
  syncDir := ['/']

theorem fittingDir_manyFiles (n : Nat) :
    FittingDir (manyFiles n).machine (manyFiles n).syncDir [] := by
  have hd : FlatDir (manyFiles n).machine (manyFiles n).syncDir [] := by
    refine FlatDir.ofFiles (s := []) rfl (fun f hf ↦ ?_) (by decide)
    obtain ⟨i, -, rfl⟩ := List.mem_map.mp hf
    exact plain_digits i
  refine ⟨hd, fun f hf ↦ ?_⟩
  obtain ⟨x, hx⟩ := hd.mem_names.mp hf
  obtain ⟨i, -, hi⟩ := List.mem_map.mp (Machine.mem_of_view_ofFiles hx)
  obtain rfl : digits i = f := congrArg Prod.fst hi
  exact storable_digits i

theorem le_length_names {n : Nat} (hn : n ≤ 2 ^ 32) :
    n ≤ (FlatDir.names (manyFiles n).machine []).length := by
  have hnodup : ((List.range n).map digits).Nodup := by
    refine List.Nodup.map_on (fun i hi j hj hij ↦ ?_) List.nodup_range
    rw [List.mem_range] at hi hj
    exact digits_injOn (hi.trans_le hn) (hj.trans_le hn) hij
  have hsub : (List.range n).map digits ⊆ FlatDir.names (manyFiles n).machine [] := by
    intro f hf
    obtain ⟨i, hi, rfl⟩ := List.mem_map.mp hf
    exact (fittingDir_manyFiles n).mem_names.mpr
      (Machine.exists_view_ofFiles (List.mem_map.mpr ⟨i, hi, rfl⟩))
  simpa using (List.subperm_of_subset hnodup hsub).length_le

/-- Two files are shown. -/
theorem two_files_shown : Shows ⟨manyFiles 0, false⟩ (manyFiles 2) [] :=
  (shows_iff ⟨manyFiles 0, false⟩ (fittingDir_manyFiles 2)).mpr (by decide)

/-- A server with so many files that their number wraps to nothing, although all of their names fit,
shows none of them. -/
theorem wrapped_listing_not_shown :
    ¬ ∀ (h : Client.Host) (h' : FileHost) (p : Path), FittingDir h'.machine h'.syncDir p →
      Shows h h' p := by
  intro hall
  have hd := fittingDir_manyFiles (2 ^ 32)
  have hshow := hall ⟨manyFiles 0, false⟩ _ _ hd
  exact absurd (hshow.length_lt hd.toFlatDir) (Nat.not_lt.mpr (le_length_names le_rfl))

end Bropdox
