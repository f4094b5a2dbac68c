import Bropdox.Messages
import Bropdox.Rounding

/-!
# The file handler

`helpers/FileHandler.cpp`, operation by operation.  A `FileHost` is a machine together with the one
field of the class that matters, the sync directory as a string, and `FileOp.exec` says what each
member function does to it.

Each function builds its path by its own concatenation, and they do not agree: a leading separator
is stripped by `writeFile` and `getFileInfo`, followed as it is by `readFile`, and glued on by
`deleteFile`.

`readFile` is the one loop.  It is driven by the state of the stream: a read of a whole packet
leaves the stream good even at the end of the file, so that a file whose size is a multiple of the
packet size is followed by one more, empty, packet.  The number of packets it *reports* is computed
from the size, in single precision, and has nothing to do with that loop.  That number is a field of
the host, with the value it has in the source as its default, so that a theorem can say exactly what
it assumes about it; the listing computes its own.

`writeFile` trusts the size that a packet states.  If it states more than the buffer of a packet
has, bytes are written that nobody sent: what the memory holds there is another field of the host,
about which nothing is known.
-/

set_option autoImplicit false

namespace Bropdox

open FileSystem Rounding

/-- What `read_file` returns, with the count it reports through its reference parameter. -/
structure ReadResult where
  /-- `file_size_in_packets` -/
  fileSizeInPackets : Nat
  /-- The packets. -/
  packets : List Packet
deriving DecidableEq

/-- The buffer of a packet that has been received: what was not filled of it is zero. -/
def Packet.buffer (p : Packet) : List UInt8 :=
  (p.data ++ List.replicate packetSize 0).take packetSize

/-- The bytes of a packet that `write_file` writes: `data_size` of them, whatever the buffer holds.
A packet that claims more than the buffer has makes it go on into the memory beyond. -/
def Packet.written (beyond : Packet → Nat → UInt8) (p : Packet) : List UInt8 :=
  p.buffer.take p.dataSize.toNat ++ (List.range (p.dataSize.toNat - packetSize)).map (beyond p)

/-- Of a packet that is not overfull only the buffer is written. -/
theorem Packet.written_of_le (beyond : Packet → Nat → UInt8) {p : Packet}
    (hle : p.dataSize.toNat ≤ packetSize) : p.written beyond = p.buffer.take p.dataSize.toNat := by
  rw [written, Nat.sub_eq_zero_of_le hle, List.range_zero, List.map_nil, List.append_nil]

/-- `ceil((float) file_size / (float) PACKETSIZE)`: the size is rounded to the 24 bits of a float,
and dividing by a power of two is exact. -/
def countPackets (fileSize : Nat) : Nat :=
  (roundSignificand 24 fileSize + (packetSize - 1)) / packetSize

/-- A machine with the sync directory of a file handler. -/
structure FileHost where
  /-- The machine. -/
  machine : Machine
  /-- `syncDir` -/
  syncDir : Name
  /-- What `read_file` reports as `file_size_in_packets` for a file of a given size. -/
  reported : Nat → Nat := countPackets
  /-- What the memory holds beyond the buffer of a packet, byte by byte. -/
  beyond : Packet → Nat → UInt8 := fun _ _ ↦ 0

/-- `(file_size > PACKETSIZE) ? PACKETSIZE : file_size` -/
def dataSize (fileSize : UInt64) : UInt32 :=
  if fileSize > UInt64.ofNat packetSize then UInt32.ofNat packetSize else fileSize.toUInt32

/-- The loop of `read_file`: `rest` is what is left of the stream, `fileSize` the counter. -/
def readLoop (rest : List UInt8) (fileSize : UInt64) (i : UInt32) : List Packet :=
  -- a read of `packetSize` bytes sets the fail bit only when fewer are left
  ⟨i, dataSize fileSize, rest.take packetSize⟩ ::
    if packetSize ≤ rest.length then
      readLoop (rest.drop packetSize) (fileSize - UInt64.ofNat packetSize) (i + 1)
    else []
termination_by rest.length
decreasing_by
  simp only [List.length_drop]
  have hpos : 0 < packetSize := by decide
  omega

/-- The packets of a file. -/
def packetsOf (c : Contents) : List Packet := readLoop c.bytes (UInt64.ofNat c.bytes.length) 0

/-- The constructor `file_info(name_p, sync_dir)` -/
def fileInfo (m : Machine) (name : Name) (syncDir : Name) : Except Exn FileInfo :=
  if m.exists (syncDir ++ name) then
    match m.stat (syncDir ++ name) with
    | some x => .ok ⟨name, x.size, x.modifiedTime⟩
    | none => .error .filesystemError
  else .ok ⟨name, 0, 0⟩

/-- The constructor keeps the name it is given. -/
theorem fileInfo_name {m : Machine} {name syncDir : Name} {info : FileInfo}
    (hinfo : fileInfo m name syncDir = .ok info) : info.name = name := by
  rw [fileInfo] at hinfo
  split at hinfo
  · split at hinfo
    · cases hinfo
      rfl
    · cases hinfo
  · cases hinfo
    rfl

namespace FileHost

variable (h : FileHost)

/-- The path `write_file` opens. -/
def writePath (fileName path : Name) : Name :=
  if isAbsolute fileName then h.syncDir ++ filename fileName
  else if path ≠ [] then path ++ ['/'] ++ fileName
  else h.syncDir ++ fileName

/-- `write_file`.  With the default exception mask a stream that could not be opened ignores what
is written to it, so the result is always `true`. -/
def writeFile (fileName : Name) (fileData : List (Option Packet)) (path : Name) :
    Except Exn (Bool × FileHost) :=
  if fileData.all Option.isSome then
    .ok (true, { h with
      machine := h.machine.write (h.writePath fileName path)
        ((fileData.filterMap id).flatMap (Packet.written h.beyond)) })
  else .error .nullPointer

/-- The path `read_file` opens. -/
def readPath (fileName : Name) : Name :=
  if isAbsolute fileName then fileName else h.syncDir ++ ['/'] ++ fileName

/-- `read_file` -/
def readFile (fileName : Name) : Except Exn ReadResult :=
  if h.machine.exists (h.readPath fileName) then
    match h.machine.stat (h.readPath fileName) with
    | some x => .ok ⟨h.reported x.size, packetsOf x.contents⟩
    | none => .error .filesystemError
  else .error .fileDoesNotExist

/-- `get_file_info` -/
def getFileInfo (fileName : Name) : Except Exn FileInfo :=
  fileInfo h.machine (if isAbsolute fileName then filename fileName else fileName) h.syncDir

/-- `check_freshness` -/
def checkFreshness (file : FileInfo) : Except Exn Bool := do
  let myFile ← h.getFileInfo file.name
  return file.modifiedTime > myFile.modifiedTime

/-- The entry of `get_file_info_list` for one path of the directory. -/
def listEntry (accessedFile : Path) : Except Exn FileData := do
  let finfo ← fileInfo h.machine (accessedFile.getLast?.getD []) h.syncDir
  return ⟨finfo, UInt32.ofNat (countPackets finfo.size)⟩

/-- `get_file_info_list` -/
def getFileInfoList : Except Exn (List FileData) :=
  match h.machine.listRecursive h.syncDir with
  | some entries => entries.mapM h.listEntry
  | none => .error .filesystemError

/-- `delete_file` -/
def deleteFile (fileName : Name) : Except Exn (Bool × FileHost) :=
  if h.machine.exists (h.syncDir ++ fileName) then
    match h.machine.remove (h.syncDir ++ fileName) with
    | some m => .ok (true, { h with machine := m })
    | none => .error .filesystemError
  else .ok (false, h)

/-- `copy_file_to_sync_dir`, which catches what `copy_file` throws. -/
def copyFileToSyncDir (fileName : Name) : Bool × FileHost :=
  match h.machine.copyFile fileName (h.syncDir ++ filename fileName) with
  | some m => (true, { h with machine := m })
  | none => (false, h)

/-! ## What the functions come to

Reading a file that is there, and deleting one, without looking at the strings any more. -/

theorem readFile_of_stat {h : FileHost} {f : Name} {x : File}
    (hs : h.machine.stat (h.readPath f) = some x) :
    h.readFile f = .ok ⟨h.reported x.size, packetsOf x.contents⟩ := by
  rw [readFile, if_pos (Machine.exists_of_stat hs), hs]

/-- Where there is something to delete, it is deleted or an exception escapes. -/
theorem deleteFile_of_exists {h : FileHost} {f : Name}
    (hex : h.machine.exists (h.syncDir ++ f) = true) :
    (∃ s, h.deleteFile f = .ok (true, s)) ∨ h.deleteFile f = .error .filesystemError := by
  rw [deleteFile, if_pos hex]
  cases h.machine.remove (h.syncDir ++ f) with
  | none => exact .inr rfl
  | some m => exact .inl ⟨_, rfl⟩

/-- The host after the packets have been written to a file. -/
def store (fileName path : Name) (packets : List Packet) : FileHost :=
  { h with
    machine := h.machine.write (h.writePath fileName path)
      (packets.flatMap (Packet.written h.beyond)) }

theorem writeFile_some {h : FileHost} (fileName path : Name) (packets : List Packet) :
    h.writeFile fileName (packets.map some) path = .ok (true, h.store fileName path packets) := by
  have hall : (packets.map some).all Option.isSome = true := by simp
  have hid : (packets.map some).filterMap id = packets := by simp
  rw [writeFile, if_pos hall, hid, store]

end FileHost

/-! ## Operations of a program

The programs of `Client.lean` and `RequestHandler.lean` call the member functions as operations. -/

/-- The member functions of the file handler, as operations of a program. -/
inductive FileOp
  | writeFile (fileName : Name) (fileData : List (Option Packet)) (path : Name)
  | readFile (fileName : Name)
  | getFileInfo (fileName : Name)
  | checkFreshness (file : FileInfo)
  | getFileInfoList
  | deleteFile (fileName : Name)
  | copyFileToSyncDir (fileName : Name)

/-- The results of the operations. -/
@[reducible] def FileOp.Res : FileOp → Type
  | writeFile .. => Bool
  | readFile _ => ReadResult
  | getFileInfo _ => FileInfo
  | checkFreshness _ => Bool
  | getFileInfoList => List FileData
  | deleteFile _ => Bool
  | copyFileToSyncDir _ => Bool

/-- The meaning of the operations. -/
def FileOp.exec : (o : FileOp) → FileHost → Except Exn (o.Res × FileHost)
  | writeFile fileName fileData path, h => h.writeFile fileName fileData path
  | readFile fileName, h => (h.readFile fileName).map (·, h)
  | getFileInfo fileName, h => (h.getFileInfo fileName).map (·, h)
  | checkFreshness file, h => (h.checkFreshness file).map (·, h)
  | getFileInfoList, h => h.getFileInfoList.map (·, h)
  | deleteFile fileName, h => h.deleteFile fileName
  | copyFileToSyncDir fileName, h => .ok (h.copyFileToSyncDir fileName)

/-! The operations that only look leave the host as it is. -/

section Looking

variable {h : FileHost} {f : Name} {e : Exn}

theorem look_eq_ok_iff {γ : Type} {x : Except Exn γ} {v : γ} {s : FileHost} :
    x.map (·, h) = .ok (v, s) ↔ x = .ok v ∧ s = h := by
  cases x with
  | error e => simp [Except.map]
  | ok w => simp [Except.map, eq_comm]

theorem FileOp.exec_readFile {v : ReadResult} (hv : h.readFile f = .ok v) :
    (readFile f).exec h = .ok (v, h) := by
  simp [exec, hv, Except.map]

theorem FileOp.exec_readFile_error (hv : h.readFile f = .error e) :
    (readFile f).exec h = .error e := by
  simp [exec, hv, Except.map]

theorem FileOp.exec_getFileInfo {v : FileInfo} (hv : h.getFileInfo f = .ok v) :
    (getFileInfo f).exec h = .ok (v, h) := by
  simp [exec, hv, Except.map]

theorem FileOp.exec_getFileInfo_error (hv : h.getFileInfo f = .error e) :
    (getFileInfo f).exec h = .error e := by
  simp [exec, hv, Except.map]

theorem FileOp.exec_checkFreshness {file : FileInfo} {v : Bool}
    (hv : h.checkFreshness file = .ok v) : (checkFreshness file).exec h = .ok (v, h) := by
  simp [exec, hv, Except.map]

theorem FileOp.exec_getFileInfoList {v : List FileData} (hv : h.getFileInfoList = .ok v) :
    getFileInfoList.exec h = .ok (v, h) := by
  simp [exec, hv, Except.map]

theorem FileOp.exec_getFileInfoList_error (hv : h.getFileInfoList = .error e) :
    getFileInfoList.exec h = .error e := by
  simp [exec, hv, Except.map]

end Looking

/-- All that an operation does to the host. -/
theorem FileOp.exec_cases {h s : FileHost} {o : FileOp} {v : o.Res} (hx : o.exec h = .ok (v, s)) :
    s = h ∨
      (∃ f data path bytes, o = .writeFile f data path ∧
        s = { h with machine := h.machine.write (h.writePath f path) bytes }) ∨
      (∃ f m, o = .deleteFile f ∧ h.machine.remove (h.syncDir ++ f) = some m ∧
        s = { h with machine := m }) ∨
      ∃ f, o = .copyFileToSyncDir f := by
  cases o with
  | writeFile f data path =>
    simp only [exec, FileHost.writeFile] at hx
    split at hx
    · cases hx
      exact .inr (.inl ⟨f, data, path, _, rfl, rfl⟩)
    · cases hx
  | readFile f => exact .inl (look_eq_ok_iff.mp hx).2
  | getFileInfo f => exact .inl (look_eq_ok_iff.mp hx).2
  | checkFreshness file => exact .inl (look_eq_ok_iff.mp hx).2
  | getFileInfoList => exact .inl (look_eq_ok_iff.mp hx).2
  | deleteFile f =>
    simp only [exec, FileHost.deleteFile] at hx
    split at hx
    · split at hx
      · rename_i m hm
        cases hx
        exact .inr (.inr (.inl ⟨f, m, rfl, hm, rfl⟩))
      · cases hx
    · cases hx
      exact .inl rfl
  | copyFileToSyncDir f => exact .inr (.inr (.inr ⟨f, rfl⟩))

end Bropdox
