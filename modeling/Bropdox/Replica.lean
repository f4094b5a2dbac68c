import Bropdox.FileSystem.FlatDir
import Bropdox.Messages

/-!
# What a synchronisation is for

The specification, in terms of stores and nothing else.  How two programs that exchange datagrams
bring this about is the matter of `Sync.lean`.

## What is here

* `Replica` is a store with the times its clock will show at the writes to come.
* `applyEvent` and `applyEvents` say what a list of events does to the server: a created or modified
  file is taken over when it was edited after the server's copy was written (`Accepts`), a removed
  file goes.
* `pullFile` and `pull` say what the client then takes: every file the server has a later copy of.
* `Pulled` says the same file by file, and `Lists.pulled` that pulling a list of names comes to
  that; so it does not matter in which order the files are offered.
-/

set_option autoImplicit false

namespace Bropdox

open FileSystem

/-- A store with a clock. -/
@[ext] structure Replica where
  /-- The files. -/
  store : Store
  /-- The readings of the clock at the writes to come. -/
  clock : Nat → Int

/-- The file an event is about. -/
def FileEvent.fileName (event : FileEvent) : Name := filename event.file.name

namespace Replica

/-- Save a file, with the time it is now. -/
def save (r : Replica) (f : Name) (c : Contents) : Replica where
  store := r.store.save f ⟨c, r.clock 0⟩
  clock n := r.clock (n + 1)

@[simp] theorem save_store (r : Replica) (f : Name) (c : Contents) :
    (r.save f c).store = r.store.save f ⟨c, r.clock 0⟩ := rfl

/-- Remove a file. -/
def remove (r : Replica) (f : Name) : Replica := { r with store := r.store.remove f }

@[simp] theorem remove_store (r : Replica) (f : Name) :
    (r.remove f).store = r.store.remove f := rfl

/-- Whether the server accepts the creation or modification of a file: it happened after the
server's copy was written. -/
def Accepts (r : Replica) (event : FileEvent) : Prop :=
  (event.event = .create ∨ event.event = .modify) ∧
    event.file.modifiedTime > r.store.modifiedTime event.fileName

instance (r : Replica) (event : FileEvent) : Decidable (r.Accepts event) :=
  inferInstanceAs (Decidable (_ ∧ _))

/-- What an event does to the server's replica, `client` being the store of the client. -/
def applyEvent (client : Store) (r : Replica) (event : FileEvent) : Replica :=
  if r.Accepts event then
    match client event.fileName with
    | some x => r.save event.fileName x.contents
    | none => r
  else if event.event = .remove then r.remove event.fileName
  else r

theorem ne_remove_of_write {event : FileEvent}
    (he : event.event = .create ∨ event.event = .modify) : event.event ≠ .remove := by
  rcases he with he | he <;> rw [he] <;> decide

theorem ne_close_of_write {event : FileEvent}
    (he : event.event = .create ∨ event.event = .modify) : event.event ≠ .close := by
  rcases he with he | he <;> rw [he] <;> decide

/-- A removal is not asked about. -/
theorem not_accepts_of_remove (r : Replica) {event : FileEvent} (he : event.event = .remove) :
    ¬ r.Accepts event :=
  fun hacc ↦ ne_remove_of_write hacc.1 he

theorem applyEvent_accepted {client : Store} {r : Replica} {event : FileEvent} {x : File}
    (hacc : r.Accepts event) (hx : client event.fileName = some x) :
    r.applyEvent client event = r.save event.fileName x.contents := by
  rw [applyEvent, if_pos hacc, hx]

theorem applyEvent_remove (client : Store) (r : Replica) {event : FileEvent}
    (he : event.event = .remove) : r.applyEvent client event = r.remove event.fileName := by
  rw [applyEvent, if_neg (not_accepts_of_remove r he), if_pos he]

theorem applyEvent_stale (client : Store) {r : Replica} {event : FileEvent}
    (hstale : ¬ r.Accepts event) (he : event.event ≠ .remove) : r.applyEvent client event = r := by
  rw [applyEvent, if_neg hstale, if_neg he]

/-- All that one event can do: nothing, save a file that was accepted, or remove one. -/
theorem applyEvent_cases (client : Store) (r : Replica) (event : FileEvent) :
    r.applyEvent client event = r ∨
      (∃ x, r.Accepts event ∧ client event.fileName = some x ∧
        r.applyEvent client event = r.save event.fileName x.contents) ∨
      (event.event = .remove ∧ r.applyEvent client event = r.remove event.fileName) := by
  by_cases hacc : r.Accepts event
  · cases hx : client event.fileName with
    | none =>
      left
      rw [applyEvent, if_pos hacc, hx]
    | some x => exact .inr (.inl ⟨x, hacc, rfl, applyEvent_accepted hacc hx⟩)
  · by_cases he : event.event = .remove
    · exact .inr (.inr ⟨he, applyEvent_remove client r he⟩)
    · exact .inl (applyEvent_stale client hacc he)

/-- What a list of events does to the server's replica. -/
def applyEvents (client : Store) (r : Replica) (events : List FileEvent) : Replica :=
  events.foldl (applyEvent client) r

/-- The client takes a file over if the server's copy is later than its own. -/
def pullFile (server : Store) (r : Replica) (f : Name) : Replica :=
  if server.modifiedTime f > r.store.modifiedTime f then
    match server f with
    | some x => r.save f x.contents
    | none => r
  else r

/-- The client takes over every file that the server has a later copy of. -/
def pull (server : Store) (r : Replica) (names : List Name) : Replica :=
  names.foldl (pullFile server) r

theorem pullFile_of_ne (server : Store) (r : Replica) {f g : Name} (h : g ≠ f) :
    (r.pullFile server f).store g = r.store g := by
  rw [pullFile]
  split
  · split
    · exact Store.save_of_ne _ _ h
    · rfl
  · rfl

theorem pull_of_notMem (server : Store) (r : Replica) {names : List Name} {g : Name}
    (h : g ∉ names) : (r.pull server names).store g = r.store g := by
  induction names generalizing r with
  | nil => rfl
  | cons f names ih =>
    rw [List.mem_cons, not_or] at h
    rw [pull, List.foldl_cons, ← pull, ih _ h.2, pullFile_of_ne _ _ h.1]

/-- What the client holds after it has taken over what the server has later copies of. -/
def Pulled (server client final : Store) : Prop :=
  ∀ f, match server f with
    | some x =>
      if x.modifiedTime > client.modifiedTime f then
        (final f).map File.contents = some x.contents
      else final f = client f
    | none => final f = client f

/-- The clock moves on by the writes. -/
theorem pull_clock (server : Store) (r : Replica) (names : List Name) :
    ∃ k, ∀ n, (r.pull server names).clock n = r.clock (n + k) := by
  induction names generalizing r with
  | nil => exact ⟨0, fun _ ↦ rfl⟩
  | cons f names ih =>
    obtain ⟨k, hk⟩ := ih (r.pullFile server f)
    have hone : ∃ j, ∀ n, (r.pullFile server f).clock n = r.clock (n + j) := by
      rw [pullFile]
      split
      · split
        · exact ⟨1, fun _ ↦ rfl⟩
        · exact ⟨0, fun _ ↦ rfl⟩
      · exact ⟨0, fun _ ↦ rfl⟩
    obtain ⟨j, hj⟩ := hone
    exact ⟨k + j, fun n ↦ by
      rw [pull, List.foldl_cons, ← pull, hk, hj, Nat.add_assoc]⟩

/-- A file is decided when its turn comes: the client's copy is then what it was at first. -/
theorem pull_at (server : Store) (r : Replica) {names : List Name} {f : Name} (hnd : names.Nodup)
    (hf : f ∈ names) : ∃ s : Replica, s.store f = r.store f ∧ (∃ k, s.clock 0 = r.clock k) ∧
      (r.pull server names).store f = (s.pullFile server f).store f := by
  obtain ⟨front, back, rfl⟩ := List.append_of_mem hf
  have hfront : f ∉ front := fun hf' ↦ (List.disjoint_of_nodup_append hnd) hf' List.mem_cons_self
  have hback : f ∉ back := (List.nodup_cons.mp (List.nodup_append.mp hnd).2.1).1
  obtain ⟨k, hk⟩ := pull_clock server r front
  refine ⟨r.pull server front, pull_of_notMem _ _ hfront, ⟨0 + k, hk 0⟩, ?_⟩
  rw [pull, List.foldl_append, List.foldl_cons, ← pull, ← pull, pull_of_notMem _ _ hback]

/-- **A file that is taken over carries a reading of the client's clock.** -/
theorem pull_of_later {server : Store} {r : Replica} {names : List Name} {f : Name} {x : File}
    (hnd : names.Nodup) (hf : f ∈ names) (hx : server f = some x)
    (hlate : x.modifiedTime > r.store.modifiedTime f) :
    ∃ n, (r.pull server names).store f = some ⟨x.contents, r.clock n⟩ := by
  obtain ⟨s, hs, ⟨k, hk⟩, hat⟩ := pull_at server r hnd hf
  have hlater : server.modifiedTime f > s.store.modifiedTime f := by
    rw [Store.modifiedTime, hx, Store.modifiedTime, hs]
    exact hlate
  refine ⟨k, ?_⟩
  rw [hat, pullFile, if_pos hlater, hx, ← hk]
  exact Store.save_self ..

/-- A file of which the server has no later copy stays as it is. -/
theorem pull_of_not_later {server : Store} {r : Replica} {names : List Name} {f : Name}
    (hnd : names.Nodup) (hold : ¬ server.modifiedTime f > r.store.modifiedTime f) :
    (r.pull server names).store f = r.store f := by
  by_cases hf : f ∈ names
  · obtain ⟨s, hs, -, hat⟩ := pull_at server r hnd hf
    have hsame : ¬ server.modifiedTime f > s.store.modifiedTime f := by
      rw [Store.modifiedTime, Store.modifiedTime, hs]
      exact hold
    rw [hat, pullFile, if_neg hsame, hs]
  · exact pull_of_notMem _ _ hf

/-- The names of the files of a store, each once. -/
structure Lists (names : List Name) (st : Store) : Prop where
  /-- No name comes twice. -/
  nodup : names.Nodup
  /-- The names are those of the files. -/
  mem_iff : ∀ f, f ∈ names ↔ ∃ x, st f = some x

/-- **Pulling is pointwise**: each file is decided by the two copies of that file. -/
theorem Lists.pulled {server : Store} {names : List Name} (hl : Lists names server) (r : Replica) :
    Pulled server r.store (r.pull server names).store := by
  intro f
  cases hx : server f with
  | none =>
    refine pull_of_notMem _ _ fun hf ↦ ?_
    obtain ⟨x, hx'⟩ := (hl.mem_iff f).mp hf
    rw [hx] at hx'
    cases hx'
  | some x =>
    have htime : server.modifiedTime f = x.modifiedTime := by rw [Store.modifiedTime, hx]; rfl
    by_cases hlate : x.modifiedTime > r.store.modifiedTime f
    · obtain ⟨n, hn⟩ := pull_of_later hl.nodup ((hl.mem_iff f).mpr ⟨x, hx⟩) hx hlate
      simp [hlate, hn]
    · simp [hlate, pull_of_not_later hl.nodup (htime ▸ hlate)]

/-- Where the client has everything, nothing is taken over. -/
theorem pull_eq_self {server : Store} {r : Replica}
    (hold : ∀ f x, server f = some x → ¬ x.modifiedTime > r.store.modifiedTime f)
    (names : List Name) : r.pull server names = r := by
  have hone : ∀ f, r.pullFile server f = r := by
    intro f
    rw [pullFile]
    split
    · rename_i hlate
      cases hx : server f with
      | none => rfl
      | some x =>
        rw [Store.modifiedTime, hx] at hlate
        exact absurd hlate (hold f x hx)
    · rfl
  induction names with
  | nil => rfl
  | cons f names ih => rw [pull, List.foldl_cons, hone, ← pull, ih]

end Replica
end Bropdox
