import Bropdox.FileSystem.Machine
import Mathlib.Tactic.Common

/-!
# Output streams over a storage that may fail

A `Storage` says what happens to one output stream: whether it can be opened, and how many bytes
each of its writes takes.  A stream keeps its failures to itself: one that could not be opened, or
that has taken less than it was given, is not `good` any more and ignores whatever else is written
to it.  Only under an exception mask does it throw.

## What is here

* `OutStream` is a stream, with `openFile`, `write` and `close`; `after` and `afterAll` are what is
  left of it after one write and after several.
* `Whole` says of some writes that none is limited to less than it is given.
* `afterAll_spec`: a good stream after some writes holds all of them if they were whole, and less
  and is not good any more if they were not; `afterAll_eq_iff` is the same for a fresh stream.
* `stat_close_eq_iff`: the file of a closed stream holds what was written exactly if no write was
  short and a file can be that large, whether or not there was a file before.
* `close_flawless`: where nothing fails, a stream does what `Machine.write` does.
-/

set_option autoImplicit false

namespace FileSystem

/-- What happens to one output stream. -/
structure Storage where
  /-- Whether it can be opened. -/
  opens : Bool
  /-- How many bytes each of the writes to come takes, where there is a limit. -/
  takes : Nat → Option Nat

/-- Nothing fails. -/
def Storage.flawless : Storage := ⟨true, fun _ ↦ none⟩

/-- An output stream. -/
structure OutStream where
  /-- What is open. -/
  target : Option Path
  /-- What has been written. -/
  content : Contents := .empty
  /-- No state bit is set. -/
  good : Bool
  /-- The stream throws when a failure is recorded. -/
  exceptions : Bool := false
  /-- The limits of the writes to come. -/
  takes : Nat → Option Nat

namespace OutStream

/-- Open a stream for writing. -/
def openFile (b : Storage) (m : Machine) (s : Name) : OutStream :=
  match m.resolve s with
  | some p =>
    if b.opens && !m.disk.isDir p then { target := some p, good := true, takes := b.takes }
    else { target := none, good := false, takes := b.takes }
  | none => { target := none, good := false, takes := b.takes }

/-- How many of some bytes the next write takes: no file has more than a file size can count. -/
def accepted (s : OutStream) (bytes : List UInt8) : Nat :=
  min (min ((s.takes 0).getD bytes.length) bytes.length) (2 ^ 64 - 1 - s.content.bytes.length)

theorem accepted_le (s : OutStream) (bytes : List UInt8) : s.accepted bytes ≤ bytes.length :=
  (min_le_left ..).trans (min_le_right ..)

/-- The contents after the next write. -/
def extended (s : OutStream) (bytes : List UInt8) : Contents where
  bytes := s.content.bytes ++ bytes.take (s.accepted bytes)
  fits := by
    have hfits := s.content.fits
    have hroom : s.accepted bytes ≤ 2 ^ 64 - 1 - s.content.bytes.length := min_le_right ..
    rw [List.length_append, List.length_take]
    omega

/-- What is left of a stream after a write. -/
def after (s : OutStream) (bytes : List UInt8) : OutStream :=
  if s.good then
    { s with
      content := s.extended bytes
      good := s.accepted bytes = bytes.length
      takes := fun n ↦ s.takes (n + 1) }
  else s

/-- Write some bytes; the error is what the stream throws, if it may. -/
def write (s : OutStream) (bytes : List UInt8) : Except OutStream OutStream :=
  if s.exceptions && !(s.after bytes).good then .error (s.after bytes) else .ok (s.after bytes)

/-- Close a stream: its contents are the file's. -/
def close (s : OutStream) (m : Machine) : Machine :=
  match s.target with
  | some p => m.put p s.content
  | none => m

theorem write_of_no_exceptions {s : OutStream} (h : s.exceptions = false) (bytes : List UInt8) :
    s.write bytes = .ok (s.after bytes) := by
  rw [write, h]
  rfl

/-- The stream after several writes. -/
def afterAll (s : OutStream) (data : List (List UInt8)) : OutStream := data.foldl after s

section After

variable {s : OutStream} (bytes : List UInt8) (data : List (List UInt8))

@[simp] theorem after_exceptions : (s.after bytes).exceptions = s.exceptions := by
  rw [after]
  split <;> rfl

@[simp] theorem after_target : (s.after bytes).target = s.target := by
  rw [after]
  split <;> rfl

/-- **What is written to a stream that is not good is ignored.** -/
theorem after_of_bad (h : s.good = false) : s.after bytes = s := by
  rw [after, h]
  rfl

@[simp] theorem afterAll_nil : s.afterAll [] = s := rfl

@[simp] theorem afterAll_cons : s.afterAll (bytes :: data) = (s.after bytes).afterAll data := rfl

@[simp] theorem afterAll_target : (s.afterAll data).target = s.target := by
  induction data generalizing s with
  | nil => rfl
  | cons bytes data ih => rw [afterAll_cons, ih, after_target]

theorem afterAll_of_bad (h : s.good = false) : s.afterAll data = s := by
  induction data with
  | nil => rfl
  | cons bytes data ih => rw [afterAll_cons, after_of_bad bytes h, ih]

end After

/-- Writes are whole when none of them is limited to less than it is given. -/
def Whole (takes : Nat → Option Nat) (data : List (List UInt8)) : Prop :=
  ∀ i bytes, data[i]? = some bytes → ∀ k, takes i = some k → bytes.length ≤ k

theorem whole_cons {takes : Nat → Option Nat} {bytes : List UInt8} {data : List (List UInt8)} :
    Whole takes (bytes :: data) ↔
      (∀ k, takes 0 = some k → bytes.length ≤ k) ∧ Whole (fun n ↦ takes (n + 1)) data := by
  constructor
  · exact fun h ↦ ⟨h 0 bytes rfl, fun i d hd ↦ h (i + 1) d hd⟩
  · rintro ⟨hhead, htail⟩ i d hd
    cases i with
    | zero =>
      obtain rfl : bytes = d := Option.some.inj hd
      exact hhead
    | succ i => exact htail i d hd

/-- A write is whole if it is not limited to less, and if there is room. -/
theorem accepted_eq_iff {s : OutStream} {bytes : List UInt8} :
    s.accepted bytes = bytes.length ↔
      (∀ k, s.takes 0 = some k → bytes.length ≤ k) ∧
        s.content.bytes.length + bytes.length < 2 ^ 64 := by
  have hfits := s.content.fits
  rw [accepted]
  cases s.takes 0 with
  | none =>
    simp only [Option.getD_none]
    constructor
    · intro h
      exact ⟨fun k hk ↦ by simp at hk, by omega⟩
    · rintro ⟨-, hroom⟩
      omega
  | some k =>
    simp only [Option.getD_some, Option.some.injEq, forall_eq']
    omega

/-- After a whole write a stream is good and holds it. -/
theorem after_of_whole {s : OutStream} (hs : s.good = true) {bytes : List UInt8}
    (h : s.accepted bytes = bytes.length) :
    (s.after bytes).good = true ∧ (s.after bytes).takes = (fun n ↦ s.takes (n + 1)) ∧
      (s.after bytes).content.bytes = s.content.bytes ++ bytes := by
  rw [after, if_pos hs]
  refine ⟨decide_eq_true h, rfl, ?_⟩
  have htake : bytes.take (s.accepted bytes) = bytes := by rw [h, List.take_length]
  exact congrArg _ htake

/-- After a short write a stream is not good, and holds less. -/
theorem after_of_short {s : OutStream} (hs : s.good = true) {bytes : List UInt8}
    (h : s.accepted bytes ≠ bytes.length) :
    (s.after bytes).good = false ∧
      (s.after bytes).content.bytes.length < s.content.bytes.length + bytes.length := by
  rw [after, if_pos hs]
  refine ⟨decide_eq_false h, ?_⟩
  have hle := s.accepted_le bytes
  simp only [extended, List.length_append, List.length_take]
  omega

/-- A good stream after some writes: either they were whole, and it holds them, or they were not,
and it holds less. -/
theorem afterAll_spec {s : OutStream} (hs : s.good = true) (data : List (List UInt8)) :
    ((Whole s.takes data ∧ s.content.bytes.length + data.flatten.length < 2 ^ 64) ∧
      (s.afterAll data).content.bytes = s.content.bytes ++ data.flatten) ∨
    (¬ (Whole s.takes data ∧ s.content.bytes.length + data.flatten.length < 2 ^ 64) ∧
      (s.afterAll data).content.bytes.length
        < s.content.bytes.length + data.flatten.length) := by
  induction data generalizing s with
  | nil =>
    refine .inl ⟨⟨fun i bytes hi ↦ ?_, s.content.fits⟩, (List.append_nil _).symm⟩
    simp at hi
  | cons bytes data ih =>
    simp only [afterAll_cons, whole_cons, List.flatten_cons, List.length_append]
    by_cases h : s.accepted bytes = bytes.length
    · obtain ⟨hgood, htakes, hcontent⟩ := after_of_whole hs h
      have hhead := (accepted_eq_iff.mp h).1
      have hih := ih hgood
      rw [htakes, hcontent, List.length_append, Nat.add_assoc, List.append_assoc] at hih
      rwa [and_iff_right hhead]
    · obtain ⟨hgood, hless⟩ := after_of_short hs h
      rw [afterAll_of_bad _ hgood]
      refine .inr ⟨?_, by omega⟩
      rintro ⟨⟨hhead, -⟩, hroom⟩
      exact h (accepted_eq_iff.mpr ⟨hhead, by omega⟩)

/-- **A fresh stream holds what is written to it exactly if every write is whole.** -/
theorem afterAll_eq_iff {s : OutStream} (hs : s.good = true) (hempty : s.content.bytes = [])
    (data : List (List UInt8)) :
    (s.afterAll data).content.bytes = data.flatten ↔
      Whole s.takes data ∧ data.flatten.length < 2 ^ 64 := by
  have hspec := afterAll_spec hs data
  rw [hempty, List.length_nil, Nat.zero_add, List.nil_append] at hspec
  rcases hspec with ⟨hwhole, heq⟩ | ⟨hnot, hless⟩
  · exact iff_of_true heq hwhole
  · exact iff_of_false (fun heq ↦ absurd hless (heq ▸ Nat.lt_irrefl _)) hnot

/-! ## Opening and closing

From the stream to the file on the disk. -/

/-- Whether a stream can be opened. -/
def Opens (b : Storage) (m : Machine) (s : Name) : Prop :=
  ∃ p, m.resolve s = some p ∧ m.disk.isDir p = false ∧ b.opens = true

theorem openFile_exceptions (b : Storage) (m : Machine) (s : Name) :
    (openFile b m s).exceptions = false := by
  rw [openFile]
  split
  · split <;> rfl
  · rfl

/-- A stream that has been opened. -/
theorem openFile_of_opens {b : Storage} {m : Machine} {s : Name} {p : Path}
    (hs : m.resolve s = some p) (hp : m.disk.isDir p = false) (hb : b.opens = true) :
    openFile b m s = { target := some p, good := true, takes := b.takes } := by
  rw [openFile, hs]
  simp [hp, hb]

/-- A stream that could not be opened writes nothing. -/
theorem close_of_not_opens {b : Storage} {m : Machine} {s : Name} (h : ¬ Opens b m s)
    (data : List (List UInt8)) : ((openFile b m s).afterAll data).close m = m := by
  have htarget : (openFile b m s).target = none := by
    rw [openFile]
    split
    · next p hp =>
      split
      · next hb =>
        simp only [Bool.and_eq_true, Bool.not_eq_true'] at hb
        exact absurd ⟨p, hp, hb.2, hb.1⟩ h
      · rfl
    · rfl
  rw [close, afterAll_target, htarget]

/-- The file at a path, after a stream has been opened there, written to and closed. -/
theorem stat_close {b : Storage} {m : Machine} {s : Name} (h : Opens b m s)
    (data : List (List UInt8)) :
    ((((openFile b m s).afterAll data).close m).stat s).map (fun x ↦ x.contents.bytes)
      = some (((openFile b m s).afterAll data).content.bytes) := by
  obtain ⟨p, hs, hp, hb⟩ := h
  have htarget : ((openFile b m s).afterAll data).target = some p := by
    rw [afterAll_target, openFile_of_opens hs hp hb]
  rw [close, htarget, Machine.stat_put_self hp _ hs]
  rfl

/-- What is at a path once some data has been written to a stream there. -/
def Lands (b : Storage) (m : Machine) (s : Name) (data : List (List UInt8)) : Prop :=
  (Opens b m s ∧ Whole b.takes data ∧ data.flatten.length < 2 ^ 64) ∨
    (¬ Opens b m s ∧ (m.stat s).map (fun x ↦ x.contents.bytes) = some data.flatten)

/-- **The data lands**: the file holds it exactly if the stream opens and takes all of it, or if it
does not open and the file has held it before. -/
theorem stat_close_eq_iff (b : Storage) (m : Machine) (s : Name) (data : List (List UInt8)) :
    ((((openFile b m s).afterAll data).close m).stat s).map (fun x ↦ x.contents.bytes)
      = some data.flatten ↔ Lands b m s data := by
  by_cases h : Opens b m s
  · rw [stat_close h, Option.some_inj]
    obtain ⟨p, hs, hp, hb⟩ := id h
    rw [openFile_of_opens hs hp hb, afterAll_eq_iff rfl rfl]
    simp only [Lands, h, true_and, not_true_eq_false, false_and, or_false]
  · rw [close_of_not_opens h]
    simp only [Lands, h, not_false_eq_true, true_and, false_and, false_or]

/-- Where nothing fails, a stream does what `Machine.write` does. -/
theorem close_flawless (m : Machine) (s : Name) {data : List (List UInt8)}
    (hdata : data.flatten.length < 2 ^ 64) :
    ((openFile .flawless m s).afterAll data).close m = m.write s data.flatten := by
  rw [Machine.write]
  split
  · next p hp =>
    cases hdir : m.disk.isDir p with
    | true =>
      have hnot : ¬ Opens .flawless m s := by
        rintro ⟨q, hq, hqdir, -⟩
        obtain rfl : p = q := Option.some.inj (hp.symm.trans hq)
        rw [hdir] at hqdir
        cases hqdir
      exact close_of_not_opens hnot data
    | false =>
      have hopen := openFile_of_opens hp hdir (b := .flawless) rfl
      have hwhole : Whole Storage.flawless.takes data := fun i bytes _ k hk ↦ by
        simp [Storage.flawless] at hk
      have hbytes : ((openFile .flawless m s).afterAll data).content.bytes = data.flatten := by
        rw [hopen, afterAll_eq_iff rfl rfl]
        exact ⟨hwhole, hdata⟩
      have hcontent : ((openFile .flawless m s).afterAll data).content = ⟨data.flatten, hdata⟩ :=
        Contents.ext hbytes
      rw [close, hcontent, afterAll_target, hopen, dif_pos hdata]
      rfl
  · next hp =>
    refine close_of_not_opens ?_ data
    rintro ⟨q, hq, -⟩
    rw [hp] at hq
    cases hq

end OutStream
end FileSystem
