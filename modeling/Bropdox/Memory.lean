import Bropdox.Fitting

/-!
# A household over real memory

`wait_packet<T>` makes a new `T`, lets the kernel copy into it what fits of the datagram, and takes
what it finds there for the message.  What that is depends on what was in the padding and behind the
strings when the message was sent, and on what was in the new `T` where the datagram is too short.

## What is here

* `ThroughMemory` says of a `Reading` that it can come about in this way, and it may be another one
  at every move.
* `ThroughMemory.fits` and `ThroughMemory.rightAbout`: whatever is read fits, and what fits is read
  as it was sent.
* `Representable` says of a household that all that is on its disks fits, and `RunBy` are its runs
  over such readings.
* `Sound.step_of_stepBy` and `Sound.run_of_runBy`: each step and each run of proper deeds that fit
  goes as it does with typed datagrams.
* `household_through_memory`: as long as the deeds are proper, fit, and do not fail on the client's
  own files, a household has exactly the runs over real memory that it has with typed datagrams.
* `punctualDesks_upload` is the upload of one file.
-/

set_option autoImplicit false

namespace Bropdox

open FileSystem Session Program SocketHandler Peers

open KeyedStore (Act)

open Relation (ReflTransGen)

/-! ## Readings

What a socket can make of a datagram. -/

/-- A reading that can come about by storing messages in some memory, copying what fits of it over
some other memory, and looking at that. -/
def ThroughMemory (read : Reading sessionWire) : Prop :=
  ∀ (κ : Kind) (d : Datagram sessionWire), ∃ mem fresh : List UInt8,
    mem.length = (Kind.layout d.1).size ∧ fresh.length = κ.layout.size ∧
      read κ d = κ.layout.load (κ.layout.received fresh ((Kind.layout d.1).store d.2 mem))

/-- The reading in which all memory was zero. -/
def zeroMemory : Reading sessionWire := fun (κ : Kind) d ↦
  κ.layout.load (κ.layout.received (.replicate κ.layout.size 0)
    ((Kind.layout d.1).store d.2 (.replicate (Kind.layout d.1).size 0)))

theorem throughMemory_zeroMemory : ThroughMemory zeroMemory := fun _ _ ↦
  ⟨_, _, List.length_replicate .., List.length_replicate .., rfl⟩

/-- Whatever is read fits. -/
theorem ThroughMemory.fits {read : Reading sessionWire} (hread : ThroughMemory read) :
    ReadsFitting read := by
  intro κ d m h
  obtain ⟨mem, fresh, -, hfresh, heq⟩ := hread κ d
  rw [heq] at h
  exact layout_fits.mp (κ.layout.fits_of_load (κ.layout.length_received hfresh _) h)

/-- What fits is read as it was sent. -/
theorem ThroughMemory.rightAbout {read : Reading sessionWire} (hread : ThroughMemory read) :
    RightAbout read FittingMessage := by
  intro κ m hm
  obtain ⟨mem, fresh, hmem, hfresh, heq⟩ := hread κ ⟨κ, m⟩
  rw [heq]
  exact (Kind.layout κ).load_received (layout_fits.mpr hm) hmem hfresh

/-! ## Sessions

The runs of a household over these readings, compared with those over typed datagrams. -/

namespace Household

variable {ι : Type}

/-- All that is on the disks fits. -/
structure Representable (w : Household ι) : Prop where
  /-- The clients. -/
  client : ∀ i, (w.client i).files.Representable
  /-- The server. -/
  server : w.server.Representable

variable [DecidableEq ι]

/-- One step of a household whose datagrams are read by any of some readings.  What happens to the
files of a device fits as well, and a deed does not fail on them. -/
inductive StepBy (readings : Reading sessionWire → Prop) (q : Path) :
    Household ι → List (Act Name Contents) → Household ι → Prop
  | edit (w : Household ι) (i : ι) {m : Machine} (hm : Bropdox.Representable m) :
      StepBy readings q w [] (w.edit i m)
  | deed {w : Household ι} {i : ι} {deed : Deed} {y : PeerPair Bool Bool} {a b : Bool}
      (hproper : w.Proper i deed) (hready : w.Ready q i deed) (hfits : deed.Fits)
      (hreach : ReflTransGen (Pair.StepBy readings peers) (w.start i deed) y)
      (hret : y.Returned a b) : StepBy readings q w (w.acts q i deed a) (w.leave i y)

/-- A run. -/
inductive RunBy (readings : Reading sessionWire → Prop) (q : Path) :
    Household ι → List (Act Name Contents) → Household ι → Prop
  | nil (w : Household ι) : RunBy readings q w [] w
  | snoc {w w' w'' : Household ι} {acts acts' : List (Act Name Contents)}
      (hr : RunBy readings q w acts w') (hs : StepBy readings q w' acts' w'') :
      RunBy readings q w (acts ++ acts') w''

section Sessions

variable {readings : Reading sessionWire → Prop} {w w' : Household ι} {q : Path} {i : ι}
  {acts : List (Act Name Contents)}

theorem Representable.edit (hfits : w.Representable) (i : ι) {m : Machine}
    (hm : Bropdox.Representable m) : (w.edit i m).Representable where
  client j := by
    by_cases hj : j = i
    · subst hj
      have hclient : ({ (w.client j).files with machine := m } : FileHost).Representable :=
        ⟨hm, (hfits.client j).trailing⟩
      simpa [Household.edit] using hclient
    · simpa [Household.edit, hj] using hfits.client j
  server := hfits.server

theorem Representable.leave (hfits : w.Representable) (i : ι) {y : PeerPair Bool Bool}
    (hy : fittingRule.Kept FileHost.Representable FileHost.Representable y) :
    (w.leave i y).Representable where
  client j := by
    by_cases hj : j = i
    · subst hj
      simpa [Household.leave] using hy.client
    · simpa [Household.leave, hj] using hfits.client j
  server := hy.server

omit [DecidableEq ι] in
/-- Nobody is confused in a session that completes, and all that is sent fits. -/
theorem Sound.fits_of_reaches (hw : w.Sound q) (hfits : w.Representable) {deed : Deed}
    (hproper : w.Proper i deed) (hready : w.Ready q i deed) (hdeed : deed.Fits)
    {y : PeerPair Bool Bool} (hy : ReflTransGen (Pair.Step peers) (w.start i deed) y) :
    ¬ y.Confused ∧ fittingRule.Kept FileHost.Representable FileHost.Representable y := by
  obtain ⟨t, a, b, hend, hret⟩ := hw.completes hproper hready
  refine ⟨hend.settlesIn.not_confused hret hy, ?_⟩
  rw [hw.start_eq] at hy
  exact NameRule.kept_in_session client_fits handler_fits
    (NameRule.kept_start (hfits.client i) hfits.server hdeed) hy

section Right

variable (hsome : ∃ read, readings read)
  (hread : ∀ read, readings read → RightAbout read FittingMessage)
include hsome hread

omit [DecidableEq ι] in
theorem Sound.reaches_by_iff (hw : w.Sound q) (hfits : w.Representable) {deed : Deed}
    (hproper : w.Proper i deed) (hready : w.Ready q i deed) (hdeed : deed.Fits)
    {y : PeerPair Bool Bool} :
    ReflTransGen (Pair.StepBy readings peers) (w.start i deed) y ↔
      ReflTransGen (Pair.Step peers) (w.start i deed) y :=
  Pair.reaches_by_iff hsome hread fun _ hz ↦
    (hw.fits_of_reaches hfits hproper hready hdeed hz).imp id fun hkept ↦
      ⟨fun p hp ↦ fits_of_says (hkept.unread.1 p hp), fun p hp ↦ fits_of_says (hkept.unread.2 p hp)⟩

/-- **One step** goes as it does with typed datagrams. -/
theorem Sound.step_of_stepBy (hw : w.Sound q) (hfits : w.Representable)
    (hs : StepBy readings q w acts w') : Step q w acts w' ∧ w'.Representable := by
  cases hs with
  | edit i hm => exact ⟨.edit w i _, hfits.edit i hm⟩
  | deed hproper hready hdeed hreach hret =>
    have hreach' := (hw.reaches_by_iff hsome hread hfits hproper hready hdeed).mp hreach
    obtain ⟨-, hy⟩ := hw.fits_of_reaches hfits hproper hready hdeed hreach'
    exact ⟨.deed hproper hreach' hret, hfits.leave _ hy⟩

/-- **A run** does, and it leaves everything as it should be. -/
theorem Sound.run_of_runBy (hw : w.Sound q) (hfits : w.Representable)
    (hrun : RunBy readings q w acts w') :
    Run q w acts w' ∧ w'.Sound q ∧ w'.Representable := by
  induction hrun with
  | nil => exact ⟨.nil w, hw, hfits⟩
  | snoc _ hs ih =>
    obtain ⟨hr, hw', hfits'⟩ := ih
    obtain ⟨hs', hfits''⟩ := hw'.step_of_stepBy hsome hread hfits' hs
    exact ⟨.snoc hr hs', (hw'.step hs').1, hfits''⟩

/-- Readings that are right can be exchanged. -/
theorem Sound.runBy_mono {readings' : Reading sessionWire → Prop}
    (hsome' : ∃ read, readings' read)
    (hread' : ∀ read, readings' read → RightAbout read FittingMessage)
    (hw : w.Sound q) (hfits : w.Representable) (hrun : RunBy readings q w acts w') :
    RunBy readings' q w acts w' := by
  induction hrun with
  | nil => exact .nil w
  | snoc hr hs ih =>
    obtain ⟨-, hw', hfits'⟩ := hw.run_of_runBy hsome hread hfits hr
    refine .snoc ih ?_
    cases hs with
    | edit i hm => exact .edit _ i hm
    | deed hproper hready hdeed hreach hret =>
      refine .deed hproper hready hdeed ?_ hret
      rw [hw'.reaches_by_iff hsome' hread' hfits' hproper hready hdeed]
      exact (hw'.reaches_by_iff hsome hread hfits' hproper hready hdeed).mp hreach

end Right
end Sessions
end Household

section Results

variable {ι : Type} [DecidableEq ι] {w w' : Household ι} {q : Path}
  {acts : List (Act Name Contents)}

/-- Typed datagrams are read as they were sent. -/
theorem rightAbout_typed {read : Reading sessionWire} {ok : Datagram sessionWire → Prop}
    (h : read = typed) : RightAbout read ok := fun _ _ _ ↦ h ▸ typed_self ..

/-- **A household over real memory**: whatever is in the padding, behind the strings and in the
messages that are read into, and whatever a datagram was meant to be, it has the runs it has with
typed datagrams; so that the server is a keyed store, and what is on the disks goes on fitting. -/
theorem household_through_memory (hw : w.Sound q) (hfits : w.Representable) :
    (Household.RunBy ThroughMemory q w acts w' ↔ Household.RunBy (· = typed) q w acts w') ∧
    (Household.RunBy ThroughMemory q w acts w' →
      w'.Sound q ∧ w'.contents q = KeyedStore.after (w.contents q) acts ∧ w'.Representable) := by
  have hsome : ∃ read, ThroughMemory read := ⟨_, throughMemory_zeroMemory⟩
  have hright : ∀ read, ThroughMemory read → RightAbout read FittingMessage :=
    fun _ ↦ ThroughMemory.rightAbout
  have hsome' : ∃ read : Reading sessionWire, read = typed := ⟨_, rfl⟩
  have hright' : ∀ read : Reading sessionWire, read = typed → RightAbout read FittingMessage :=
    fun _ ↦ rightAbout_typed
  refine ⟨⟨hw.runBy_mono hsome hright hsome' hright' hfits,
    hw.runBy_mono hsome' hright' hsome hright hfits⟩, fun hrun ↦ ?_⟩
  obtain ⟨hrun', -, hfits'⟩ := hw.run_of_runBy hsome hright hfits hrun
  obtain ⟨hw', hcontents⟩ := hw.run hrun'
  exact ⟨hw', hcontents, hfits'⟩

/-! ## Two devices

A household whose devices and server always show the same time, for which all conditions hold. -/

/-- Two devices of a user on which it is always the same time: one has a file `f`, the other one and
the server have none. -/
def punctualDesks : Household Bool where
  client
    | true => ⟨.ofFiles (fun _ ↦ 7) ['c'] [(['f'], ⟨.threeBytes, 5⟩)] countPackets, false⟩
    | false => ⟨.ofFiles (fun _ ↦ 7) ['d'] [] countPackets, false⟩
  socket _ := none
  inbox _ := some []
  server := .ofFiles (fun _ ↦ 7) ['s'] [] countPackets

theorem punctualDesks_sound : punctualDesks.Sound [['s']] where
  tidy i := ⟨.inl rfl, rfl, by cases i <;> rfl⟩
  flat := (FileHost.mirrors_ofFiles rfl (List.forall_mem_nil _)).flat
  counted f x hx := by
    have hx' : ((FileHost.ofFiles (fun _ ↦ 7) ['s'] [] countPackets).replica [['s']]).store f =
      some x := hx
    exact absurd (FileHost.mem_of_replica_ofFiles hx') List.not_mem_nil
  reported i := by cases i <;> rfl
  counts := rfl

theorem punctualDesks_representable : punctualDesks.Representable where
  client
    | true => representable_ofFiles (fun _ ↦ ⟨by decide, by decide⟩)
        (storable_singleton (by decide))
        (List.forall_mem_singleton.mpr ⟨storable_singleton (by decide), by decide, by decide⟩)
    | false => representable_ofFiles (fun _ ↦ ⟨by decide, by decide⟩)
        (storable_singleton (by decide)) (List.forall_mem_nil _)
  server := representable_ofFiles (fun _ ↦ ⟨by decide, by decide⟩) (storable_singleton (by decide))
    (List.forall_mem_nil _)

/-- The first device uploads its file, and the server has it. -/
theorem punctualDesks_upload : ∃ w acts,
    Household.RunBy ThroughMemory [['s']] punctualDesks acts w ∧ w.Sound [['s']] ∧
      w.contents [['s']] ['f'] = some .threeBytes := by
  have hw := punctualDesks_sound
  have hfits := punctualDesks_representable
  have hfound : punctualDesks.found true ['f'] = some ⟨.threeBytes, 5⟩ := rfl
  have hcounted : WellCounted (punctualDesks.client true).files .threeBytes :=
    wellCounted_of_lt rfl (by decide) (by decide)
  have hproper : punctualDesks.Proper true (.command (.upload ['f'])) := by
    refine ⟨plain_f, fun x hx ↦ .inr ?_⟩
    obtain rfl : ⟨.threeBytes, 5⟩ = x := Option.some_inj.mp hx
    exact hcounted
  have hready : punctualDesks.Ready [['s']] true (.command (.upload ['f'])) := ⟨rfl, _, rfl⟩
  have hdeed : (Deed.command (.upload ['f'])).Fits := storable_singleton (by decide)
  have hend := hw.upload_endsIn hfound rfl (hproper.2 _ hfound)
  rw [if_neg hcounted.pos] at hend
  have hsome : ∃ read : Reading sessionWire, read = typed := ⟨typed, rfl⟩
  have hreach := (hw.reaches_by_iff hsome (fun _ ↦ rightAbout_typed) hfits hproper hready
    hdeed).mpr hend.1
  have hrun : Household.RunBy (· = typed) [['s']] punctualDesks _ _ :=
    .snoc (.nil _) (.deed hproper hready hdeed hreach ⟨rfl, rfl⟩)
  have hthrough := (household_through_memory hw hfits).1.mpr hrun
  obtain ⟨hw', hcontents, -⟩ := (household_through_memory hw hfits).2 hthrough
  refine ⟨_, _, hthrough, hw', ?_⟩
  rw [hcontents]
  exact KeyedStore.after_eq_some_iff.mpr (.inl ⟨rfl, [], [], rfl, by simp⟩)

end Results
end Bropdox
