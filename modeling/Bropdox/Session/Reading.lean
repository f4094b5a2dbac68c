import Bropdox.Session.Conduct
import Bropdox.Session.Transcripts

/-!
# Sessions over a real socket

A real socket does not know as what a datagram was sent: what `wait_packet<T>` finds in it is a
`Reading`, and with what lies around in memory it may be another one each time.  Two things can be
said without knowing more about the readings.

A program that follows a code of conduct follows it among strangers, whatever arrives and however it
is read, if only nothing is read that may not arrive (`Endpoint.RunBy.heeds`).  And where everything
that is sent is read as it was sent by whoever waits for it as that, a session in which nobody waits
for anything else goes as it does with typed datagrams (`Pair.reaches_by_iff`).
-/

set_option autoImplicit false

namespace Session

open Relation (ReflTransGen)

variable {W : Wire} {P Q : Sig} {α β : Type}

/-! ## Conduct

An endpoint whose program follows a code goes on following it, whatever the readings make of the
datagrams, as long as they make of them what the code may hear. -/

section Conduct

variable {c : Code W P} {read : Reading W} {body : Bodies W P} {I : P.Host → Prop}
  {e e' : Endpoint W P α} {i i' : Inbox W}

/-- One move of an endpoint that follows a code. -/
theorem Endpoint.heeds_step (hc : c.Sound body I)
    (hread : ∀ κ d m, read κ d = some m → c.hear ⟨κ, m⟩) {out : List (Parcel W)}
    (hp : e.prog.Heeds c body) (hI : I e.host) (hs : e.step read body i = some (e', i', out)) :
    e'.prog.Heeds c body ∧ I e'.host ∧ ∀ p ∈ out, c.send p.2 := by
  obtain ⟨h, q⟩ := e
  cases hp with
  | stop hp => exact hp.elim
  | ret a => cases hs
  | throw x => cases hs
  | @op o k ho hk =>
    simp only [step] at hs
    cases hx : P.exec o h with
    | error x =>
      rw [hx] at hs
      cases hs
      exact ⟨hk _ (hc.error o h x ho hI hx), hI, List.forall_mem_nil _⟩
    | ok r =>
      rw [hx] at hs
      cases hs
      obtain ⟨hres, hI'⟩ := hc.ok o h r.1 r.2 ho hI hx
      exact ⟨hk _ hres, hI', List.forall_mem_nil _⟩
  | send hd hk =>
    cases hs
    exact ⟨hk, hI, List.forall_mem_singleton.mpr hd⟩
  | close hk =>
    cases hs
    exact ⟨hk, hI, List.forall_mem_nil _⟩
  | call hl hk =>
    cases hs
    exact ⟨Program.follows_bind (hc.bodies _ hl) hk, hI, List.forall_mem_nil _⟩
  | unfold hk =>
    cases hs
    exact ⟨hk, hI, List.forall_mem_nil _⟩
  | wait hk =>
    rcases i with _ | _ | ⟨d, i⟩
    · cases hs
    · cases hs
    · obtain ⟨m, hm, hs⟩ := Option.map_eq_some_iff.mp hs
      cases hs
      exact ⟨hk d.1 m (hread _ _ _ hm), hI, List.forall_mem_nil _⟩

/-- A run of an endpoint among strangers, with what it sends: at every move anything may be in its
inbox and be read by any of some readings. -/
inductive Endpoint.RunBy (readings : Reading W → Prop) (body : Bodies W P) (e : Endpoint W P α) :
    List (Parcel W) → Endpoint W P α → Prop
  | nil : RunBy readings body e [] e
  | snoc {e' e'' : Endpoint W P α} {sent out : List (Parcel W)} {read : Reading W}
      {i i' : Inbox W} (hr : RunBy readings body e sent e') (hread : readings read)
      (hs : e'.step read body i = some (e'', i', out)) : RunBy readings body e (sent ++ out) e''

/-- **A run of an endpoint that follows a code**, whatever arrives. -/
theorem Endpoint.RunBy.heeds {readings : Reading W → Prop} {sent : List (Parcel W)}
    (hc : c.Sound body I)
    (hread : ∀ read, readings read → ∀ κ d m, read κ d = some m → c.hear ⟨κ, m⟩)
    (hr : Endpoint.RunBy readings body e sent e') (hp : e.prog.Heeds c body) (hI : I e.host) :
    e'.prog.Heeds c body ∧ I e'.host ∧ ∀ p ∈ sent, c.send p.2 := by
  induction hr with
  | nil => exact ⟨hp, hI, List.forall_mem_nil _⟩
  | snoc _ hreading hs ih =>
    obtain ⟨hp', hI', hsent⟩ := ih
    obtain ⟨hp'', hI'', hout⟩ := Endpoint.heeds_step hc (hread _ hreading) hp' hI' hs
    exact ⟨hp'', hI'', List.forall_mem_append.mpr ⟨hsent, hout⟩⟩

end Conduct

/-! ## Sessions

Two endpoints that make what they can of a datagram, by readings that may change from move to move.
While nobody waits for one kind when another is next, and the readings are right about what may be
sent, they make the moves of a session over typed datagrams and no others. -/

section Sessions

variable {readings : Reading W → Prop} {L : Link W P Q} {x y : Pair W P Q α β}

/-- One move of a session whose sides make what they can of a datagram, by any of some readings. -/
inductive Pair.StepBy (readings : Reading W → Prop) (L : Link W P Q) :
    Pair W P Q α β → Pair W P Q α β → Prop
  | left {x : Pair W P Q α β} {read : Reading W} {e : Endpoint W P α} {i : Inbox W}
      {out : List (Parcel W)} (hr : readings read)
      (h : x.left.step read L.leftBody x.toLeft = some (e, i, out)) :
      StepBy readings L x (x.afterLeft L e i out)
  | right {x : Pair W P Q α β} {read : Reading W} {e : Endpoint W Q β} {i : Inbox W}
      {out : List (Parcel W)} (hr : readings read)
      (h : x.right.step read L.rightBody x.toRight = some (e, i, out)) :
      StepBy readings L x (x.afterRight L e i out)

/-- A reading is right about what may be sent. -/
def RightAbout (read : Reading W) (ok : Datagram W → Prop) : Prop :=
  ∀ κ m, ok ⟨κ, m⟩ → read κ ⟨κ, m⟩ = some m

/-- An endpoint that is not confused moves as with typed datagrams. -/
theorem Endpoint.step_eq_typed {read : Reading W} {ok : Datagram W → Prop}
    (hread : RightAbout read ok) {body : Bodies W P} {e : Endpoint W P α} {i : Inbox W}
    (hconf : ¬ e.Confused i) (hi : ∀ p ∈ i.getD [], ok p.2) :
    e.step read body i = e.step typed body i := by
  obtain ⟨h, q⟩ := e
  cases q with
  | wait κ k =>
    rcases i with _ | _ | ⟨⟨a, κ', m⟩, i⟩
    · rfl
    · rfl
    · obtain rfl : κ' = κ := by
        by_contra hne
        exact hconf ⟨κ, k, a, ⟨κ', m⟩, i, rfl, rfl, hne⟩
      rw [step, step, hread _ _ (hi _ List.mem_cons_self), typed_self]
  | _ => rfl

/-- What is unread on both sides may be sent. -/
def Pair.Unread (ok : Datagram W → Prop) (x : Pair W P Q α β) : Prop :=
  (∀ p ∈ x.toLeft.getD [], ok p.2) ∧ ∀ p ∈ x.toRight.getD [], ok p.2

section Right

variable {ok : Datagram W → Prop} (hsome : ∃ read, readings read)
  (hread : ∀ read, readings read → RightAbout read ok)
include hsome hread

theorem Pair.stepBy_iff (hconf : ¬ x.Confused) (hx : x.Unread ok) :
    Pair.StepBy readings L x y ↔ Pair.Step L x y := by
  rw [Pair.Confused, not_or] at hconf
  have hleft {read} (hr : readings read) : x.left.step read L.leftBody _ = _ :=
    Endpoint.step_eq_typed (hread read hr) hconf.1 hx.1
  have hright {read} (hr : readings read) : x.right.step read L.rightBody _ = _ :=
    Endpoint.step_eq_typed (hread read hr) hconf.2 hx.2
  obtain ⟨read, hr⟩ := hsome
  constructor
  · rintro (⟨hr', h⟩ | ⟨hr', h⟩)
    · exact .left (hleft hr' ▸ h)
    · exact .right (hright hr' ▸ h)
  · rintro (h | h)
    · exact .left hr ((hleft hr).symm ▸ h)
    · exact .right hr ((hright hr).symm ▸ h)

/-- **A session in which nobody is confused reaches the same states over a real socket.** -/
theorem Pair.reaches_by_iff
    (hx : ∀ y, ReflTransGen (Pair.Step L) x y → ¬ y.Confused ∧ y.Unread ok) :
    ReflTransGen (Pair.StepBy readings L) x y ↔ ReflTransGen (Pair.Step L) x y := by
  constructor
  · intro h
    induction h with
    | refl => exact .refl
    | tail _ hs ih =>
      exact ih.tail ((Pair.stepBy_iff hsome hread (hx _ ih).1 (hx _ ih).2).mp hs)
  · intro h
    induction h with
    | refl => exact .refl
    | tail h hs ih =>
      exact ih.tail ((Pair.stepBy_iff hsome hread (hx _ h).1 (hx _ h).2).mpr hs)

end Right
end Sessions
end Session
