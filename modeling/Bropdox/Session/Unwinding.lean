import Bropdox.Session.Solo

/-!
# What an endpoint says about its host

An endpoint learns about its host from its operations alone.  So two hosts that the operations
cannot tell apart cannot be told apart by a run either, which is the usual argument by unwinding.

## What is here

* `Sig.Unwinds` demands of the allowed operations that they come to the same on any two hosts that a
  relation calls alike, and that the hosts are alike again afterwards; `Sig.Preserves` that they
  preserve a property.
* `Minds` says that the next operation of an endpoint is allowed, and `Keeps` that every operation a
  run comes to is.
* `step_unwind` is the step lemma.
* `Run.unwind` and `Run.unwind_back`: a run that keeps to the allowed operations is the same run on
  a host that is alike, down to the last datagram, and there is no other one there.
* `Run.preserves`: such a run preserves on its own host what the allowed operations preserve.
-/

set_option autoImplicit false

namespace Session

variable {W : Wire} {P : Sig} {α : Type}

/-- On two hosts that are alike an allowed operation comes to the same, and leaves them alike. -/
def Sig.Unwinds (P : Sig) (alike : P.Host → P.Host → Prop) (ok : P.Host → P.Op → Prop) : Prop :=
  ∀ h h' o, alike h h' → ok h o →
    (∃ v s s', P.exec o h = .ok (v, s) ∧ P.exec o h' = .ok (v, s') ∧ alike s s') ∨
      ∃ x, P.exec o h = .error x ∧ P.exec o h' = .error x

/-- An allowed operation that does not throw preserves a property of the host. -/
def Sig.Preserves (P : Sig) (I : P.Host → Prop) (ok : P.Host → P.Op → Prop) : Prop :=
  ∀ h o v s, I h → ok h o → P.exec o h = .ok (v, s) → I s

namespace Endpoint

variable {read : Reading W} {body : Bodies W P} {alike : P.Host → P.Host → Prop}
  {ok : P.Host → P.Op → Prop} {I : P.Host → Prop} {e e' : Endpoint W P α} {i i' : Inbox W}
  {evs : List (Event W)} {h : P.Host}

/-- If the next thing an endpoint does is an operation, it is an allowed one. -/
def Minds (ok : P.Host → P.Op → Prop) (e : Endpoint W P α) : Prop :=
  ∀ o k, e.prog = .op o k → ok e.host o

/-- Every operation that an endpoint comes to is allowed. -/
def Keeps (read : Reading W) (body : Bodies W P) (ok : P.Host → P.Op → Prop) (e : Endpoint W P α)
    (i : Inbox W) : Prop :=
  ∀ evs e' i', Run read body e i evs e' i' → e'.Minds ok

theorem Keeps.minds (hk : e.Keeps read body ok i) : e.Minds ok := hk _ _ _ (.nil e i)

theorem Keeps.step {out : List (Parcel W)} (hk : e.Keeps read body ok i)
    (hs : e.step read body i = some (e', i', out)) : e'.Keeps read body ok i' :=
  fun _ _ _ hr ↦ hk _ _ _ (.cons hs hr)

theorem Keeps.of_step {out : List (Parcel W)} (hs : e.step read body i = some (e', i', out))
    (hm : e.Minds ok) (hk : e'.Keeps read body ok i') : e.Keeps read body ok i := by
  intro evs e'' i'' hr
  rcases (run_cons_iff hs).mp hr with ⟨-, rfl, -⟩ | ⟨evs', -, hr'⟩
  · exact hm
  · exact hk _ _ _ hr'

section Statements

variable {s : P.Host}

theorem keeps_ret (a : α) : Endpoint.Keeps read body ok ⟨h, .ret a⟩ i := by
  intro evs e' i' hr
  obtain ⟨-, rfl, -⟩ := (run_stuck_iff rfl).mp hr
  intro o k hp
  cases hp

theorem keeps_run {o : P.Op} {v : P.Res o} {k : P.Res o → Program W P α} (hm : ok h o)
    (ho : P.exec o h = .ok (v, s)) (hk : Endpoint.Keeps read body ok ⟨s, k v⟩ i) :
    Endpoint.Keeps read body ok ⟨h, (Program.run o).bind k⟩ i := by
  have hs : Endpoint.step read body ⟨h, (Program.run o).bind k⟩ i = some (⟨s, k v⟩, i, []) := by
    rw [Program.run, Program.bind, Endpoint.step, ho]
    rfl
  refine .of_step hs (fun o' k' hp ↦ ?_) hk
  cases hp
  exact hm

theorem keeps_emit {a : W.Addr} {κ : W.Kind} {d : W.Msg κ} {k : Unit → Program W P α}
    (hk : Endpoint.Keeps read body ok ⟨h, k ()⟩ i) :
    Endpoint.Keeps read body ok ⟨h, (Program.emit a κ d).bind k⟩ i :=
  .of_step rfl (fun _ _ hp ↦ by cases hp) hk

theorem keeps_await {κ : W.Kind} {a : W.Addr} {d : Datagram W} {m : W.Msg κ}
    {rest : List (Parcel W)} {k : Option (W.Msg κ) → Program W P α} (hm : read κ d = some m)
    (hk : Endpoint.Keeps read body ok ⟨h, k (some m)⟩ (some rest)) :
    Endpoint.Keeps read body ok ⟨h, (Program.await κ).bind k⟩ (some ((a, d) :: rest)) := by
  have hs : Endpoint.step read body ⟨h, (Program.await κ).bind k⟩ (some ((a, d) :: rest))
      = some (⟨h, k (some m)⟩, some rest, []) := by
    simp [Program.await, Program.bind, Endpoint.step, hm]
  exact .of_step hs (fun _ _ hp ↦ by cases hp) hk

end Statements

/-- A move on two hosts that are alike: there is none on either, or it is the same on both. -/
theorem step_unwind (hP : P.Unwinds alike ok) (hm : e.Minds ok) (ha : alike e.host h)
    (read : Reading W) (body : Bodies W P) (i : Inbox W) :
    (e.step read body i = none ∧ Endpoint.step read body ⟨h, e.prog⟩ i = none) ∨
      ∃ s s' q i' out, e.step read body i = some (⟨s, q⟩, i', out) ∧
        Endpoint.step read body ⟨h, e.prog⟩ i = some (⟨s', q⟩, i', out) ∧ alike s s' := by
  obtain ⟨s, p⟩ := e
  cases p with
  | ret a => exact .inl ⟨rfl, rfl⟩
  | throw x => exact .inl ⟨rfl, rfl⟩
  | op o k =>
    right
    rcases hP s h o ha (hm o k rfl) with ⟨v, t, t', hv, hv', ht⟩ | ⟨x, hx, hx'⟩
    · exact ⟨t, t', k (.ok v), i, [], by simp [step, hv], by simp [step, hv'], ht⟩
    · exact ⟨s, h, k (.error x), i, [], by simp [step, hx], by simp [step, hx'], ha⟩
  | send a d k => exact .inr ⟨s, h, k, i, [(a, d)], rfl, rfl, ha⟩
  | close k => exact .inr ⟨s, h, k, none, [], rfl, rfl, ha⟩
  | call l k => exact .inr ⟨s, h, _, i, [], rfl, rfl, ha⟩
  | wait κ k =>
    cases i with
    | none => exact .inl ⟨rfl, rfl⟩
    | some ps =>
      cases ps with
      | nil => exact .inl ⟨rfl, rfl⟩
      | cons p ps =>
        cases hread : read κ p.2 with
        | none => exact .inl ⟨by simp [step, hread], by simp [step, hread]⟩
        | some m =>
          exact .inr ⟨s, h, k (some (p.1, m)), some ps, [], by simp [step, hread],
            by simp [step, hread], ha⟩

/-- **A run is the same on a host that is alike.** -/
theorem Run.unwind (hP : P.Unwinds alike ok) (hr : Run read body e i evs e' i')
    (hk : e.Keeps read body ok i) (ha : alike e.host h) :
    ∃ s, Run read body ⟨h, e.prog⟩ i evs ⟨s, e'.prog⟩ i' ∧ alike e'.host s := by
  induction hr generalizing h with
  | nil e i => exact ⟨h, .nil .., ha⟩
  | @cons e e₁ e' i i₁ i' out evs hs hr ih =>
    rcases step_unwind hP hk.minds ha read body i with
      ⟨hnone, -⟩ | ⟨s, s', q, j, out', hone, hone', ha'⟩
    · rw [hnone] at hs
      cases hs
    · rw [hone] at hs
      cases hs
      obtain ⟨t, ht, hat⟩ := ih (hk.step hone) ha'
      exact ⟨t, .cons hone' ht, hat⟩

/-- **On a host that is alike there is no other run.** -/
theorem Run.unwind_back (hP : P.Unwinds alike ok) {e₂ : Endpoint W P α}
    (hr : Run read body e₂ i evs e' i') (hk : e.Keeps read body ok i) (hp : e₂.prog = e.prog)
    (ha : alike e.host e₂.host) :
    ∃ s, Run read body e i evs ⟨s, e'.prog⟩ i' ∧ alike s e'.host := by
  induction hr generalizing e with
  | nil e₂ i => exact ⟨e.host, hp ▸ .nil .., ha⟩
  | @cons e₂ e₁ e' i i₁ i' out evs hs hr ih =>
    obtain ⟨h₂, p⟩ := e₂
    obtain rfl : p = e.prog := hp
    rcases step_unwind hP hk.minds ha read body i with
      ⟨-, hnone⟩ | ⟨s, s', q, j, out', hone, hone', ha'⟩
    · rw [hnone] at hs
      cases hs
    · rw [hone'] at hs
      cases hs
      obtain ⟨t, ht, hat⟩ := ih (hk.step hone) rfl ha'
      exact ⟨t, .cons hone ht, hat⟩

/-- Only an operation changes the host. -/
theorem host_of_step {out : List (Parcel W)} (hs : e.step read body i = some (e', i', out)) :
    e'.host = e.host ∨ ∃ o k v, e.prog = .op o k ∧ P.exec o e.host = .ok (v, e'.host) := by
  obtain ⟨s, p⟩ := e
  cases p with
  | ret a => cases hs
  | throw x => cases hs
  | op o k =>
    cases hx : P.exec o s with
    | error x =>
      simp only [step, hx] at hs
      cases hs
      exact .inl rfl
    | ok r =>
      simp only [step, hx] at hs
      cases hs
      exact .inr ⟨o, k, r.1, rfl, hx⟩
  | send a d k =>
    cases hs
    exact .inl rfl
  | close k =>
    cases hs
    exact .inl rfl
  | call l k =>
    cases hs
    exact .inl rfl
  | wait κ k =>
    cases i with
    | none => cases hs
    | some ps =>
      cases ps with
      | nil => cases hs
      | cons p ps =>
        obtain ⟨m, -, hm⟩ := Option.map_eq_some_iff.mp hs
        cases hm
        exact .inl rfl

/-- **A run preserves what the allowed operations preserve.** -/
theorem Run.preserves (hP : P.Preserves I ok) (hr : Run read body e i evs e' i')
    (hk : e.Keeps read body ok i) (hI : I e.host) : I e'.host := by
  induction hr with
  | nil => exact hI
  | cons hs _ ih =>
    refine ih (hk.step hs) ?_
    rcases host_of_step hs with hsame | ⟨o, k, v, hp, hx⟩
    · rw [hsame]
      exact hI
    · exact hP _ o v _ hI (hk.minds o k hp) hx

end Endpoint
end Session
