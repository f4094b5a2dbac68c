import Bropdox.Session.Pair

/-!
# Endpoints that only talk

An endpoint that does not wait for anything moves without regard to what arrives at its socket.
`Endpoint.Says` collects what it sends on the way, statement by statement, and `Pair.endsIn_says`
takes all of it at once in a session with somebody else.
-/

set_option autoImplicit false

namespace Session

variable {W : Wire} {P Q : Sig} {α β γ : Type}

/-- Without reading anything, an endpoint sends `out` and goes on as another one. -/
inductive Endpoint.Says (body : Bodies W P) :
    Endpoint W P α → List (Parcel W) → Endpoint W P α → Prop
  | refl (e : Endpoint W P α) : Says body e [] e
  | cons {e e' e'' : Endpoint W P α} {out out' : List (Parcel W)}
      (hs : ∀ i, e.step typed body i = some (e', i, out)) (h : Says body e' out' e'') :
      Says body e (out ++ out') e''

namespace Endpoint

section Rules

variable {body : Bodies W P} {e e' e'' : Endpoint W P α} {out out' : List (Parcel W)} {h s : P.Host}

theorem Says.trans (hs : Says body e out e') (hs' : Says body e' out' e'') :
    Says body e (out ++ out') e'' := by
  induction hs with
  | refl => exact hs'
  | cons hstep _ ih =>
    rw [List.append_assoc]
    exact .cons hstep (ih hs')

/-- An endpoint says after a move that sends nothing what it said before. -/
theorem Says.silent (hstep : ∀ i, e.step typed body i = some (e', i, []))
    (hs : Says body e' out e'') : Says body e out e'' := by
  rw [← List.nil_append out]
  exact .cons hstep hs

theorem Says.run {o : P.Op} {v : P.Res o} {k : P.Res o → Program W P α}
    (ho : P.exec o h = .ok (v, s)) (hs : Says body ⟨s, k v⟩ out e'') :
    Says body ⟨h, (Program.run o).bind k⟩ out e'' :=
  .silent (fun i ↦ by rw [Program.run, Program.bind, step, ho]; rfl) hs

theorem Says.run_error {o : P.Op} {x : P.Exn} {k : P.Res o → Program W P α}
    (ho : P.exec o h = .error x) : Says body ⟨h, (Program.run o).bind k⟩ [] ⟨h, .throw x⟩ :=
  .silent (fun i ↦ by rw [Program.run, Program.bind, step, ho]; rfl) (.refl _)

theorem Says.emit {a : W.Addr} {κ : W.Kind} {d : W.Msg κ} {k : Unit → Program W P α}
    (hs : Says body ⟨h, k ()⟩ out e'') :
    Says body ⟨h, (Program.emit a κ d).bind k⟩ ((a, ⟨κ, d⟩) :: out) e'' := by
  rw [← List.singleton_append]
  exact .cons (fun _ ↦ rfl) hs

/-- A move that needs nothing that has arrived is the same whatever a socket reads. -/
theorem step_of_forall (hstep : ∀ i, e.step typed body i = some (e', i, out))
    (read : Reading W) (i : Inbox W) : e.step read body i = some (e', i, out) := by
  obtain ⟨h, p⟩ := e
  cases p with
  | wait κ k => cases hstep none
  | _ => exact hstep i

/-- What an endpoint does first. -/
theorem Says.first (hs : Says body e out e'') : (out = [] ∧ e'' = e) ∨
    ∃ e' o out', out = o ++ out' ∧ (∀ read i, e.step read body i = some (e', i, o)) ∧
      Says body e' out' e'' := by
  cases hs with
  | refl => exact .inl ⟨rfl, rfl⟩
  | cons hstep h => exact .inr ⟨_, _, _, rfl, step_of_forall hstep, h⟩

/-- An endpoint that waits says nothing. -/
theorem Says.of_wait {κ : W.Kind} {k : Option (W.Addr × W.Msg κ) → Program W P α}
    (hs : Says body ⟨h, .wait κ k⟩ out e'') : out = [] ∧ e'' = ⟨h, .wait κ k⟩ := by
  cases hs with
  | refl => exact ⟨rfl, rfl⟩
  | cons hstep _ => cases hstep none

end Rules
end Endpoint

/-- **In a session, all that an endpoint says is said at once.** -/
theorem Pair.endsIn_says {L : Link W P Q} {l l' : Endpoint W P α} {r : Endpoint W Q β}
    {out : List (Parcel W)} (hs : l.Says L.leftBody out l') {i j : Inbox W}
    {m m' : List (Parcel W)} {t : Pair W P Q α β} :
    Pair.EndsIn L ⟨l, r, i, j, m, m'⟩ t ↔
      Pair.EndsIn L ⟨l', r, i, deliver j (forPeer L.leftAddr L.rightAddr out),
        m ++ forOthers L.rightAddr out, m'⟩ t := by
  induction hs generalizing j m with
  | refl => simp
  | cons hstep _ ih =>
    rw [Pair.endsIn_left _ _ _ (hstep i), ih, forPeer_append, forOthers_append, deliver_append,
      List.append_assoc]

end Session
