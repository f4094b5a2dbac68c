import Bropdox.Session.Program

/-!
# One endpoint, step by step

`Endpoint.step` is the whole operational semantics of a program: given the inbox of its socket, it
performs one move and says what it sent.  It is a function, so an endpoint on its own is
deterministic; and `Endpoint.step_deliver` says that a move that is possible stays possible, with
the same effect, when more datagrams have arrived.

How an arrived datagram is read as a `T` is a parameter (`Reading`).  `typed` reads it only as the
kind it was sent as, so that a wrong `wait_packet<T>` is stuck and can be seen; a theorem about a
hostile peer quantifies over every other way to read the bytes.
-/

set_option autoImplicit false

namespace Session

variable {W : Wire} {P : Sig} {α : Type}

/-- What a receiver makes of an arrived datagram when it waits for one of kind `κ`. -/
abbrev Reading (W : Wire) := (κ : W.Kind) → Datagram W → Option (W.Msg κ)

/-- A datagram is read only as the kind it was sent as. -/
def typed : Reading W := fun κ d ↦ if h : d.1 = κ then some (h ▸ d.2) else none

@[simp] theorem typed_self (κ : W.Kind) (m : W.Msg κ) : typed κ ⟨κ, m⟩ = some m := by simp [typed]

theorem typed_of_ne {κ : W.Kind} {d : Datagram W} (h : d.1 ≠ κ) : typed κ d = none := by
  simp [typed, h]

/-- The datagrams that have arrived at a socket and are unread, oldest first; `none` when the
socket is closed. -/
abbrev Inbox (W : Wire) := Option (List (Parcel W))

/-- Datagrams arrive; a closed socket drops them. -/
def deliver (i : Inbox W) (ps : List (Parcel W)) : Inbox W := i.map (· ++ ps)

@[simp] theorem deliver_some (i ps : List (Parcel W)) : deliver (some i) ps = some (i ++ ps) := rfl

@[simp] theorem deliver_none (ps : List (Parcel W)) : deliver (none : Inbox W) ps = none := rfl

@[simp] theorem deliver_nil (i : Inbox W) : deliver i [] = i := by cases i <;> simp [deliver]

theorem deliver_append (i : Inbox W) (ps ps' : List (Parcel W)) :
    deliver i (ps ++ ps') = deliver (deliver i ps) ps' := by
  cases i <;> simp [deliver]

/-- A host with the rest of the program that runs on it. -/
structure Endpoint (W : Wire) (P : Sig) (α : Type) where
  /-- The state of the host. -/
  host : P.Host
  /-- What is left to do. -/
  prog : Program W P α

/-- The bodies of the procedures. -/
abbrev Bodies (W : Wire) (P : Sig) := (l : P.Proc) → Program W P (P.Out l)

/-- A move of an endpoint: the endpoint after it, the inbox after it, and what was sent.  There is
no move after `ret` or an escaped exception, while the inbox is empty, and at a datagram that cannot
be read as the kind that is waited for. -/
def Endpoint.step (read : Reading W) (body : Bodies W P) :
    Endpoint W P α → Inbox W → Option (Endpoint W P α × Inbox W × List (Parcel W))
  | ⟨h, .op o k⟩, i =>
    match P.exec o h with
    | .ok (r, h') => some (⟨h', k (.ok r)⟩, i, [])
    | .error e => some (⟨h, k (.error e)⟩, i, [])
  | ⟨h, .send a d k⟩, i => some (⟨h, k⟩, i, [(a, d)])
  | ⟨h, .close k⟩, _ => some (⟨h, k⟩, none, [])
  | ⟨h, .call l k⟩, i => some (⟨h, (body l).bind k⟩, i, [])
  | ⟨h, .wait κ k⟩, some ((a, d) :: i) =>
    (read κ d).map fun m ↦ (⟨h, k (some (a, m))⟩, some i, [])
  | ⟨_, .wait _ _⟩, _ => none
  | ⟨_, .ret _⟩, _ => none
  | ⟨_, .throw _⟩, _ => none

/-- What an endpoint can do now it can still do when more datagrams have arrived. -/
theorem Endpoint.step_deliver {read : Reading W} {body : Bodies W P} {e e' : Endpoint W P α}
    {i i' : Inbox W} {out : List (Parcel W)} (h : e.step read body i = some (e', i', out))
    (ps : List (Parcel W)) :
    e.step read body (deliver i ps) = some (e', deliver i' ps, out) := by
  obtain ⟨s, p⟩ := e
  cases p with
  | ret a => simp [step] at h
  | throw x => simp [step] at h
  | op o k =>
    simp only [step] at h ⊢
    cases hx : P.exec o s with
    | error x => rw [hx] at h; cases h; rfl
    | ok r => rw [hx] at h; cases h; rfl
  | send a d k => cases h; rfl
  | close k => cases h; rfl
  | call l k => cases h; rfl
  | wait κ k =>
    match i with
    | none => simp [step] at h
    | some [] => simp [step] at h
    | some ((a, d) :: i) =>
      simp only [step, Option.map_eq_some_iff] at h
      obtain ⟨m, hm, h⟩ := h
      cases h
      simp [step, hm]

/-- An endpoint that has nothing left to do but to say how it ended. -/
def Endpoint.Returned (e : Endpoint W P α) (a : α) : Prop := e.prog = .ret a

end Session
