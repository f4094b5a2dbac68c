import Mathlib.Logic.Basic

/-!
# Programs that talk over datagram sockets

A `Program` is the control flow of one endpoint: it sends typed datagrams, waits for typed
datagrams, calls operations of its host (a disk, a table, a flag) and calls named procedures.  It
is a tree and has no semantics of its own: how it moves is `Endpoint.step`, in
`Session/Step.lean`.

Two points of the design matter for everything above it.

* **Operations are visible.**  A program does not read or write its host directly, it names an
  operation `o` and the signature says what `o` does (`Sig.exec`).  That is what makes it possible
  to say "every file operation of this run stays inside a directory" without knowing the program.
* **Loops are calls.**  A `Program` is a well-founded tree, so a loop that may run for ever is a
  call to a named procedure, and the table of bodies is a parameter of the step function.
-/

set_option autoImplicit false

namespace Session

/-- What travels on the network: the kinds of datagram, the payload of each kind, and the
addresses sockets are known by. -/
structure Wire where
  /-- The kinds of datagram. -/
  Kind : Type
  /-- The payload of a datagram of each kind. -/
  Msg : Kind → Type
  /-- Socket addresses. -/
  Addr : Type
  /-- Kinds can be told apart. -/
  [decKind : DecidableEq Kind]
  /-- Addresses can be told apart. -/
  [decAddr : DecidableEq Addr]

attribute [instance] Wire.decKind Wire.decAddr

/-- A datagram, with the kind it was sent as. -/
abbrev Datagram (W : Wire) := (κ : W.Kind) × W.Msg κ

/-- A datagram with the address at its other end: the sender of one that arrives, the receiver of
one that leaves. -/
abbrev Parcel (W : Wire) := W.Addr × Datagram W

/-- What a program may use: the host operations with their results and meaning, and the names of
its procedures. -/
structure Sig where
  /-- The state the operations act on. -/
  Host : Type
  /-- What an operation may throw. -/
  Exn : Type
  /-- The operations. -/
  Op : Type
  /-- The result of each operation. -/
  Res : Op → Type
  /-- The meaning of each operation; one that throws leaves the host as it was. -/
  exec : (o : Op) → Host → Except Exn (Res o × Host)
  /-- The procedures, with their arguments. -/
  Proc : Type
  /-- The result of each procedure. -/
  Out : Proc → Type

/-- The control flow of one endpoint. -/
inductive Program (W : Wire) (P : Sig) (α : Type) : Type
  /-- Return a value. -/
  | ret (a : α)
  /-- Let an exception escape. -/
  | throw (e : P.Exn)
  /-- Run a host operation; the continuation sees the exception, if there is one. -/
  | op (o : P.Op) (k : Except P.Exn (P.Res o) → Program W P α)
  /-- Send a datagram to an address. -/
  | send (a : W.Addr) (d : Datagram W) (k : Program W P α)
  /-- Block until a datagram arrives, and read it as one of kind `κ`. -/
  | wait (κ : W.Kind) (k : Option (W.Addr × W.Msg κ) → Program W P α)
  /-- Close the socket: what is unread is lost, and so is what arrives later. -/
  | close (k : Program W P α)
  /-- Call a procedure. -/
  | call (l : P.Proc) (k : P.Out l → Program W P α)

namespace Program

variable {W : Wire} {P : Sig} {α β γ : Type}

/-- Sequencing: run the continuation at every `ret`. -/
protected def bind : Program W P α → (α → Program W P β) → Program W P β
  | ret a, f => f a
  | throw e, _ => throw e
  | op o k, f => op o fun r ↦ (k r).bind f
  | send a d k, f => send a d (k.bind f)
  | wait κ k, f => wait κ fun m ↦ (k m).bind f
  | close k, f => close (k.bind f)
  | call l k, f => call l fun r ↦ (k r).bind f

instance : Monad (Program W P) where
  pure := ret
  bind := Program.bind

@[simp] theorem pure_eq (a : α) : (pure a : Program W P α) = ret a := rfl

@[simp] theorem bind_eq (p : Program W P α) (f : α → Program W P β) : p >>= f = p.bind f := rfl

@[simp] theorem discard_eq (p : Program W P α) : discard p = p.bind fun _ ↦ ret () := rfl

@[simp] theorem ret_bind (a : α) (f : α → Program W P β) : (ret a).bind f = f a := rfl

@[simp] theorem throw_bind (e : P.Exn) (f : α → Program W P β) :
    (throw e : Program W P α).bind f = throw e := rfl

theorem bind_ret (p : Program W P α) : p.bind ret = p := by
  induction p with
  | ret a => rfl
  | throw e => rfl
  | op o k ih => simp only [Program.bind, ih]
  | send a d k ih => simp only [Program.bind, ih]
  | wait κ k ih => simp only [Program.bind, ih]
  | close k ih => simp only [Program.bind, ih]
  | call l k ih => simp only [Program.bind, ih]

@[simp] theorem bind_assoc (p : Program W P α) (f : α → Program W P β) (g : β → Program W P γ) :
    (p.bind f).bind g = p.bind fun a ↦ (f a).bind g := by
  induction p with
  | ret a => rfl
  | throw e => rfl
  | op o k ih => simp only [Program.bind, ih]
  | send a d k ih => simp only [Program.bind, ih]
  | wait κ k ih => simp only [Program.bind, ih]
  | close k ih => simp only [Program.bind, ih]
  | call l k ih => simp only [Program.bind, ih]

theorem ite_bind (c : Prop) [Decidable c] (p q : Program W P α) (f : α → Program W P β) :
    (if c then p else q).bind f = if c then p.bind f else q.bind f := by
  split <;> rfl

/-! ## The statements programs are written with

The constructors of `Program` with the continuation that returns at once, and the loops of sends
and waits, so that the `do` blocks of a model read like the source. -/

/-- Send a datagram. -/
def emit (a : W.Addr) (κ : W.Kind) (m : W.Msg κ) : Program W P Unit := send a ⟨κ, m⟩ (ret ())

/-- Wait for a datagram, forgetting who sent it. -/
def await (κ : W.Kind) : Program W P (Option (W.Msg κ)) := wait κ fun r ↦ ret (r.map Prod.snd)

/-- Wait for a datagram and keep the address it came from. -/
def awaitFrom (κ : W.Kind) : Program W P (Option (W.Addr × W.Msg κ)) := wait κ ret

/-- The loop of `n` waits. -/
def awaitAll (κ : W.Kind) : Nat → Program W P (List (Option (W.Msg κ)))
  | 0 => ret []
  | n + 1 => do
    let m ← await κ
    let ms ← awaitAll κ n
    return m :: ms

/-- What follows the loop only sees lists of `n` slots. -/
theorem awaitAll_bind_congr {κ : W.Kind} {n : Nat} {k k' : List (Option (W.Msg κ)) → Program W P α}
    (h : ∀ ms, ms.length = n → k ms = k' ms) : (awaitAll κ n).bind k = (awaitAll κ n).bind k' := by
  induction n generalizing k k' with
  | zero => exact h [] rfl
  | succ n ih =>
    simp only [awaitAll, bind_eq, bind_assoc, pure_eq, ret_bind]
    refine congrArg _ (funext fun m ↦ ih fun ms hms ↦ h (m :: ms) ?_)
    rw [List.length_cons, hms]

/-- Run an operation, letting its exception escape. -/
def run (o : P.Op) : Program W P (P.Res o) :=
  op o fun
    | .ok r => ret r
    | .error e => throw e

/-- Run an operation inside a `try` block: the exception is handed to the program. -/
def attempt (o : P.Op) : Program W P (Except P.Exn (P.Res o)) := op o ret

/-- Dereference what may be a null pointer; `e` is what happens if it is one. -/
def expect (e : P.Exn) : Option α → Program W P α
  | some a => ret a
  | none => throw e

@[simp] theorem expect_some (e : P.Exn) (a : α) :
    (expect e (some a) : Program W P α) = ret a := rfl

/-- Close the socket. -/
def shut : Program W P Unit := close (ret ())

/-- Call a procedure. -/
def invoke (l : P.Proc) : Program W P (P.Out l) := call l ret

end Program
end Session
