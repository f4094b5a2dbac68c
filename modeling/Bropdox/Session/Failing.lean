import Bropdox.Session.Pair

/-!
# Receives that fail

`Program.failing` is a program on a socket some of whose receives fail: the datagram leaves the
inbox, and the program is told that nothing came.  Which receives fail is a script that its host
carries, together with a record of what was received and what was sent; otherwise it is the same
program, statement by statement.  Since the failures are in the host, a session with a failing
endpoint is a `Pair` like any other, and all of its runs end alike.

## What is here

* `Frail` is the host with its script, `FailOp` the operations of the failing program, and
  `Program.failing` and `Bodies.failing` the program and its procedures.
* `sieved` is what a loop of waits gets of some datagrams: everything where nothing fails
  (`sieved_of_not_mem`), and a slot stays empty where something does (`countP_sieved_lt`).
* The lemmas `Pair.failing_*` continue the calculus of `Session/Pair.lean`: a wait of the failing
  endpoint takes a datagram, and the script decides what the program sees of it.
* `Pair.Stranded` is a session in which one side waits with nothing in flight and the other has
  returned, and `Endpoint.Closed` a receiver that has returned with a certain last word.
* `Pair.Retried` is what a transfer with retries owes its caller: nobody is ever left waiting, and
  once the receiver has closed with a given last word, it holds the data and both sides return.
* `Pair.retried_iff` says that only the end of one run has to be looked at, and the lemmas after it
  are the ends there are.
-/

set_option autoImplicit false

namespace Session

open Relation (ReflTransGen)

variable {W : Wire} {P Q : Sig} {α β γ : Type}

/-- A host whose receives may fail. -/
structure Frail (W : Wire) (H : Type) where
  /-- The host. -/
  host : H
  /-- Which of the receives to come fail; those beyond the list succeed. -/
  fails : List Bool
  /-- What has been received. -/
  received : List (Datagram W)
  /-- What has been sent. -/
  sent : List (Datagram W)

/-- The operations of a failing program. -/
inductive FailOp (W : Wire) (P : Sig)
  /-- An operation of the program itself. -/
  | own (o : P.Op)
  /-- Decide whether the receive of a datagram fails. -/
  | sieve (κ : W.Kind) (m : Option (W.Addr × W.Msg κ))
  /-- Record that a datagram has been sent. -/
  | note (d : Datagram W)

/-- The results of the operations. -/
@[reducible] def FailOp.Res : FailOp W P → Type
  | own o => P.Res o
  | sieve κ _ => Option (W.Addr × W.Msg κ)
  | note _ => Unit

/-- Receive a datagram: one of a lossy kind is lost if the script says so. -/
def Frail.sieve {H : Type} (lossy : W.Kind → Bool) (κ : W.Kind) (t : Frail W H) :
    Option (W.Addr × W.Msg κ) → Option (W.Addr × W.Msg κ) × Frail W H
  | none => (none, t)
  | some (a, d) =>
    if lossy κ then
      if t.fails.headD false then (none, { t with fails := t.fails.tail })
      else (some (a, d), { t with fails := t.fails.tail, received := t.received ++ [⟨κ, d⟩] })
    else (some (a, d), { t with received := t.received ++ [⟨κ, d⟩] })

/-- The meaning of the operations. -/
def FailOp.exec (lossy : W.Kind → Bool) :
    (o : FailOp W P) → Frail W P.Host → Except P.Exn (o.Res × Frail W P.Host)
  | own o, t => (P.exec o t.host).map fun r ↦ (r.1, { t with host := r.2 })
  | sieve κ m, t => .ok (t.sieve lossy κ m)
  | note d, t => .ok ((), { t with sent := t.sent ++ [d] })

theorem FailOp.exec_own {lossy : W.Kind → Bool} {o : P.Op} {t : Frail W P.Host} {v : P.Res o}
    {s : P.Host} (ho : P.exec o t.host = .ok (v, s)) :
    (own o).exec lossy t = .ok (v, { t with host := s }) := by
  simp only [exec, ho, Except.map]

/-- What a failing program runs on; only receives of the lossy kinds fail. -/
@[reducible] def Sig.failing (P : Sig) (lossy : W.Kind → Bool) : Sig where
  Host := Frail W P.Host
  Exn := P.Exn
  Op := FailOp W P
  Res := FailOp.Res
  exec := FailOp.exec lossy
  Proc := P.Proc
  Out := P.Out

/-- A program with receives that may fail. -/
def Program.failing (lossy : W.Kind → Bool) : Program W P α → Program W (P.failing lossy) α
  | ret a => ret a
  | throw e => throw e
  | op o k => op (.own o) fun r ↦ (k r).failing lossy
  | send a d k => send a d (op (.note d) fun _ ↦ k.failing lossy)
  | wait κ k => wait κ fun m ↦ op (.sieve κ m) fun
      | .ok m => (k m).failing lossy
      | .error e => throw e
  | close k => close (k.failing lossy)
  | call l k => call l fun r ↦ (k r).failing lossy

/-- The bodies of the procedures, with receives that may fail. -/
def Bodies.failing (lossy : W.Kind → Bool) (body : Bodies W P) : Bodies W (P.failing lossy) :=
  fun l ↦ (body l).failing lossy

/-! ## What a loop receives

The list of what `n` waits give, as a function of the script. -/

/-- What the loop of waits gets of some datagrams. -/
def sieved : List Bool → List γ → List (Option γ)
  | _, [] => []
  | fs, d :: ds => (if fs.headD false then none else some d) :: sieved fs.tail ds

@[simp] theorem sieved_nil (fs : List Bool) : sieved fs ([] : List γ) = [] := rfl

theorem sieved_cons (fs : List Bool) (d : γ) (ds : List γ) :
    sieved fs (d :: ds) = (if fs.headD false then none else some d) :: sieved fs.tail ds := rfl

/-- Where nothing fails, everything is received. -/
theorem sieved_of_not_mem {fs : List Bool} {ds : List γ} (h : true ∉ fs.take ds.length) :
    sieved fs ds = ds.map some := by
  induction ds generalizing fs with
  | nil => rfl
  | cons d ds ih =>
    cases fs with
    | nil => rw [sieved_cons, ih (by simp)]; rfl
    | cons b fs =>
      simp only [List.length_cons, List.take_succ_cons, List.mem_cons, not_or] at h
      obtain rfl : b = false := by simpa using Ne.symm h.1
      rw [sieved_cons, List.tail_cons, ih h.2]
      rfl

/-- Where something fails, a slot stays empty. -/
theorem countP_sieved_lt {fs : List Bool} {ds : List γ} (h : true ∈ fs.take ds.length) :
    (sieved fs ds).countP Option.isSome < ds.length := by
  induction ds generalizing fs with
  | nil => simp at h
  | cons d ds ih =>
    cases fs with
    | nil => simp at h
    | cons b fs =>
      have hlen : (sieved fs ds).length = ds.length := by
        clear h ih
        induction ds generalizing fs with
        | nil => rfl
        | cons d ds ih => rw [sieved_cons, List.length_cons, ih, List.length_cons]
      have hle : (sieved fs ds).countP Option.isSome ≤ ds.length := hlen ▸ List.countP_le_length
      rw [sieved_cons, List.headD_cons, List.tail_cons, List.length_cons]
      cases b with
      | true => simpa using Nat.lt_succ_of_le hle
      | false =>
        simp only [List.length_cons, List.take_succ_cons, List.mem_cons, Bool.true_eq_false,
          false_or] at h
        simpa using ih h

/-! ## Running a session with a failing right endpoint

The statements at which a failing program differs from the one it is made of. -/

section Calculus

variable {lossy : W.Kind → Bool} {L : Link W P (Q.failing lossy)} {h : Q.Host} {fs : List Bool}
  {got out : List (Datagram W)} {l : Endpoint W P α} {i j : Inbox W} {m m' : List (Parcel W)}
  {t : Pair W P (Q.failing lossy) α β}

theorem Pair.failing_run {o : Q.Op} {v : Q.Res o} {s : Q.Host} {k : Q.Res o → Program W Q β}
    (ho : Q.exec o h = .ok (v, s)) :
    Pair.EndsIn L ⟨l, ⟨⟨h, fs, got, out⟩, ((Program.run o).bind k).failing lossy⟩, i, j, m, m'⟩ t ↔
      Pair.EndsIn L ⟨l, ⟨⟨s, fs, got, out⟩, (k v).failing lossy⟩, i, j, m, m'⟩ t := by
  have hstep : Endpoint.step typed L.rightBody
      ⟨⟨h, fs, got, out⟩, ((Program.run o).bind k).failing lossy⟩ j
      = some (⟨⟨s, fs, got, out⟩, (k v).failing lossy⟩, j, []) := by
    rw [Program.run, Program.bind, Program.failing, Endpoint.step]
    simp only [FailOp.exec_own (t := ⟨h, fs, got, out⟩) ho]
    rfl
  exact (Pair.endsIn_right _ _ [] hstep).trans (by simp)

theorem Pair.failing_emit {κ : W.Kind} {d : W.Msg κ} {k : Unit → Program W Q β} :
    Pair.EndsIn L ⟨l, ⟨⟨h, fs, got, out⟩, ((Program.emit L.leftAddr κ d).bind k).failing lossy⟩,
        i, j, m, m'⟩ t ↔
      Pair.EndsIn L ⟨l, ⟨⟨h, fs, got, out ++ [⟨κ, d⟩]⟩, (k ()).failing lossy⟩,
        deliver i [(L.rightAddr, ⟨κ, d⟩)], j, m, m'⟩ t := by
  refine (Pair.endsIn_right _ _ [(L.leftAddr, ⟨κ, d⟩)] rfl).trans ?_
  refine (Pair.endsIn_right _ _ [] rfl).trans ?_
  simp

theorem Pair.failing_shut {k : Unit → Program W Q β} :
    Pair.EndsIn L ⟨l, ⟨⟨h, fs, got, out⟩, (Program.shut.bind k).failing lossy⟩, i, j, m, m'⟩ t ↔
      Pair.EndsIn L ⟨l, ⟨⟨h, fs, got, out⟩, (k ()).failing lossy⟩, i, none, m, m'⟩ t := by
  refine (Pair.endsIn_right _ _ [] rfl).trans ?_
  simp

/-- A datagram is taken, and the host decides what the program sees of it. -/
theorem Pair.failing_await_sieve {κ : W.Kind} {d : W.Msg κ} {a : W.Addr} {rest : List (Parcel W)}
    {k : Option (W.Msg κ) → Program W Q β} {f : Frail W Q.Host} :
    Pair.EndsIn L ⟨l, ⟨f, ((Program.await κ).bind k).failing lossy⟩, i,
        some ((a, ⟨κ, d⟩) :: rest), m, m'⟩ t ↔
      Pair.EndsIn L ⟨l, ⟨(f.sieve lossy κ (some (a, d))).2,
        (k ((f.sieve lossy κ (some (a, d))).1.map Prod.snd)).failing lossy⟩, i, some rest,
        m, m'⟩ t := by
  refine (Pair.endsIn_right _ (some rest) [] (by
    rw [Program.await, Program.bind, Program.failing, Endpoint.step, typed_self]
    rfl)).trans ?_
  simp only [forPeer_nil, deliver_nil, forOthers_nil, List.append_nil]
  refine (Pair.endsIn_right ⟨(f.sieve lossy κ (some (a, d))).2,
    (k ((f.sieve lossy κ (some (a, d))).1.map Prod.snd)).failing lossy⟩ _ [] rfl).trans ?_
  simp only [forPeer_nil, deliver_nil, forOthers_nil, List.append_nil]

/-- A kind that is not lossy always arrives. -/
theorem Pair.failing_await {κ : W.Kind} (hκ : lossy κ = false) {d : W.Msg κ} {a : W.Addr}
    {rest : List (Parcel W)} {k : Option (W.Msg κ) → Program W Q β} :
    Pair.EndsIn L ⟨l, ⟨⟨h, fs, got, out⟩, ((Program.await κ).bind k).failing lossy⟩, i,
        some ((a, ⟨κ, d⟩) :: rest), m, m'⟩ t ↔
      Pair.EndsIn L ⟨l, ⟨⟨h, fs, got ++ [⟨κ, d⟩], out⟩, (k (some d)).failing lossy⟩, i, some rest,
        m, m'⟩ t := by
  rw [Pair.failing_await_sieve, Frail.sieve, hκ]
  rfl

/-- A datagram of a lossy kind arrives unless the script says otherwise. -/
theorem Pair.failing_await_lossy {κ : W.Kind} (hκ : lossy κ = true) {d : W.Msg κ} {a : W.Addr}
    {rest : List (Parcel W)} {k : Option (W.Msg κ) → Program W Q β} :
    Pair.EndsIn L ⟨l, ⟨⟨h, fs, got, out⟩, ((Program.await κ).bind k).failing lossy⟩, i,
        some ((a, ⟨κ, d⟩) :: rest), m, m'⟩ t ↔
      Pair.EndsIn L ⟨l, ⟨⟨h, fs.tail, got ++ if fs.headD false then [] else [⟨κ, d⟩], out⟩,
        (k (if fs.headD false then none else some d)).failing lossy⟩, i, some rest, m, m'⟩ t := by
  rw [Pair.failing_await_sieve, Frail.sieve, hκ]
  cases fs.headD false <;> simp

/-- The loop of waits for a lossy kind. -/
theorem Pair.failing_awaitAll {κ : W.Kind} (hκ : lossy κ = true) (a : W.Addr) (ds : List (W.Msg κ))
    (n : Nat) {rest : List (Parcel W)} {k : List (Option (W.Msg κ)) → Program W Q β} :
    Pair.EndsIn L ⟨l, ⟨⟨h, fs, got, out⟩,
        ((Program.awaitAll κ (ds.length + n)).bind k).failing lossy⟩, i,
        some (ds.map (fun d ↦ (a, ⟨κ, d⟩)) ++ rest), m, m'⟩ t ↔
      Pair.EndsIn L ⟨l, ⟨⟨h, fs.drop ds.length,
          got ++ ((sieved fs ds).filterMap id).map (fun d ↦ ⟨κ, d⟩), out⟩,
        ((Program.awaitAll κ n).bind fun more ↦ k (sieved fs ds ++ more)).failing lossy⟩, i,
        some rest, m, m'⟩ t := by
  induction ds generalizing k fs got with
  | nil => simp
  | cons d ds ih =>
    simp only [List.length_cons, Nat.add_right_comm, Program.awaitAll, Program.bind_eq,
      Program.bind_assoc, List.map_cons, List.cons_append, Pair.failing_await_lossy hκ,
      Program.pure_eq, Program.ret_bind, ih, sieved_cons]
    cases hb : fs.headD false <;> simp

end Calculus

/-! ## Retries

What is asked of all states of a session, read off its end. -/

/-- An endpoint waits, and nothing has arrived. -/
def Endpoint.Waiting (e : Endpoint W P α) (i : Inbox W) : Prop :=
  (∃ κ k, e.prog = .wait κ k) ∧ i.getD [] = []

/-- A session is stranded when one side waits with nothing in flight, and the other has returned. -/
def Pair.Stranded (x : Pair W P Q α β) : Prop :=
  (x.left.Waiting x.toLeft ∧ ∃ b, x.right.prog = .ret b) ∨
    (x.right.Waiting x.toRight ∧ ∃ a, x.left.prog = .ret a)

theorem Endpoint.Waiting.step_eq_none {read : Reading W} {body : Bodies W P} {e : Endpoint W P α}
    {i : Inbox W} (h : e.Waiting i) : e.step read body i = none := by
  obtain ⟨s, p⟩ := e
  obtain ⟨⟨κ, k, rfl⟩, hi⟩ := h
  cases i with
  | none => rfl
  | some ps =>
    obtain rfl : ps = [] := hi
    rfl

theorem Endpoint.waiting_failing {lossy : W.Kind → Bool} {κ : W.Kind}
    {k : Option (W.Msg κ) → Program W P α} (h : Frail W P.Host) :
    Endpoint.Waiting ⟨h, ((Program.await κ).bind k).failing lossy⟩ (some []) := by
  rw [Program.await, Program.bind, Program.failing]
  exact ⟨⟨κ, _, rfl⟩, rfl⟩

/-- Nothing happens in a stranded session any more. -/
theorem Pair.Stranded.terminal {L : Link W P Q} {x : Pair W P Q α β} (h : x.Stranded) :
    Terminal (Pair.Step L) x := by
  rcases h with ⟨hl, b, hr⟩ | ⟨hr, a, hl⟩
  · exact terminal_of_stuck hl.step_eq_none (Endpoint.step_eq_none_of_ret hr _)
  · exact terminal_of_stuck (Endpoint.step_eq_none_of_ret hl _) hr.step_eq_none

theorem Pair.Returned.not_stranded {x : Pair W P Q α β} {a : α} {b : β} (h : x.Returned a b) :
    ¬ x.Stranded := by
  rintro (⟨⟨⟨κ, k, hl⟩, -⟩, -⟩ | ⟨⟨⟨κ, k, hr⟩, -⟩, -⟩)
  · rw [h.1] at hl; cases hl
  · rw [h.2] at hr; cases hr

/-- The receiver has returned, and the last thing it has sent is `d`. -/
def Endpoint.Closed {lossy : W.Kind → Bool} (e : Endpoint W (Q.failing lossy) β)
    (d : Datagram W) : Prop :=
  (∃ b, e.prog = .ret b) ∧ e.host.sent.getLast? = some d

/-- **What a transfer with retries owes**: nobody is ever left waiting; and once the receiver, on
the right, has closed with `d`, it holds the data and both sides return. -/
structure Pair.Retried {lossy : W.Kind → Bool} (L : Link W P (Q.failing lossy)) (d : Datagram W)
    (Data : Frail W Q.Host → Prop) (x : Pair W P (Q.failing lossy) α β) : Prop where
  /-- Nobody is left waiting. -/
  unstranded : ∀ y, ReflTransGen (Pair.Step L) x y → ¬ y.Stranded
  /-- A receiver that has closed holds the data. -/
  holds : ∀ y, ReflTransGen (Pair.Step L) x y → y.right.Closed d → Data y.right.host
  /-- After that both sides return. -/
  returns : ∀ y, ReflTransGen (Pair.Step L) x y → y.right.Closed d → y.Completes L

section Retried

variable {lossy : W.Kind → Bool} {L : Link W P (Q.failing lossy)} {d : Datagram W}
  {Data : Frail W Q.Host → Prop} {x y t : Pair W P (Q.failing lossy) α β}

/-- **Whether a transfer was retried can be read off its end.** -/
theorem Pair.retried_iff (ht : x.EndsIn L t) :
    x.Retried L d Data ↔
      ¬ t.Stranded ∧ (t.right.Closed d → Data t.right.host ∧ ∃ a b, t.Returned a b) := by
  constructor
  · intro hx
    refine ⟨hx.unstranded t ht.1, fun hc ↦ ⟨hx.holds t ht.1 hc, ?_⟩⟩
    obtain ⟨t', a, b, ht', hret⟩ := hx.returns t ht.1 hc
    obtain rfl := ht.2.eq_of_reaches ht'.1
    exact ⟨a, b, hret⟩
  · rintro ⟨hs, hdone⟩
    have hright : ∀ y, ReflTransGen (Pair.Step L) x y → y.right.Closed d → t.right = y.right :=
      fun y hy hc ↦ Pair.right_of_reaches hc.1.choose_spec (ht.settlesIn.every y hy)
    refine ⟨fun y hy hstr ↦ ?_, fun y hy hc ↦ ?_, fun y hy hc ↦ ?_⟩
    · exact hs (hstr.terminal.eq_of_reaches (ht.settlesIn.every y hy) ▸ hstr)
    · have heq := hright y hy hc
      exact heq ▸ (hdone (heq ▸ hc)).1
    · obtain ⟨a, b, hret⟩ := (hdone (hright y hy hc ▸ hc)).2
      exact ⟨t, a, b, ⟨ht.settlesIn.every y hy, ht.2⟩, hret⟩

/-- A session that ends stranded was not retried. -/
theorem Pair.not_retried (h : ∀ t, x.EndsIn L t ↔ y.EndsIn L t) (hs : y.Stranded) :
    ¬ x.Retried L d Data :=
  fun hx ↦ hx.unstranded y ((h y).mpr ⟨.refl, hs.terminal⟩).1 hs

/-- A transfer that ends with the receiver still at it, and the sender too, owes nothing. -/
theorem Pair.retried_of_open (h : ∀ t, x.EndsIn L t ↔ y.EndsIn L t)
    (hl : y.left.Waiting y.toLeft) (hr : y.right.Waiting y.toRight) : x.Retried L d Data := by
  have hret : ∀ {P' : Sig} {α' : Type} {e : Endpoint W P' α'} {i : Inbox W} {a : α'},
      e.Waiting i → e.prog ≠ .ret a := by
    rintro P' α' e i a ⟨⟨κ, k, hp⟩, -⟩ ha
    rw [hp] at ha
    cases ha
  refine (Pair.retried_iff ((h y).mpr
    ⟨.refl, terminal_of_stuck hl.step_eq_none hr.step_eq_none⟩)).mpr ⟨?_, fun hc ↦ ?_⟩
  · rintro (⟨-, b, hb⟩ | ⟨-, a, ha⟩)
    · exact hret hr hb
    · exact hret hl ha
  · exact absurd hc.1.choose_spec (hret hr)

/-- A transfer in which both sides return owes the data, if the receiver has closed. -/
theorem Pair.retried_iff_of_returned (h : ∀ t, x.EndsIn L t ↔ y.EndsIn L t) {a : α} {b : β}
    (hret : y.Returned a b) : x.Retried L d Data ↔ (y.right.Closed d → Data y.right.host) := by
  rw [Pair.retried_iff ((h y).mpr ⟨.refl, hret.terminal⟩)]
  exact ⟨fun h hc ↦ (h.2 hc).1, fun h ↦ ⟨hret.not_stranded, fun hc ↦ ⟨h hc, a, b, hret⟩⟩⟩

end Retried

end Session
