import Bropdox.Session.Step
import Bropdox.Session.Determinacy

/-!
# Two endpoints over two FIFO channels

A `Pair` is two endpoints, the inbox of each, and what each has sent to somebody else.  Its only
nondeterminism is whose turn it is, and turns commute: a move of one side reads the front of its own
inbox and appends to the back of the other's, so it neither enables nor disables anything the other
side was about to do, which is `Endpoint.step_deliver`.  By `Session/Determinacy.lean` a session
therefore ends in the same state under every schedule.

## What is here

* `Link` is what two endpoints run on, `Pair` a session and `Pair.Step` its moves; `Pair.diamond`
  says that turns commute.
* `Pair.EndsIn` and `Pair.SettlesIn` say that a session ends in a state: some run does, and by
  determinacy every one.  `Pair.Returned` and `Pair.Completes` are about sessions that end with both
  programs returned.
* `Pair.Confused` is a session in which one side is about to read a datagram as a kind it was not
  sent as.  A confused endpoint stays confused, so a session that ends well was never confused under
  any schedule (`Pair.SettlesIn.not_confused`).
* The lemmas `Pair.left_*` and `Pair.right_*` are a calculus for running sessions symbolically.
  Each says that the session in front of it ends where the session behind it ends, so a run is a
  chain of rewrites, and because they are equivalences the same chain shows that a session *cannot*
  end anywhere else.
* `Link.barred` is the same link with procedures that throw when they are called, and
  `Pair.not_calls` concludes from a good end with these that none of them was called.
-/

set_option autoImplicit false

namespace Session

open Relation (ReflTransGen)

variable {W : Wire} {P Q : Sig} {α β γ : Type}

/-- What two endpoints run on: the bodies of their procedures and their addresses. -/
structure Link (W : Wire) (P Q : Sig) where
  /-- The procedures of the left program. -/
  leftBody : Bodies W P
  /-- The procedures of the right program. -/
  rightBody : Bodies W Q
  /-- The address of the left socket. -/
  leftAddr : W.Addr
  /-- The address of the right socket. -/
  rightAddr : W.Addr

/-- Two endpoints in the middle of a session. -/
structure Pair (W : Wire) (P Q : Sig) (α β : Type) where
  /-- The left endpoint. -/
  left : Endpoint W P α
  /-- The right endpoint. -/
  right : Endpoint W Q β
  /-- What the left endpoint has not read yet. -/
  toLeft : Inbox W
  /-- What the right endpoint has not read yet. -/
  toRight : Inbox W
  /-- What the left endpoint has sent to third parties. -/
  mailLeft : List (Parcel W) := []
  /-- What the right endpoint has sent to third parties. -/
  mailRight : List (Parcel W) := []

/-- The part of what `me` sent that is for `peer`, as it arrives there. -/
def forPeer (me peer : W.Addr) (out : List (Parcel W)) : List (Parcel W) :=
  (out.filter fun p ↦ p.1 = peer).map fun p ↦ (me, p.2)

/-- The part of what was sent that is not for `peer`. -/
def forOthers (peer : W.Addr) (out : List (Parcel W)) : List (Parcel W) :=
  out.filter fun p ↦ ¬ p.1 = peer

@[simp] theorem forPeer_nil (me peer : W.Addr) : forPeer me peer ([] : List (Parcel W)) = [] := rfl

@[simp] theorem forOthers_nil (peer : W.Addr) : forOthers peer ([] : List (Parcel W)) = [] := rfl

@[simp] theorem forPeer_self (me peer : W.Addr) (d : Datagram W) :
    forPeer me peer [(peer, d)] = [(me, d)] := by simp [forPeer]

@[simp] theorem forOthers_self (peer : W.Addr) (d : Datagram W) :
    forOthers peer [(peer, d)] = [] := by simp [forOthers]

theorem forPeer_append (me peer : W.Addr) (out out' : List (Parcel W)) :
    forPeer me peer (out ++ out') = forPeer me peer out ++ forPeer me peer out' := by
  simp [forPeer]

theorem forOthers_append (peer : W.Addr) (out out' : List (Parcel W)) :
    forOthers peer (out ++ out') = forOthers peer out ++ forOthers peer out' := by
  simp [forOthers]

/-- What is not for `peer` reaches another address in full. -/
theorem forPeer_forOthers {me peer other : W.Addr} (h : other ≠ peer) (out : List (Parcel W)) :
    forPeer me other (forOthers peer out) = forPeer me other out := by
  rw [forPeer, forOthers, List.filter_filter, forPeer]
  refine congrArg _ (List.filter_congr fun p _ ↦ ?_)
  by_cases hp : p.1 = other
  · simp [hp, h]
  · simp [hp]

/-- One move of the session: the left endpoint moves, or the right one does. -/
inductive Pair.Step (L : Link W P Q) : Pair W P Q α β → Pair W P Q α β → Prop
  | left {x : Pair W P Q α β} {e : Endpoint W P α} {i : Inbox W} {out : List (Parcel W)}
      (h : x.left.step typed L.leftBody x.toLeft = some (e, i, out)) :
      Pair.Step L x
        { left := e
          right := x.right
          toLeft := i
          toRight := deliver x.toRight (forPeer L.leftAddr L.rightAddr out)
          mailLeft := x.mailLeft ++ forOthers L.rightAddr out
          mailRight := x.mailRight }
  | right {x : Pair W P Q α β} {e : Endpoint W Q β} {i : Inbox W} {out : List (Parcel W)}
      (h : x.right.step typed L.rightBody x.toRight = some (e, i, out)) :
      Pair.Step L x
        { left := x.left
          right := e
          toLeft := deliver x.toLeft (forPeer L.rightAddr L.leftAddr out)
          toRight := i
          mailLeft := x.mailLeft
          mailRight := x.mailRight ++ forOthers L.leftAddr out }

/-- **Turns commute.** -/
theorem Pair.diamond (L : Link W P Q) : Diamond (Pair.Step (α := α) (β := β) L) := by
  intro x y z hy hz
  cases hy with
  | left h =>
    cases hz with
    | left h' => rw [h] at h'; cases h'; exact .inl rfl
    | right h' =>
      exact .inr ⟨_, .right (Endpoint.step_deliver h' _), .left (Endpoint.step_deliver h _)⟩
  | right h =>
    cases hz with
    | left h' =>
      exact .inr ⟨_, .left (Endpoint.step_deliver h' _), .right (Endpoint.step_deliver h _)⟩
    | right h' => rw [h] at h'; cases h'; exact .inl rfl

/-- Some run of the session from `x` ends in `t`, so that every run does. -/
abbrev Pair.EndsIn (L : Link W P Q) (x t : Pair W P Q α β) : Prop := Ends (Pair.Step L) x t

/-- Every run of the session from `x` is finite and can be continued to `t`. -/
abbrev Pair.SettlesIn (L : Link W P Q) (x t : Pair W P Q α β) : Prop := Settles (Pair.Step L) x t

theorem Pair.EndsIn.settlesIn {L : Link W P Q} {x t : Pair W P Q α β} (h : x.EndsIn L t) :
    x.SettlesIn L t :=
  Ends.settles (Pair.diamond L) h

/-- Both programs have returned. -/
def Pair.Returned (x : Pair W P Q α β) (a : α) (b : β) : Prop :=
  x.left.prog = .ret a ∧ x.right.prog = .ret b

/-- The next datagram of an endpoint cannot be read as the kind it waits for. -/
def Endpoint.Confused (e : Endpoint W P α) (i : Inbox W) : Prop :=
  ∃ κ k a d rest, e.prog = .wait κ k ∧ i = some ((a, d) :: rest) ∧ d.1 ≠ κ

/-- One side is about to read a datagram as a kind it was not sent as. -/
def Pair.Confused (x : Pair W P Q α β) : Prop :=
  x.left.Confused x.toLeft ∨ x.right.Confused x.toRight

/-! ## Terminal sessions

A session is over when neither endpoint can move, and what its end says of the states on the way. -/

theorem Endpoint.step_ret {read : Reading W} {body : Bodies W P} (h : P.Host) (a : α)
    (i : Inbox W) : Endpoint.step read body ⟨h, .ret a⟩ i = none := by cases i <;> rfl

theorem Endpoint.step_throw {read : Reading W} {body : Bodies W P} (h : P.Host) (e : P.Exn)
    (i : Inbox W) : Endpoint.step read body (⟨h, .throw e⟩ : Endpoint W P α) i = none := by
  cases i <;> rfl

theorem Endpoint.step_wait_nil {read : Reading W} {body : Bodies W P} (h : P.Host) (κ : W.Kind)
    (k : Option (W.Addr × W.Msg κ) → Program W P α) :
    Endpoint.step read body ⟨h, .wait κ k⟩ (some []) = none := rfl

theorem Endpoint.Confused.step_eq_none {body : Bodies W P} {e : Endpoint W P α} {i : Inbox W}
    (h : e.Confused i) : e.step typed body i = none := by
  obtain ⟨κ, k, a, d, rest, hp, rfl, hd⟩ := h
  obtain ⟨s, p⟩ := e
  obtain rfl : p = .wait κ k := hp
  simp [step, typed_of_ne hd]

/-- A session is over when neither endpoint can move. -/
theorem Pair.terminal_of_stuck {L : Link W P Q} {x : Pair W P Q α β}
    (hl : x.left.step typed L.leftBody x.toLeft = none)
    (hr : x.right.step typed L.rightBody x.toRight = none) : Terminal (Pair.Step L) x := by
  intro y hy
  cases hy with
  | left h => rw [hl] at h; cases h
  | right h => rw [hr] at h; cases h

theorem Pair.Returned.terminal {L : Link W P Q} {x : Pair W P Q α β} {a : α} {b : β}
    (h : x.Returned a b) : Terminal (Pair.Step L) x := by
  obtain ⟨⟨s, p⟩, ⟨s', p'⟩, i, j, m, m'⟩ := x
  obtain ⟨rfl, rfl⟩ := h
  exact terminal_of_stuck (Endpoint.step_ret ..) (Endpoint.step_ret ..)

/-- An endpoint that cannot move whatever arrives stays as it is. -/
theorem Pair.left_of_reaches_inert {L : Link W P Q} {x y : Pair W P Q α β}
    (hx : ∀ i, x.left.step typed L.leftBody i = none) (h : ReflTransGen (Pair.Step L) x y) :
    y.left = x.left := by
  induction h with
  | refl => rfl
  | @tail y z _ hs ih =>
    cases hs with
    | left hl =>
      rw [ih, hx] at hl
      cases hl
    | right _ => exact ih

theorem Pair.right_of_reaches_inert {L : Link W P Q} {x y : Pair W P Q α β}
    (hx : ∀ i, x.right.step typed L.rightBody i = none) (h : ReflTransGen (Pair.Step L) x y) :
    y.right = x.right := by
  induction h with
  | refl => rfl
  | @tail y z _ hs ih =>
    cases hs with
    | right hr =>
      rw [ih, hx] at hr
      cases hr
    | left _ => exact ih

theorem Endpoint.step_eq_none_of_ret {read : Reading W} {body : Bodies W P} {e : Endpoint W P α}
    {a : α} (h : e.prog = .ret a) (i : Inbox W) : e.step read body i = none := by
  obtain ⟨s, p⟩ := e
  obtain rfl : p = .ret a := h
  exact step_ret ..

theorem Endpoint.step_eq_none_of_throw {read : Reading W} {body : Bodies W P} {e : Endpoint W P α}
    {x : P.Exn} (h : e.prog = .throw x) (i : Inbox W) : e.step read body i = none := by
  obtain ⟨s, p⟩ := e
  cases h
  rfl

/-- A returned endpoint stays as it is. -/
theorem Pair.left_of_reaches {L : Link W P Q} {x y : Pair W P Q α β} {a : α}
    (hx : x.left.prog = .ret a) (h : ReflTransGen (Pair.Step L) x y) : y.left = x.left :=
  left_of_reaches_inert (Endpoint.step_eq_none_of_ret hx) h

theorem Pair.right_of_reaches {L : Link W P Q} {x y : Pair W P Q α β} {b : β}
    (hx : x.right.prog = .ret b) (h : ReflTransGen (Pair.Step L) x y) : y.right = x.right :=
  right_of_reaches_inert (Endpoint.step_eq_none_of_ret hx) h

/-- A confused endpoint stays confused, whatever else arrives. -/
theorem Pair.Confused.step {L : Link W P Q} {x y : Pair W P Q α β} (h : x.Confused)
    (hs : Pair.Step L x y) : y.Confused := by
  have hadd : ∀ {P' : Sig} {α' : Type} {e : Endpoint W P' α'} {i : Inbox W}
      (ps : List (Parcel W)), e.Confused i → e.Confused (deliver i ps) := by
    rintro P' α' e i ps ⟨κ, k, a, d, rest, hp, rfl, hd⟩
    exact ⟨κ, k, a, d, rest ++ ps, hp, rfl, hd⟩
  cases hs with
  | left hl =>
    rcases h with h | h
    · rw [h.step_eq_none] at hl; cases hl
    · exact .inr (hadd _ h)
  | right hr =>
    rcases h with h | h
    · exact .inl (hadd _ h)
    · rw [h.step_eq_none] at hr; cases hr

/-- A session that does not end confused never misread a datagram, under any schedule. -/
theorem Pair.SettlesIn.not_confused_of {L : Link W P Q} {x y t : Pair W P Q α β}
    (h : x.SettlesIn L t) (ht : ¬ t.Confused) (hy : ReflTransGen (Pair.Step L) x y) :
    ¬ y.Confused := by
  intro hc
  refine ht ?_
  have hyt := h.every y hy
  induction hyt using ReflTransGen.head_induction_on with
  | refl => exact hc
  | head hs hr ih => exact ih (.tail hy hs) (hc.step hs)

theorem Pair.Returned.not_confused {t : Pair W P Q α β} {a : α} {b : β} (h : t.Returned a b) :
    ¬ t.Confused := by
  rintro (⟨κ, k, p, d, rest, hp, -⟩ | ⟨κ, k, p, d, rest, hp, -⟩)
  · rw [h.1] at hp; cases hp
  · rw [h.2] at hp; cases hp

/-- **A session that ends with both sides returned never misread a datagram.** -/
theorem Pair.SettlesIn.not_confused {L : Link W P Q} {x y t : Pair W P Q α β} {a : α} {b : β}
    (h : x.SettlesIn L t) (ht : t.Returned a b) (hy : ReflTransGen (Pair.Step L) x y) :
    ¬ y.Confused :=
  h.not_confused_of ht.not_confused hy

/-! ## Sessions that come to an end

Completion is a session that ends with both sides returned; by determinacy every other end, and
every datagram read as something it is not, excludes it. -/

/-- The session ends with both sides returned. -/
def Pair.Completes (L : Link W P Q) (x : Pair W P Q α β) : Prop :=
  ∃ t a b, x.EndsIn L t ∧ t.Returned a b

/-- Sessions that end alike complete alike. -/
theorem Pair.completes_congr {L : Link W P Q} {x y : Pair W P Q α β}
    (h : ∀ t, x.EndsIn L t ↔ y.EndsIn L t) : x.Completes L ↔ y.Completes L := by
  simp only [Completes, h]

theorem Pair.not_completes_of_confused {L : Link W P Q} {x : Pair W P Q α β} (h : x.Confused) :
    ¬ x.Completes L := by
  rintro ⟨t, a, b, ht, hret⟩
  exact ht.settlesIn.not_confused hret .refl h

/-- A session that ends otherwise does not complete. -/
theorem Pair.not_completes_of_endsIn {L : Link W P Q} {x t : Pair W P Q α β} (ht : x.EndsIn L t)
    (hret : ∀ a b, ¬ t.Returned a b) : ¬ x.Completes L := by
  rintro ⟨t', a, b, ht', hret'⟩
  obtain rfl := ht.settlesIn.unique ht'
  exact hret a b hret'

/-- The session ends in a state of a certain kind. -/
def Pair.Attains (L : Link W P Q) (good : Pair W P Q α β → Prop) (x : Pair W P Q α β) : Prop :=
  ∃ t, x.EndsIn L t ∧ good t

theorem Pair.attains_congr {L : Link W P Q} {good : Pair W P Q α β → Prop} {x y : Pair W P Q α β}
    (h : ∀ t, x.EndsIn L t ↔ y.EndsIn L t) : x.Attains L good ↔ y.Attains L good := by
  simp only [Attains, h]

theorem Pair.not_attains_of_confused {L : Link W P Q} {good : Pair W P Q α β → Prop}
    {x : Pair W P Q α β} (hgood : ∀ t, good t → ¬ t.Confused) (h : x.Confused) :
    ¬ x.Attains L good := by
  rintro ⟨t, ht, hg⟩
  exact ht.settlesIn.not_confused_of (hgood t hg) .refl h

/-- A list cut at a length it has. -/
theorem exists_append_of_le {γ : Type} {ms : List γ} {n : Nat} (hn : n ≤ ms.length) :
    ∃ front back, ms = front ++ back ∧ front.length = n :=
  ⟨ms.take n, ms.drop n, (List.take_append_drop n ms).symm, by simp [hn]⟩

/-! ## Running a session symbolically

One lemma for each statement at the head of a program, for the left endpoint and then for the right
one. -/

section Calculus

variable {L : Link W P Q} {h : P.Host} {h' : Q.Host} {l : Endpoint W P α} {r : Endpoint W Q β}
  {i j : Inbox W} {m m' : List (Parcel W)} {t : Pair W P Q α β}

theorem Pair.endsIn_left (e : Endpoint W P α) (i' : Inbox W) (out : List (Parcel W))
    (hs : l.step typed L.leftBody i = some (e, i', out)) :
    Pair.EndsIn L ⟨l, r, i, j, m, m'⟩ t ↔
      Pair.EndsIn L ⟨e, r, i', deliver j (forPeer L.leftAddr L.rightAddr out),
        m ++ forOthers L.rightAddr out, m'⟩ t :=
  ends_iff_of_step (Pair.diamond L) (.left (x := ⟨l, r, i, j, m, m'⟩) hs)

theorem Pair.endsIn_right (e : Endpoint W Q β) (j' : Inbox W) (out : List (Parcel W))
    (hs : r.step typed L.rightBody j = some (e, j', out)) :
    Pair.EndsIn L ⟨l, r, i, j, m, m'⟩ t ↔
      Pair.EndsIn L ⟨l, e, deliver i (forPeer L.rightAddr L.leftAddr out), j', m,
        m' ++ forOthers L.leftAddr out⟩ t :=
  ends_iff_of_step (Pair.diamond L) (.right (x := ⟨l, r, i, j, m, m'⟩) hs)

/-! The left endpoint. -/

theorem Pair.left_run {o : P.Op} {v : P.Res o} {s : P.Host} {k : P.Res o → Program W P α}
    (ho : P.exec o h = .ok (v, s)) :
    Pair.EndsIn L ⟨⟨h, (Program.run o).bind k⟩, r, i, j, m, m'⟩ t ↔
      Pair.EndsIn L ⟨⟨s, k v⟩, r, i, j, m, m'⟩ t := by
  refine (Pair.endsIn_left _ _ [] (by rw [Program.run, Program.bind, Endpoint.step, ho])).trans
    ?_
  simp

/-- An operation whose exception escapes ends the program. -/
theorem Pair.left_run_error {o : P.Op} {x : P.Exn} {k : P.Res o → Program W P α}
    (ho : P.exec o h = .error x) :
    Pair.EndsIn L ⟨⟨h, (Program.run o).bind k⟩, r, i, j, m, m'⟩ t ↔
      Pair.EndsIn L ⟨⟨h, .throw x⟩, r, i, j, m, m'⟩ t := by
  refine (Pair.endsIn_left _ _ []
    (by rw [Program.run, Program.bind, Endpoint.step, ho])).trans ?_
  simp

theorem Pair.left_attempt {o : P.Op} {v : P.Res o} {s : P.Host}
    {k : Except P.Exn (P.Res o) → Program W P α} (ho : P.exec o h = .ok (v, s)) :
    Pair.EndsIn L ⟨⟨h, (Program.attempt o).bind k⟩, r, i, j, m, m'⟩ t ↔
      Pair.EndsIn L ⟨⟨s, k (.ok v)⟩, r, i, j, m, m'⟩ t := by
  refine (Pair.endsIn_left _ _ []
    (by rw [Program.attempt, Program.bind, Endpoint.step, ho])).trans ?_
  simp

theorem Pair.left_emit {κ : W.Kind} {d : W.Msg κ} {k : Unit → Program W P α} :
    Pair.EndsIn L ⟨⟨h, (Program.emit L.rightAddr κ d).bind k⟩, r, i, j, m, m'⟩ t ↔
      Pair.EndsIn L ⟨⟨h, k ()⟩, r, i, deliver j [(L.leftAddr, ⟨κ, d⟩)], m, m'⟩ t := by
  refine (Pair.endsIn_left _ _ [(L.rightAddr, ⟨κ, d⟩)] rfl).trans ?_
  simp

theorem Pair.left_await {κ : W.Kind} {d : W.Msg κ} {a : W.Addr} {rest : List (Parcel W)}
    {k : Option (W.Msg κ) → Program W P α} :
    Pair.EndsIn L ⟨⟨h, (Program.await κ).bind k⟩, r, some ((a, ⟨κ, d⟩) :: rest), j, m, m'⟩ t ↔
      Pair.EndsIn L ⟨⟨h, k (some d)⟩, r, some rest, j, m, m'⟩ t := by
  refine (Pair.endsIn_left ⟨h, k (some d)⟩ (some rest) []
    (by simp [Program.await, Program.bind, Endpoint.step])).trans ?_
  simp

theorem Pair.left_awaitFrom {κ : W.Kind} {d : W.Msg κ} {a : W.Addr} {rest : List (Parcel W)}
    {k : Option (W.Addr × W.Msg κ) → Program W P α} :
    Pair.EndsIn L ⟨⟨h, (Program.awaitFrom κ).bind k⟩, r, some ((a, ⟨κ, d⟩) :: rest), j, m, m'⟩ t ↔
      Pair.EndsIn L ⟨⟨h, k (some (a, d))⟩, r, some rest, j, m, m'⟩ t := by
  refine (Pair.endsIn_left ⟨h, k (some (a, d))⟩ (some rest) []
    (by simp [Program.awaitFrom, Program.bind, Endpoint.step])).trans ?_
  simp

/-- The datagrams that are there are taken, and the loop waits for the others. -/
theorem Pair.left_awaitAll {κ : W.Kind} (a : W.Addr) (ds : List (W.Msg κ)) (n : Nat)
    {rest : List (Parcel W)} {k : List (Option (W.Msg κ)) → Program W P α} :
    Pair.EndsIn L ⟨⟨h, (Program.awaitAll κ (ds.length + n)).bind k⟩, r,
        some (ds.map (fun d ↦ (a, ⟨κ, d⟩)) ++ rest), j, m, m'⟩ t ↔
      Pair.EndsIn L ⟨⟨h, (Program.awaitAll κ n).bind fun more ↦ k (ds.map some ++ more)⟩, r,
        some rest, j, m, m'⟩ t := by
  induction ds generalizing k with
  | nil => simp
  | cons d ds ih =>
    simp only [List.length_cons, Nat.add_right_comm, Program.awaitAll, Program.bind_eq,
      Program.bind_assoc, List.map_cons, List.cons_append, Pair.left_await, Program.pure_eq,
      Program.ret_bind, ih]

theorem Pair.left_shut {k : Unit → Program W P α} :
    Pair.EndsIn L ⟨⟨h, Program.shut.bind k⟩, r, i, j, m, m'⟩ t ↔
      Pair.EndsIn L ⟨⟨h, k ()⟩, r, none, j, m, m'⟩ t := by
  refine (Pair.endsIn_left _ _ [] rfl).trans ?_
  simp

theorem Pair.left_invoke {l : P.Proc} {k : P.Out l → Program W P α} :
    Pair.EndsIn L ⟨⟨h, (Program.invoke l).bind k⟩, r, i, j, m, m'⟩ t ↔
      Pair.EndsIn L ⟨⟨h, (L.leftBody l).bind k⟩, r, i, j, m, m'⟩ t := by
  refine (Pair.endsIn_left _ _ [] rfl).trans ?_
  simp

/-! The right endpoint. -/

theorem Pair.right_run {o : Q.Op} {v : Q.Res o} {s : Q.Host} {k : Q.Res o → Program W Q β}
    (ho : Q.exec o h' = .ok (v, s)) :
    Pair.EndsIn L ⟨l, ⟨h', (Program.run o).bind k⟩, i, j, m, m'⟩ t ↔
      Pair.EndsIn L ⟨l, ⟨s, k v⟩, i, j, m, m'⟩ t := by
  refine (Pair.endsIn_right _ _ []
    (by rw [Program.run, Program.bind, Endpoint.step, ho])).trans ?_
  simp

theorem Pair.right_run_error {o : Q.Op} {x : Q.Exn} {k : Q.Res o → Program W Q β}
    (ho : Q.exec o h' = .error x) :
    Pair.EndsIn L ⟨l, ⟨h', (Program.run o).bind k⟩, i, j, m, m'⟩ t ↔
      Pair.EndsIn L ⟨l, ⟨h', .throw x⟩, i, j, m, m'⟩ t := by
  refine (Pair.endsIn_right _ _ []
    (by rw [Program.run, Program.bind, Endpoint.step, ho])).trans ?_
  simp

theorem Pair.right_attempt {o : Q.Op} {v : Q.Res o} {s : Q.Host}
    {k : Except Q.Exn (Q.Res o) → Program W Q β} (ho : Q.exec o h' = .ok (v, s)) :
    Pair.EndsIn L ⟨l, ⟨h', (Program.attempt o).bind k⟩, i, j, m, m'⟩ t ↔
      Pair.EndsIn L ⟨l, ⟨s, k (.ok v)⟩, i, j, m, m'⟩ t := by
  refine (Pair.endsIn_right _ _ []
    (by rw [Program.attempt, Program.bind, Endpoint.step, ho])).trans ?_
  simp

theorem Pair.right_attempt_error {o : Q.Op} {x : Q.Exn}
    {k : Except Q.Exn (Q.Res o) → Program W Q β} (ho : Q.exec o h' = .error x) :
    Pair.EndsIn L ⟨l, ⟨h', (Program.attempt o).bind k⟩, i, j, m, m'⟩ t ↔
      Pair.EndsIn L ⟨l, ⟨h', k (.error x)⟩, i, j, m, m'⟩ t := by
  refine (Pair.endsIn_right _ _ []
    (by rw [Program.attempt, Program.bind, Endpoint.step, ho])).trans ?_
  simp

theorem Pair.right_emit {κ : W.Kind} {d : W.Msg κ} {k : Unit → Program W Q β} :
    Pair.EndsIn L ⟨l, ⟨h', (Program.emit L.leftAddr κ d).bind k⟩, i, j, m, m'⟩ t ↔
      Pair.EndsIn L ⟨l, ⟨h', k ()⟩, deliver i [(L.rightAddr, ⟨κ, d⟩)], j, m, m'⟩ t := by
  refine (Pair.endsIn_right _ _ [(L.leftAddr, ⟨κ, d⟩)] rfl).trans ?_
  simp

theorem Pair.right_await {κ : W.Kind} {d : W.Msg κ} {a : W.Addr} {rest : List (Parcel W)}
    {k : Option (W.Msg κ) → Program W Q β} :
    Pair.EndsIn L ⟨l, ⟨h', (Program.await κ).bind k⟩, i, some ((a, ⟨κ, d⟩) :: rest), m, m'⟩ t ↔
      Pair.EndsIn L ⟨l, ⟨h', k (some d)⟩, i, some rest, m, m'⟩ t := by
  refine (Pair.endsIn_right ⟨h', k (some d)⟩ (some rest) []
    (by simp [Program.await, Program.bind, Endpoint.step])).trans ?_
  simp

theorem Pair.right_awaitAll {κ : W.Kind} (a : W.Addr) (ds : List (W.Msg κ)) (n : Nat)
    {rest : List (Parcel W)} {k : List (Option (W.Msg κ)) → Program W Q β} :
    Pair.EndsIn L ⟨l, ⟨h', (Program.awaitAll κ (ds.length + n)).bind k⟩, i,
        some (ds.map (fun d ↦ (a, ⟨κ, d⟩)) ++ rest), m, m'⟩ t ↔
      Pair.EndsIn L ⟨l, ⟨h', (Program.awaitAll κ n).bind fun more ↦ k (ds.map some ++ more)⟩, i,
        some rest, m, m'⟩ t := by
  induction ds generalizing k with
  | nil => simp
  | cons d ds ih =>
    simp only [List.length_cons, Nat.add_right_comm, Program.awaitAll, Program.bind_eq,
      Program.bind_assoc, List.map_cons, List.cons_append, Pair.right_await, Program.pure_eq,
      Program.ret_bind, ih]

theorem Pair.right_awaitFrom {κ : W.Kind} {d : W.Msg κ} {a : W.Addr} {rest : List (Parcel W)}
    {k : Option (W.Addr × W.Msg κ) → Program W Q β} :
    Pair.EndsIn L ⟨l, ⟨h', (Program.awaitFrom κ).bind k⟩, i, some ((a, ⟨κ, d⟩) :: rest), m, m'⟩ t ↔
      Pair.EndsIn L ⟨l, ⟨h', k (some (a, d))⟩, i, some rest, m, m'⟩ t := by
  refine (Pair.endsIn_right ⟨h', k (some (a, d))⟩ (some rest) []
    (by simp [Program.awaitFrom, Program.bind, Endpoint.step])).trans ?_
  simp

theorem Pair.right_invoke {l' : Q.Proc} {k : Q.Out l' → Program W Q β} :
    Pair.EndsIn L ⟨l, ⟨h', (Program.invoke l').bind k⟩, i, j, m, m'⟩ t ↔
      Pair.EndsIn L ⟨l, ⟨h', (L.rightBody l').bind k⟩, i, j, m, m'⟩ t := by
  refine (Pair.endsIn_right _ _ [] rfl).trans ?_
  simp

end Calculus

/-! ## Sessions in which nothing is called

A procedure that is never called might have any body.  Conversely, a session that comes to a good
end although the procedures of the right program throw has never called one of them. -/

/-- The link with other bodies for the procedures of the right program: they throw. -/
def Link.barred (L : Link W P Q) (e : Q.Exn) : Link W P Q :=
  { L with rightBody := fun _ ↦ .throw e }

/-- The right endpoint is about to call a procedure. -/
def Pair.Calls (x : Pair W P Q α β) : Prop := ∃ l k, x.right.prog = .call l k

section Barred

variable {L : Link W P Q} {e : Q.Exn} {x y t : Pair W P Q α β}

/-- A move that is not a call does not depend on the bodies. -/
theorem Endpoint.step_congr {read : Reading W} {body body' : Bodies W P} {f : Endpoint W P α}
    (hf : ∀ l k, f.prog ≠ .call l k) (i : Inbox W) : f.step read body i = f.step read body' i := by
  obtain ⟨h, p⟩ := f
  cases p with
  | call l k => exact absurd rfl (hf l k)
  | wait κ k => rcases i with _ | _ | ⟨d, i⟩ <;> rfl
  | _ => rfl

/-- A run goes on with throwing procedures, as long as none of them is called. -/
theorem Pair.reaches_barred (h : ReflTransGen (Pair.Step L) x y) :
    ReflTransGen (Pair.Step (L.barred e)) x y ∨
      ∃ z, ReflTransGen (Pair.Step (L.barred e)) x z ∧ z.Calls := by
  induction h with
  | refl => exact .inl .refl
  | @tail y z _ hs ih =>
    rcases ih with hy | hcalls
    · by_cases hc : y.Calls
      · exact .inr ⟨y, hy, hc⟩
      · refine .inl (hy.tail ?_)
        cases hs with
        | left hl => exact .left (L := L.barred e) hl
        | right hr =>
          rw [Endpoint.step_congr (fun l k hk ↦ hc ⟨l, k, hk⟩)] at hr
          exact .right (L := L.barred e) hr
    · exact .inr hcalls

/-- A call with throwing procedures is the end of the right endpoint. -/
theorem Pair.Calls.not_returned (hx : x.EndsIn (L.barred e) t) {b : β} (ht : t.right.prog = .ret b)
    (hy : ReflTransGen (Pair.Step (L.barred e)) x y) : ¬ y.Calls := by
  rintro ⟨l, k, hk⟩
  obtain ⟨f, ⟨h, p⟩, i, j, m, m'⟩ := y
  obtain rfl : p = .call l k := hk
  have hstep : Pair.Step (L.barred e) ⟨f, ⟨h, .call l k⟩, i, j, m, m'⟩ _ := .right rfl
  have hrest := hx.settlesIn.every _ (hy.tail hstep)
  have hright := Pair.right_of_reaches_inert (fun i ↦ Endpoint.step_throw ..) hrest
  rw [hright] at ht
  cases ht

/-- **A session that ends well with throwing procedures calls none.** -/
theorem Pair.not_calls (hx : x.EndsIn (L.barred e) t) {b : β} (ht : t.right.prog = .ret b)
    (hy : ReflTransGen (Pair.Step L) x y) : ¬ y.Calls := by
  rcases Pair.reaches_barred (e := e) hy with hy | ⟨z, hz, hcalls⟩
  · exact Calls.not_returned hx ht hy
  · exact absurd hcalls (Calls.not_returned hx ht hz)

end Barred

end Session
