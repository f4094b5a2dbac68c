import Bropdox.Session.Pair

/-!
# Codes of conduct

What a program may do without knowing how a session goes.  A property of the program as a tree is
shown statement by statement, once, and then holds of every session that the program takes part in.

## What is here

* `Code` says which operations and procedures a program may call and which datagrams it may send,
  provided that the operations come to what they may come to and that the datagrams that arrive are
  those that may arrive.
* `Program.Follows` says that a program follows a code, up to some point from which on it satisfies
  `Q`; `Program.Heeds` is the case without such a point.  There is one rule for sequencing
  (`follows_bind`) and none for loops: a procedure that may be called has a body that follows the
  code.
* `Code.Sound` is what has to be known of the operations and the bodies, and `Endpoint.follows_step`
  the step lemma.
* `Pair.conducted`: if the two sides of a session each follow a code as long as the other does, they
  do so in every state that can be reached, up to the point at which the right side stops.
-/

set_option autoImplicit false

namespace Session

open Relation (ReflTransGen)

variable {W : Wire} {P Q : Sig} {α β : Type}

/-- A code of conduct. -/
structure Code (W : Wire) (P : Sig) where
  /-- The operations that may be called. -/
  op : P.Op → Prop
  /-- What they may come to. -/
  result : (o : P.Op) → Except P.Exn (P.Res o) → Prop
  /-- The datagrams that may be sent. -/
  send : Datagram W → Prop
  /-- The datagrams that may arrive. -/
  hear : Datagram W → Prop
  /-- The procedures that may be called. -/
  call : P.Proc → Prop

/-- A program follows a code, up to where it satisfies `S`. -/
inductive Program.Follows (c : Code W P) (body : Bodies W P) (S : Program W P α → Prop) :
    Program W P α → Prop
  | stop {p : Program W P α} (hp : S p) : Follows c body S p
  | ret (a : α) : Follows c body S (.ret a)
  | throw (e : P.Exn) : Follows c body S (.throw e)
  | op {o : P.Op} {k : Except P.Exn (P.Res o) → Program W P α} (ho : c.op o)
      (hk : ∀ r, c.result o r → Follows c body S (k r)) : Follows c body S (.op o k)
  | send {a : W.Addr} {d : Datagram W} {k : Program W P α} (hd : c.send d)
      (hk : Follows c body S k) : Follows c body S (.send a d k)
  | wait {κ : W.Kind} {k : Option (W.Addr × W.Msg κ) → Program W P α}
      (hk : ∀ a m, c.hear ⟨κ, m⟩ → Follows c body S (k (some (a, m)))) :
      Follows c body S (.wait κ k)
  | close {k : Program W P α} (hk : Follows c body S k) : Follows c body S (.close k)
  | call {l : P.Proc} {k : P.Out l → Program W P α} (hl : c.call l)
      (hk : ∀ r, Follows c body S (k r)) : Follows c body S (.call l k)
  | unfold {l : P.Proc} {k : P.Out l → Program W P α} (hk : Follows c body S ((body l).bind k)) :
      Follows c body S (.call l k)

/-- A program that follows a code to its end. -/
abbrev Program.Heeds (c : Code W P) (body : Bodies W P) (p : Program W P α) : Prop :=
  p.Follows c body fun _ ↦ False

namespace Program

variable {c : Code W P} {body : Bodies W P} {S : Program W P α → Prop}

/-- **Sequencing.** -/
theorem follows_bind {p : Program W P β} {f : β → Program W P α} (hp : p.Heeds c body)
    (hf : ∀ b, (f b).Follows c body S) : (p.bind f).Follows c body S := by
  induction hp with
  | stop hp => exact hp.elim
  | ret b => exact hf b
  | throw e => exact .throw e
  | op ho _ ih => exact .op ho ih
  | send hd _ ih => exact .send hd ih
  | wait _ ih => exact .wait ih
  | close _ ih => exact .close ih
  | call hl _ ih => exact .call hl ih
  | unfold _ ih => exact .unfold (bind_assoc .. ▸ ih)

theorem follows_run {o : P.Op} {k : P.Res o → Program W P α} (ho : c.op o)
    (hk : ∀ v, c.result o (.ok v) → (k v).Follows c body S) :
    ((run o).bind k).Follows c body S := by
  refine .op ho fun r hr ↦ ?_
  cases r with
  | ok v => exact hk v hr
  | error e => exact .throw e

theorem follows_attempt {o : P.Op} {k : Except P.Exn (P.Res o) → Program W P α} (ho : c.op o)
    (hk : ∀ r, c.result o r → (k r).Follows c body S) :
    ((attempt o).bind k).Follows c body S :=
  .op ho hk

theorem follows_emit {a : W.Addr} {κ : W.Kind} {m : W.Msg κ} {k : Unit → Program W P α}
    (hm : c.send ⟨κ, m⟩) (hk : (k ()).Follows c body S) :
    ((emit a κ m).bind k).Follows c body S :=
  .send hm hk

theorem follows_await {κ : W.Kind} {k : Option (W.Msg κ) → Program W P α}
    (hk : ∀ m, c.hear ⟨κ, m⟩ → (k (some m)).Follows c body S) :
    ((await κ).bind k).Follows c body S :=
  .wait fun _ m hm ↦ hk m hm

theorem follows_awaitAll {κ : W.Kind} {n : Nat} {k : List (Option (W.Msg κ)) → Program W P α}
    (hk : ∀ ms, (∀ m, some m ∈ ms → c.hear ⟨κ, m⟩) → (k ms).Follows c body S) :
    ((awaitAll κ n).bind k).Follows c body S := by
  induction n generalizing k with
  | zero => exact hk [] fun m hm ↦ by cases hm
  | succ n ih =>
    simp only [awaitAll, bind_eq, bind_assoc, pure_eq, ret_bind]
    refine follows_await fun m hm ↦ ih fun ms hms ↦ hk (some m :: ms) fun m' hm' ↦ ?_
    rcases List.mem_cons.mp hm' with he | hm'
    · exact Option.some.inj he ▸ hm
    · exact hms m' hm'

theorem follows_invoke {l : P.Proc} {k : P.Out l → Program W P α} (hl : c.call l)
    (hk : ∀ r, (k r).Follows c body S) : ((invoke l).bind k).Follows c body S :=
  .call hl hk

end Program

/-- What a code says is true of the operations on the hosts with a property, which they keep, and
of the bodies of the procedures. -/
structure Code.Sound (c : Code W P) (body : Bodies W P) (I : P.Host → Prop) : Prop where
  /-- What operations come to. -/
  ok : ∀ o h v h', c.op o → I h → P.exec o h = .ok (v, h') → c.result o (.ok v) ∧ I h'
  /-- What they may throw. -/
  error : ∀ o h e, c.op o → I h → P.exec o h = .error e → c.result o (.error e)
  /-- The bodies follow the code. -/
  bodies : ∀ l, c.call l → (body l).Heeds c body

theorem typed_eq_some {κ : W.Kind} {d : Datagram W} {m : W.Msg κ} (h : typed κ d = some m) :
    d = ⟨κ, m⟩ := by
  obtain ⟨κ', m'⟩ := d
  by_cases hκ : κ' = κ
  · subst hκ
    rw [typed_self, Option.some_inj] at h
    rw [h]
  · rw [typed_of_ne hκ] at h
    cases h

/-- No datagram appears in an inbox by itself. -/
theorem Endpoint.mem_of_step {read : Reading W} {body : Bodies W P} {e e' : Endpoint W P α}
    {i i' : Inbox W} {out : List (Parcel W)} (hs : e.step read body i = some (e', i', out))
    {p : Parcel W} (hp : p ∈ i'.getD []) : p ∈ i.getD [] := by
  obtain ⟨h, q⟩ := e
  cases q with
  | ret a => cases hs
  | throw x => cases hs
  | op o k =>
    simp only [step] at hs
    split at hs <;> cases hs <;> exact hp
  | send a d k =>
    cases hs
    exact hp
  | close k =>
    cases hs
    cases hp
  | call l k =>
    cases hs
    exact hp
  | wait κ k =>
    rcases i with _ | _ | ⟨d, i⟩
    · cases hs
    · cases hs
    · obtain ⟨m, -, hm⟩ := Option.map_eq_some_iff.mp hs
      cases hm
      exact List.mem_cons_of_mem _ hp

/-- **One move** of an endpoint that follows a code: it goes on following it, or it had stopped. -/
theorem Endpoint.follows_step {c : Code W P} {body : Bodies W P} {I : P.Host → Prop}
    {S : Program W P α → Prop} (hc : c.Sound body I) {e e' : Endpoint W P α} {i i' : Inbox W}
    {out : List (Parcel W)} (hp : e.prog.Follows c body S) (hI : I e.host)
    (hi : ∀ p ∈ i.getD [], c.hear p.2) (hs : e.step typed body i = some (e', i', out)) :
    S e.prog ∨ (e'.prog.Follows c body S ∧ I e'.host ∧ ∀ p ∈ out, c.send p.2) := by
  obtain ⟨h, q⟩ := e
  cases hp with
  | stop hS => exact .inl hS
  | ret a => cases hs
  | throw x => cases hs
  | @op o k ho hk =>
    right
    simp only [step] at hs
    cases hx : P.exec o h with
    | error x =>
      rw [hx] at hs
      cases hs
      exact ⟨hk _ (hc.error o h x ho hI hx), hI, List.forall_mem_nil _⟩
    | ok r =>
      rw [hx] at hs
      cases hs
      obtain ⟨hres, hI'⟩ := hc.ok o h r.1 r.2 ho hI hx
      exact ⟨hk _ hres, hI', List.forall_mem_nil _⟩
  | send hd hk =>
    cases hs
    exact .inr ⟨hk, hI, List.forall_mem_singleton.mpr hd⟩
  | close hk =>
    cases hs
    exact .inr ⟨hk, hI, List.forall_mem_nil _⟩
  | call hl hk =>
    cases hs
    exact .inr ⟨Program.follows_bind (hc.bodies _ hl) hk, hI, List.forall_mem_nil _⟩
  | unfold hk =>
    cases hs
    exact .inr ⟨hk, hI, List.forall_mem_nil _⟩
  | wait hk =>
    rcases i with _ | _ | ⟨d, i⟩
    · cases hs
    · cases hs
    · obtain ⟨m, hm, hs⟩ := Option.map_eq_some_iff.mp hs
      cases hs
      have hd : c.hear d.2 := hi d List.mem_cons_self
      rw [typed_eq_some hm] at hd
      exact .inr ⟨hk d.1 m hd, hI, List.forall_mem_nil _⟩

/-! ## Two sides

What either side may send is what may arrive at the other. -/

section Pair

variable {L : Link W P Q} {JL : Endpoint W P α → Prop} {JR Done : Endpoint W Q β → Prop}
  {hearL hearR : Datagram W → Prop} {x y : Pair W P Q α β}

/-- The two sides of a session conduct themselves, and only what may arrive is in the channels. -/
structure Pair.Conducted (JL : Endpoint W P α → Prop) (JR : Endpoint W Q β → Prop)
    (hearL hearR : Datagram W → Prop) (x : Pair W P Q α β) : Prop where
  /-- The left side. -/
  left : JL x.left
  /-- The right side. -/
  right : JR x.right
  /-- What has been sent to the left side. -/
  toLeft : ∀ p ∈ x.toLeft.getD [], hearL p.2
  /-- What has been sent to the right side. -/
  toRight : ∀ p ∈ x.toRight.getD [], hearR p.2

/-- Datagrams that are delivered are those that were sent. -/
theorem forall_mem_deliver {hear : Datagram W → Prop} {me peer : W.Addr} {i : Inbox W}
    {out : List (Parcel W)} (hi : ∀ p ∈ i.getD [], hear p.2) (hout : ∀ p ∈ out, hear p.2) :
    ∀ p ∈ (deliver i (forPeer me peer out)).getD [], hear p.2 := by
  intro p hp
  cases i with
  | none => cases hp
  | some ps =>
    rcases List.mem_append.mp hp with hp | hp
    · exact hi p hp
    · obtain ⟨q, hq, rfl⟩ := List.mem_map.mp hp
      exact hout q (List.mem_filter.mp hq).1

/-- **Both sides conduct themselves in every state that can be reached**, if each does as long as
the other does; unless the right side has stopped, which it does for good. -/
theorem Pair.conducted
    (hleft : ∀ e i e' i' out, JL e → (∀ p ∈ i.getD [], hearL p.2) →
      Endpoint.step typed L.leftBody e i = some (e', i', out) → JL e' ∧ ∀ p ∈ out, hearR p.2)
    (hright : ∀ e i e' i' out, JR e → (∀ p ∈ i.getD [], hearR p.2) →
      Endpoint.step typed L.rightBody e i = some (e', i', out) →
        Done e' ∨ (JR e' ∧ ∀ p ∈ out, hearL p.2))
    (hdone : ∀ e i e' i' out, Done e →
      Endpoint.step typed L.rightBody e i = some (e', i', out) → Done e')
    (hx : x.Conducted JL JR hearL hearR) (h : ReflTransGen (Pair.Step L) x y) :
    Done y.right ∨ y.Conducted JL JR hearL hearR := by
  induction h with
  | refl => exact .inr hx
  | tail _ hs ih =>
    cases hs with
    | left hl =>
      refine ih.imp id fun hy ↦ ?_
      obtain ⟨hJ, hout⟩ := hleft _ _ _ _ _ hy.left hy.toLeft hl
      exact ⟨hJ, hy.right, fun p hp ↦ hy.toLeft p (Endpoint.mem_of_step hl hp),
        forall_mem_deliver hy.toRight hout⟩
    | right hr =>
      rcases ih with hd | hy
      · exact .inl (hdone _ _ _ _ _ hd hr)
      · refine (hright _ _ _ _ _ hy.right hy.toRight hr).imp id fun hJ ↦ ?_
        exact ⟨hy.left, hJ.1, forall_mem_deliver hy.toLeft hJ.2,
          fun p hp ↦ hy.toRight p (Endpoint.mem_of_step hr hp)⟩

end Pair
end Session
