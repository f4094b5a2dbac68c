import Bropdox.Session.Pair

/-!
# Conversations on one network

A `Pair` is two endpoints over two channels of their own.  On a network there are no channels but
sockets: what is sent is a letter with an address, and nothing in it says which conversation it is
part of.  An endpoint sends to the address that it has heard from last.

## What is here

* `Letter`, `Socket` and `Sockets` are the network: any number of sockets, each with an address of
  its own, and `Sockets.post` is what becomes of them when something is sent.
  `Sockets.Distinct.post_eq` says that letters only get to where they are sent.
* `Endpoint.talk` is one move of an endpoint on a socket, and `Endpoint.talk_spec` compares it with
  the move on the inbox that the endpoint sees.
* `Program.Listens` says of a program that it hears from somebody before it sends anything.
* Two sockets are `Linked` if each has heard of nobody but the other, where one of them may not even
  have heard of the other yet if its program is going to listen before it sends.
* Linked sockets stay linked, and what their endpoints do on them is what a pair does
  (`Linked.left`, `Linked.right`), no less and no more (`Linked.step_cases`).
-/

set_option autoImplicit false

namespace Session

variable {N A : Type} {W : Wire} {P Q : Sig} {α β : Type}

/-- A datagram that has been sent. -/
structure Letter (A : Type) (W : Wire) where
  /-- Where it comes from. -/
  source : A
  /-- Where it goes. -/
  dest : A
  /-- What is in it. -/
  datagram : Datagram W

/-- A socket. -/
structure Socket (A : Type) (W : Wire) where
  /-- The address of the socket, also after it has been closed. -/
  own : A
  /-- The address that was heard from last. -/
  peer : A
  /-- What has arrived and is unread, with the addresses that it comes from; `none` when the socket
  is closed. -/
  unread : Option (List (A × Datagram W))

/-- All sockets there are. -/
abbrev Sockets (N A : Type) (W : Wire) := N → Socket A W

/-! ## Letters

What arrives where. -/

section Letters

variable [DecidableEq A] {s : Socket A W} {out out' : List (Letter A W)}

/-- Some letters have been sent, and those that are for this socket arrive. -/
def Socket.hear (s : Socket A W) (out : List (Letter A W)) : Socket A W :=
  { s with
    unread := s.unread.map
      (· ++ (out.filter (·.dest = s.own)).map fun l ↦ (l.source, l.datagram)) }

@[simp] theorem Socket.own_hear (s : Socket A W) (out : List (Letter A W)) :
    (s.hear out).own = s.own := rfl

@[simp] theorem Socket.peer_hear (s : Socket A W) (out : List (Letter A W)) :
    (s.hear out).peer = s.peer := rfl

/-- Letters that are for somebody else do not arrive. -/
theorem Socket.hear_of_ne (h : ∀ l ∈ out, l.dest ≠ s.own) : s.hear out = s := by
  have hnone : out.filter (·.dest = s.own) = [] :=
    List.filter_eq_nil_iff.mpr fun l hl ↦ by simpa using h l hl
  obtain ⟨own, peer, _ | i⟩ := s
  · rfl
  · simp [hear, hnone]

@[simp] theorem Socket.hear_nil (s : Socket A W) : s.hear [] = s := hear_of_ne (by simp)

/-- Letters that are for a socket arrive there, if it is open. -/
theorem Socket.unread_hear (h : ∀ l ∈ out, l.dest = s.own) : (s.hear out).unread =
    s.unread.map (· ++ out.map fun l ↦ (l.source, l.datagram)) := by
  rw [hear, List.filter_eq_self.mpr fun l hl ↦ by simpa using h l hl]

variable [DecidableEq N] {net : Sockets N A W} {n m : N}

/-- The socket `n` has become `s`, and some letters have been sent. -/
def Sockets.post (net : Sockets N A W) (n : N) (s : Socket A W) (out : List (Letter A W)) :
    Sockets N A W := fun m ↦ (Function.update net n s m).hear out

/-- All addresses are different. -/
def Sockets.Distinct (net : Sockets N A W) : Prop := Function.Injective fun n ↦ (net n).own

@[simp] theorem Sockets.post_nil : Sockets.post net n s [] = Function.update net n s :=
  funext fun _ ↦ Socket.hear_nil _

/-- Addresses are kept. -/
theorem Sockets.own_post (hs : s.own = (net n).own) (k : N) :
    (Sockets.post net n s out k).own = (net k).own := by
  by_cases hk : k = n
  · subst hk
    simpa [post] using hs
  · simp [post, hk]

theorem Sockets.Distinct.send (hnet : Sockets.Distinct net) (hs : s.own = (net n).own) :
    Sockets.Distinct (Sockets.post net n s out) := by
  intro k k' hkk'
  simp only [Sockets.own_post hs] at hkk'
  exact hnet hkk'

/-- **Letters only get to where they are sent.** -/
theorem Sockets.Distinct.post_eq (hnet : Sockets.Distinct net) (hnm : m ≠ n)
    (hs : s.own = (net n).own) (hout : ∀ l ∈ out, l.dest = (net m).own) :
    Sockets.post net n s out =
      Function.update (Function.update net n s) m ((net m).hear out) := by
  funext k
  by_cases hkm : k = m
  · subst hkm
    simp [post, hnm]
  · rw [Function.update_of_ne hkm, post]
    refine Socket.hear_of_ne fun l hl hdest ↦ hkm (hnet ?_)
    show (net k).own = (net m).own
    rw [← hout l hl, hdest]
    by_cases hkn : k = n
    · subst hkn
      rw [Function.update_self, hs]
    · rw [Function.update_of_ne hkn]

/-- A socket may change otherwise. -/
theorem Sockets.Distinct.change (hnet : Sockets.Distinct net) (hs : s.own = (net n).own) :
    Sockets.Distinct (Function.update net n s) := by
  rw [← Sockets.post_nil]
  exact hnet.send hs

omit [DecidableEq A] in
/-- A socket may move to an address that is free. -/
theorem Sockets.Distinct.update (hnet : Sockets.Distinct net)
    (hs : ∀ k, k ≠ n → (net k).own ≠ s.own) : Sockets.Distinct (Function.update net n s) := by
  intro k k' hkk'
  by_cases hk : k = n <;> by_cases hk' : k' = n
  · rw [hk, hk']
  · subst hk
    refine absurd ?_ (hs k' hk')
    simpa [hk'] using hkk'.symm
  · subst hk'
    refine absurd ?_ (hs k hk)
    simpa [hk] using hkk'
  · exact hnet (by simpa [hk, hk'] using hkk')

end Letters

/-! ## One endpoint

A move of one endpoint, with the socket that it has. -/

variable [Unique W.Addr]

/-- What an endpoint sees of its socket: it does not look at the addresses. -/
def Socket.inbox (s : Socket A W) : Inbox W := s.unread.map fun i ↦ i.map fun p ↦ (default, p.2)

/-- What an endpoint sees of what it sends. -/
def parcels (out : List (Letter A W)) : List (Parcel W) := out.map fun l ↦ (default, l.datagram)

/-- A move of an endpoint on a socket: the endpoint after it, its socket after it, and what was
sent. -/
def Endpoint.talk (body : Bodies W P) :
    Endpoint W P α → Socket A W → Option (Endpoint W P α × Socket A W × List (Letter A W))
  | ⟨h, .op o k⟩, s =>
    match P.exec o h with
    | .ok (r, h') => some (⟨h', k (.ok r)⟩, s, [])
    | .error e => some (⟨h, k (.error e)⟩, s, [])
  | ⟨h, .send _ d k⟩, s => some (⟨h, k⟩, s, [⟨s.own, s.peer, d⟩])
  | ⟨h, .close k⟩, s => some (⟨h, k⟩, { s with unread := none }, [])
  | ⟨h, .call l k⟩, s => some (⟨h, (body l).bind k⟩, s, [])
  | ⟨h, .wait κ k⟩, s =>
    match s.unread with
    | some ((a, d) :: i) =>
      (typed κ d).map fun m ↦
        (⟨h, k (some (default, m))⟩, { s with peer := a, unread := some i }, [])
    | _ => none
  | ⟨_, .ret _⟩, _ => none
  | ⟨_, .throw _⟩, _ => none

/-- What becomes of a socket: nothing, it is closed, something is sent, or something is read. -/
inductive Socket.Use (s : Socket A W) : Socket A W → List (Letter A W) → Prop
  | keep : Use s s []
  | close : Use s { s with unread := none } []
  | send (d : Datagram W) : Use s s [⟨s.own, s.peer, d⟩]
  | read {a : A} {d : Datagram W} {i : List (A × Datagram W)} (h : s.unread = some ((a, d) :: i)) :
      Use s { s with peer := a, unread := some i } []

/-- Nothing is sent before something has been heard. -/
inductive Program.Listens (body : Bodies W P) : Program W P α → Prop
  | ret (a : α) : Listens body (.ret a)
  | throw (e : P.Exn) : Listens body (.throw e)
  | op {o : P.Op} {k : Except P.Exn (P.Res o) → Program W P α} (h : ∀ r, Listens body (k r)) :
      Listens body (.op o k)
  | wait {κ : W.Kind} {k : Option (W.Addr × W.Msg κ) → Program W P α} : Listens body (.wait κ k)
  | call {l : P.Proc} {k : P.Out l → Program W P α} (h : Listens body ((body l).bind k)) :
      Listens body (.call l k)

section Talk

variable {body : Bodies W P} {e e' : Endpoint W P α} {s s' : Socket A W} {out : List (Letter A W)}

/-- **What an endpoint does on a socket** is what it does on its inbox, and the addresses are its
own and that of its peer. -/
theorem Endpoint.talk_spec (h : e.talk body s = some (e', s', out)) :
    e.step typed body s.inbox = some (e', s'.inbox, parcels out) ∧ s.Use s' out ∧
      (e.prog.Listens body → out = [] ∧
        (s' = s ∧ e'.prog.Listens body ∨
          ∃ a d i, s.unread = some ((a, d) :: i) ∧
            s' = { s with peer := a, unread := some i })) := by
  obtain ⟨st, p⟩ := e
  cases p with
  | ret a => cases h
  | throw x => cases h
  | op o k =>
    have hk (r : Except P.Exn (P.Res o)) (hl : (Program.op o k).Listens body) :
        (k r).Listens body := by
      cases hl with | op hl => exact hl r
    cases hx : P.exec o st with
    | ok r =>
      simp only [talk, hx, Option.some.injEq, Prod.mk.injEq] at h
      obtain ⟨rfl, rfl, rfl⟩ := h
      exact ⟨by simp [step, hx, parcels], .keep, fun hl ↦ ⟨rfl, .inl ⟨rfl, hk _ hl⟩⟩⟩
    | error x =>
      simp only [talk, hx, Option.some.injEq, Prod.mk.injEq] at h
      obtain ⟨rfl, rfl, rfl⟩ := h
      exact ⟨by simp [step, hx, parcels], .keep, fun hl ↦ ⟨rfl, .inl ⟨rfl, hk _ hl⟩⟩⟩
  | send a d k =>
    cases h
    refine ⟨?_, .send d, fun hl ↦ by cases hl⟩
    rw [Unique.eq_default a]
    rfl
  | close k =>
    cases h
    exact ⟨rfl, .close, fun hl ↦ by cases hl⟩
  | call l k =>
    cases h
    refine ⟨rfl, .keep, fun hl ↦ ⟨rfl, .inl ⟨rfl, ?_⟩⟩⟩
    cases hl with | call hl => exact hl
  | wait κ k =>
    rcases hu : s.unread with _ | _ | ⟨⟨a, d⟩, i⟩
    · simp [talk, hu] at h
    · simp [talk, hu] at h
    · simp only [talk, hu, Option.map_eq_some_iff, Prod.mk.injEq] at h
      obtain ⟨m, hm, rfl, rfl, rfl⟩ := h
      exact ⟨by simp [step, Socket.inbox, hu, hm, parcels], .read hu,
        fun _ ↦ ⟨rfl, .inr ⟨a, d, i, rfl, rfl⟩⟩⟩

/-- Addresses do not keep an endpoint from anything. -/
theorem Endpoint.talk_of_step {i : Inbox W} {ps : List (Parcel W)}
    (h : e.step typed body s.inbox = some (e', i, ps)) :
    ∃ s' out, e.talk body s = some (e', s', out) ∧ i = s'.inbox ∧ ps = parcels out := by
  have hsome : (e.talk body s).isSome = true := by
    obtain ⟨st, p⟩ := e
    cases p with
    | ret a => cases h
    | throw x => cases h
    | op o k => cases hx : P.exec o st <;> simp [talk, hx]
    | close k => rfl
    | call l k => rfl
    | send a d k => rfl
    | wait κ k =>
      rcases hu : s.unread with _ | _ | ⟨⟨a, d⟩, q⟩
      · simp [step, Socket.inbox, hu] at h
      · simp [step, Socket.inbox, hu] at h
      · cases hd : typed κ d with
        | none => simp [step, Socket.inbox, hu, hd] at h
        | some m => simp [talk, hu, hd]
  obtain ⟨⟨e₁, s', out⟩, htalk⟩ := Option.isSome_iff_exists.mp hsome
  have hstep := (talk_spec htalk).1
  rw [h, Option.some.injEq, Prod.mk.injEq, Prod.mk.injEq] at hstep
  obtain ⟨rfl, hi, hps⟩ := hstep
  exact ⟨s', out, htalk, hi, hps⟩

omit [Unique W.Addr] in
theorem Socket.Use.own_eq (h : s.Use s' out) : s'.own = s.own := by
  cases h <;> rfl

omit [Unique W.Addr] in
theorem Socket.Use.source (h : s.Use s' out) : ∀ l ∈ out, l.source = s.own ∧ l.dest = s.peer := by
  cases h <;> simp

variable [DecidableEq A]

/-- What arrives at a socket. -/
theorem Socket.inbox_hear (h : ∀ l ∈ out, l.dest = s.own) :
    (s.hear out).inbox = deliver s.inbox (parcels out) := by
  rw [inbox, inbox, unread_hear h]
  cases s.unread <;> simp [parcels, deliver]

end Talk

/-! ## Two endpoints

Two sockets that are a pair of channels. -/

/-- Two sockets that have heard of nobody but each other. -/
structure Linked (body : Bodies W Q) (left right : Socket A W) (prog : Program W Q β) : Prop where
  /-- The left socket sends to the right one. -/
  peer : left.peer = right.own
  /-- The left socket has heard from nobody else. -/
  toLeft : ∀ i ∈ left.unread, ∀ p ∈ i, p.1 = right.own
  /-- The right socket has heard from nobody but the left one. -/
  toRight : ∀ i ∈ right.unread, ∀ p ∈ i, p.1 = left.own
  /-- The right socket sends to the left one, unless its program listens first. -/
  knows : right.peer = left.own ∨ prog.Listens body

omit [Unique W.Addr] in
/-- Two sockets that have heard of nobody are a pair of channels as soon as the left one sends to
the right one, if the program of the right one listens first. -/
theorem Linked.of_unheard {body : Bodies W Q} {left right : Socket A W} {prog : Program W Q β}
    (hpeer : left.peer = right.own) (hleft : ∀ i ∈ left.unread, i = [])
    (hright : ∀ i ∈ right.unread, i = []) (hlistens : prog.Listens body) :
    Linked body left right prog where
  peer := hpeer
  toLeft i hi := hleft i hi ▸ List.forall_mem_nil _
  toRight i hi := hright i hi ▸ List.forall_mem_nil _
  knows := .inr hlistens

section Link

variable {L : Link W P Q} {s s' t t' : Socket A W} {out : List (Letter A W)}
  {e e' : Endpoint W P α} {f f' : Endpoint W Q β}

/-- Everything a pair sends is for the other side. -/
theorem forPeer_parcels (me peer : W.Addr) (out : List (Letter A W)) :
    forPeer me peer (parcels out) = parcels out := by
  rw [forPeer, List.filter_eq_self.mpr fun p _ ↦ by simp [Unique.eq_default]]
  simp [parcels, Unique.eq_default]

theorem forOthers_parcels (peer : W.Addr) (out : List (Letter A W)) :
    forOthers peer (parcels out) = [] :=
  List.filter_eq_nil_iff.mpr fun p _ ↦ by simp [Unique.eq_default]

variable [DecidableEq A]

/-- Two endpoints on two sockets. -/
def onSockets (e : Endpoint W P α) (f : Endpoint W Q β) (left right : Socket A W) :
    Pair W P Q α β where
  left := e
  right := f
  toLeft := left.inbox
  toRight := right.inbox

/-- **The left endpoint moves as in a pair.** -/
theorem Linked.left (h : Linked L.rightBody s t f.prog)
    (ht : e.talk L.leftBody s = some (e', s', out)) :
    Pair.Step L (onSockets e f s t) (onSockets e' f s' (t.hear out)) ∧
      Linked L.rightBody s' (t.hear out) f.prog ∧ ∀ l ∈ out, l.dest = t.own := by
  obtain ⟨hstep, huse, -⟩ := Endpoint.talk_spec ht
  have hsource := huse.source
  have hdest : ∀ l ∈ out, l.dest = t.own := fun l hl ↦ (hsource l hl).2.trans h.peer
  have hown := huse.own_eq
  refine ⟨?_, ⟨?_, ?_, ?_, ?_⟩, hdest⟩
  · have hs := Pair.Step.left (L := L) (x := onSockets e f s t) hstep
    rw [forPeer_parcels, forOthers_parcels] at hs
    rwa [onSockets.eq_def e' f, Socket.inbox_hear hdest]
  · cases huse with
    | read hu => exact h.toLeft _ hu _ List.mem_cons_self
    | _ => exact h.peer
  · cases huse with
    | close => intro i hi; cases hi
    | read hu =>
      rintro i ⟨⟩ p hp
      exact h.toLeft _ hu p (List.mem_cons_of_mem _ hp)
    | _ => exact h.toLeft
  · intro i hi p hp
    rw [Socket.unread_hear hdest] at hi
    obtain ⟨j, hj, rfl⟩ := Option.map_eq_some_iff.mp hi
    rw [hown]
    rcases List.mem_append.mp hp with hp | hp
    · exact h.toRight j hj p hp
    · obtain ⟨l, hl, rfl⟩ := List.mem_map.mp hp
      exact (hsource l hl).1
  · exact h.knows.imp_left fun hk ↦ hk.trans hown.symm

/-- **The right endpoint moves as in a pair.** -/
theorem Linked.right (h : Linked L.rightBody s t f.prog)
    (ht : f.talk L.rightBody t = some (f', t', out)) :
    Pair.Step L (onSockets e f s t) (onSockets e f' (s.hear out) t') ∧
      Linked L.rightBody (s.hear out) t' f'.prog ∧ ∀ l ∈ out, l.dest = s.own := by
  obtain ⟨hstep, huse, hlisten⟩ := Endpoint.talk_spec ht
  have hsource := huse.source
  have hown := huse.own_eq
  have hdest : ∀ l ∈ out, l.dest = s.own := by
    intro l hl
    rcases h.knows with hk | hk
    · exact (hsource l hl).2.trans hk
    · rw [(hlisten hk).1] at hl
      cases hl
  refine ⟨?_, ⟨?_, ?_, ?_, ?_⟩, hdest⟩
  · have hs := Pair.Step.right (L := L) (x := onSockets e f s t) hstep
    rw [forPeer_parcels, forOthers_parcels] at hs
    rwa [onSockets.eq_def e f', Socket.inbox_hear hdest]
  · exact h.peer.trans hown.symm
  · intro i hi p hp
    rw [Socket.unread_hear hdest] at hi
    obtain ⟨j, hj, rfl⟩ := Option.map_eq_some_iff.mp hi
    rw [hown]
    rcases List.mem_append.mp hp with hp | hp
    · exact h.toLeft j hj p hp
    · obtain ⟨l, hl, rfl⟩ := List.mem_map.mp hp
      exact (hsource l hl).1
  · cases huse with
    | close => intro i hi; cases hi
    | read hu =>
      rintro i ⟨⟩ p hp
      exact h.toRight _ hu p (List.mem_cons_of_mem _ hp)
    | _ => exact h.toRight
  · rcases h.knows with hk | hk
    · left
      cases huse with
      | read hu => exact h.toRight _ hu _ List.mem_cons_self
      | _ => exact hk
    · rcases (hlisten hk).2 with ⟨rfl, hl⟩ | ⟨a, d, i, hu, rfl⟩
      · exact .inr hl
      · exact .inl (h.toRight _ hu _ List.mem_cons_self)

/-- **A pair can do no more than its endpoints on their sockets.** -/
theorem Linked.step_cases {y : Pair W P Q α β} (h : Linked L.rightBody s t f.prog)
    (hs : Pair.Step L (onSockets e f s t) y) :
    (∃ e' s' out, e.talk L.leftBody s = some (e', s', out) ∧
      y = onSockets e' f s' (t.hear out)) ∨
    ∃ f' t' out, f.talk L.rightBody t = some (f', t', out) ∧
      y = onSockets e f' (s.hear out) t' := by
  cases hs with
  | left hstep =>
    obtain ⟨s', out, htalk, rfl, rfl⟩ := Endpoint.talk_of_step hstep
    refine .inl ⟨_, s', out, htalk, ?_⟩
    rw [forPeer_parcels, forOthers_parcels, onSockets.eq_def _ _ s',
      Socket.inbox_hear (h.left htalk).2.2]
    rfl
  | right hstep =>
    obtain ⟨t', out, htalk, rfl, rfl⟩ := Endpoint.talk_of_step hstep
    refine .inr ⟨_, t', out, htalk, ?_⟩
    rw [forPeer_parcels, forOthers_parcels, onSockets.eq_def _ _ _ t',
      Socket.inbox_hear (h.right (e := e) htalk).2.2]
    rfl

end Link
end Session
