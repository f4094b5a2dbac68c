import Bropdox.Session.Pair
import Bropdox.Session.Solo

/-!
# What is seen of one side of a session

A session is a race of two programs, but what is seen of one of them is always what is seen of this
endpoint on its own, on the datagrams the other one sends it.

## What is here

* `Pair.Run` is a run of a session together with what is seen of its right endpoint; the runs reach
  all states of the session and no others (`Pair.exists_run_iff`).
* `Pair.Fits` says that two runs of the endpoints on their own fit together, each on what is sent in
  the other.
* `Pair.Run.comparable`: runs that fit together say what is seen under every schedule, as far as
  they go.
* `Lockstep` are two such runs between states in which nothing is unread.  They can be put one
  behind the other (`Lockstep.bind`), so that a session is taken apart where its channels are empty.
* `Pair.thenLeft` is a session with more of the left program behind it, and `Pair.EndsIn.thenReturn`
  says that what is behind does not change how the session gets there.
-/

set_option autoImplicit false

namespace Session

open Relation (ReflTransGen)

variable {W : Wire} {P Q : Sig} {α β : Type}

/-! ## Runs of a session

A run with its transcript. -/

/-- The session after a move of the left endpoint. -/
def Pair.afterLeft (L : Link W P Q) (x : Pair W P Q α β) (e : Endpoint W P α) (i : Inbox W)
    (out : List (Parcel W)) : Pair W P Q α β where
  left := e
  right := x.right
  toLeft := i
  toRight := deliver x.toRight (forPeer L.leftAddr L.rightAddr out)
  mailLeft := x.mailLeft ++ forOthers L.rightAddr out
  mailRight := x.mailRight

/-- The session after a move of the right endpoint. -/
def Pair.afterRight (L : Link W P Q) (x : Pair W P Q α β) (e : Endpoint W Q β) (i : Inbox W)
    (out : List (Parcel W)) : Pair W P Q α β where
  left := x.left
  right := e
  toLeft := deliver x.toLeft (forPeer L.rightAddr L.leftAddr out)
  toRight := i
  mailLeft := x.mailLeft
  mailRight := x.mailRight ++ forOthers L.leftAddr out

/-- A run of a session, with what is seen of the right endpoint. -/
inductive Pair.Run (L : Link W P Q) :
    Pair W P Q α β → List (Event W) → Pair W P Q α β → Prop
  | nil (x : Pair W P Q α β) : Run L x [] x
  | left {x y : Pair W P Q α β} {e : Endpoint W P α} {i : Inbox W} {out : List (Parcel W)}
      {evs : List (Event W)} (hs : x.left.step typed L.leftBody x.toLeft = some (e, i, out))
      (hr : Run L (x.afterLeft L e i out) evs y) : Run L x evs y
  | right {x y : Pair W P Q α β} {e : Endpoint W Q β} {i : Inbox W} {out : List (Parcel W)}
      {evs : List (Event W)} (hs : x.right.step typed L.rightBody x.toRight = some (e, i, out))
      (hr : Run L (x.afterRight L e i out) evs y) :
      Run L x (x.right.reads x.toRight ++ out.map .sent ++ evs) y

/-- The runs reach all states of the session, and no others. -/
theorem Pair.exists_run_iff {L : Link W P Q} {x y : Pair W P Q α β} :
    (∃ evs, x.Run L evs y) ↔ ReflTransGen (Pair.Step L) x y := by
  constructor
  · rintro ⟨evs, hr⟩
    induction hr with
    | nil => exact .refl
    | left hs _ ih => exact .head (.left hs) ih
    | right hs _ ih => exact .head (.right hs) ih
  · intro h
    induction h using ReflTransGen.head_induction_on with
    | refl => exact ⟨[], .nil y⟩
    | head hs _ ih =>
      obtain ⟨evs, hr⟩ := ih
      cases hs with
      | left hs => exact ⟨evs, .left hs hr⟩
      | right hs => exact ⟨_, .right hs hr⟩

/-! ## Runs that fit together

What one endpoint sends is what the other one reads. -/

/-- The datagrams that were sent. -/
def outgoing (evs : List (Event W)) : List (Parcel W) :=
  evs.filterMap fun
    | .got .. => none
    | .sent p => some p

@[simp] theorem outgoing_nil : outgoing ([] : List (Event W)) = [] := rfl

@[simp] theorem outgoing_got (κ : W.Kind) (p : Parcel W) (evs : List (Event W)) :
    outgoing (.got κ p :: evs) = outgoing evs := rfl

@[simp] theorem outgoing_sent (p : Parcel W) (evs : List (Event W)) :
    outgoing (.sent p :: evs) = p :: outgoing evs := rfl

@[simp] theorem outgoing_append (evs evs' : List (Event W)) :
    outgoing (evs ++ evs') = outgoing evs ++ outgoing evs' := List.filterMap_append

theorem outgoing_map_sent {γ : Type} (f : γ → Parcel W) (ms : List γ) :
    outgoing (ms.map fun m ↦ .sent (f m)) = ms.map f := by
  induction ms with
  | nil => rfl
  | cons m ms ih => rw [List.map_cons, outgoing_sent, ih, List.map_cons]

theorem outgoing_map_got {γ : Type} (κ : W.Kind) (f : γ → Parcel W) (ms : List γ) :
    outgoing (ms.map fun m ↦ .got κ (f m)) = [] := by
  induction ms with
  | nil => rfl
  | cons m ms ih => rw [List.map_cons, outgoing_got, ih]

/-- What is sent in one move. -/
theorem outgoing_move (e : Endpoint W P α) (i : Inbox W) (out : List (Parcel W)) :
    outgoing (e.reads i ++ out.map .sent) = out := by
  have hreads : outgoing (e.reads i) = [] := by
    unfold Endpoint.reads
    split <;> rfl
  rw [outgoing_append, hreads, List.nil_append]
  exact (outgoing_map_sent id out).trans (List.map_id out)

/-- What arrives at `peer` of what `me` sent. -/
def crossing (me peer : W.Addr) (evs : List (Event W)) : List (Parcel W) :=
  forPeer me peer (outgoing evs)

@[simp] theorem crossing_nil (me peer : W.Addr) : crossing me peer ([] : List (Event W)) = [] := rfl

theorem crossing_append (me peer : W.Addr) (evs evs' : List (Event W)) :
    crossing me peer (evs ++ evs') = crossing me peer evs ++ crossing me peer evs' := by
  rw [crossing, outgoing_append, forPeer_append]
  rfl

/-- Each endpoint has a run on its own, on what it has not read yet and what is sent in the run of
the other. -/
def Pair.Fits (L : Link W P Q) (x : Pair W P Q α β) (evs evs' : List (Event W)) : Prop :=
  (∃ e i, Endpoint.Run typed L.leftBody x.left
    (deliver x.toLeft (crossing L.rightAddr L.leftAddr evs')) evs e i) ∧
  ∃ e i, Endpoint.Run typed L.rightBody x.right
    (deliver x.toRight (crossing L.leftAddr L.rightAddr evs)) evs' e i

section Fits

variable {L : Link W P Q} {x y : Pair W P Q α β} {evs evs' seen : List (Event W)}

/-- A move of an endpoint is the first one of its run on its own, if that has any. -/
theorem Endpoint.Run.move {body : Bodies W P} {e e₁ e' : Endpoint W P α} {i i₁ i' : Inbox W}
    {out ps : List (Parcel W)} (hs : e.step typed body i = some (e₁, i₁, out))
    (hr : Endpoint.Run typed body e (deliver i ps) evs e' i') :
    evs = [] ∨ ∃ rest, evs = e.reads i ++ out.map .sent ++ rest ∧
      Endpoint.Run typed body e₁ (deliver i₁ ps) rest e' i' := by
  rcases (Endpoint.run_cons_iff (Endpoint.step_deliver hs ps)).mp hr with ⟨rfl, -, -⟩ | hrest
  · exact .inl rfl
  · rw [Endpoint.reads_deliver hs] at hrest
    exact .inr hrest

theorem Pair.Fits.left (hf : x.Fits L evs evs') {e : Endpoint W P α} {i : Inbox W}
    {out : List (Parcel W)} (hs : x.left.step typed L.leftBody x.toLeft = some (e, i, out)) :
    ∃ rest, (x.afterLeft L e i out).Fits L rest evs' := by
  obtain ⟨⟨e', i', hl⟩, e'', j, hr⟩ := hf
  rcases hl.move hs with rfl | ⟨rest, rfl, hrest⟩
  · -- its run is at its end, and what it sends from now on arrives after all that matters
    refine ⟨[], ⟨e, _, .nil ..⟩, e'', deliver j (forPeer L.leftAddr L.rightAddr out), ?_⟩
    have hmore := hr.later (forPeer L.leftAddr L.rightAddr out)
    rw [crossing_nil, deliver_nil] at hmore ⊢
    exact hmore
  · refine ⟨rest, ⟨e', i', hrest⟩, e'', j, ?_⟩
    rw [crossing_append, crossing, outgoing_move, deliver_append] at hr
    exact hr

theorem Pair.Fits.right (hf : x.Fits L evs evs') {e : Endpoint W Q β} {i : Inbox W}
    {out : List (Parcel W)} (hs : x.right.step typed L.rightBody x.toRight = some (e, i, out)) :
    evs' = [] ∨ ∃ rest, evs' = x.right.reads x.toRight ++ out.map .sent ++ rest ∧
      (x.afterRight L e i out).Fits L evs rest := by
  obtain ⟨⟨e', i', hl⟩, e'', j, hr⟩ := hf
  rcases hr.move hs with rfl | ⟨rest, rfl, hrest⟩
  · exact .inl rfl
  · refine .inr ⟨rest, rfl, ⟨e', i', ?_⟩, e'', j, hrest⟩
    rw [crossing_append, crossing, outgoing_move, deliver_append] at hl
    exact hl

/-- **Runs that fit together say what is seen under every schedule**, as far as they go. -/
theorem Pair.Run.comparable (hr : x.Run L seen y) (hf : x.Fits L evs evs') :
    seen <+: evs' ∨ evs' <+: seen := by
  induction hr generalizing evs evs' with
  | nil => exact .inl List.nil_prefix
  | left hs _ ih =>
    obtain ⟨rest, hrest⟩ := hf.left hs
    exact ih hrest
  | right hs _ ih =>
    rcases hf.right hs with rfl | ⟨rest, rfl, hrest⟩
    · exact .inr List.nil_prefix
    · simp only [List.prefix_append_right_inj]
      exact ih hrest

end Fits

/-! ## Runs in lock step

The same between two states with empty channels. -/

/-- The two endpoints have runs on their own that fit together and leave nothing unread. -/
structure Lockstep (L : Link W P Q) (l : Endpoint W P α) (r : Endpoint W Q β)
    (evs evs' : List (Event W)) (l' : Endpoint W P α) (r' : Endpoint W Q β) : Prop where
  /-- The run of the left endpoint. -/
  left : Endpoint.Run typed L.leftBody l (some (crossing L.rightAddr L.leftAddr evs')) evs l'
    (some [])
  /-- The run of the right endpoint. -/
  right : Endpoint.Run typed L.rightBody r (some (crossing L.leftAddr L.rightAddr evs)) evs' r'
    (some [])

namespace Lockstep

variable {L : Link W P Q} {l l' l'' : Endpoint W P α} {r r' r'' : Endpoint W Q β}
  {evs evs' more more' : List (Event W)}

theorem refl (l : Endpoint W P α) (r : Endpoint W Q β) : Lockstep L l r [] [] l r :=
  ⟨.nil .., .nil ..⟩

theorem trans (h : Lockstep L l r evs evs' l' r') (h' : Lockstep L l' r' more more' l'' r'') :
    Lockstep L l r (evs ++ more) (evs' ++ more') l'' r'' := by
  have hleft := h.left.later (crossing L.rightAddr L.leftAddr more')
  have hright := h.right.later (crossing L.leftAddr L.rightAddr more)
  rw [deliver_some, ← crossing_append] at hleft hright
  exact ⟨hleft.trans h'.left, hright.trans h'.right⟩

/-- Lockstep runs with more of both programs behind them. -/
theorem bind {α' β' : Type} (h : Lockstep L l r evs evs' l' r') (f : α → Program W P α')
    (g : β → Program W Q β') :
    Lockstep L ⟨l.host, l.prog.bind f⟩ ⟨r.host, r.prog.bind g⟩ evs evs'
      ⟨l'.host, l'.prog.bind f⟩ ⟨r'.host, r'.prog.bind g⟩ :=
  ⟨h.left.bind f, h.right.bind g⟩

theorem fits (h : Lockstep L l r evs evs' l' r') {m m' : List (Parcel W)} :
    Pair.Fits L ⟨l, r, some [], some [], m, m'⟩ evs evs' :=
  ⟨⟨l', _, h.left⟩, r', _, h.right⟩

end Lockstep

/-! ## More of a program behind a session

A session goes through the same states when more is bound to the program of one side, and ends where
it ended if that does nothing but return. -/

section Behind

variable {γ : Type} {L : Link W P Q} {x y t : Pair W P Q α β}

/-- The session with more of the left program behind it. -/
def Pair.thenLeft (x : Pair W P Q α β) (f : α → Program W P γ) : Pair W P Q γ β where
  left := ⟨x.left.host, x.left.prog.bind f⟩
  right := x.right
  toLeft := x.toLeft
  toRight := x.toRight
  mailLeft := x.mailLeft
  mailRight := x.mailRight

/-- What is behind the program does not change how the session gets there. -/
theorem Pair.reaches_thenLeft (h : ReflTransGen (Pair.Step L) x y) (f : α → Program W P γ) :
    ReflTransGen (Pair.Step L) (x.thenLeft f) (y.thenLeft f) := by
  induction h with
  | refl => exact .refl
  | tail _ hs ih =>
    refine ih.tail ?_
    cases hs with
    | left hs => exact .left (Endpoint.step_bind hs)
    | right hs => exact .right hs

/-- **A session whose left program goes on with its result**, and does no more than that, ends where
it ended. -/
theorem Pair.EndsIn.thenReturn (h : x.EndsIn L t) {a : α} (hret : t.left.prog = .ret a)
    (f : α → γ) :
    (x.thenLeft fun a ↦ .ret (f a)).EndsIn L (t.thenLeft fun a ↦ .ret (f a)) := by
  refine ⟨Pair.reaches_thenLeft h.1 _, fun y hy ↦ ?_⟩
  cases hy with
  | left hs =>
    simp only [Pair.thenLeft, hret, Program.ret_bind, Endpoint.step_ret] at hs
    cases hs
  | right hs => exact h.2 _ (.right hs)

end Behind
end Session
