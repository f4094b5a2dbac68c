import Bropdox.Session.Step

/-!
# One endpoint on its own

A run of a single endpoint on what has arrived at its socket, with everything that can be seen of it
from outside: which datagrams were read, as which kind, and which were sent.  The peers do not
appear; whatever they may do is in the inbox.

## What is here

* `Faithful` is what a real socket does: it makes some message of any datagram, and the right one of
  a datagram that was sent as the kind that is waited for.
* `Endpoint.Run` is a run with its `Event`s.  It is determined by the inbox (`run_cons_iff`,
  `Run.eq_of_stuck`), and what arrives later does not change it (`Run.later`).
* `Run.bind` and `Run.awaitAll` put runs of programs together.
* `Monitor` watches a run event by event, and `Monitor.Always` says that no run of an endpoint ever
  displeases it.  The lemmas `always_*` follow a program statement by statement, as those of
  `Session/Pair.lean` do for two endpoints: each is an equivalence, so that they prove the property
  where it holds and refute it where it does not.
-/

set_option autoImplicit false

namespace Session

variable {W : Wire} {P : Sig} {α : Type}

/-- What can be seen of a move. -/
inductive Event (W : Wire)
  /-- A datagram was read as one of kind `κ`. -/
  | got (κ : W.Kind) (p : Parcel W)
  /-- A datagram was sent. -/
  | sent (p : Parcel W)

/-- What an endpoint is about to read. -/
def Endpoint.reads (e : Endpoint W P α) (i : Inbox W) : List (Event W) :=
  match e.prog, i with
  | .wait κ _, some (p :: _) => [.got κ p]
  | _, _ => []

/-- What a real socket does: it reads a message out of any datagram, and out of one that was sent as
the kind that is waited for it reads what was sent. -/
structure Faithful (read : Reading W) : Prop where
  /-- Every datagram is read as some message of each kind. -/
  total : ∀ κ d, ∃ m, read κ d = some m
  /-- What was sent as `κ` is read as it was sent. -/
  right : ∀ κ m, read κ ⟨κ, m⟩ = some m

/-- The run of an endpoint on an inbox. -/
inductive Endpoint.Run (read : Reading W) (body : Bodies W P) :
    Endpoint W P α → Inbox W → List (Event W) → Endpoint W P α → Inbox W → Prop
  | nil (e : Endpoint W P α) (i : Inbox W) : Run read body e i [] e i
  | cons {e e' e'' : Endpoint W P α} {i i' i'' : Inbox W} {out : List (Parcel W)}
      {evs : List (Event W)} (hs : e.step read body i = some (e', i', out))
      (hr : Run read body e' i' evs e'' i'') :
      Run read body e i (e.reads i ++ out.map .sent ++ evs) e'' i''

namespace Endpoint

variable {read : Reading W} {body : Bodies W P} {e e' e'' : Endpoint W P α} {i i' i'' : Inbox W}
  {evs evs' : List (Event W)}

theorem Run.trans (hr : Run read body e i evs e' i') (hr' : Run read body e' i' evs' e'' i'') :
    Run read body e i (evs ++ evs') e'' i'' := by
  induction hr with
  | nil => exact hr'
  | cons hs _ ih =>
    rw [List.append_assoc]
    exact .cons hs (ih hr')

/-- **A run that is not over yet starts with the only move there is.** -/
theorem run_cons_iff {out : List (Parcel W)} (hs : e.step read body i = some (e', i', out)) :
    Run read body e i evs e'' i'' ↔ (evs = [] ∧ e'' = e ∧ i'' = i) ∨
      ∃ evs', evs = e.reads i ++ out.map .sent ++ evs' ∧ Run read body e' i' evs' e'' i'' := by
  constructor
  · intro hr
    cases hr with
    | nil => exact .inl ⟨rfl, rfl, rfl⟩
    | cons hs' hr =>
      rw [hs] at hs'
      cases hs'
      exact .inr ⟨_, rfl, hr⟩
  · rintro (⟨rfl, rfl, rfl⟩ | ⟨evs', rfl, hr⟩)
    · exact .nil ..
    · exact .cons hs hr

/-- Where there is no move there is no run. -/
theorem run_stuck_iff (hs : e.step read body i = none) :
    Run read body e i evs e'' i'' ↔ evs = [] ∧ e'' = e ∧ i'' = i := by
  constructor
  · intro hr
    cases hr with
    | nil => exact ⟨rfl, rfl, rfl⟩
    | cons hs' _ =>
      rw [hs] at hs'
      cases hs'
  · rintro ⟨rfl, rfl, rfl⟩
    exact .nil ..

/-- **A run that is over is the only one.** -/
theorem Run.eq_of_stuck {t t' : Endpoint W P α} {j j' : Inbox W}
    (hr : Run read body e i evs t j) (ht : t.step read body j = none)
    (hr' : Run read body e i evs' t' j') (ht' : t'.step read body j' = none) :
    evs' = evs ∧ t' = t ∧ j' = j := by
  induction hr generalizing evs' with
  | nil => exact (run_stuck_iff ht).mp hr'
  | cons hs _ ih =>
    rcases (run_cons_iff hs).mp hr' with ⟨-, rfl, rfl⟩ | ⟨evs'', rfl, hr''⟩
    · rw [ht'] at hs
      cases hs
    · obtain ⟨rfl, rfl, rfl⟩ := ih ht hr''
      exact ⟨rfl, rfl, rfl⟩

/-- What is read does not depend on what arrives later. -/
theorem reads_deliver {out : List (Parcel W)} (hs : e.step read body i = some (e', i', out))
    (ps : List (Parcel W)) : e.reads (deliver i ps) = e.reads i := by
  obtain ⟨h, p⟩ := e
  cases p with
  | wait κ k =>
    rcases i with _ | _ | ⟨d, i⟩
    · cases hs
    · cases hs
    · rfl
  | _ => rfl

/-- **What arrives later does not change a run.** -/
theorem Run.later (hr : Run read body e i evs e' i') (ps : List (Parcel W)) :
    Run read body e (deliver i ps) evs e' (deliver i' ps) := by
  induction hr with
  | nil => exact .nil ..
  | cons hs _ ih =>
    rw [← reads_deliver hs ps]
    exact .cons (step_deliver hs ps) ih

section Bind

variable {β : Type} {f : α → Program W P β}

/-- A move of a program, with more of the program behind it. -/
theorem step_bind {out : List (Parcel W)} (hs : e.step read body i = some (e', i', out)) :
    Endpoint.step read body ⟨e.host, e.prog.bind f⟩ i =
      some (⟨e'.host, e'.prog.bind f⟩, i', out) := by
  obtain ⟨h, p⟩ := e
  cases p with
  | ret a => cases hs
  | throw x => cases hs
  | op o k =>
    simp only [step, Program.bind] at hs ⊢
    cases hx : P.exec o h with
    | error x =>
      rw [hx] at hs
      cases hs
      rfl
    | ok r =>
      rw [hx] at hs
      cases hs
      rfl
  | send a d k =>
    cases hs
    rfl
  | close k =>
    cases hs
    rfl
  | call l k =>
    cases hs
    simp only [step, Program.bind, Program.bind_assoc]
  | wait κ k =>
    rcases i with _ | _ | ⟨d, i⟩
    · cases hs
    · cases hs
    · obtain ⟨m, hm, hs⟩ := Option.map_eq_some_iff.mp hs
      cases hs
      simp [step, Program.bind, hm]

theorem reads_bind {out : List (Parcel W)} (hs : e.step read body i = some (e', i', out)) :
    Endpoint.reads ⟨e.host, e.prog.bind f⟩ i = e.reads i := by
  obtain ⟨h, p⟩ := e
  cases p with
  | ret a => cases hs
  | wait κ k => rcases i with _ | _ | ⟨d, i⟩ <;> rfl
  | _ => rfl

/-- **A run of a program is one of the beginning of a longer program.** -/
theorem Run.bind (hr : Run read body e i evs e' i') (f : α → Program W P β) :
    Run read body ⟨e.host, e.prog.bind f⟩ i evs ⟨e'.host, e'.prog.bind f⟩ i' := by
  induction hr with
  | nil => exact .nil ..
  | cons hs _ ih =>
    rw [← reads_bind (f := f) hs]
    exact .cons (step_bind hs) ih

end Bind

section Statements

variable {h h' : P.Host}

theorem Run.operation {o : P.Op} {v : P.Res o} {k : P.Res o → Program W P α}
    (ho : P.exec o h = .ok (v, h')) (hr : Run read body ⟨h', k v⟩ i evs e'' i'') :
    Run read body ⟨h, (Program.run o).bind k⟩ i evs e'' i'' :=
  have hs : Endpoint.step read body ⟨h, (Program.run o).bind k⟩ i = some (⟨h', k v⟩, i, []) := by
    rw [Program.run, Program.bind, Endpoint.step, ho]
    rfl
  .cons hs hr

theorem Run.emit {a : W.Addr} {κ : W.Kind} {d : W.Msg κ} {k : Unit → Program W P α}
    (hr : Run read body ⟨h, k ()⟩ i evs e'' i'') :
    Run read body ⟨h, (Program.emit a κ d).bind k⟩ i (.sent (a, ⟨κ, d⟩) :: evs) e'' i'' :=
  have hs : Endpoint.step read body ⟨h, (Program.emit a κ d).bind k⟩ i
      = some (⟨h, k ()⟩, i, [(a, ⟨κ, d⟩)]) := rfl
  .cons hs hr

theorem Run.await {κ : W.Kind} {a : W.Addr} {d : Datagram W} {m : W.Msg κ}
    {rest : List (Parcel W)} {k : Option (W.Msg κ) → Program W P α} (hm : read κ d = some m)
    (hr : Run read body ⟨h, k (some m)⟩ (some rest) evs e'' i'') :
    Run read body ⟨h, (Program.await κ).bind k⟩ (some ((a, d) :: rest))
      (.got κ (a, d) :: evs) e'' i'' :=
  have hs : Endpoint.step read body ⟨h, (Program.await κ).bind k⟩ (some ((a, d) :: rest))
      = some (⟨h, k (some m)⟩, some rest, []) := by
    simp [Program.await, Program.bind, Endpoint.step, hm]
  .cons hs hr

theorem Run.invoke {l : P.Proc} {k : P.Out l → Program W P α}
    (hr : Run read body ⟨h, (body l).bind k⟩ i evs e'' i'') :
    Run read body ⟨h, (Program.invoke l).bind k⟩ i evs e'' i'' :=
  have hs : Endpoint.step read body ⟨h, (Program.invoke l).bind k⟩ i
      = some (⟨h, (body l).bind k⟩, i, []) := rfl
  .cons hs hr

/-- The loop of `n` waits, on as many datagrams of the right kind. -/
theorem Run.awaitAll {κ : W.Kind} (a : W.Addr) (ds : List (W.Msg κ)) {n : Nat}
    {rest : List (Parcel W)} {k : List (Option (W.Msg κ)) → Program W P α}
    (hr : Run typed body ⟨h, (Program.awaitAll κ n).bind fun more ↦ k (ds.map some ++ more)⟩
      (some rest) evs e'' i'') :
    Run typed body ⟨h, (Program.awaitAll κ (ds.length + n)).bind k⟩
      (some (ds.map (fun d ↦ (a, ⟨κ, d⟩)) ++ rest))
      (ds.map (fun d ↦ .got κ (a, ⟨κ, d⟩)) ++ evs) e'' i'' := by
  induction ds generalizing k with
  | nil => simpa using hr
  | cons d ds ih =>
    simp only [List.length_cons, Nat.add_right_comm, Program.awaitAll, Program.bind_eq,
      Program.bind_assoc, List.map_cons, List.cons_append]
    refine .await (typed_self κ d) (ih ?_)
    simpa using hr

end Statements
end Endpoint

/-! ## Watching a run

A property of the events of a run, as a state machine that reads them. -/

/-- A monitor: what it allows in a state, and its next state. -/
structure Monitor (W : Wire) (σ : Type) where
  /-- What may be seen. -/
  ok : σ → Event W → Prop
  /-- The state after that. -/
  next : σ → Event W → σ

namespace Monitor

variable {σ : Type} (M : Monitor W σ) {s : σ}

/-- Everything that is seen is allowed. -/
def Passes : σ → List (Event W) → Prop
  | _, [] => True
  | s, ev :: evs => M.ok s ev ∧ Passes (M.next s ev) evs

/-- The state after some events. -/
def after (s : σ) (evs : List (Event W)) : σ := evs.foldl M.next s

theorem passes_append (evs evs' : List (Event W)) :
    M.Passes s (evs ++ evs') ↔ M.Passes s evs ∧ M.Passes (M.after s evs) evs' := by
  induction evs generalizing s with
  | nil => simp [Passes, after]
  | cons ev evs ih => simp only [List.cons_append, Passes, ih, and_assoc]; rfl

/-- Whatever an endpoint does, it is allowed. -/
def Always (read : Reading W) (body : Bodies W P) (s : σ) (e : Endpoint W P α) (i : Inbox W) :
    Prop :=
  ∀ evs e' i', Endpoint.Run read body e i evs e' i' → M.Passes s evs

variable {M} {read : Reading W} {body : Bodies W P} {e e' : Endpoint W P α} {i i' : Inbox W}

/-- An endpoint that can move displeases a monitor never if it does not in this move and never after
it. -/
theorem always_step (e' : Endpoint W P α) (i' : Inbox W) (out : List (Parcel W))
    (hs : e.step read body i = some (e', i', out)) :
    M.Always read body s e i ↔ M.Passes s (e.reads i ++ out.map .sent) ∧
      M.Always read body (M.after s (e.reads i ++ out.map .sent)) e' i' := by
  constructor
  · intro h
    refine ⟨?_, fun evs e'' i'' hr ↦ ?_⟩
    · have hone := h _ _ _ (.cons hs (.nil e' i'))
      rwa [List.append_nil] at hone
    · exact ((M.passes_append _ _).mp (h _ _ _ (.cons hs hr))).2
  · rintro ⟨hone, hrest⟩ evs e'' i'' hr
    rcases (Endpoint.run_cons_iff hs).mp hr with ⟨rfl, -, -⟩ | ⟨evs', rfl, hr'⟩
    · trivial
    · exact (M.passes_append _ _).mpr ⟨hone, hrest _ _ _ hr'⟩

/-- An endpoint that cannot move displeases no monitor. -/
theorem always_stuck (hs : e.step read body i = none) : M.Always read body s e i := by
  intro evs e' i' hr
  obtain ⟨rfl, -, -⟩ := (Endpoint.run_stuck_iff hs).mp hr
  trivial

section Statements

variable {h h' : P.Host} {β : Type}

theorem always_run {o : P.Op} {v : P.Res o} {k : P.Res o → Program W P α}
    (ho : P.exec o h = .ok (v, h')) :
    M.Always read body s ⟨h, (Program.run o).bind k⟩ i ↔ M.Always read body s ⟨h', k v⟩ i := by
  rw [always_step ⟨h', k v⟩ i []
    (by rw [Program.run, Program.bind, Endpoint.step, ho]; rfl)]
  exact and_iff_right trivial

theorem always_emit {a : W.Addr} {κ : W.Kind} {d : W.Msg κ} {k : Unit → Program W P α} :
    M.Always read body s ⟨h, (Program.emit a κ d).bind k⟩ i ↔
      M.ok s (.sent (a, ⟨κ, d⟩)) ∧
        M.Always read body (M.next s (.sent (a, ⟨κ, d⟩))) ⟨h, k ()⟩ i := by
  rw [always_step ⟨h, k ()⟩ i [(a, ⟨κ, d⟩)] rfl]
  exact and_congr_left fun _ ↦ and_iff_left trivial

theorem always_awaitFrom {κ : W.Kind} {a : W.Addr} {d : Datagram W} {m : W.Msg κ}
    {rest : List (Parcel W)} {k : Option (W.Addr × W.Msg κ) → Program W P α}
    (hm : read κ d = some m) :
    M.Always read body s ⟨h, (Program.awaitFrom κ).bind k⟩ (some ((a, d) :: rest)) ↔
      M.ok s (.got κ (a, d)) ∧
        M.Always read body (M.next s (.got κ (a, d))) ⟨h, k (some (a, m))⟩ (some rest) := by
  rw [always_step ⟨h, k (some (a, m))⟩ (some rest) []
    (by simp [Program.awaitFrom, Program.bind, Endpoint.step, hm])]
  exact and_congr_left fun _ ↦ and_iff_left trivial

theorem always_await {κ : W.Kind} {a : W.Addr} {d : Datagram W} {m : W.Msg κ}
    {rest : List (Parcel W)} {k : Option (W.Msg κ) → Program W P α} (hm : read κ d = some m) :
    M.Always read body s ⟨h, (Program.await κ).bind k⟩ (some ((a, d) :: rest)) ↔
      M.ok s (.got κ (a, d)) ∧
        M.Always read body (M.next s (.got κ (a, d))) ⟨h, k (some m)⟩ (some rest) := by
  rw [always_step ⟨h, k (some m)⟩ (some rest) []
    (by simp [Program.await, Program.bind, Endpoint.step, hm])]
  exact and_congr_left fun _ ↦ and_iff_left trivial

/-- With nothing left to read there is nothing to be displeased with. -/
theorem always_wait_nil {κ : W.Kind} {k : Option (W.Addr × W.Msg κ) → Program W P α} :
    M.Always read body s ⟨h, .wait κ k⟩ (some []) :=
  always_stuck rfl

theorem always_invoke {l : P.Proc} {k : P.Out l → Program W P α} :
    M.Always read body s ⟨h, (Program.invoke l).bind k⟩ i ↔
      M.Always read body s ⟨h, (body l).bind k⟩ i := by
  rw [always_step ⟨h, (body l).bind k⟩ i [] rfl]
  exact and_iff_right trivial

end Statements
end Monitor
end Session
