import Bropdox.Session.Solo

/-!
# A program on given outcomes

The other semantics of this library put datagrams into an inbox and let a program read them.  Here
nothing is said about where the datagrams come from: a program is played to its end on a list of
outcomes of its waits, each of which is what came or that nothing came.

## What is here

* `Outcome` is what a wait ended with, `Act` what a program does (the operations that it calls as
  well as what it sends), and `Program.Plays` relates a program and the outcomes to its acts, the
  host after it, and how it ends.
* `Meaning` is a meaning of the operations.  It is a parameter, so that a program can be played on a
  host that fails in ways its own does not.
* `Plays.unique`: on given outcomes a program has no choice.
* The lemmas `plays_*` follow a program statement by statement; `plays_awaitAll` is the loop of
  waits, which fills one slot with each outcome.
* `plays_of_run`: a run on an inbox that returns is a play in which every wait succeeds.
-/

set_option autoImplicit false

namespace Session

variable {W : Wire} {P : Sig} {H α : Type}

/-- What a wait ended with: the kind that was waited for, and what came, if anything. -/
abbrev Outcome (W : Wire) := (κ : W.Kind) × Option (W.Addr × W.Msg κ)

/-- What a program does. -/
inductive Act (W : Wire) (P : Sig)
  /-- The program calls an operation. -/
  | called (o : P.Op)
  /-- The program sends a datagram. -/
  | sent (p : Parcel W)

/-- The operations that are called. -/
def calls (acts : List (Act W P)) : List P.Op :=
  acts.filterMap fun
    | .called o => some o
    | .sent _ => none

/-- The datagrams that are sent. -/
def sends (acts : List (Act W P)) : List (Parcel W) :=
  acts.filterMap fun
    | .called _ => none
    | .sent p => some p

@[simp] theorem calls_nil : calls ([] : List (Act W P)) = [] := rfl

@[simp] theorem calls_called (o : P.Op) (acts : List (Act W P)) :
    calls (.called o :: acts) = o :: calls acts := rfl

@[simp] theorem calls_sent (p : Parcel W) (acts : List (Act W P)) :
    calls (.sent p :: acts) = calls acts := rfl

@[simp] theorem sends_nil : sends ([] : List (Act W P)) = [] := rfl

@[simp] theorem sends_called (o : P.Op) (acts : List (Act W P)) :
    sends (.called o :: acts) = sends acts := rfl

@[simp] theorem sends_sent (p : Parcel W) (acts : List (Act W P)) :
    sends (.sent p :: acts) = p :: sends acts := rfl

/-- A meaning of the operations on some host; as in a signature, one that throws leaves the host as
it was. -/
abbrev Meaning (P : Sig) (H : Type) := (o : P.Op) → H → Except P.Exn (P.Res o × H)

/-- The program, played from a host on some outcomes of its waits: what it does, the host after it,
and how it ends. -/
inductive Program.Plays (exec : Meaning P H) (body : Bodies W P) :
    H → Program W P α → List (Outcome W) → List (Act W P) → H → Except P.Exn α → Prop
  | ret (h : H) (a : α) : Plays exec body h (.ret a) [] [] h (.ok a)
  | throw (h : H) (e : P.Exn) : Plays exec body h (.throw e) [] [] h (.error e)
  | op {h h' t : H} {o : P.Op} {v : P.Res o} {k : Except P.Exn (P.Res o) → Program W P α}
      {ws : List (Outcome W)} {acts : List (Act W P)} {r : Except P.Exn α}
      (ho : exec o h = .ok (v, h')) (hr : Plays exec body h' (k (.ok v)) ws acts t r) :
      Plays exec body h (.op o k) ws (.called o :: acts) t r
  | fail {h t : H} {o : P.Op} {e : P.Exn} {k : Except P.Exn (P.Res o) → Program W P α}
      {ws : List (Outcome W)} {acts : List (Act W P)} {r : Except P.Exn α}
      (ho : exec o h = .error e) (hr : Plays exec body h (k (.error e)) ws acts t r) :
      Plays exec body h (.op o k) ws (.called o :: acts) t r
  | send {h t : H} {a : W.Addr} {d : Datagram W} {k : Program W P α} {ws : List (Outcome W)}
      {acts : List (Act W P)} {r : Except P.Exn α} (hr : Plays exec body h k ws acts t r) :
      Plays exec body h (.send a d k) ws (.sent (a, d) :: acts) t r
  | wait {h t : H} {κ : W.Kind} {m : Option (W.Addr × W.Msg κ)}
      {k : Option (W.Addr × W.Msg κ) → Program W P α} {ws : List (Outcome W)}
      {acts : List (Act W P)} {r : Except P.Exn α} (hr : Plays exec body h (k m) ws acts t r) :
      Plays exec body h (.wait κ k) (⟨κ, m⟩ :: ws) acts t r
  | close {h t : H} {k : Program W P α} {ws : List (Outcome W)} {acts : List (Act W P)}
      {r : Except P.Exn α} (hr : Plays exec body h k ws acts t r) :
      Plays exec body h (.close k) ws acts t r
  | call {h t : H} {l : P.Proc} {k : P.Out l → Program W P α} {ws : List (Outcome W)}
      {acts : List (Act W P)} {r : Except P.Exn α}
      (hr : Plays exec body h ((body l).bind k) ws acts t r) :
      Plays exec body h (.call l k) ws acts t r

namespace Program

variable {exec : Meaning P H} {body : Bodies W P} {h h' t t' : H} {p : Program W P α}
  {ws : List (Outcome W)} {acts acts' : List (Act W P)} {r r' : Except P.Exn α}

/-- **On given outcomes a program has no choice.** -/
theorem Plays.unique (hp : Plays exec body h p ws acts t r)
    (hp' : Plays exec body h p ws acts' t' r') : acts' = acts ∧ t' = t ∧ r' = r := by
  induction hp generalizing acts' with
  | ret h a =>
    cases hp'
    exact ⟨rfl, rfl, rfl⟩
  | throw h e =>
    cases hp'
    exact ⟨rfl, rfl, rfl⟩
  | op ho _ ih =>
    cases hp' with
    | op ho' hr' =>
      rw [ho] at ho'
      cases ho'
      obtain ⟨rfl, rfl, rfl⟩ := ih hr'
      exact ⟨rfl, rfl, rfl⟩
    | fail ho' _ =>
      rw [ho] at ho'
      cases ho'
  | fail ho _ ih =>
    cases hp' with
    | op ho' _ =>
      rw [ho] at ho'
      cases ho'
    | fail ho' hr' =>
      rw [ho] at ho'
      cases ho'
      obtain ⟨rfl, rfl, rfl⟩ := ih hr'
      exact ⟨rfl, rfl, rfl⟩
  | send _ ih =>
    cases hp' with
    | send hr' =>
      obtain ⟨rfl, rfl, rfl⟩ := ih hr'
      exact ⟨rfl, rfl, rfl⟩
  | wait _ ih =>
    cases hp' with
    | wait hr' => exact ih hr'
  | close _ ih =>
    cases hp' with
    | close hr' => exact ih hr'
  | call _ ih =>
    cases hp' with
    | call hr' => exact ih hr'

/-! ## Statement by statement

One equivalence for each constructor of a program, so that `simp` computes the plays of a program
from the list of its outcomes. -/

section Statements

variable {β : Type}

theorem plays_ret {a : α} :
    Plays exec body h (ret a : Program W P α) ws acts t r ↔
      ws = [] ∧ acts = [] ∧ t = h ∧ r = .ok a := by
  constructor
  · intro hp
    cases hp
    exact ⟨rfl, rfl, rfl, rfl⟩
  · rintro ⟨rfl, rfl, rfl, rfl⟩
    exact .ret ..

theorem plays_run {o : P.Op} {v : P.Res o} {k : P.Res o → Program W P α}
    (ho : exec o h = .ok (v, h')) :
    Plays exec body h ((run o).bind k) ws acts t r ↔
      ∃ acts', acts = .called o :: acts' ∧ Plays exec body h' (k v) ws acts' t r := by
  constructor
  · intro hp
    cases hp with
    | op ho' hr =>
      rw [ho] at ho'
      cases ho'
      exact ⟨_, rfl, hr⟩
    | fail ho' _ =>
      rw [ho] at ho'
      cases ho'
  · rintro ⟨acts', rfl, hr⟩
    exact .op ho hr

theorem plays_emit {a : W.Addr} {κ : W.Kind} {d : W.Msg κ} {k : Unit → Program W P α} :
    Plays exec body h ((emit a κ d).bind k) ws acts t r ↔
      ∃ acts', acts = .sent (a, ⟨κ, d⟩) :: acts' ∧ Plays exec body h (k ()) ws acts' t r := by
  constructor
  · intro hp
    cases hp with
    | send hr => exact ⟨_, rfl, hr⟩
  · rintro ⟨acts', rfl, hr⟩
    exact .send hr

/-- A datagram that is sent last. -/
theorem plays_emit_last {a : W.Addr} {κ : W.Kind} {d : W.Msg κ} {t : H} {r : Except P.Exn Unit} :
    Plays exec body h (emit a κ d) ws acts t r ↔
      ws = [] ∧ acts = [.sent (a, ⟨κ, d⟩)] ∧ t = h ∧ r = .ok () := by
  rw [← bind_ret (emit a κ d), plays_emit]
  simp only [plays_ret]
  constructor
  · rintro ⟨_, rfl, rfl, rfl, rfl, rfl⟩
    exact ⟨rfl, rfl, rfl, rfl⟩
  · rintro ⟨rfl, rfl, rfl, rfl⟩
    exact ⟨[], rfl, rfl, rfl, rfl, rfl⟩

theorem plays_shut {k : Unit → Program W P α} :
    Plays exec body h (shut.bind k) ws acts t r ↔ Plays exec body h (k ()) ws acts t r := by
  constructor
  · intro hp
    cases hp with
    | close hr => exact hr
  · exact .close

theorem plays_await {κ : W.Kind} {m : Option (W.Addr × W.Msg κ)}
    {k : Option (W.Msg κ) → Program W P α} :
    Plays exec body h ((await κ).bind k) (⟨κ, m⟩ :: ws) acts t r ↔
      Plays exec body h (k (m.map Prod.snd)) ws acts t r := by
  constructor
  · intro hp
    cases hp with
    | wait hr => exact hr
  · intro hr
    rw [await, Program.bind]
    exact .wait hr

/-- The loop of `n` waits fills one slot with each outcome. -/
theorem plays_awaitAll {κ : W.Kind} {n : Nat} {ms : List (Option (W.Addr × W.Msg κ))}
    {slots : List (Option (W.Msg κ))} (hn : ms.length = n)
    (hslots : ms.map (Option.map Prod.snd) = slots)
    {k : List (Option (W.Msg κ)) → Program W P α} :
    Plays exec body h ((awaitAll κ n).bind k) (ms.map (⟨κ, ·⟩) ++ ws) acts t r ↔
      Plays exec body h (k slots) ws acts t r := by
  induction ms generalizing n k slots with
  | nil =>
    obtain rfl : n = 0 := hn.symm
    obtain rfl : slots = [] := hslots.symm
    rfl
  | cons m ms ih =>
    obtain ⟨n, rfl⟩ : ∃ n', n = n' + 1 := ⟨ms.length, hn.symm⟩
    obtain rfl := hslots
    simp only [awaitAll, bind_eq, bind_assoc, List.map_cons, List.cons_append, plays_await,
      ih (Nat.succ.inj hn) rfl, pure_eq, ret_bind]

/-- Whatever the waits of the loop give, there are `n` of them. -/
theorem exists_of_plays_awaitAll {κ : W.Kind} {n : Nat}
    {k : List (Option (W.Msg κ)) → Program W P α}
    (hp : Plays exec body h ((awaitAll κ n).bind k) ws acts t r) :
    ∃ (ms : List (Option (W.Addr × W.Msg κ))) (rest : List (Outcome W)), ms.length = n ∧
      ws = ms.map (⟨κ, ·⟩) ++ rest ∧
      Plays exec body h (k (ms.map (Option.map Prod.snd))) rest acts t r := by
  induction n generalizing k ws with
  | zero => exact ⟨[], ws, rfl, rfl, hp⟩
  | succ n ih =>
    simp only [awaitAll, bind_eq, bind_assoc, await, Program.bind] at hp
    cases hp with
    | @wait _ _ _ m _ ws _ _ hr =>
      obtain ⟨ms, rest, hn, hws, hrest⟩ := ih hr
      exact ⟨m :: ms, rest, congrArg Nat.succ hn, congrArg _ hws, hrest⟩

end Statements

/-! ## Runs on an inbox

A run on an inbox reads datagrams where a play is given outcomes: a run that returns is a play of
what its waits have read, and none of them has waited in vain. -/

/-- The outcomes of the waits in a run on an inbox. -/
def outcomes (read : Reading W) (evs : List (Event W)) : List (Outcome W) :=
  evs.filterMap fun
    | .got κ p => some ⟨κ, (read κ p.2).map (p.1, ·)⟩
    | .sent _ => none

/-- The datagrams sent in a run on an inbox. -/
def emitted (evs : List (Event W)) : List (Parcel W) :=
  evs.filterMap fun
    | .got _ _ => none
    | .sent p => some p

/-- **A run that returns is a play** in which every wait has given something. -/
theorem plays_of_run {read : Reading W} {body : Bodies W P} {e e' : Endpoint W P α}
    {i i' : Inbox W} {evs : List (Event W)} {a : α} (hr : Endpoint.Run read body e i evs e' i')
    (ha : e'.Returned a) :
    ∃ acts, Plays P.exec body e.host e.prog (outcomes read evs) acts e'.host (.ok a) ∧
      sends acts = emitted evs ∧ ∀ w ∈ outcomes read evs, w.2.isSome := by
  induction hr with
  | nil e i =>
    refine ⟨[], ?_, rfl, List.forall_mem_nil _⟩
    rw [ha]
    exact .ret ..
  | @cons e e₁ e' i i₁ i' out evs hs _ ih =>
    obtain ⟨acts, hp, hsends, hsome⟩ := ih ha
    obtain ⟨h, p⟩ := e
    cases p with
    | ret b => simp [Endpoint.step] at hs
    | throw x => simp [Endpoint.step] at hs
    | op o k =>
      simp only [Endpoint.step] at hs
      cases ho : P.exec o h with
      | error x =>
        rw [ho] at hs
        cases hs
        exact ⟨_, .fail ho hp, hsends, hsome⟩
      | ok v =>
        rw [ho] at hs
        cases hs
        exact ⟨_, .op ho hp, hsends, hsome⟩
    | send b d k =>
      cases hs
      exact ⟨_, .send hp, congrArg _ hsends, hsome⟩
    | close k =>
      cases hs
      exact ⟨_, .close hp, hsends, hsome⟩
    | call l k =>
      cases hs
      exact ⟨_, .call hp, hsends, hsome⟩
    | wait κ k =>
      rcases i with _ | _ | ⟨q, rest⟩
      · cases hs
      · cases hs
      · simp only [Endpoint.step, Option.map_eq_some_iff] at hs
        obtain ⟨m, hm, hs⟩ := hs
        cases hs
        have hout : outcomes read ([.got κ q] ++ evs)
            = ⟨κ, some (q.1, m)⟩ :: outcomes read evs := by
          simp [outcomes, hm]
        refine ⟨acts, hout ▸ .wait hp, hsends, ?_⟩
        exact hout ▸ List.forall_mem_cons.mpr ⟨rfl, hsome⟩

end Program
end Session
