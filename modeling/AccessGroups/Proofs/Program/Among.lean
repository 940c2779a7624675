import AccessGroups.Proofs.Program.Watched
import Mathlib.Logic.Relation

/-!
# Programs among others

A program runs while others do something to the world, at any time between two of its operations. An
operation of the program is one step, so that what the others do falls between single calls. What a
program does among others is proved as a safety property: it keeps to what it may do in every state
that it can meet, given what the others can change.

## Main definitions

* `Setting`: the others, and the disturbances that there can be.
* `Amid`: a program among others, with what happened so far.
* `Setting.Step`, `Setting.Reaches`: one step, and any number of them.
* `Prog.Safe`: a program does what it may, and ends well if it ends.
* `Prog.Stable`: a condition that the others keep.
* `Setting.Simulates`: the steps are those of an abstract state.

## Main results

* `Prog.safe_bind`: a program is safe when its first part is, up to where its second part is.
* `Prog.safe_perform`, `Prog.safe_quiet`: programs that begin with an operation.
* `Setting.Simulates.reaches`: a safe program stays safe among others.
* `Setting.reaches_watch`: a watched run is a run among others that do nothing.
-/

namespace AccessGroups

/-! ### Safety -/

namespace Prog

variable {σ α β : Type} {step : σ → (op : Op) → op.Answer → σ → Prop} {rely : σ → σ → Prop}
  {may : σ → Op → Prop} {Q R : α → σ → Prop} {s t : σ}

/-- Whatever the others change, the program asks only for operations that it may ask for, and if it
ends with a value, that satisfies `Q`. -/
def Safe (step : σ → (op : Op) → op.Answer → σ → Prop) (rely : σ → σ → Prop) (may : σ → Op → Prop)
    (Q : α → σ → Prop) : Prog α → σ → Prop
  | .done a, s => ∀ t, rely s t → Q a t
  | .step op next, s => ∀ t, rely s t →
    may t op ∧ ∀ x u, step t op x u → (next x).Safe step rely may Q u
  | .abandon, _ => True

theorem Safe.mono {p : Prog α} (h : p.Safe step rely may Q s) (hQ : ∀ a t, Q a t → R a t) :
    p.Safe step rely may R s := by
  induction p generalizing s with
  | done a => exact fun t ht => hQ a t (h t ht)
  | step op next ih =>
    exact fun t ht => ⟨(h t ht).1, fun x u hstep => ih x ((h t ht).2 x u hstep)⟩
  | abandon => trivial

variable [IsPreorder σ rely]

/-- What the others do leaves a safe program safe. -/
theorem Safe.of_rely {p : Prog α} (h : p.Safe step rely may Q s) (hst : rely s t) :
    p.Safe step rely may Q t := by
  cases p with
  | done a => exact fun u hu => h u (trans_of rely hst hu)
  | step op next => exact fun u hu => h u (trans_of rely hst hu)
  | abandon => trivial

/-- A program that goes on with the value of another one is safe when the other one is, up to where
the rest is. -/
theorem safe_bind (p : Prog α) (f : α → Prog β) (Q : β → σ → Prop) (s : σ) :
    (p >>= f).Safe step rely may Q s ↔
      p.Safe step rely may (fun a t => (f a).Safe step rely may Q t) s := by
  induction p generalizing s with
  | done a => exact ⟨fun h t ht => h.of_rely ht, fun h => h s (refl_of rely s)⟩
  | step op next ih =>
    exact forall₂_congr fun t _ => and_congr_right fun _ => forall₃_congr fun x u _ => ih x u
  | abandon => exact Iff.rfl

/-- The first part of a program may be judged by any condition from which the rest is safe. -/
theorem Safe.bind {p : Prog α} {f : α → Prog β} {Q : β → σ → Prop}
    (h : p.Safe step rely may R s) (hf : ∀ a t, R a t → (f a).Safe step rely may Q t) :
    (p >>= f).Safe step rely may Q s :=
  (safe_bind p f Q s).2 (h.mono hf)

/-! ### Single operations -/

/-- What the others do keeps the condition. -/
def Stable (rely : σ → σ → Prop) (I : σ → Prop) : Prop :=
  ∀ ⦃s t⦄, I s → rely s t → I t

/-- What every single move of the others keeps any number of moves keep. -/
theorem stable_of_move {move : σ → σ → Prop} {I : σ → Prop} (h : ∀ a b, I a → move a b → I b) :
    Stable (Relation.ReflTransGen move) I := by
  intro a b ha hrely
  induction hrely with
  | refl => exact ha
  | tail _ hmove ih => exact h _ _ ih hmove

/-- Only calls change the state, and anything else may be asked for at any time. -/
structure CallsOnly (step : σ → (op : Op) → op.Answer → σ → Prop) (may : σ → Op → Prop) :
    Prop where
  keeps : ∀ {s : σ} {op : Op} {x : op.Answer} {t : σ}, (∀ c, op ≠ .call c) → step s op x t → t = s
  free : ∀ {s : σ} {op : Op}, (∀ c, op ≠ .call c) → may s op

omit [IsPreorder σ rely] in
theorem safe_pure {a : α} (hQ : Stable rely (Q a)) (h : Q a s) :
    (pure a : Prog α).Safe step rely may Q s :=
  fun _ ht => hQ h ht

/-- An operation is asked for in a state of which the others keep what is known. -/
theorem safe_perform {op : Op} {f : op.Answer → Prog α} {I : σ → Prop} (hI : Stable rely I)
    (h : I s) (hmay : ∀ t, I t → may t op)
    (hnext : ∀ t x u, I t → step t op x u → (f x).Safe step rely may Q u) :
    (perform op >>= f).Safe step rely may Q s := by
  refine (safe_bind _ _ _ _).2 fun t ht => ⟨hmay t (hI h ht), fun x u hstep v hv => ?_⟩
  exact (hnext t x u (hI h ht) hstep).of_rely hv

/-- What is no call can be asked for at any time, and the program goes on where it was. -/
theorem safe_quiet (hcalls : CallsOnly step may) {op : Op} {f : op.Answer → Prog α}
    (hop : ∀ c, op ≠ .call c) (h : ∀ x, (f x).Safe step rely may Q s) :
    (perform op >>= f).Safe step rely may Q s := by
  refine (safe_bind _ _ _ _).2 fun t ht => ⟨hcalls.free hop, fun x u hstep v hv => ?_⟩
  cases hcalls.keeps hop hstep
  exact ((h x).of_rely ht).of_rely hv

theorem safe_log (hcalls : CallsOnly step may) {e : Event} {f : Unit → Prog α}
    (h : (f ()).Safe step rely may Q s) : (log e >>= f).Safe step rely may Q s :=
  safe_quiet hcalls (fun _ => nofun) fun _ => h

end Prog

/-! ### Steps -/

/-- What happened: a call of the program with its answer, or something that the others did. -/
inductive Moment (ε : Type) where
  | own (x : Exchange)
  | other (e : ε)

namespace Moment

variable {ε : Type}

/-- The call of the program with its answer. -/
def own? : Moment ε → Option Exchange
  | .own x => some x
  | .other _ => none

/-- What the others did. -/
def other? : Moment ε → Option ε
  | .own _ => none
  | .other e => some e

end Moment

/-- The call with its answer, if the operation is one. -/
def Op.exchange? : (op : Op) → op.Answer → Option Exchange
  | .call c, x => some ⟨c, x⟩
  | _, _ => none

/-- What a program runs among. The others have a state of their own, of type `κ`, and do things of
type `ε`. -/
structure Setting (κ ε : Type) where
  acts : κ → World → ε → κ → World → Prop
  conditions : Conditions
  /-- A call of the program can reach the world. -/
  admits : World → Call → Prop

/-- What is left of a program, the state of the others, the world, and what happened so far. -/
structure Amid (α κ ε : Type) where
  rest : Prog α
  others : κ
  world : World
  history : List (Moment ε) := []

instance {α : Type} (p : Prog α) : Decidable (∃ x, p = .done x) :=
  match p with
  | .done x => isTrue ⟨x, rfl⟩
  | .step _ _ => isFalse nofun
  | .abandon => isFalse nofun

/-- The calls that the program made so far, with their answers. -/
def Amid.exchanges {α κ ε : Type} (c : Amid α κ ε) : List Exchange :=
  c.history.filterMap Moment.own?

/-- The next operation of the program, if the world answers it. -/
def Amid.advance {α κ ε : Type} (c : Amid α κ ε) : Amid α κ ε :=
  match c.rest with
  | .step op next =>
    match c.world.handle op with
    | (some x, v) => ⟨next x, c.others, v, c.history ++ (op.exchange? x).toList.map .own⟩
    | (none, _) => c
  | _ => c

namespace Setting

variable {α κ ε σ : Type} (S : Setting κ ε)

/-- The operation can have this answer in the world and leave this one. A call that fails before it
reaches the world leaves it as it is. -/
def Answers (w : World) : (op : Op) → op.Answer → World → Prop
  | .call c, x, v => (S.admits w c ∧ w.answer c = (some x, v)) ∨
    (S.conditions.mayFail c ∧ (∃ e, Watch.refusal? c e = some x) ∧ v = w)
  | .poll, cancelled, v => (cancelled = true → w.cancelled = true ∨ S.conditions.mayCancel) ∧ v = w
  | op, x, v => w.handle op = (some x, v)

/-- One step of the program or of the others. A call without an answer ends the program. -/
inductive Step : Amid α κ ε → Amid α κ ε → Prop
  | own {op : Op} {next : op.Answer → Prog α} {s : κ} {w v : World} {h : List (Moment ε)}
      {x : op.Answer} (hanswer : S.Answers w op x v) :
      Step ⟨.step op next, s, w, h⟩ ⟨next x, s, v, h ++ (op.exchange? x).toList.map .own⟩
  | lost {c : Call} {next : c.Answer → Prog α} {s : κ} {w : World} {h : List (Moment ε)}
      (hadmits : S.admits w c) (hnone : (w.answer c).1 = none) :
      Step ⟨.step (.call c) next, s, w, h⟩ ⟨.abandon, s, w, h⟩
  | other {p : Prog α} {s s' : κ} {w v : World} {h : List (Moment ε)} {e : ε}
      (hacts : S.acts s w e s' v) : Step ⟨p, s, w, h⟩ ⟨p, s', v, h ++ [.other e]⟩

/-- What the world answers is an answer among others, if the call can reach the world. -/
theorem answers_of_handle {w v : World} {op : Op} {x : op.Answer}
    (hadmits : ∀ c, op = .call c → S.admits w c) (h : w.handle op = (some x, v)) :
    S.Answers w op x v := by
  cases op with
  | call c => exact .inl ⟨hadmits c rfl, h⟩
  | poll =>
    cases h
    exact ⟨.inl, rfl⟩
  | _ => exact h

/-- Any number of steps of the program and of the others. -/
abbrev Reaches : Amid α κ ε → Amid α κ ε → Prop :=
  Relation.ReflTransGen S.Step

variable {S} in
/-- If all calls can reach the world, a program can go on. -/
theorem reaches_advance (hadmits : ∀ w c, S.admits w c) (b : Amid α κ ε) :
    S.Reaches b b.advance := by
  obtain ⟨rest, others, w, h⟩ := b
  cases rest with
  | done x => exact .refl
  | abandon => exact .refl
  | step op next =>
    simp only [Amid.advance]
    split
    · next hhandle => exact .single (.own (S.answers_of_handle (fun c _ => hadmits w c) hhandle))
    · exact .refl

variable {S} in
theorem reaches_repeat_advance (hadmits : ∀ w c, S.admits w c) (n : Nat) (b : Amid α κ ε) :
    S.Reaches b (Nat.repeat Amid.advance n b) := by
  induction n with
  | zero => exact .refl
  | succ n ih => exact ih.trans (reaches_advance hadmits _)

/-! ### Simulation -/

/-- The steps of the program and of the others are those of an abstract state. -/
structure Simulates (R : κ → World → List (Moment ε) → σ → Prop)
    (step : σ → (op : Op) → op.Answer → σ → Prop) (rely : σ → σ → Prop) (may : σ → Op → Prop) :
    Prop where
  own : ∀ {s w h a op x v}, R s w h a → may a op → S.Answers w op x v →
    ∃ b, step a op x b ∧ R s v (h ++ (op.exchange? x).toList.map .own) b
  other : ∀ {s w h a e s' v}, R s w h a → S.acts s w e s' v →
    ∃ b, rely a b ∧ R s' v (h ++ [.other e]) b

variable {S} {R : κ → World → List (Moment ε) → σ → Prop}
  {step : σ → (op : Op) → op.Answer → σ → Prop} {rely : σ → σ → Prop} {may : σ → Op → Prop}
  {Q : α → σ → Prop} {a : σ} {b c : Amid α κ ε}

/-- A program that is safe stays so among others. -/
theorem Simulates.reaches [IsPreorder σ rely] (hS : S.Simulates R step rely may)
    (h : S.Reaches b c) (hR : R b.others b.world b.history a)
    (hsafe : b.rest.Safe step rely may Q a) :
    ∃ a', R c.others c.world c.history a' ∧ c.rest.Safe step rely may Q a' := by
  induction h with
  | refl => exact ⟨a, hR, hsafe⟩
  | tail _ hstep ih =>
    obtain ⟨a', hR', hsafe'⟩ := ih
    cases hstep with
    | own hanswer =>
      obtain ⟨hmay, hnext⟩ := hsafe' a' (refl_of rely a')
      obtain ⟨a'', hown, hR''⟩ := hS.own hR' hmay hanswer
      exact ⟨a'', hR'', hnext _ a'' hown⟩
    | lost hadmits hnone => exact ⟨a', hR', trivial⟩
    | other hacts =>
      obtain ⟨a'', hrely, hR''⟩ := hS.other hR' hacts
      exact ⟨a'', hR'', hsafe'.of_rely hrely⟩

/-! ### Watched runs -/

/-- A watched operation is answered as it can be among others. -/
theorem answers_handle {d : Disturbance} {u v : Watch} {op : Op} {x : op.Answer}
    (hhandle : u.handle d op = (some x, v))
    (hadmits : ∀ w c, w.backend.idCounters.exhaustedBy c = false → S.admits w c)
    (hcancel : ∀ n, d.cancelled n = true → S.conditions.mayCancel) (hspent : v.spent = false)
    (hfail : ∀ x ∈ v.exchanges, x.failed = true → S.conditions.mayFail x.call) :
    S.Answers u.world op x v.world ∧ v.exchanges = u.exchanges ++ (op.exchange? x).toList := by
  cases op with
  | call c =>
    rw [Watch.handle, Watch.answer] at hhandle
    cases hq : (d.fault u.exchanges.length).bind (Watch.refusal? c) with
    | some y =>
      rw [hq] at hhandle
      cases hhandle
      obtain ⟨e, -, hrefusal⟩ := Option.bind_eq_some_iff.1 hq
      have hfailed : Exchange.failed ⟨c, x⟩ = true := Watch.failed_of_refusal? hrefusal
      exact ⟨.inr ⟨hfail ⟨c, x⟩ (by simp [Watch.note]) hfailed, ⟨e, hrefusal⟩, rfl⟩, rfl⟩
    | none =>
      rw [hq, Watch.reach] at hhandle
      rcases hanswer : u.world.answer c with ⟨_ | y, world⟩ <;> rw [hanswer] at hhandle
      · cases hhandle
      · cases hhandle
        exact ⟨.inl ⟨hadmits _ _ (Bool.or_eq_false_iff.1 hspent).2, hanswer⟩, rfl⟩
  | poll =>
    cases hhandle
    refine ⟨⟨fun hsaw => ?_, rfl⟩, (List.append_nil _).symm⟩
    rcases Bool.or_eq_true_iff.1 hsaw with hw | hd
    · exact .inl hw
    · exact .inr (hcancel _ hd)
  | log | record | claim | release => cases hhandle; exact ⟨rfl, (List.append_nil _).symm⟩

theorem reaches_execFrom {d : Disturbance} {held : Bool} {p : Prog α} {u : Watch} (s : κ)
    (h : List (Moment ε)) (hh : h.filterMap Moment.own? = u.exchanges)
    (hadmits : ∀ w c, w.backend.idCounters.exhaustedBy c = false → S.admits w c)
    (hcancel : ∀ n, d.cancelled n = true → S.conditions.mayCancel)
    (hspent : (Watch.execFrom d held p u).2.spent = false)
    (hfail : ∀ x ∈ (Watch.execFrom d held p u).2.exchanges, x.failed = true →
      S.conditions.mayFail x.call) :
    ∃ c, S.Reaches ⟨p, s, u.world, h⟩ c ∧
      c.exchanges = (Watch.execFrom d held p u).2.exchanges := by
  induction p generalizing u h held with
  | done a => exact ⟨_, .refl, hh⟩
  | step op next ih =>
    rcases hhandle : u.handle d op with ⟨_ | x, v⟩
    · -- the call gets no answer, and the record stays as it is
      have hexchanges := Watch.exchanges_of_handle_none hhandle
      refine ⟨_, .refl, ?_⟩
      rw [Watch.execFrom_step_none hhandle, Watch.execFrom_abandon]
      cases held <;> exact hh.trans hexchanges.symm
    · rw [Watch.execFrom_step_some hhandle] at hspent hfail ⊢
      have hgrows := Watch.grows_execFrom d (op.holds x held) (next x) v
      obtain ⟨hanswers, hexchanges⟩ := answers_handle (S := S) hhandle hadmits hcancel
        (Bool.eq_false_iff.2 fun hs => Bool.eq_false_iff.1 hspent (hgrows.2 hs))
        fun x hx => hfail x (hgrows.1.subset hx)
      obtain ⟨c, hreaches, hc⟩ := ih x (u := v) (h ++ (op.exchange? x).toList.map .own)
        (by rw [List.filterMap_append, hh, hexchanges]; cases op.exchange? x <;> rfl) hspent hfail
      exact ⟨c, hreaches.head (.own hanswers), hc⟩
  | abandon =>
    refine ⟨_, .refl, ?_⟩
    rw [Watch.execFrom_abandon]
    cases held <;> exact hh

/-- A watched run is one among others that do nothing, as far as its calls are answered. -/
theorem reaches_watch {d : Disturbance} {p : Prog α} {w : World} (s : κ)
    (hadmits : ∀ w c, w.backend.idCounters.exhaustedBy c = false → S.admits w c)
    (hcancel : ∀ n, d.cancelled n = true → S.conditions.mayCancel)
    (hspent : (w.watch d p).2.spent = false)
    (hfail : ∀ x ∈ (w.watch d p).2.exchanges, x.failed = true → S.conditions.mayFail x.call) :
    ∃ c, S.Reaches ⟨p, s, w, []⟩ c ∧ c.exchanges = (w.watch d p).2.exchanges :=
  reaches_execFrom (u := { world := w }) s [] rfl hadmits hcancel hspent hfail

end Setting

end AccessGroups
