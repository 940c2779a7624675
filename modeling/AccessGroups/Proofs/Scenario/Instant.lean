import AccessGroups.Program.Basic
import AccessGroups.Scenario.Act

/-!
# Acts that take no time

An act that lets no time pass, starts no task and waits for none can be run on a state alone. Such
acts are closed under everything that acts are built from: one after the other, programs whose
operations are answered by them, and joint acts. An act that lets time pass is calm when it does so
only in states that have a property, so that whatever happens meanwhile can rely on it.

## Main definitions

* `Scenario.Act.finish?`: the value of an act that takes no time, and the state that it leaves.
* `Scenario.Act.Instant`: an act that takes no time and keeps a property of the state.
* `Scenario.Act.Calm`: an act that lets time pass only in states with a property.

## Main results

* `Scenario.Act.Instant.exec`: a program takes no time if answering its operations takes none.
* `Scenario.Act.Instant.join`: joint acts take no time if their parts take none.
-/

namespace AccessGroups.Scenario.Act

variable {σ α β : Type} {P : σ → Prop} {Q : α → Prop} {R : β → Prop}

/-- The value of an act that takes no time, and the state that it leaves. There is none if the act
lets time pass, starts a task or waits for one. -/
def finish? : Act σ α → σ → Option (α × σ)
  | .done a, s => some (a, s)
  | .get next, s => (next s).finish? s
  | .set s next, _ => next.finish? s
  | .sleep millis next, s => if millis = 0 then next.finish? s else none
  | .start _ _ _ _, _ => none
  | .await _ _, _ => none

/-- On states with the property `P` the act takes no time; it leaves a state with the property, and
its value has the property `Q`. -/
def Instant (P : σ → Prop) (Q : α → Prop) (act : Act σ α) : Prop :=
  ∀ s, P s → ∃ a t, act.finish? s = some (a, t) ∧ P t ∧ Q a

/-- Begun on a state, the act starts no task and waits for none, and it lets time pass only in
states with the property `P`, if the states in which it goes on have the property as well. It also
leaves such a state. -/
def Calm (P : σ → Prop) : Act σ α → σ → Prop
  | .done _, s => P s
  | .get next, s => (next s).Calm P s
  | .set s next, _ => next.Calm P s
  | .sleep millis next, s =>
    if millis = 0 then next.Calm P s else P s ∧ ∀ t, P t → next.Calm P t
  | .start _ _ _ _, _ => False
  | .await _ _, _ => False

/-! ### One act after the other -/

theorem finish?_bind (act : Act σ α) (f : α → Act σ β) (s : σ) :
    (act >>= f).finish? s = (act.finish? s).bind fun r => (f r.1).finish? r.2 := by
  change (act.bind f).finish? s = _
  induction act generalizing s with
  | done a => rfl
  | get next ih => exact ih s s
  | set t next ih => exact ih t
  | sleep millis next ih =>
    simp only [bind, finish?]
    split
    · exact ih s
    · rfl
  | start task period delay next ih => rfl
  | await task next ih => rfl

@[simp] theorem finish?_read (g : σ → α) (s : σ) : (Act.read g).finish? s = some (g s, s) := rfl

theorem Calm.bind {act : Act σ α} {f : α → Act σ β} {s : σ} (h : act.Calm P s)
    (hf : ∀ a t, P t → (f a).Calm P t) : (act >>= f).Calm P s := by
  change (act.bind f).Calm P s
  induction act generalizing s with
  | done a => exact hf a s h
  | get next ih => exact ih s h
  | set t next ih => exact ih h
  | sleep millis next ih =>
    simp only [Calm, Act.bind] at h ⊢
    split at h
    · next hzero => rw [if_pos hzero]; exact ih h
    · next hlong => rw [if_neg hlong]; exact ⟨h.1, fun t ht => ih (h.2 t ht)⟩
  | start task period delay next ih => exact h
  | await task next ih => exact h

/-- An act that takes no time is calm if the state that it leaves has the property. -/
theorem calm_of_finish? {act : Act σ α} {s t : σ} {a : α} (h : act.finish? s = some (a, t))
    (ht : P t) : act.Calm P s := by
  induction act generalizing s with
  | done a => cases h; exact ht
  | get next ih => exact ih s h
  | set u next ih => exact ih h
  | sleep millis next ih =>
    simp only [finish?] at h
    split at h
    · next hzero => rw [Calm, if_pos hzero]; exact ih h
    · cases h
  | start task period delay next ih => cases h
  | await task next ih => cases h

namespace Instant

variable {act : Act σ α} {f : α → Act σ β}

theorem pure {a : α} (ha : Q a) : Instant P Q (.done a : Act σ α) :=
  fun s hs => ⟨a, s, rfl, hs, ha⟩

theorem bind (h : Instant P Q act) (hf : ∀ a, Q a → Instant P R (f a)) :
    Instant P R (act >>= f) := by
  intro s hs
  obtain ⟨a, t, hfinish, ht, ha⟩ := h s hs
  obtain ⟨b, u, hrest, hu, hb⟩ := hf a ha t ht
  exact ⟨b, u, by rw [finish?_bind, hfinish]; exact hrest, hu, hb⟩

theorem modify {g : σ → α × σ} (h : ∀ s, P s → P (g s).2 ∧ Q (g s).1) :
    Instant P Q (Act.modify g) :=
  fun s hs => ⟨(g s).1, (g s).2, rfl, (h s hs).1, (h s hs).2⟩

theorem update {g : σ → σ} (h : ∀ s, P s → P (g s)) :
    Instant P (fun _ => True) (Act.update g) :=
  modify fun s hs => ⟨h s hs, trivial⟩

theorem read {g : σ → α} (h : ∀ s, P s → Q (g s)) : Instant P Q (Act.read g) :=
  fun s hs => ⟨g s, s, rfl, hs, h s hs⟩

theorem calm (h : Instant P Q act) {s : σ} (hs : P s) : act.Calm P s := by
  obtain ⟨a, t, hfinish, ht, -⟩ := h s hs
  exact calm_of_finish? hfinish ht

/-! ### Programs -/

section Programs

variable {handle : (op : Op) → Act σ (Option op.Answer)}

theorem giveUp (h : ∀ op, Instant P (fun _ => True) (handle op)) (held : Bool) :
    Instant P (fun _ => True) (Prog.giveUp handle held : Act σ (Option α)) := by
  cases held with
  | false => exact pure trivial
  | true => exact (h .release).bind fun _ _ => pure trivial

/-- A program takes no time if answering its operations takes none. -/
theorem exec (h : ∀ op, Instant P (fun _ => True) (handle op)) (p : Prog α) :
    Instant P (fun _ => True) (p.exec handle) := by
  have hfrom : ∀ held, Instant P (fun _ => True) (p.execFrom handle held) := by
    induction p with
    | done a => exact fun held => pure trivial
    | step op next ih =>
      intro held
      refine (h op).bind fun x _ => ?_
      cases x with
      | none => exact giveUp h held
      | some x => exact ih x _
    | abandon => exact giveUp h
  exact (hfrom false).bind fun _ _ => pure trivial

end Programs

/-! ### Joint acts -/

/-- The part has ended. -/
def Ended (part : Part σ α) : Prop :=
  ∃ a, part = .ended a

theorem toPart (h : Instant P Q act) : Instant P Ended act.toPart := by
  have hpart : ∀ s a t, act.finish? s = some (a, t) →
      act.toPart.finish? s = some (.ended a, t) := by
    clear h
    induction act with
    | done a => rintro s b t ⟨⟩; rfl
    | get next ih => exact fun s => ih s s
    | set u next ih => exact fun s => ih u
    | sleep millis next ih =>
      intro s a t hfinish
      simp only [finish?, Act.toPart] at hfinish ⊢
      split at hfinish
      · next hzero => rw [if_pos hzero]; exact ih s a t hfinish
      · cases hfinish
    | start task period delay next ih => rintro s a t ⟨⟩
    | await task next ih => rintro s a t ⟨⟩
  intro s hs
  obtain ⟨a, t, hfinish, ht, -⟩ := h s hs
  exact ⟨_, t, hpart s a t hfinish, ht, a, rfl⟩

/-- Parts that have not begun end as soon as they go on. -/
theorem resume (breaks : α → Bool) {acts : List (Act σ α)}
    (h : ∀ act ∈ acts, Instant P (fun _ => True) act) :
    Instant P (fun r => ∀ parts, r = some parts → ∀ part ∈ parts, Ended part)
      (Act.resume breaks 0 (acts.map (.asleep 0))) := by
  induction acts with
  | nil => exact pure (by rintro _ ⟨⟩; simp)
  | cons act rest ih =>
    have hrest := ih fun act hact => h act (List.mem_cons_of_mem _ hact)
    refine ((h act List.mem_cons_self).toPart).bind fun part hpart => ?_
    dsimp only
    split
    · exact pure (by simp)
    · refine hrest.bind fun r hr => pure ?_
      rintro parts hparts
      obtain ⟨others, rfl, rfl⟩ := Option.map_eq_some_iff.1 hparts
      exact List.forall_mem_cons.2 ⟨hpart, hr others rfl⟩

theorem filterMap_millis?_eq_nil {parts : List (Part σ α)} (h : ∀ part ∈ parts, Ended part) :
    parts.filterMap Part.millis? = [] := by
  refine List.filterMap_eq_nil_iff.2 fun part hpart => ?_
  obtain ⟨a, rfl⟩ := h part hpart
  rfl

/-- Joint acts take no time if their parts take none. -/
theorem join (breaks : α → Bool) (rounds : Nat) {acts : List (Act σ α)}
    (h : ∀ act ∈ acts, Instant P (fun _ => True) act) :
    Instant P (fun _ => True) (Act.join breaks rounds acts) := by
  refine (resume breaks h).bind fun r hr => ?_
  cases r with
  | none => exact pure trivial
  | some parts =>
    cases rounds with
    | zero => exact pure trivial
    | succ rounds =>
      simp only [finish, filterMap_millis?_eq_nil (hr parts rfl), List.min?_nil]
      exact pure trivial

end Instant

end AccessGroups.Scenario.Act
