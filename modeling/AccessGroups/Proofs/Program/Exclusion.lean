import AccessGroups.Proofs.Program.Crowd
import Mathlib.Data.List.Induction
import Mathlib.Data.List.Infix

/-!
# Histories with one active run at a time

A run of a crowd is active from when it gets the flag until it gives it back. If a run gets the flag
exactly when no run is active, and makes calls only while it is active itself, then no two runs that
make calls overlap, and the flag is never left behind: the first run that asks for it after it was
given back gets it.

## Main definitions

* `Crowd.marksOf`: the marks of one run.
* `Crowd.Active`: the run holds the flag.
* `Crowd.Ordered`: all that happened fits to what happened before it.
* `Crowd.Precedes`: one run gave the flag back before another one got it.

## Main results

* `Crowd.Ordered.alone`: at most one run is active.
* `Crowd.Ordered.apart`: runs that make calls do not overlap.
* `Crowd.Ordered.next`: the flag can be had again after it was given back.
-/

namespace AccessGroups

namespace Crowd

variable {α : Type} {history before : List (ℕ × Mark α)} {x : ℕ × Mark α} {m : Mark α} {i j : ℕ}

/-- The marks of one run, in their order. -/
def marksOf (history : List (ℕ × Mark α)) (i : ℕ) : List (Mark α) :=
  (history.filter fun x => x.1 = i).map Prod.snd

/-- The run has got the flag and has not given it back. -/
def Active (history : List (ℕ × Mark α)) (i : ℕ) : Prop :=
  (i, .claimed true) ∈ history ∧ (i, .released) ∉ history

/-- What can come next: a run gets the flag exactly if no run is active, calls and giving back the
flag are for active runs, and a run that ends is not active. -/
def Fits (before : List (ℕ × Mark α)) : ℕ × Mark α → Prop
  | (_, .claimed taken) => taken = true ↔ ∀ j, ¬ Active before j
  | (i, .called _) => Active before i
  | (i, .released) => Active before i
  | (i, .ended _) => ¬ Active before i

/-- All that happened fits to what happened before it. -/
def Ordered (history : List (ℕ × Mark α)) : Prop :=
  ∀ before x after, history = before ++ x :: after → Fits before x

/-- One run gave the flag back before the other one got it. -/
def Precedes (history : List (ℕ × Mark α)) (i j : ℕ) : Prop :=
  ∃ before after, history = before ++ (j, .claimed true) :: after ∧ (i, .released) ∈ before

theorem mem_marksOf : m ∈ marksOf history i ↔ (i, m) ∈ history := by
  simp [marksOf]

theorem marksOf_concat_self : marksOf (history ++ [(i, m)]) i = marksOf history i ++ [m] := by
  simp [marksOf]

theorem marksOf_concat_of_ne (h : i ≠ j) :
    marksOf (history ++ [(i, m)]) j = marksOf history j := by
  simp [marksOf, h]

theorem active_concat_claimed : Active (history ++ [(i, .claimed true)]) j ↔
    Active history j ∨ (j = i ∧ (i, .released) ∉ history) := by
  simp only [Active, List.mem_append, List.mem_singleton, Prod.mk.injEq, reduceCtorEq, and_false,
    or_false, and_true]
  constructor
  · rintro ⟨hclaimed | rfl, hreleased⟩
    · exact .inl ⟨hclaimed, hreleased⟩
    · exact .inr ⟨rfl, hreleased⟩
  · rintro (⟨hclaimed, hreleased⟩ | ⟨rfl, hreleased⟩)
    · exact ⟨.inl hclaimed, hreleased⟩
    · exact ⟨.inr rfl, hreleased⟩

theorem active_concat_released :
    Active (history ++ [(i, .released)]) j ↔ Active history j ∧ j ≠ i := by
  simp [Active, and_assoc]

theorem active_concat_of_ne (hclaimed : m ≠ .claimed true) (hreleased : m ≠ .released) :
    Active (history ++ [(i, m)]) j ↔ Active history j := by
  simp [Active, hclaimed.symm, hreleased.symm]

theorem exists_active_concat_of_ne (hclaimed : m ≠ .claimed true) (hreleased : m ≠ .released) :
    (∃ j, Active (history ++ [(i, m)]) j) ↔ ∃ j, Active history j :=
  exists_congr fun _ => active_concat_of_ne hclaimed hreleased

theorem ordered_nil : Ordered ([] : List (ℕ × Mark α)) := by
  intro before x after h
  cases before <;> cases h

theorem Ordered.concat (h : Ordered history) (hx : Fits history x) :
    Ordered (history ++ [x]) := by
  intro before y after heq
  rcases List.eq_nil_or_concat after with rfl | ⟨after, z, rfl⟩
  · obtain ⟨rfl, hy⟩ := List.append_inj' heq rfl
    cases hy
    exact hx
  · rw [List.concat_eq_append, ← List.cons_append, ← List.append_assoc] at heq
    exact h before y after (List.append_inj' heq rfl).1

theorem Ordered.of_prefix (h : Ordered history) (hbefore : before <+: history) :
    Ordered before := by
  rintro front x after rfl
  obtain ⟨rest, rfl⟩ := hbefore
  exact h front x (after ++ rest) (by simp)

/-- At most one run is active. -/
theorem Ordered.alone (h : Ordered history) (hi : Active history i) (hj : Active history j) :
    i = j := by
  induction history using List.reverseRecOn with
  | nil => cases hi.1
  | append_singleton history x ih =>
    have hordered : Ordered history := h.of_prefix (List.prefix_append _ _)
    obtain ⟨k, m⟩ := x
    have hfits : Fits history (k, m) := h history (k, m) [] rfl
    by_cases hclaimed : m = .claimed true
    · subst hclaimed
      have hnone : ∀ j, ¬ Active history j := hfits.1 rfl
      rw [active_concat_claimed] at hi hj
      rcases hi with hi | ⟨rfl, -⟩
      · exact absurd hi (hnone i)
      rcases hj with hj | ⟨rfl, -⟩
      · exact absurd hj (hnone j)
      rfl
    · by_cases hreleased : m = .released
      · subst hreleased
        rw [active_concat_released] at hi hj
        exact ih hordered hi.1 hj.1
      · rw [active_concat_of_ne hclaimed hreleased] at hi hj
        exact ih hordered hi hj

/-- Two runs of which both make calls do not overlap. -/
theorem Ordered.apart (h : Ordered history) {c d : Call} (hne : i ≠ j)
    (hi : (i, .called c) ∈ history) (hj : (j, .called d) ∈ history) :
    Precedes history i j ∨ Precedes history j i := by
  have hclaimed {k : ℕ} {c : Call} (hk : (k, .called c) ∈ history) :
      ∃ before after, history = before ++ (k, .claimed true) :: after := by
    obtain ⟨before, after, rfl⟩ := List.append_of_mem hk
    have hactive : Active before k := h before _ after rfl
    obtain ⟨front, back, rfl⟩ := List.append_of_mem hactive.1
    exact ⟨front, back ++ (k, .called c) :: after, by simp⟩
  have hfirst {k l : ℕ} {before after between : List (ℕ × Mark α)}
      (heq : history = before ++ (k, .claimed true) :: between ++ (l, .claimed true) :: after) :
      Precedes history k l := by
    refine ⟨before ++ (k, .claimed true) :: between, after, heq, ?_⟩
    have hnone : ∀ j, ¬ Active (before ++ (k, .claimed true) :: between) j :=
      (h _ (l, .claimed true) after heq).1 rfl
    by_contra hreleased
    exact hnone k ⟨by simp, hreleased⟩
  obtain ⟨before, after, heq⟩ := hclaimed hi
  obtain ⟨before', after', heq'⟩ := hclaimed hj
  -- the two got the flag at different places of the history, and one of them is the first
  rcases List.append_eq_append_iff.1 (heq.symm.trans heq') with
    ⟨between, rfl, hafter⟩ | ⟨between, rfl, hafter⟩
  · cases between with
    | nil =>
      cases hafter
      exact absurd rfl hne
    | cons x between =>
      cases hafter
      exact .inl (hfirst heq')
  · cases between with
    | nil =>
      cases hafter
      exact absurd rfl hne
    | cons x between =>
      cases hafter
      exact .inr (hfirst heq)

/-- The first run that asks for the flag after it was given back gets it. -/
theorem Ordered.next (h : Ordered history) {before between after : List (ℕ × Mark α)} {taken : Bool}
    (heq : history = before ++ (i, .released) :: between ++ (j, .claimed taken) :: after)
    (hbetween : ∀ k taken, (k, .claimed taken) ∉ between) : taken = true := by
  have hreleased : Active before i := by
    rw [List.append_assoc] at heq
    exact h before (i, .released) _ heq
  have hbefore : Ordered before := h.of_prefix (heq ▸ (List.prefix_append _ _).trans
    (List.prefix_append _ _))
  -- who is active now was so before the flag was given back, as nobody has got it since
  refine (h _ (j, .claimed taken) after heq).2 fun k hk => ?_
  have hclaimed : (k, .claimed true) ∈ before := by
    simpa [hbetween k true] using hk.1
  have hne : (k, .released) ∉ before ++ (i, .released) :: between := hk.2
  have hactive : Active before k := ⟨hclaimed, fun hmem => hne (List.mem_append_left _ hmem)⟩
  obtain rfl := hbefore.alone hactive hreleased
  exact hne (by simp)

end Crowd

end AccessGroups
