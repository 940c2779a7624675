import AccessGroups.Proofs.Sweep.Scan
import AccessGroups.Sweep.Repair
import Mathlib.Logic.Relation

/-!
# The moves of a sweep

Whatever happens to a sweep, it changes a ledger by a few kinds of moves only. Each move says on
what condition it is made, in terms of the ledger at that moment, so that what the moves preserve is
preserved by every sweep, disturbed or not.

Some conditions depend on the view that the sweep has of the references: whether it knows those of
all kinds, with a table for every kind, and which groups it saw referred to.

## Main definitions

* `Sweep.View`: what a sweep knows of the references.
* `Sweep.Move`: one change of a ledger by a sweep.
* `Sweep.Moves`: any number of them.

## Main results

* `Sweep.Move.rows_of`: where the rows after a move come from.
* `Sweep.Moves.unmixed`, `Sweep.Moves.active`: no move mixes principals, or makes up rows that let
  nobody in.
-/

namespace AccessGroups

/-- The grant without its unit. -/
def Grant.userHalf (g : Grant) : Grant :=
  { g with unit := none }

/-- The grant without its user. -/
def Grant.unitHalf (g : Grant) : Grant :=
  { g with user := none }

/-- No row has two principals. -/
def Ledger.Unmixed (l : Ledger) : Prop :=
  ∀ e ∈ l.rows, e.isMixed = false

namespace Sweep

/-- The rows of a group that the rows of a fresh one are copied from. -/
def sourceRows (l : Ledger) (g : GroupId) : List Entry :=
  if g.IsValid then l.rowsOf g else []

theorem copies_ne_nil {operator : UserId} {source : List Entry} {f : GroupId} :
    copies operator source f ≠ [] := by
  rw [copies]
  split
  · exact List.cons_ne_nil _ _
  · next hne => simpa [List.isEmpty_iff] using hne

theorem group_of_mem_copies {operator : UserId} {source : List Entry} {n : GroupId} {x : Grant}
    (h : x ∈ copies operator source n) : x.group = n := by
  rw [copies] at h
  split at h
  · exact List.mem_singleton.1 h ▸ rfl
  · obtain ⟨e, -, rfl⟩ := List.mem_map.1 h
    rfl

/-- What a sweep knows of the references. -/
structure View where
  /-- The references of all kinds are known, and every kind has a table of its own. -/
  complete : Prop
  /-- The group was seen to be referred to. -/
  seen : GroupId → Prop

/-- All references are known, whichever were seen. -/
def View.whole : View :=
  ⟨True, fun _ => False⟩

/-- One change of a ledger by a sweep with a view of the references. -/
inductive Move (operator : UserId) (view : View) : Ledger → Ledger → Prop
  /-- The user of a row with two principals gets a row of its own. -/
  | lend {l : Ledger} {e v : Entry} {h} (he : e ∈ l.rows) (hmixed : e.isMixed = true)
      (hv : v.toGrant = e.userHalf) : Move operator view l (l.withRows (l.rows ++ [v]) h)
  /-- A row with two principals loses its user, who has a row of its own. -/
  | clear {l : Ledger} {e v : Entry} {h} (he : e ∈ l.rows) (hmixed : e.isMixed = true)
      (hv : v ∈ l.rows) (hhalf : v.toGrant = e.userHalf) :
      Move operator view l (l.withRows (Ledger.updated l.rows { e with user := none }) h)
  /-- A group identifier is handed out. -/
  | issue {l : Ledger} {g : GroupId} {h} : Move operator view l (l.issue g h)
  /-- A fresh group without rows gets copies of rows, or the row made up for the operator. -/
  | fill {l : Ledger} {f : GroupId} {v : List Entry} {h} (hvalid : f.IsValid)
      (hissued : f ∈ l.issued) (hrows : ¬ l.Populated f) (hseen : ¬ view.seen f)
      (hrefs : view.complete → ¬ l.Refers f)
      (hv : ∀ e ∈ v, e.group = f ∧
        (e.toGrant = fallback operator f ∨ ∃ s ∈ l.rows, e.toGrant = s.toGrant.withGroup f)) :
      Move operator view l (l.withRows (l.rows ++ v) h)
  /-- A loose resource gets a fresh group with copies of the rows of its present one. -/
  | point {l : Ledger} {k : ResourceKind} {r : ResourceId} {g f : GroupId} (hg : ⟨r, g⟩ ∈ l.refs k)
      (hvalid : f.IsValid) (hissued : f ∈ l.issued)
      (hrefs : view.complete → l.Separate ∧ ¬ l.Refers f ∧ l.Loose k r)
      (hcopy : (l.rowsOf f).map Entry.toGrant = copies operator (sourceRows l g) f) :
      Move operator view l (l.assign k ⟨r, f⟩)
  /-- A group without rows gets the row made up for the operator. -/
  | create {l : Ledger} {g : GroupId} {v : Entry} {h} (hvalid : g.IsValid) (hrows : ¬ l.Populated g)
      (hv : v.toGrant = fallback operator g) :
      Move operator view l (l.withRows (l.rows ++ [v]) h)
  /-- The rows of a group that nothing refers to, or that is not valid, are deleted. -/
  | drop {l : Ledger} {g : GroupId} {h} (hg : ¬ (g.IsValid ∧ l.Refers g)) :
      Move operator view l (l.withRows (l.rows.filter fun a => a.group ≠ g) h)
  /-- A row is deleted that another one repeats. -/
  | erase {l : Ledger} {e v : Entry} {h} (he : e ∈ l.rows) (hv : v ∈ l.rows) (hne : v.id ≠ e.id)
      (hsame : v.toGrant = e.toGrant) :
      Move operator view l (l.withRows (l.rows.filter fun a => a.id ≠ e.id) h)

/-- Any number of changes by a sweep. -/
abbrev Moves (operator : UserId) (view : View) : Ledger → Ledger → Prop :=
  Relation.ReflTransGen (Move operator view)

variable {operator : UserId} {view : View} {l t : Ledger} {e : Entry}

/-- What is done with some view can be done with one that knows less. -/
theorem Moves.mono (h : Moves operator view l t) (view' : View)
    (hcomplete : view'.complete → view.complete) (hseen : ∀ g, view'.seen g → view.seen g) :
    Moves operator view' l t := by
  refine Relation.ReflTransGen.mono (fun l t hmove => ?_) l t h
  cases hmove with
  | lend he hmixed hv => exact .lend he hmixed hv
  | clear he hmixed hv hhalf => exact .clear he hmixed hv hhalf
  | issue => exact .issue
  | fill hvalid hissued hrows hnew hrefs hv =>
    exact .fill hvalid hissued hrows (hnew ∘ hseen _) (hrefs ∘ hcomplete) hv
  | point hg hvalid hissued hrefs hcopy =>
    exact .point hg hvalid hissued (hrefs ∘ hcomplete) hcopy
  | create hvalid hrows hv => exact .create hvalid hrows hv
  | drop hg => exact .drop hg
  | erase he hv hne hsame => exact .erase he hv hne hsame

/-- No kind gets another table. -/
theorem Moves.table_eq (h : Moves operator view l t) : t.table = l.table := by
  induction h with
  | refl => rfl
  | tail _ hmove ih =>
    rw [← ih]
    cases hmove <;> rfl

theorem Moves.separate (h : Moves operator view l t) (hsep : l.Separate) : t.Separate := by
  intro k k' heq
  rw [h.table_eq] at heq
  exact hsep k k' heq

/-! ### Where rows come from -/

/-- A row after a move is made up, has the grant of a row before it, but for the group, or is one
half of a row with two principals. -/
theorem Move.rows_of (h : Move operator view l t) (he : e ∈ t.rows) :
    e.toGrant = fallback operator e.group ∨ ∃ s ∈ l.rows, e.toGrant = s.toGrant.withGroup e.group ∨
      (s.isMixed = true ∧ (e.toGrant = s.userHalf ∨ e.toGrant = s.unitHalf)) := by
  have hold : e ∈ l.rows → ∃ s ∈ l.rows, e.toGrant = s.toGrant.withGroup e.group ∨
      (s.isMixed = true ∧ (e.toGrant = s.userHalf ∨ e.toGrant = s.unitHalf)) := fun he =>
    ⟨e, he, .inl (Grant.withGroup_group _).symm⟩
  cases h with
  | @lend s v _ hs hmixed hv =>
    rcases List.mem_append.1 he with he | he
    · exact .inr (hold he)
    · obtain rfl := List.mem_singleton.1 he
      exact .inr ⟨s, hs, .inr ⟨hmixed, .inl hv⟩⟩
  | @clear s v _ hs hmixed hv hhalf =>
    rcases Ledger.mem_updated.1 he with ⟨he, -⟩ | ⟨rfl, -⟩
    · exact .inr (hold he)
    · exact .inr ⟨s, hs, .inr ⟨hmixed, .inr rfl⟩⟩
  | issue => exact .inr (hold he)
  | fill hvalid hissued hrows hseen hrefs hv =>
    rcases List.mem_append.1 he with he | he
    · exact .inr (hold he)
    · obtain ⟨rfl, hfallback | ⟨s, hs, hcopy⟩⟩ := hv e he
      · exact .inl hfallback
      · exact .inr ⟨s, hs, .inl hcopy⟩
  | point => exact .inr (hold he)
  | create hvalid hrows hv =>
    rcases List.mem_append.1 he with he | he
    · exact .inr (hold he)
    · obtain rfl := List.mem_singleton.1 he
      refine .inl ?_
      rw [hv]
      rfl
  | drop => exact .inr (hold (List.mem_filter.1 he).1)
  | erase => exact .inr (hold (List.mem_filter.1 he).1)

/-- No row gets a second principal. -/
theorem Moves.unmixed (h : Moves operator view l t) (hl : l.Unmixed) : t.Unmixed := by
  induction h with
  | refl => exact hl
  | tail _ hmove ih =>
    intro e he
    rcases hmove.rows_of he with hfallback | ⟨s, hs, hcopy | ⟨hmixed, -⟩⟩
    · rw [hfallback]
      rfl
    · rw [hcopy]
      exact ih s hs
    · exact (Bool.eq_false_iff.1 (ih s hs) hmixed).elim

/-- Rows that let nobody in come from such rows only. -/
theorem Moves.active (h : Moves operator view l t) (hl : ∀ e ∈ l.rows, e.isInert = false) :
    ∀ e ∈ t.rows, e.isInert = false := by
  induction h with
  | refl => exact hl
  | tail _ hmove ih =>
    intro e he
    rcases hmove.rows_of he with hfallback | ⟨s, hs, hcopy | ⟨hmixed, hhalf⟩⟩
    · rw [hfallback]
      rfl
    · rw [hcopy]
      exact ih s hs
    · obtain ⟨huser, hunit⟩ := Bool.and_eq_true_iff.1 hmixed
      have hactive := (Bool.or_eq_false_iff.1 (ih s hs)).2
      rcases hhalf with hhalf | hhalf
      · rw [hhalf]
        simpa [Grant.isInert, Grant.userHalf, huser] using hactive
      · rw [hhalf]
        simpa [Grant.isInert, Grant.unitHalf, hunit] using hactive

end Sweep

end AccessGroups
