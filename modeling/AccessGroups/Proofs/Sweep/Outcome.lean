import AccessGroups.Proofs.Sweep.Moves

/-!
# What a resource comes to give

The rows of a group give rights: privileges for a user, for a unit, or for both. A row with two
principals gives what its two halves give. A resource whose group is not valid or has no rows will
come to give all privileges to the operator of the sweep, as that is the row that is made up for it.
No move of a sweep changes what a resource comes to give.

## Main definitions

* `Right`: a grant without its group, with `Grant.rights`.
* `Ledger.Holds`: the rows of a group give a right.
* `Ledger.Outcome`: what a resource with a group comes to give.

## Main results

* `Sweep.Move.outcome`, `Sweep.Moves.outcome`: the moves keep the outcome of every resource whose
  group has rows, and of every resource if the view of the references is complete.
-/

namespace AccessGroups

/-- A grant without its group. -/
structure Right where
  user : Option UserId
  unit : Option UnitId
  privileges : Privileges
  deriving DecidableEq, Repr

namespace Grant

/-- The grant without its group. -/
def right (g : Grant) : Right :=
  ⟨g.user, g.unit, g.privileges⟩

/-- What the grant gives: if it has two principals, what its halves give. -/
def rights (g : Grant) : List Right :=
  if g.isMixed then [g.userHalf.right, g.unitHalf.right] else [g.right]

theorem rights_of_unmixed {g : Grant} (h : g.isMixed = false) : g.rights = [g.right] := by
  rw [rights, h]
  rfl

theorem rights_of_mixed {g : Grant} (h : g.isMixed = true) :
    g.rights = [g.userHalf.right, g.unitHalf.right] :=
  if_pos h

theorem isMixed_userHalf (g : Grant) : g.userHalf.isMixed = false := by
  simp [isMixed, userHalf]

theorem isMixed_unitHalf (g : Grant) : g.unitHalf.isMixed = false := by
  simp [isMixed, unitHalf]

theorem rights_ne_nil (g : Grant) : g.rights ≠ [] := by
  rw [rights]
  split <;> exact List.cons_ne_nil _ _

/-- Grants of the same group with the same right are the same. -/
theorem eq_of_right_eq {a b : Grant} (hgroup : a.group = b.group) (h : a.right = b.right) :
    a = b := by
  cases a
  cases b
  cases hgroup
  cases h
  rfl

end Grant

namespace Ledger

variable {l t : Ledger} {g f : GroupId} {x : Right} {v : List Entry}

/-- The rows of the group give the right. -/
def Holds (l : Ledger) (g : GroupId) (x : Right) : Prop :=
  ∃ e ∈ l.rows, e.group = g ∧ x ∈ e.rights

/-- A resource with the group comes to give the right. -/
def Outcome (operator : UserId) (l : Ledger) (g : GroupId) (x : Right) : Prop :=
  (g.IsValid ∧ l.Holds g x) ∨
    (¬ (g.IsValid ∧ l.Populated g) ∧ x = ⟨some operator, none, .full⟩)

theorem populated_iff : l.Populated g ↔ ∃ x, l.Holds g x := by
  constructor
  · rintro ⟨e, he, hg⟩
    obtain ⟨x, hx⟩ := List.exists_mem_of_ne_nil _ e.rights_ne_nil
    exact ⟨x, e, he, hg, hx⟩
  · rintro ⟨x, e, he, hg, -⟩
    exact ⟨e, he, hg⟩

theorem holds_append {h} : (l.withRows (l.rows ++ v) h).Holds g x ↔
    l.Holds g x ∨ ∃ e ∈ v, e.group = g ∧ x ∈ e.rights := by
  simp only [Holds, rows_withRows, List.mem_append, or_and_right, exists_or]

/-- New rows in another group leave the rights of a group the same. -/
theorem holds_append_of_ne {h} (hv : ∀ e ∈ v, e.group = f) (hne : g ≠ f) :
    (l.withRows (l.rows ++ v) h).Holds g x ↔ l.Holds g x := by
  rw [holds_append, or_iff_left]
  rintro ⟨e, he, rfl, -⟩
  exact hne (hv e he)

/-- The rights of a group say whether it has rows, and so what a resource comes to give. -/
theorem outcome_congr {operator : UserId} (h : ∀ x, t.Holds f x ↔ l.Holds g x)
    (hvalid : f.IsValid ↔ g.IsValid) (x : Right) :
    t.Outcome operator f x ↔ l.Outcome operator g x := by
  simp only [Outcome, populated_iff, h, hvalid]

/-- A resource whose group is not valid or has no rows comes to give the made up right. -/
theorem outcome_of_lost {operator : UserId} (h : ¬ (g.IsValid ∧ l.Populated g)) :
    l.Outcome operator g x ↔ x = ⟨some operator, none, .full⟩ := by
  rw [Outcome, or_iff_right, and_iff_right h]
  rintro ⟨hvalid, hholds⟩
  exact h ⟨hvalid, populated_iff.2 ⟨x, hholds⟩⟩

/-- A resource whose group is valid and has rows gives what these give. -/
theorem outcome_of_populated {operator : UserId} (hvalid : g.IsValid) (h : l.Populated g) :
    l.Outcome operator g x ↔ l.Holds g x := by
  rw [Outcome, or_iff_left, and_iff_right hvalid]
  exact fun hlost => hlost.1 ⟨hvalid, h⟩

end Ledger

namespace Sweep

variable {operator : UserId} {view : View} {l t : Ledger} {k : ResourceKind} {r : ResourceId}
  {e v : Entry} {f g : GroupId} {x : Right}

theorem rights_fallback (g : GroupId) :
    (fallback operator g).rights = [⟨some operator, none, .full⟩] := rfl

/-! ### Rows -/

/-- A row for the user of a row with two principals gives nothing new. -/
theorem holds_lend {h} (he : e ∈ l.rows) (hmixed : e.isMixed = true) (hv : v.toGrant = e.userHalf) :
    (l.withRows (l.rows ++ [v]) h).Holds g x ↔ l.Holds g x := by
  rw [Ledger.holds_append, or_iff_left_iff_imp]
  rintro ⟨y, hy, rfl, hx⟩
  obtain rfl := List.mem_singleton.1 hy
  refine ⟨e, he, by rw [hv]; rfl, ?_⟩
  rw [hv, Grant.rights_of_unmixed (Grant.isMixed_userHalf _)] at hx
  rw [Grant.rights_of_mixed hmixed]
  exact List.mem_cons.2 (.inl (List.mem_singleton.1 hx))

/-- A row with two principals whose user has a row of its own gives the same without its user. -/
theorem holds_clear {h} (he : e ∈ l.rows) (hmixed : e.isMixed = true) (hv : v ∈ l.rows)
    (hhalf : v.toGrant = e.userHalf) :
    (l.withRows (Ledger.updated l.rows { e with user := none }) h).Holds g x ↔ l.Holds g x := by
  have hunit : ({ e with user := none } : Entry).rights = [e.unitHalf.right] :=
    Grant.rights_of_unmixed (Grant.isMixed_unitHalf e.toGrant)
  have hne : v.id ≠ e.id := by
    intro heq
    have := l.eq_of_id_eq hv he heq
    subst this
    rw [hhalf, Grant.isMixed_userHalf] at hmixed
    cases hmixed
  constructor
  · rintro ⟨y, hy, rfl, hx⟩
    rcases Ledger.mem_updated.1 hy with ⟨hy, -⟩ | ⟨rfl, -⟩
    · exact ⟨y, hy, rfl, hx⟩
    · refine ⟨e, he, rfl, ?_⟩
      rw [hunit] at hx
      rw [Grant.rights_of_mixed hmixed]
      exact List.mem_cons_of_mem _ hx
  · rintro ⟨y, hy, rfl, hx⟩
    by_cases hye : y.id = e.id
    · obtain rfl := l.eq_of_id_eq hy he hye
      rw [Grant.rights_of_mixed hmixed] at hx
      rcases List.mem_cons.1 hx with rfl | hx
      · refine ⟨v, Ledger.mem_updated.2 (.inl ⟨hv, hne⟩), by rw [hhalf]; rfl, ?_⟩
        rw [hhalf, Grant.rights_of_unmixed (Grant.isMixed_userHalf _)]
        exact List.mem_singleton_self _
      · exact ⟨_, Ledger.mem_updated.2 (.inr ⟨rfl, y, hy, rfl⟩), rfl, by rwa [hunit]⟩
    · exact ⟨y, Ledger.mem_updated.2 (.inl ⟨hy, hye⟩), rfl, hx⟩

/-- Deleting a row that another one repeats takes no right away. -/
theorem holds_erase {h} (he : e ∈ l.rows) (hv : v ∈ l.rows) (hne : v.id ≠ e.id)
    (hsame : v.toGrant = e.toGrant) :
    (l.withRows (l.rows.filter fun a => a.id ≠ e.id) h).Holds g x ↔ l.Holds g x := by
  constructor
  · rintro ⟨y, hy, hg, hx⟩
    exact ⟨y, (List.mem_filter.1 hy).1, hg, hx⟩
  · rintro ⟨y, hy, rfl, hx⟩
    by_cases hye : y.id = e.id
    · obtain rfl := l.eq_of_id_eq hy he hye
      refine ⟨v, List.mem_filter.2 ⟨hv, by simpa using hne⟩, by rw [hsame], ?_⟩
      rwa [hsame]
    · exact ⟨y, List.mem_filter.2 ⟨hy, by simpa using hye⟩, rfl, hx⟩

/-- Deleting the rows of another group takes no right away. -/
theorem holds_drop {h} (hne : g ≠ f) :
    (l.withRows (l.rows.filter fun a => a.group ≠ f) h).Holds g x ↔ l.Holds g x := by
  constructor
  · rintro ⟨y, hy, hg, hx⟩
    exact ⟨y, (List.mem_filter.1 hy).1, hg, hx⟩
  · rintro ⟨y, hy, rfl, hx⟩
    exact ⟨y, List.mem_filter.2 ⟨hy, by simpa using hne⟩, rfl, hx⟩

/-- A fresh group with copies of the rows of the present one comes to give the same. -/
theorem outcome_of_copied (hvalid : f.IsValid)
    (hcopy : (l.rowsOf f).map Entry.toGrant = copies operator (sourceRows l g) f) (x : Right) :
    l.Outcome operator f x ↔ l.Outcome operator g x := by
  have hholds : ∀ x, l.Holds f x ↔ ∃ y ∈ copies operator (sourceRows l g) f, x ∈ y.rights := by
    intro x
    rw [← hcopy]
    constructor
    · rintro ⟨e, he, hg, hx⟩
      exact ⟨e.toGrant, List.mem_map_of_mem (Ledger.mem_rowsOf.2 ⟨he, hg⟩), hx⟩
    · rintro ⟨y, hy, hx⟩
      obtain ⟨e, he, rfl⟩ := List.mem_map.1 hy
      obtain ⟨he, hg⟩ := Ledger.mem_rowsOf.1 he
      exact ⟨e, he, hg, hx⟩
  by_cases hlive : g.IsValid ∧ l.Populated g
  · have hsource : sourceRows l g = l.rowsOf g := if_pos hlive.1
    have hne : l.rowsOf g ≠ [] := fun hnil => Ledger.rowsOf_eq_nil_iff.1 hnil hlive.2
    refine Ledger.outcome_congr (fun x => ?_) (iff_of_true hvalid hlive.1) x
    rw [hholds x, hsource, copies, if_neg (by simpa using hne)]
    constructor
    · rintro ⟨y, hy, hx⟩
      obtain ⟨e, he, rfl⟩ := List.mem_map.1 hy
      obtain ⟨he, hg⟩ := Ledger.mem_rowsOf.1 he
      exact ⟨e, he, hg, hx⟩
    · rintro ⟨e, he, hg, hx⟩
      exact ⟨_, List.mem_map_of_mem (Ledger.mem_rowsOf.2 ⟨he, hg⟩), hx⟩
  · have hsource : sourceRows l g = [] := by
      rw [sourceRows]
      split
      · next hg => exact Ledger.rowsOf_eq_nil_iff.2 fun hrows => hlive ⟨hg, hrows⟩
      · rfl
    have hfallback : ∀ x, l.Holds f x ↔ x = ⟨some operator, none, .full⟩ := by
      intro x
      rw [hholds x, hsource]
      simp [copies, rights_fallback]
    rw [Ledger.outcome_of_populated hvalid (Ledger.populated_iff.2 ⟨_, (hfallback _).2 rfl⟩),
      hfallback x, Ledger.outcome_of_lost hlive]

/-! ### Moves -/

/-- The resource comes to give the same with its present group, which has rows if it had some. -/
def Keeps (operator : UserId) (l : Ledger) (g : GroupId) (t : Ledger) (f : GroupId) : Prop :=
  (∀ x, t.Outcome operator f x ↔ l.Outcome operator g x) ∧
    (g.IsValid ∧ l.Populated g → f.IsValid ∧ t.Populated f)

theorem keeps_of_holds (h : ∀ x, t.Holds g x ↔ l.Holds g x) : Keeps operator l g t g :=
  ⟨Ledger.outcome_congr h Iff.rfl, fun ⟨hvalid, hrows⟩ =>
    ⟨hvalid, Ledger.populated_iff.2 ((Ledger.populated_iff.1 hrows).imp fun x => (h x).2)⟩⟩

/-- A move keeps what a resource comes to give, if its group has rows or the view of the references
is complete. -/
theorem Move.outcome (h : Move operator view l t) (hg : ⟨r, g⟩ ∈ l.refs k)
    (hknown : view.complete ∨ (g.IsValid ∧ l.Populated g)) :
    ∃ f, ⟨r, f⟩ ∈ t.refs k ∧ Keeps operator l g t f := by
  cases h with
  | lend he hmixed hv => exact ⟨g, hg, keeps_of_holds fun x => holds_lend he hmixed hv⟩
  | clear he hmixed hv hhalf =>
    exact ⟨g, hg, keeps_of_holds fun x => holds_clear he hmixed hv hhalf⟩
  | issue => exact ⟨g, hg, keeps_of_holds fun x => Iff.rfl⟩
  | @fill f v _ hvalid hissued hrows hseen hrefs hv =>
    refine ⟨g, hg, keeps_of_holds fun x => Ledger.holds_append_of_ne (fun e he => (hv e he).1) ?_⟩
    rintro rfl
    rcases hknown with hc | ⟨-, hlive⟩
    · exact hrefs hc ⟨k, _, hg, rfl⟩
    · exact hrows hlive
  | @point k' r' g' f hg' hvalid hissued hrefs hcopy =>
    by_cases hmoved : l.table k = l.table k' ∧ r = r'
    · -- the resource of the other kind in the table moves as well
      obtain ⟨htable, rfl⟩ := hmoved
      rw [← l.together k k' htable] at hg'
      obtain rfl : g = g' := (GroupRef.mk.inj (l.eq_of_resource_eq hg hg' rfl)).2
      have hmem : ⟨r, f⟩ ∈ (l.assign k' ⟨r, f⟩).refs k :=
        Ledger.mem_assign.2 (.inr ⟨htable, rfl, _, hg, rfl⟩)
      have hlive : l.Populated f := by
        by_contra hnone
        rw [Ledger.rowsOf_eq_nil_iff.2 hnone] at hcopy
        exact copies_ne_nil hcopy.symm
      exact ⟨f, hmem, outcome_of_copied hvalid hcopy, fun _ => ⟨hvalid, hlive⟩⟩
    · exact ⟨g, Ledger.mem_assign_of_ne hg fun hk hr => hmoved ⟨hk, hr⟩,
        keeps_of_holds fun x => Iff.rfl⟩
  | @create g' v hrows' hvalid hrows hv =>
    have hgroup : ∀ e ∈ [v], e.group = g' := by
      intro e he
      obtain rfl := List.mem_singleton.1 he
      rw [hv]
      rfl
    by_cases heq : g = g'
    · subst heq
      have hholds : ∀ x, (l.withRows (l.rows ++ [v]) hrows').Holds g x ↔
          x = ⟨some operator, none, .full⟩ := by
        intro x
        rw [Ledger.holds_append, or_iff_right]
        · constructor
          · rintro ⟨e, he, -, hx⟩
            obtain rfl := List.mem_singleton.1 he
            rw [hv, rights_fallback] at hx
            exact List.mem_singleton.1 hx
          · rintro rfl
            refine ⟨v, List.mem_singleton_self v, hgroup v (List.mem_singleton_self v), ?_⟩
            rw [hv, rights_fallback]
            exact List.mem_singleton_self _
        · rintro ⟨e, he, hg, -⟩
          exact hrows ⟨e, he, hg⟩
      have hlive := Ledger.populated_iff.2 ⟨_, (hholds _).2 rfl⟩
      refine ⟨g, hg, fun x => ?_, fun _ => ⟨hvalid, hlive⟩⟩
      rw [Ledger.outcome_of_populated hvalid hlive, hholds x,
        Ledger.outcome_of_lost fun hlive => hrows hlive.2]
    · exact ⟨g, hg, keeps_of_holds fun x => Ledger.holds_append_of_ne hgroup heq⟩
  | @drop g' _ hdrop =>
    by_cases heq : g = g'
    · subst heq
      have hinvalid : ¬ g.IsValid := fun hvalid => hdrop ⟨hvalid, k, _, hg, rfl⟩
      refine ⟨g, hg, fun x => ?_, fun hlive => (hinvalid hlive.1).elim⟩
      rw [Ledger.outcome_of_lost fun hlive => hinvalid hlive.1,
        Ledger.outcome_of_lost fun hlive => hinvalid hlive.1]
    · exact ⟨g, hg, keeps_of_holds fun x => holds_drop heq⟩
  | erase he hv hne hsame => exact ⟨g, hg, keeps_of_holds fun x => holds_erase he hv hne hsame⟩

/-- The moves keep what a resource comes to give, if its group has rows or the view of the
references is complete. -/
theorem Moves.outcome (h : Moves operator view l t) (hg : ⟨r, g⟩ ∈ l.refs k)
    (hknown : view.complete ∨ (g.IsValid ∧ l.Populated g)) :
    ∃ f, ⟨r, f⟩ ∈ t.refs k ∧ Keeps operator l g t f := by
  induction h with
  | refl => exact ⟨g, hg, fun _ => Iff.rfl, id⟩
  | tail _ hmove ih =>
    obtain ⟨f, hf, houtcome, hlive⟩ := ih
    obtain ⟨f', hf', houtcome', hlive'⟩ := hmove.outcome hf (hknown.imp_right hlive)
    exact ⟨f', hf', fun x => (houtcome' x).trans (houtcome x), fun h => hlive' (hlive h)⟩

end Sweep

end AccessGroups
