import AccessGroups.Proofs.Service.Creation
import AccessGroups.Proofs.Sweep.Safe
import AccessGroups.Proofs.Sweep.Scan

/-!
# What a sweep must not touch

While a sweep goes on a client may create a resource. Its rows are sheltered from the sweep as long
as the groups that the sweep is about to delete do not include the one of the client. A sweep that
read the rows of the client early and listed the resources late takes the group for an orphan;
apart from that the client keeps what it has stored, and keeps it when the sweep moves its resource
to another group.

## Main definitions

* `Outlook.Claims`: a group is that of the client.
* `Outlook.Straddling`: the sweep has taken the group of the client for an orphan.
* `Outlook.Sheltered`: the client has what it stored, and the sweep will not delete it.
* `Ledger.Lasting`: the identifier of a row will not be that of another one.
* `Sweep.Harmless`: a part of a sweep that is safe among the moves of the client.

## Main results

* `Outlook.Sheltered.move`, `Outlook.Sheltered.after`: what the client and the sweep keep.
* `Sweep.scan_harmless`: after the scan the client is sheltered.
-/

namespace AccessGroups

/-- Every one of the grants has a row in the group. -/
def Ledger.Carries (l : Ledger) (grants : List Grant) (g : GroupId) : Prop :=
  ∀ x ∈ grants, ∃ e ∈ l.rows, e.toGrant = x.withGroup g

/-- The client has rows. -/
def Client.Stage.HasRows : Client.Stage → Prop
  | .stored _ | .registered => True
  | _ => False

namespace Outlook

variable {kind : ResourceKind} {r : ResourceId} {grants : List Grant} {a b : Outlook} {g : GroupId}
  {doomed : List GroupId} {c : Call} {t : Ledger}

variable (kind r) in
/-- The group is that of the client. -/
def Claims (a : Outlook) (g : GroupId) : Prop :=
  match a.stage with
  | .idle => False
  | .allotted n | .stored n => g = n
  | .registered => ⟨r, g⟩ ∈ a.ledger.refs kind

/-- The creation straddles the scan, as far as it has come. -/
def Straddling (a : Outlook) : Prop :=
  match a.stage with
  | .stored _ => [.stored, .read, .listed].Sublist a.passed
  | .registered => [.stored, .read, .listed, .registered].Sublist a.passed
  | _ => False

variable (kind r grants) in
/-- The client has what it stored, and its group is not among those that the sweep is about to
delete, unless the creation straddles the scan. -/
structure Sheltered (doomed : List GroupId) (a : Outlook) : Prop where
  valid : ∀ g, a.Claims kind r g → g.IsValid ∧ g.val.toInt < a.ledger.nextGroup
  refers : a.stage = .registered → ∃ g, a.Claims kind r g
  carries : a.stage.HasRows → ¬ a.Straddling → ∀ g, a.Claims kind r g → a.ledger.Carries grants g
  populated : ∀ g ∈ doomed, a.ledger.Populated g
  spared : ∀ g ∈ doomed, a.Claims kind r g → a.Straddling

/-! ### Moves of the client -/

theorem Move.table_eq (h : Move kind r grants a b) : b.ledger.table = a.ledger.table := by
  cases h with
  | allot hgives => exact hgives.frame.2
  | store hgives => exact hgives.frame.2
  | register hregistered => exact hregistered.table

theorem Move.nextGroup_le (h : Move kind r grants a b) :
    a.ledger.nextGroup ≤ b.ledger.nextGroup := by
  cases h with
  | allot hgives =>
    obtain ⟨hfree, -, _, rfl⟩ := hgives
    have := hfree.1
    simp only [Ledger.nextGroup_issue]
    omega
  | store hgives =>
    obtain ⟨-, -, _, rfl⟩ := hgives
    exact Int.le_refl _
  | register hregistered => exact Int.le_of_eq hregistered.nextGroup.symm

/-- A row after a move was there before, or its identifier is above those of the rows before. -/
theorem Move.mem_rows (h : Move kind r grants a b) {e : Entry} (he : e ∈ b.ledger.rows) :
    e ∈ a.ledger.rows ∨ ∀ x ∈ a.ledger.rows, x.id < e.id := by
  cases h with
  | allot hgives =>
    obtain ⟨-, -, _, rfl⟩ := hgives
    exact .inl he
  | store hgives =>
    obtain ⟨-, habove, _, rfl⟩ := hgives
    rcases List.mem_append.1 he with he | he
    · exact .inl (List.mem_filter.1 he).1
    · exact .inr fun x hx => habove x hx e he
  | register hregistered => exact .inl (hregistered.rows ▸ he)

/-- A row stays, unless the client stores the rows of its group. -/
theorem Move.stays (h : Move kind r grants a b) {e : Entry} (he : e ∈ a.ledger.rows) :
    e ∈ b.ledger.rows ∨ b.stage = .stored e.group := by
  cases h with
  | allot hgives =>
    obtain ⟨-, -, _, rfl⟩ := hgives
    exact .inl he
  | @store _ _ n _ _ hgives =>
    obtain ⟨-, -, _, rfl⟩ := hgives
    by_cases heq : e.group = n
    · exact .inr (congrArg Client.Stage.stored heq.symm)
    · exact .inl (List.mem_append_left _ (List.mem_filter.2 ⟨he, by simpa using heq⟩))
  | register hregistered => exact .inl (hregistered.rows.symm ▸ he)

/-- The rows that the client has just stored carry the grants, and are new. -/
theorem Move.brings (h : Move kind r grants a b) (hb : b.stage = .stored g) {x : Grant}
    (hx : x ∈ grants) : ∃ e ∈ b.ledger.rows, e.toGrant = x.withGroup g ∧
      ∀ y ∈ a.ledger.rows, y.id < e.id := by
  cases h with
  | allot => cases hb
  | register => cases hb
  | store hgives =>
    cases hb
    obtain ⟨hv, habove, _, rfl⟩ := hgives
    obtain ⟨e, he, heq⟩ := List.mem_map.1 (hv ▸ List.mem_map_of_mem hx)
    exact ⟨e, List.mem_append_right _ he, heq, fun y hy => habove y hy e he⟩

/-- The rows that were in a group are gone once the client has stored its own there. -/
theorem Move.drops (h : Move kind r grants a b) (hb : b.stage = .stored g) {e : Entry}
    (he : e ∈ a.ledger.rowsOf g) : e ∉ b.ledger.rows := by
  obtain ⟨he, hg⟩ := Ledger.mem_rowsOf.1 he
  intro hmem
  cases h with
  | allot => cases hb
  | register => cases hb
  | store hgives =>
    cases hb
    obtain ⟨-, habove, _, rfl⟩ := hgives
    rcases List.mem_append.1 hmem with hmem | hmem
    · exact of_decide_eq_true (List.mem_filter.1 hmem).2 hg
    · exact Identifier.lt_irrefl _ (habove e he e hmem)

/-- The group of a client is the one that it had, or it has just been allotted. -/
theorem Move.claims (h : Move kind r grants a b) (hg : b.Claims kind r g) :
    a.Claims kind r g ∨
      (b.stage = .allotted g ∧ a.ledger.Free g.val.toInt ∧ g.val.toInt < b.ledger.nextGroup) := by
  cases h with
  | allot hgives =>
    obtain ⟨hfree, -, _, rfl⟩ := hgives
    cases hg
    exact .inr ⟨rfl, hfree, Int.lt_succ _⟩
  | store hgives => exact .inl hg
  | @register _ t n _ hregistered =>
    have heq := t.eq_of_resource_eq hg hregistered.mem rfl
    exact .inl (congrArg GroupRef.group heq)

/-- A creation that straddles the scan goes on doing so. -/
theorem Move.straddling (h : Move kind r grants a b) (ha : a.Straddling) : b.Straddling := by
  cases h with
  | allot => exact ha.elim
  | store => exact ha.elim
  | register => exact List.Sublist.append ha (.refl [Milestone.registered])

theorem Move.populated (h : Move kind r grants a b) (hsome : grants ≠ [])
    (hg : a.ledger.Populated g) : b.ledger.Populated g := by
  obtain ⟨e, he, rfl⟩ := hg
  rcases h.stays he with he | hstage
  · exact ⟨e, he, rfl⟩
  · obtain ⟨x, hx⟩ := List.exists_mem_of_ne_nil _ hsome
    obtain ⟨v, hv, heq, -⟩ := h.brings hstage hx
    exact ⟨v, hv, by rw [heq]; rfl⟩

/-- Whatever the client does it is sheltered. -/
theorem Sheltered.move (h : Sheltered kind r grants doomed a) (hsome : grants ≠ [])
    (hmove : Move kind r grants a b) : Sheltered kind r grants doomed b where
  valid g hg := by
    rcases hmove.claims hg with hold | ⟨-, hfree, hlt⟩
    · obtain ⟨hvalid, hlt⟩ := h.valid g hold
      exact ⟨hvalid, Int.lt_of_lt_of_le hlt hmove.nextGroup_le⟩
    · exact ⟨Int64.lt_iff_toInt_lt.2 (Int.lt_of_lt_of_le a.ledger.positive hfree.1), hlt⟩
  refers hstage := by
    cases hmove with
    | register hregistered => exact ⟨_, hregistered.mem⟩
    | allot => cases hstage
    | store => cases hstage
  carries hrows hnot g hg := by
    have hbefore := mt hmove.straddling hnot
    have hstored : ∀ n, b.stage = .stored n → b.ledger.Carries grants n := by
      intro n hn x hx
      obtain ⟨e, he, heq, -⟩ := hmove.brings hn hx
      exact ⟨e, he, heq⟩
    rcases hmove.claims hg with hold | ⟨hstage, -⟩
    · cases hmove with
      | allot => exact hrows.elim
      | store hgives =>
        cases hg
        exact hstored g rfl
      | register hregistered =>
        have hcarries := h.carries trivial hbefore g hold
        rwa [Ledger.Carries, hregistered.rows]
    · rw [hstage] at hrows
      exact hrows.elim
  populated g hg := hmove.populated hsome (h.populated g hg)
  spared g hg hclaims := by
    rcases hmove.claims hclaims with hold | ⟨-, hfree, -⟩
    · exact hmove.straddling (h.spared g hg hold)
    · obtain ⟨e, he, rfl⟩ := h.populated g hg
      exact (Int.lt_irrefl _ (hfree.2 e he)).elim

theorem stable_sheltered (hsome : grants ≠ []) :
    Prog.Stable (Rely kind r grants) (Sheltered kind r grants doomed) :=
  Prog.stable_of_move fun _ _ h => h.move hsome

/-! ### Calls of the sweep -/

theorem straddling_after (h : a.Straddling) : (a.after kind c t).Straddling := by
  obtain ⟨l, stage, passed⟩ := a
  have hgrows : passed.Sublist (passed ++ (c.milestone? kind).toList) :=
    List.sublist_append_left _ _
  cases stage with
  | idle => exact h
  | allotted => exact h
  | stored => exact h.trans hgrows
  | registered => exact h.trans hgrows

/-- As long as the references stay the group of the client does. -/
theorem claims_after (hrefs : t.refs = a.ledger.refs) :
    (a.after kind c t).Claims kind r g ↔ a.Claims kind r g := by
  obtain ⟨l, stage, passed⟩ := a
  cases stage with
  | registered => rw [Claims, Claims, after, hrefs]
  | _ => exact Iff.rfl

/-- A call of the sweep that leaves the references alone, the rows that carry the grants, and rows
of the groups that are still to be deleted, leaves the client sheltered. -/
theorem Sheltered.after {left : List GroupId} (h : Sheltered kind r grants doomed a)
    (hleft : ∀ g ∈ left, g ∈ doomed) (hrefs : t.refs = a.ledger.refs)
    (hnext : a.ledger.nextGroup ≤ t.nextGroup)
    (hcarries : ¬ a.Straddling → ∀ g, a.Claims kind r g → a.ledger.Carries grants g →
      t.Carries grants g)
    (hpopulated : ∀ g ∈ left, a.ledger.Populated g → t.Populated g) :
    Sheltered kind r grants left (a.after kind c t) where
  valid g hg := by
    obtain ⟨hvalid, hlt⟩ := h.valid g ((claims_after hrefs).1 hg)
    exact ⟨hvalid, Int.lt_of_lt_of_le hlt hnext⟩
  refers hstage := by
    obtain ⟨g, hg⟩ := h.refers hstage
    exact ⟨g, (claims_after hrefs).2 hg⟩
  carries hrows hnot g hg := by
    have hclaims := (claims_after hrefs).1 hg
    have hbefore := mt straddling_after hnot
    exact hcarries hbefore g hclaims (h.carries hrows hbefore g hclaims)
  populated g hg := hpopulated g hg (h.populated g (hleft g hg))
  spared g hg hclaims :=
    straddling_after (h.spared g (hleft g hg) ((claims_after hrefs).1 hclaims))

/-- So does a call that leaves all rows alone. -/
theorem Sheltered.after_of_subset (h : Sheltered kind r grants doomed a)
    (hrefs : t.refs = a.ledger.refs) (hnext : a.ledger.nextGroup ≤ t.nextGroup)
    (hrows : ∀ e ∈ a.ledger.rows, e ∈ t.rows) :
    Sheltered kind r grants doomed (a.after kind c t) := by
  refine h.after (fun _ => id) hrefs hnext (fun _ g _ hcarries x hx => ?_) fun g _ hg => ?_
  · obtain ⟨e, he, heq⟩ := hcarries x hx
    exact ⟨e, hrows e he, heq⟩
  · obtain ⟨e, he, heq⟩ := hg
    exact ⟨e, hrows e he, heq⟩

/-- So does a call that changes nothing. -/
theorem Sheltered.look (h : Sheltered kind r grants doomed a) :
    Sheltered kind r grants doomed (a.after kind c a.ledger) :=
  h.after_of_subset rfl (Int.le_refl _) fun _ => id

theorem Sheltered.nil (h : Sheltered kind r grants doomed a) : Sheltered kind r grants [] a where
  valid := h.valid
  refers := h.refers
  carries := h.carries
  populated _ hg := (List.not_mem_nil hg).elim
  spared _ hg := (List.not_mem_nil hg).elim

end Outlook

/-! ### Rows that are not replaced -/

/-- No other row has the identifier of the row, and none will get it. -/
def Ledger.Lasting (l : Ledger) (e : Entry) : Prop :=
  (∃ b ∈ l.rows, e.id ≤ b.id) ∧ ∀ b ∈ l.rows, b.id = e.id → b = e

theorem Ledger.lasting_of_mem {l : Ledger} {e : Entry} (he : e ∈ l.rows) : l.Lasting e :=
  ⟨⟨e, he, Int64.le_refl _⟩, fun _ hb => l.eq_of_id_eq hb he⟩

theorem Ledger.Lasting.of {l t : Ledger} {e : Entry} (h : l.Lasting e)
    (hnew : ∀ b ∈ t.rows, b.id = e.id → b ∈ l.rows ∨ ∀ x ∈ l.rows, x.id < b.id)
    (hlast : ∀ x ∈ l.rows, e.id ≤ x.id → ∃ b ∈ t.rows, x.id ≤ b.id) : t.Lasting e := by
  obtain ⟨⟨x, hx, hle⟩, hsame⟩ := h
  refine ⟨?_, fun b hb heq => ?_⟩
  · obtain ⟨b, hb, hle'⟩ := hlast x hx hle
    exact ⟨b, hb, Int64.le_trans hle hle'⟩
  · rcases hnew b hb heq with hold | habove
    · exact hsame b hold heq
    · have hlt := habove x hx
      rw [heq, Identifier.lt_iff_toInt] at hlt
      rw [Identifier.le_iff_toInt] at hle
      omega

theorem Ledger.Lasting.move {kind : ResourceKind} {r : ResourceId} {grants : List Grant}
    {a b : Outlook} {e : Entry} (h : a.ledger.Lasting e) (hsome : grants ≠ [])
    (hmove : Outlook.Move kind r grants a b) : b.ledger.Lasting e := by
  refine h.of (fun x hx _ => hmove.mem_rows hx) fun x hx _ => ?_
  rcases hmove.stays hx with hx | hstage
  · exact ⟨x, hx, Int64.le_refl _⟩
  · -- the rows that were stored instead have larger identifiers
    obtain ⟨y, hy⟩ := List.exists_mem_of_ne_nil _ hsome
    obtain ⟨v, hv, -, habove⟩ := hmove.brings hstage hy
    exact ⟨v, hv, Int64.le_of_lt (habove x hx)⟩

namespace Sweep

open Outlook

variable {kind : ResourceKind} {r : ResourceId} {grants : List Grant} {doomed : List GroupId}
  {a : Outlook} {α : Type} {s : Scan} {summary : Summary}

/-- Among the moves of the client the part of a sweep ends as it should if it ends. -/
abbrev Harmless (kind : ResourceKind) (r : ResourceId) (grants : List Grant) (p : Prog α)
    (Q : α → Outlook → Prop) (a : Outlook) : Prop :=
  p.Safe (Step kind) (Rely kind r grants) (fun _ _ => True) Q a

theorem step_callsOnly : Prog.CallsOnly (Step kind) (fun _ _ => True) where
  keeps {a op x b} hop h := by
    cases op with
    | call c => exact (hop c rfl).elim
    | _ => exact h
  free _ := trivial

theorem harmless_log {e : Event} {f : Unit → Prog α} {Q : α → Outlook → Prop}
    (h : Harmless kind r grants (f ()) Q a) : Harmless kind r grants (Prog.log e >>= f) Q a :=
  Prog.safe_log step_callsOnly h

theorem harmless_quiet {op : Op} {f : op.Answer → Prog α} {Q : α → Outlook → Prop}
    (hop : ∀ c, op ≠ .call c) (h : ∀ x, Harmless kind r grants (f x) Q a) :
    Harmless kind r grants (Prog.perform op >>= f) Q a :=
  Prog.safe_quiet step_callsOnly hop h

theorem harmless_store {c : StoreCall} {f : c.Answer → Prog α} {I : Outlook → Prop}
    {Q : α → Outlook → Prop} (hI : Prog.Stable (Rely kind r grants) I) (h : I a)
    (hok : ∀ a v t, I a → a.ledger.Gives c v t →
      Harmless kind r grants (f (.ok v)) Q (a.after kind (.store c) t))
    (herror : ∀ a e, I a →
      Harmless kind r grants (f (.error e)) Q (a.after kind (.store c) a.ledger)) :
    Harmless kind r grants (Prog.store c >>= f) Q a := by
  refine Prog.safe_perform hI h (fun _ _ => trivial) ?_
  rintro a (e | v) b ha hstep
  · cases hstep
    exact herror a e ha
  · obtain ⟨t, hgives, rfl⟩ := hstep
    exact hok a v t ha hgives

theorem harmless_registry {c : RegistryCall} {f : c.Answer → Prog α} {I : Outlook → Prop}
    {Q : α → Outlook → Prop} (hI : Prog.Stable (Rely kind r grants) I) (h : I a)
    (hok : ∀ a v t, I a → a.ledger.GivesRegistry c v t →
      Harmless kind r grants (f (.ok v)) Q (a.after kind (.registry c) t))
    (herror : ∀ a e, I a →
      Harmless kind r grants (f (.error e)) Q (a.after kind (.registry c) a.ledger)) :
    Harmless kind r grants (Prog.registry c >>= f) Q a := by
  refine Prog.safe_perform hI h (fun _ _ => trivial) ?_
  rintro a (e | v) b ha hstep
  · cases hstep
    exact herror a e ha
  · obtain ⟨t, hgives, rfl⟩ := hstep
    exact hok a v t ha hgives

theorem harmless_pure (hsome : grants ≠ []) {x : α} (h : Sheltered kind r grants doomed a) :
    Harmless kind r grants (pure x) (fun _ => Sheltered kind r grants doomed) a :=
  Prog.safe_pure (stable_sheltered hsome) h

theorem harmless_fail (hsome : grants ≠ []) {phase : Phase} {target error : String}
    (h : Sheltered kind r grants doomed a) :
    Harmless kind r grants (fail summary phase target error)
      (fun _ => Sheltered kind r grants doomed) a :=
  safe_fail step_callsOnly (fun _ => stable_sheltered hsome) fun _ => h

/-- A phase leaves the client sheltered when the handling of every item does. -/
theorem harmless_forItems (hsome : grants ≠ []) {ι : Type} {handle : ι → Summary → Prog Summary}
    {items : List ι} (hitem : ∀ item summary a, Sheltered kind r grants doomed a →
      Harmless kind r grants (handle item summary) (fun _ => Sheltered kind r grants doomed) a)
    (h : Sheltered kind r grants doomed a) : Harmless kind r grants (forItems handle items summary)
      (fun _ => Sheltered kind r grants doomed) a :=
  (safe_forItems step_callsOnly (fun _ => stable_sheltered hsome)
    (fun item _ summary a h => hitem item summary a h) h).mono fun _ _ ⟨_, h⟩ => h

/-! ### The scan -/

variable (kind r grants) in
/-- Nothing has been read yet. The group that was allotted to the client has no rows. -/
structure Unread (a : Outlook) : Prop where
  sheltered : Sheltered kind r grants [] a
  allotted : ∀ g, a.stage = .allotted g → ¬ a.ledger.Populated g
  stored : a.stage.HasRows → [.stored].Sublist a.passed

theorem stable_unread (hsome : grants ≠ []) :
    Prog.Stable (Rely kind r grants) (Unread kind r grants) := by
  refine Prog.stable_of_move fun a b h hmove => ⟨h.sheltered.move hsome hmove, ?_, ?_⟩
  · intro g hg
    cases hmove with
    | allot hgives =>
      obtain ⟨hfree, -, _, rfl⟩ := hgives
      cases hg
      rintro ⟨e, he, rfl⟩
      exact Int.lt_irrefl _ (hfree.2 e he)
    | store => cases hg
    | register => cases hg
  · intro hrows
    cases hmove with
    | allot => exact hrows.elim
    | store => exact List.sublist_append_right _ _
    | register => exact (h.stored trivial).trans (List.sublist_append_left _ _)

variable (kind r grants) in
/-- All rows were read, and the resources of some kinds are still to be listed. If the rows of the
client were read, they were stored before; and if its resource is not seen then, it was registered
after those of its kind were listed. -/
structure Surveyed (s : Scan) (left : List ResourceKind) (a : Outlook) : Prop where
  sheltered : Sheltered kind r grants [] a
  populated : ∀ g ∈ s.stored, a.ledger.Populated g
  allotted : ∀ g, a.stage = .allotted g → g ∉ s.stored
  stored : ∀ g, a.stage = .stored g → g ∈ s.stored → [.stored, .read].Sublist a.passed ∧
    (kind ∉ left → [.stored, .read, .listed].Sublist a.passed)
  registered : a.stage = .registered → ∀ g, ⟨r, g⟩ ∈ a.ledger.refs kind → g ∈ s.stored →
    kind ∈ left ∨ s.listingFailed = true ∨ g ∈ s.referenced ∨
      [.stored, .read, .listed, .registered].Sublist a.passed

theorem stable_surveyed (hsome : grants ≠ []) {left : List ResourceKind} :
    Prog.Stable (Rely kind r grants) (Surveyed kind r grants s left) := by
  refine Prog.stable_of_move fun a b h hmove => ⟨h.sheltered.move hsome hmove,
    fun g hg => hmove.populated hsome (h.populated g hg), ?_, ?_, ?_⟩
  · intro g hg hmem
    obtain ⟨e, he, rfl⟩ := h.populated g hmem
    cases hmove with
    | allot hgives =>
      cases hg
      exact Int.lt_irrefl _ (hgives.1.2 e he)
    | store => cases hg
    | register => cases hg
  · intro g hg hmem
    cases hmove with
    | allot => cases hg
    | store =>
      cases hg
      exact (h.allotted _ rfl hmem).elim
    | register => cases hg
  · intro hstage g hg hmem
    cases hmove with
    | allot => cases hstage
    | store => cases hstage
    | @register _ t n _ hregistered =>
      cases congrArg GroupRef.group (t.eq_of_resource_eq hg hregistered.mem rfl)
      refine (em (kind ∈ left)).imp_right fun hnot => .inr (.inr ?_)
      exact ((h.stored g rfl hmem).2 hnot).append (.refl [Milestone.registered])

theorem surveyed_start (h : Unread kind r grants a) :
    Surveyed kind r grants (Scan.start a.ledger.rows) ResourceKind.all
      (a.after kind (.store .findAll) a.ledger) := by
  have hstored : ∀ g, g ∈ (Scan.start a.ledger.rows).stored ↔ a.ledger.Populated g := by
    simp [Scan.start, Identifier.mem_distinct, Ledger.Populated]
  refine ⟨h.sheltered.look, fun g => (hstored g).1, fun g hg hmem => ?_, fun g hg _ => ⟨?_, ?_⟩,
    fun _ _ _ _ => .inl kind.mem_all⟩
  · exact h.allotted g hg ((hstored g).1 hmem)
  · have hrows : a.stage.HasRows := by
      rw [show a.stage = .stored g from hg]
      trivial
    exact (h.stored hrows).append (.refl [Milestone.read])
  · exact fun hnot => (hnot kind.mem_all).elim

/-- After the listing of a kind the resource is seen if it is of that kind and there, or the listing
failed. -/
theorem Surveyed.listed {s' : Scan} {k : ResourceKind} {left : List ResourceKind}
    (h : Surveyed kind r grants s (k :: left) a) (hstored : s'.stored = s.stored)
    (hfailed : s.listingFailed = true → s'.listingFailed = true)
    (hreferenced : ∀ g ∈ s.referenced, g ∈ s'.referenced)
    (hseen : kind = k → a.stage = .registered → ∀ g, ⟨r, g⟩ ∈ a.ledger.refs kind →
      s'.listingFailed = true ∨ g ∈ s'.referenced) :
    Surveyed kind r grants s' left (a.after kind (.registry (.listRefs k)) a.ledger) := by
  have hgrows : a.passed.Sublist
      (a.after kind (.registry (.listRefs k)) a.ledger).passed :=
    List.sublist_append_left _ _
  refine ⟨h.sheltered.look, fun g hg => h.populated g (hstored ▸ hg),
    fun g hg => hstored ▸ h.allotted g hg, fun g hg hmem => ?_, fun hstage g hg hmem => ?_⟩
  · obtain ⟨hread, hlisted⟩ := h.stored g hg (hstored ▸ hmem)
    refine ⟨hread.trans hgrows, fun hnot => ?_⟩
    by_cases hk : k = kind
    · simp only [after, Call.milestone?, hk, if_true, Option.toList_some]
      exact hread.append (.refl [Milestone.listed])
    · exact (hlisted (by simp [hnot, Ne.symm hk])).trans hgrows
  · rcases h.registered hstage g hg (hstored ▸ hmem) with hmem | hold | hold | hold
    · rcases List.mem_cons.1 hmem with hk | hmem
      · exact .inr ((hseen hk hstage g hg).imp_right .inl)
      · exact .inl hmem
    · exact .inr (.inl (hfailed hold))
    · exact .inr (.inr (.inl (hreferenced g hold)))
    · exact .inr (.inr (.inr (hold.trans hgrows)))

theorem Surveyed.addListing {k : ResourceKind} {left : List ResourceKind}
    (h : Surveyed kind r grants s (k :: left) a) :
    Surveyed kind r grants (s.addListing k (a.ledger.refs k)) left
      (a.after kind (.registry (.listRefs k)) a.ledger) := by
  have hreferenced : ∀ g, g ∈ (s.addListing k (a.ledger.refs k)).referenced ↔
      g ∈ s.referenced ∨ (g.IsValid ∧ ∃ x ∈ a.ledger.refs k, x.group = g) := by
    intro g
    rw [Scan.addListing, Scan.mem_referenced_addRefs]
    simp
  refine h.listed (Scan.stored_addRefs _ s []) (fun hfailed => ?_)
    (fun g hg => (hreferenced g).2 (.inl hg)) fun hk hstage g hg => .inr ?_
  · rw [← hfailed]
    exact Scan.listingFailed_addRefs _ s []
  · subst hk
    have hclaims : a.Claims kind r g := by
      rw [Claims, hstage]
      exact hg
    exact (hreferenced g).2 (.inr ⟨(h.sheltered.valid g hclaims).1, ⟨r, g⟩, hg, rfl⟩)

/-- What was surveyed tells whether the client is sheltered from the deletion of orphans. -/
theorem Surveyed.sheltered_orphans (h : Surveyed kind r grants s [] a) :
    Sheltered kind r grants s.orphans a := by
  refine { h.sheltered with populated := fun g hg => ?_, spared := fun g hg hclaims => ?_ }
  · rw [Scan.orphans] at hg
    split at hg
    · exact (List.not_mem_nil hg).elim
    · exact h.populated g (List.mem_filter.1 hg).1
  · rw [Scan.orphans] at hg
    split at hg
    · exact (List.not_mem_nil hg).elim
    · next hnone =>
      obtain ⟨hstored, hnew⟩ := List.mem_filter.1 hg
      have hnot : g ∉ s.referenced := of_decide_eq_true hnew
      rw [Straddling]
      rw [Claims] at hclaims
      cases hstage : a.stage with
      | idle =>
        rw [hstage] at hclaims
        exact hclaims
      | allotted n =>
        rw [hstage] at hclaims
        cases hclaims
        exact h.allotted g hstage hstored
      | stored n =>
        rw [hstage] at hclaims
        cases hclaims
        exact (h.stored g hstage hstored).2 List.not_mem_nil
      | registered =>
        rw [hstage] at hclaims
        rcases h.registered hstage g hclaims hstored with hmem | hfailed | hmem | hpassed
        · exact (List.not_mem_nil hmem).elim
        · exact (hnone hfailed).elim
        · exact (hnot hmem).elim
        · exact hpassed

theorem scanKinds_harmless (hsome : grants ≠ []) (kinds : List ResourceKind)
    (h : Surveyed kind r grants s kinds a) (hnodup : s.stored.Nodup) :
    Harmless kind r grants (scanKinds kinds s summary)
      (fun x a => Surveyed kind r grants x.1 [] a ∧ x.1.stored.Nodup) a := by
  induction kinds generalizing s summary a with
  | nil =>
    exact Prog.safe_pure (fun _ _ h hrely => h.imp_left (stable_surveyed hsome · hrely)) ⟨h, hnodup⟩
  | cons k kinds ih =>
    refine harmless_registry (stable_surveyed hsome) h (fun a v t h hgives => ?_) fun a e h => ?_
    · obtain ⟨rfl, rfl⟩ := hgives
      refine ih h.addListing ?_
      rwa [Scan.addListing, Scan.stored_addRefs]
    · refine harmless_log (ih ?_ hnodup)
      exact h.listed rfl (fun _ => rfl) (fun _ => id) fun _ _ _ _ => .inl rfl

variable (kind r grants) in
/-- The client is sheltered from the deletion of the orphans that a scan has found. -/
def Sighted : Except ServiceError (Scan × Summary) → Outlook → Prop
  | .ok (s, _), a => Sheltered kind r grants s.orphans a ∧ s.orphans.Nodup
  | .error _, a => Sheltered kind r grants [] a

theorem stable_sighted (hsome : grants ≠ []) (x : Except ServiceError (Scan × Summary)) :
    Prog.Stable (Rely kind r grants) (Sighted kind r grants x) := by
  intro a b h hrely
  cases x with
  | ok x => exact h.imp_left (stable_sheltered hsome · hrely)
  | error e => exact stable_sheltered hsome h hrely

/-- After the scan the client is sheltered from the deletion of orphans. -/
theorem scan_harmless (hsome : grants ≠ []) (h : Unread kind r grants a) :
    Harmless kind r grants scan (Sighted kind r grants) a := by
  refine harmless_store (stable_unread hsome) h (fun a v t h hgives => ?_) fun a e h =>
    Prog.safe_pure (stable_sighted hsome _) h.sheltered.look
  obtain ⟨rfl, rfl⟩ := hgives
  have hstored : (Scan.start a.ledger.rows).stored.Nodup :=
    (Identifier.pairwise_distinct _).imp fun {x y} (hlt : x < y) (heq : x = y) =>
      Identifier.lt_irrefl y (heq ▸ hlt)
  refine safe_reportUnrepairable step_callsOnly
    ((scanKinds_harmless hsome _ (surveyed_start h) hstored).bind ?_)
  rintro ⟨s, summary⟩ a ⟨hsurveyed, hnodup⟩
  have horphans : s.orphans.Nodup := by
    rw [Scan.orphans]
    split
    · exact .nil
    · exact hnodup.filter _
  have hdone (summary : Summary) : Harmless kind r grants
      (pure (.ok (s, summary)) : Prog (Except ServiceError (Scan × Summary)))
      (Sighted kind r grants) a :=
    Prog.safe_pure (stable_sighted hsome _) ⟨hsurveyed.sheltered_orphans, horphans⟩
  dsimp only
  split
  · exact harmless_log (harmless_log (hdone _))
  · exact harmless_log (hdone _)

end Sweep

end AccessGroups
