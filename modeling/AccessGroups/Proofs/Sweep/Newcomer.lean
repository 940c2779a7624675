import AccessGroups.Proofs.Sweep.Consistency
import AccessGroups.Proofs.Sweep.Moving

/-!
# A sweep and a new resource

While a sweep goes on a client creates a resource: it stores rows under a fresh group and registers
the resource with that group. Whatever the order of their calls, the resource has a group with all
that the client stored once both have finished, unless the creation straddles the scan: the rows
were stored before the sweep read all rows, and the resource was registered after the sweep listed
the resources of its kind. Then the sweep takes the group for an orphan, and deletes the rows.

## Main definitions

* `Sweep.Unsplit`, `Sweep.Sifted`: what is known of the client while the sweep splits a row, or
  collapses a group.
* `World.Honours`: a resource has a group with all grants.

## Main results

* `Sweep.repair_harmless`: all phases leave the client what it stored.
* `Sweep.honours_runOnce`: a sweep and the creation of a resource.
-/

namespace AccessGroups

namespace Sweep

open Outlook

variable {kind : ResourceKind} {r : ResourceId} {grants : List Grant} {doomed : List GroupId}
  {operator : UserId} {a : Outlook} {s : Scan} {summary : Summary} {g : GroupId}

/-! ### Rows with two principals -/

/-- A row that is put at the end leaves the identifiers of the others alone. -/
theorem lasting_append {l : Ledger} {v e : Entry} {h} (he : l.Lasting e) :
    (l.withRows (l.rows ++ [v]) h).Lasting e := by
  refine he.of (fun b hb _ => ?_) fun x hx _ =>
    ⟨x, List.mem_append_left _ hx, Int64.le_refl _⟩
  rcases List.mem_append.1 hb with hb | hb
  · exact .inl hb
  · refine .inr fun x hx => ?_
    obtain rfl := List.mem_singleton.1 hb
    exact (List.pairwise_append.1 h).2.2 x hx b (List.mem_singleton_self _)

variable (kind r grants doomed) in
/-- The rows that are still to be split have two principals, which no row of the client has. -/
structure Unsplit (rest : List Entry) (a : Outlook) : Prop where
  sheltered : Sheltered kind r grants doomed a
  ascending : rest.Pairwise fun x y => x.id < y.id
  mixed : ∀ e ∈ rest, e.isMixed = true
  lasting : ∀ e ∈ rest, a.ledger.Lasting e

theorem stable_unsplit (hsome : grants ≠ []) (rest : List Entry) :
    Prog.Stable (Rely kind r grants) (Unsplit kind r grants doomed rest) :=
  Prog.stable_of_move fun _ _ h hmove => ⟨h.sheltered.move hsome hmove, h.ascending, h.mixed,
    fun e he => (h.lasting e he).move hsome hmove⟩

theorem Unsplit.look {rest : List Entry} (h : Unsplit kind r grants doomed rest a) {c : Call} :
    Unsplit kind r grants doomed rest (a.after kind c a.ledger) :=
  ⟨h.sheltered.look, h.ascending, h.mixed, h.lasting⟩

theorem Unsplit.tail {e : Entry} {rest : List Entry}
    (h : Unsplit kind r grants doomed (e :: rest) a) : Unsplit kind r grants doomed rest a :=
  ⟨h.sheltered, (List.pairwise_cons.1 h.ascending).2,
    fun x hx => h.mixed x (List.mem_cons_of_mem _ hx),
    fun x hx => h.lasting x (List.mem_cons_of_mem _ hx)⟩

theorem Unsplit.append {rest : List Entry} (h : Unsplit kind r grants doomed rest a) {v : Entry}
    {hrows} {c : Call} : Unsplit kind r grants doomed rest
      (a.after kind c (a.ledger.withRows (a.ledger.rows ++ [v]) hrows)) :=
  ⟨h.sheltered.after_of_subset rfl (Int.le_refl _) fun _ he => List.mem_append_left _ he,
    h.ascending, h.mixed, fun e he => lasting_append (h.lasting e he)⟩

/-- A row with two principals is not one that the client stored. -/
theorem Unsplit.clear {e : Entry} {rest : List Entry}
    (h : Unsplit kind r grants doomed (e :: rest) a) (hunmixed : ∀ x ∈ grants, x.isMixed = false)
    {hrows} {c : Call} : Unsplit kind r grants doomed rest (a.after kind c
      (a.ledger.withRows (Ledger.updated a.ledger.rows { e with user := none }) hrows)) := by
  have hlasting := h.lasting e List.mem_cons_self
  have hnew : ∀ b ∈ a.ledger.rows, b.id = e.id → ({ e with user := none } : Entry) ∈
      Ledger.updated a.ledger.rows { e with user := none } := fun b hb hid =>
    Ledger.mem_updated.2 (.inr ⟨rfl, b, hb, hid⟩)
  refine ⟨h.sheltered.after (fun _ => id) rfl (Int.le_refl _) (fun _ g _ hcarries x hx => ?_)
    fun g _ hg => ?_, h.tail.ascending, h.tail.mixed, fun e' he' => ?_⟩
  · -- the row with this identifier is the one that was listed, which has two principals
    obtain ⟨b, hb, heq⟩ := hcarries x hx
    refine ⟨b, Ledger.mem_updated.2 (.inl ⟨hb, fun hid => ?_⟩), heq⟩
    have hmixed : b.isMixed = x.isMixed := by rw [heq]; rfl
    rw [hlasting.2 b hb hid, h.mixed e List.mem_cons_self, hunmixed x hx] at hmixed
    cases hmixed
  · obtain ⟨b, hb, rfl⟩ := hg
    by_cases hid : b.id = e.id
    · refine ⟨_, hnew b hb hid, ?_⟩
      rw [hlasting.2 b hb hid]
    · exact ⟨b, Ledger.mem_updated.2 (.inl ⟨hb, hid⟩), rfl⟩
  · have hlt := (List.pairwise_cons.1 h.ascending).1 e' he'
    refine (h.lasting e' (List.mem_cons_of_mem _ he')).of (fun b hb hid => ?_) fun b hb _ => ?_
    · rcases Ledger.mem_updated.1 hb with ⟨hb, -⟩ | ⟨rfl, -⟩
      · exact .inl hb
      · exact (Identifier.lt_irrefl e'.id (hid ▸ hlt)).elim
    · by_cases hid : b.id = e.id
      · exact ⟨_, hnew b hb hid, hid ▸ Int64.le_refl _⟩
      · exact ⟨b, Ledger.mem_updated.2 (.inl ⟨hb, hid⟩), Int64.le_refl _⟩

theorem splitEntry_harmless (hsome : grants ≠ []) (hunmixed : ∀ x ∈ grants, x.isMixed = false)
    {e : Entry} {rest : List Entry} (h : Unsplit kind r grants doomed (e :: rest) a) :
    Harmless kind r grants (splitEntry e) (fun _ => Unsplit kind r grants doomed rest) a := by
  have hstable : ∀ rest, Prog.Stable (Rely kind r grants) (Unsplit kind r grants doomed rest) :=
    stable_unsplit hsome
  rw [splitEntry]
  split
  · refine harmless_store (hstable (e :: rest)) h (fun a v t h hgives => ?_) fun a x h =>
      Prog.safe_pure (hstable rest) h.tail.look
    obtain ⟨-, _, rfl⟩ := hgives
    dsimp only
    rw [← bind_pure (Prog.store _)]
    refine harmless_store (hstable (e :: rest)) h.append (fun a v t h hgives => ?_) fun a x h =>
      Prog.safe_pure (hstable rest) h.tail.look
    obtain ⟨-, _, rfl⟩ := hgives
    exact Prog.safe_pure (hstable rest) (h.clear hunmixed)
  · exact Prog.safe_pure (hstable rest) h.tail

theorem splitMixed_harmless (hsome : grants ≠ []) (hunmixed : ∀ x ∈ grants, x.isMixed = false)
    (h : Sheltered kind r grants doomed a) :
    Harmless kind r grants (splitMixed summary) (fun _ => Sheltered kind r grants doomed) a := by
  refine safe_checkpoint step_callsOnly fun summary => ?_
  split
  · exact harmless_pure hsome h
  · refine harmless_store (stable_sheltered hsome) h (fun a mixed t h hgives => ?_) fun a e h =>
      harmless_fail hsome h.look
    obtain ⟨rfl, rfl⟩ := hgives
    have hstart : Unsplit kind r grants doomed (a.ledger.rows.filter fun e => e.isMixed)
        (a.after kind (.store .findMixed) a.ledger) :=
      ⟨h.look, a.ledger.ascending.filter _, fun e he => (List.mem_filter.1 he).2,
        fun e he => Ledger.lasting_of_mem (List.mem_filter.1 he).1⟩
    refine (safe_forItems step_callsOnly (stable_unsplit hsome) (fun e rest summary a h => ?_)
      hstart).mono fun _ _ ⟨_, h⟩ => h.sheltered
    refine (splitEntry_harmless hsome hunmixed h).bind ?_
    rintro (x | _) a h
    · exact safe_fail step_callsOnly (fun _ => stable_unsplit hsome rest) fun _ => h
    · exact harmless_log (Prog.safe_pure (stable_unsplit hsome rest) h)

/-! ### Missing groups -/

theorem createMissing_harmless (hsome : grants ≠ []) (h : Sheltered kind r grants doomed a) :
    Harmless kind r grants (createMissing operator g)
      (fun _ => Sheltered kind r grants doomed) a := by
  refine harmless_store (stable_sheltered hsome) h (fun a rows t h hgives => ?_) fun a e h =>
    harmless_pure hsome h.look
  obtain ⟨rfl, rfl⟩ := hgives
  have hcreate : Harmless kind r grants (Groups.create (fallback operator g))
      (fun _ => Sheltered kind r grants doomed)
      (a.after kind (.store (.findGroup g)) a.ledger) := by
    rw [Groups.create]
    split
    · exact harmless_pure hsome h.look
    · refine harmless_store (stable_sheltered hsome) h.look (fun a v t h hgives => ?_) fun a e h =>
        harmless_pure hsome h.look
      obtain ⟨-, _, rfl⟩ := hgives
      exact harmless_log (harmless_pure hsome
        (h.after_of_subset rfl (Int.le_refl _) fun _ he => List.mem_append_left _ he))
  dsimp only
  split
  · exact harmless_pure hsome h.look
  · refine hcreate.bind ?_
    rintro (e | v) a h
    · exact harmless_pure hsome h
    · exact harmless_pure hsome h

theorem createMissingGroups_harmless (hsome : grants ≠ [])
    (h : Sheltered kind r grants doomed a) :
    Harmless kind r grants (createMissingGroups operator s summary)
      (fun _ => Sheltered kind r grants doomed) a := by
  refine harmless_forItems hsome (fun g summary a h => ?_) h
  refine (createMissing_harmless hsome h).bind ?_
  rintro (e | _ | _) a h
  · exact harmless_fail hsome h
  · exact harmless_log (harmless_pure hsome h)
  · exact harmless_log (harmless_pure hsome h)

/-! ### Orphan groups -/

/-- The group that is deleted is not that of the client. -/
theorem sheltered_drop {rest : List GroupId} (h : Sheltered kind r grants (g :: rest) a)
    (hnodup : (g :: rest).Nodup) (hrows) {c : Call} :
    Sheltered kind r grants rest (a.after kind c
      (a.ledger.withRows (a.ledger.rows.filter fun e => e.group ≠ g) hrows)) := by
  refine h.after (fun _ => List.mem_cons_of_mem _) rfl (Int.le_refl _)
    (fun hnot g' hg' hcarries x hx => ?_) fun g' hg' hpopulated => ?_
  · obtain ⟨e, he, heq⟩ := hcarries x hx
    have hgroup : e.group = g' := by rw [heq]; rfl
    refine ⟨e, List.mem_filter.2 ⟨he, ?_⟩, heq⟩
    have hne : g' ≠ g := fun hsame => hnot (h.spared g List.mem_cons_self (hsame ▸ hg'))
    simpa [hgroup] using hne
  · obtain ⟨e, he, rfl⟩ := hpopulated
    refine ⟨e, List.mem_filter.2 ⟨he, ?_⟩, rfl⟩
    have hne : e.group ≠ g := fun hsame => (List.nodup_cons.1 hnodup).1 (hsame ▸ hg')
    simpa using hne

theorem deleteOrphans_harmless (hsome : grants ≠ [])
    (h : Sheltered kind r grants s.orphans a) (hnodup : s.orphans.Nodup) :
    Harmless kind r grants (deleteOrphans s summary) (fun _ => Sheltered kind r grants []) a := by
  have hstable (rest : List GroupId) : Prog.Stable (Rely kind r grants) fun a =>
      Sheltered kind r grants rest a ∧ rest.Nodup :=
    fun _ _ h hrely => h.imp_left (stable_sheltered hsome · hrely)
  refine (safe_forItems step_callsOnly hstable (fun g rest summary a h => ?_)
    ⟨h, hnodup⟩).mono fun _ _ ⟨_, h⟩ => h.1.nil
  have hskip (a : Outlook) (h : Sheltered kind r grants (g :: rest) a ∧ (g :: rest).Nodup)
      (c : Call) : Sheltered kind r grants rest (a.after kind c a.ledger) ∧ rest.Nodup :=
    ⟨h.1.after (fun _ => List.mem_cons_of_mem _) rfl (Int.le_refl _) (fun _ _ _ => id)
      fun _ _ => id, (List.nodup_cons.1 h.2).2⟩
  refine harmless_store (hstable (g :: rest)) h (fun a removed t h hgives => ?_) fun a e h => ?_
  · obtain ⟨-, hrows, rfl⟩ := hgives
    have hdrop := sheltered_drop h.1 h.2 hrows (c := .store (.deleteGroup g))
    dsimp only
    split
    · exact harmless_log (Prog.safe_pure (hstable rest)
        ⟨hdrop, (List.nodup_cons.1 h.2).2⟩)
    · exact harmless_log (Prog.safe_pure (hstable rest)
        ⟨hdrop, (List.nodup_cons.1 h.2).2⟩)
  · split
    · next heq => cases heq
    · exact harmless_log (Prog.safe_pure (hstable rest) (hskip a h _))
    · exact safe_fail step_callsOnly (fun _ => hstable rest) fun _ => hskip a h _

/-! ### Rows that repeat one another -/

variable (kind r grants) in
/-- Rows of the group are looked at one after another. Either the client has stored its own in their
place, or those that are left are there, and before them each grant that is kept has a row. -/
structure Sifted (g : GroupId) (kept : List Grant) (rest : List Entry) (a : Outlook) : Prop where
  sheltered : Sheltered kind r grants [] a
  ascending : rest.Pairwise fun x y => x.id < y.id
  lasting : ∀ e ∈ rest, a.ledger.Lasting e
  rows : (∀ e ∈ rest, e ∉ a.ledger.rows) ∨ (∀ e ∈ rest, e ∈ a.ledger.rowsOf g) ∧
    ∀ x ∈ kept, ∃ v ∈ a.ledger.rowsOf g, v.toGrant = x ∧ ∀ e ∈ rest, v.id < e.id

variable {kept : List Grant} {rest : List Entry} {e : Entry}

theorem stable_sifted (hsome : grants ≠ []) :
    Prog.Stable (Rely kind r grants) (Sifted kind r grants g kept rest) := by
  refine Prog.stable_of_move fun a b h hmove => ⟨h.sheltered.move hsome hmove, h.ascending,
    fun e he => (h.lasting e he).move hsome hmove, ?_⟩
  rcases h.rows with hgone | ⟨hrest, hkept⟩
  · refine .inl fun e he hmem => ?_
    rcases hmove.mem_rows hmem with hold | habove
    · exact hgone e he hold
    · obtain ⟨x, hx, hle⟩ := (h.lasting e he).1
      exact Int64.not_lt.2 hle (habove x hx)
  · by_cases hstage : b.stage = .stored g
    · exact .inl fun e he => hmove.drops hstage (hrest e he)
    · have hstays : ∀ v ∈ a.ledger.rowsOf g, v ∈ b.ledger.rowsOf g := by
        intro v hv
        obtain ⟨hmem, rfl⟩ := Ledger.mem_rowsOf.1 hv
        exact Ledger.mem_rowsOf.2 ⟨(hmove.stays hmem).resolve_right hstage, rfl⟩
      refine .inr ⟨fun e he => hstays e (hrest e he), fun x hx => ?_⟩
      obtain ⟨v, hv, hvx⟩ := hkept x hx
      exact ⟨v, hstays v hv, hvx⟩

theorem Sifted.keep (h : Sifted kind r grants g kept (e :: rest) a) :
    Sifted kind r grants g (e.toGrant :: kept) rest a := by
  obtain ⟨hlt, hascending⟩ := List.pairwise_cons.1 h.ascending
  refine ⟨h.sheltered, hascending, fun x hx => h.lasting x (List.mem_cons_of_mem _ hx), ?_⟩
  refine h.rows.imp (fun hgone x hx => hgone x (List.mem_cons_of_mem _ hx)) ?_
  rintro ⟨hrest, hkept⟩
  refine ⟨fun x hx => hrest x (List.mem_cons_of_mem _ hx), fun x hx => ?_⟩
  rcases List.mem_cons.1 hx with rfl | hx
  · exact ⟨e, hrest e List.mem_cons_self, rfl, hlt⟩
  · obtain ⟨v, hv, hvx, hbefore⟩ := hkept x hx
    exact ⟨v, hv, hvx, fun y hy => hbefore y (List.mem_cons_of_mem _ hy)⟩

/-- A row that could not be deleted is passed over. -/
theorem Sifted.skip (h : Sifted kind r grants g kept (e :: rest) a) {c : Call} :
    Sifted kind r grants g kept rest (a.after kind c a.ledger) := by
  refine ⟨h.sheltered.look, (List.pairwise_cons.1 h.ascending).2,
    fun x hx => h.lasting x (List.mem_cons_of_mem _ hx), ?_⟩
  refine h.rows.imp (fun hgone x hx => hgone x (List.mem_cons_of_mem _ hx)) ?_
  rintro ⟨hrest, hkept⟩
  refine ⟨fun x hx => hrest x (List.mem_cons_of_mem _ hx), fun x hx => ?_⟩
  obtain ⟨v, hv, hvx, hbefore⟩ := hkept x hx
  exact ⟨v, hv, hvx, fun y hy => hbefore y (List.mem_cons_of_mem _ hy)⟩

/-- A row that is deleted has a twin that stays. -/
theorem Sifted.erase (h : Sifted kind r grants g kept (e :: rest) a) (hold : e.toGrant ∈ kept)
    (hthere : ∃ b ∈ a.ledger.rows, b.id = e.id) {hrows} {c : Call} :
    Sifted kind r grants g kept rest
      (a.after kind c (a.ledger.withRows (a.ledger.rows.filter fun b => b.id ≠ e.id) hrows)) := by
  obtain ⟨hlt, hascending⟩ := List.pairwise_cons.1 h.ascending
  have hlasting := h.lasting e List.mem_cons_self
  -- a row with this identifier is there, so that the client has not replaced those of the group
  obtain ⟨hrest, hkept⟩ := h.rows.resolve_left fun hgone => by
    obtain ⟨b, hb, hid⟩ := hthere
    exact hgone e List.mem_cons_self (hlasting.2 b hb hid ▸ hb)
  have hstays {b : Entry} (hb : b ∈ a.ledger.rows) (hne : b.id ≠ e.id) :
      b ∈ a.ledger.rows.filter fun b => b.id ≠ e.id :=
    List.mem_filter.2 ⟨hb, by simpa using hne⟩
  have hbefore_ne {v : Entry} (hv : v.id < e.id) : v.id ≠ e.id :=
    fun heq => Identifier.lt_irrefl _ (heq ▸ hv)
  have hafter_ne {x : Entry} (hx : x ∈ rest) : x.id ≠ e.id :=
    fun heq => Identifier.lt_irrefl _ (heq ▸ hlt x hx)
  refine ⟨h.sheltered.after (fun _ => id) rfl (Int.le_refl _) (fun _ g' _ hcarries x hx => ?_)
    fun _ hmem => (List.not_mem_nil hmem).elim, hascending, fun x hx => ?_,
    .inr ⟨fun x hx => ?_, fun x hx => ?_⟩⟩
  · -- if the row of a grant is deleted, its twin takes its place
    obtain ⟨b, hb, hbx⟩ := hcarries x hx
    by_cases hid : b.id = e.id
    · obtain ⟨v, hv, hve, hbefore⟩ := hkept _ hold
      refine ⟨v, hstays (Ledger.mem_rowsOf.1 hv).1 (hbefore_ne (hbefore e List.mem_cons_self)), ?_⟩
      rw [hve, ← hlasting.2 b hb hid, hbx]
    · exact ⟨b, hstays hb hid, hbx⟩
  · have hlasting' := h.lasting x (List.mem_cons_of_mem _ hx)
    refine hlasting'.of (fun b hb _ => .inl (List.mem_filter.1 hb).1) fun b hb hle =>
      ⟨b, hstays hb fun hid => ?_, Int64.le_refl _⟩
    exact Int64.not_lt.2 (hid ▸ hle) (hlt x hx)
  · obtain ⟨hx', hg⟩ := Ledger.mem_rowsOf.1 (hrest x (List.mem_cons_of_mem _ hx))
    exact Ledger.mem_rowsOf.2 ⟨hstays hx' (hafter_ne hx), hg⟩
  · obtain ⟨v, hv, hvx, hbefore⟩ := hkept x hx
    obtain ⟨hv, hg⟩ := Ledger.mem_rowsOf.1 hv
    refine ⟨v, Ledger.mem_rowsOf.2 ⟨hstays hv ?_, hg⟩, hvx, fun y hy => ?_⟩
    · exact hbefore_ne (hbefore e List.mem_cons_self)
    · exact hbefore y (List.mem_cons_of_mem _ hy)

theorem deleteRepeated_harmless (hsome : grants ≠ []) {removed : Nat}
    (h : Sifted kind r grants g kept rest a) :
    Harmless kind r grants (deleteRepeated kept removed rest)
      (fun _ => Sheltered kind r grants []) a := by
  induction rest generalizing kept removed a with
  | nil => exact harmless_pure hsome h.sheltered
  | cons e rest ih =>
    rw [deleteRepeated]
    split
    · exact ih h.keep
    · next hold =>
      refine harmless_store (stable_sifted hsome) h (fun a v t h hgives => ?_) fun a x h => ?_
      · obtain ⟨hthere, _, rfl⟩ := hgives
        exact ih (h.erase (not_not.1 hold) hthere)
      · split
        · next heq => cases heq
        · exact ih h.skip
        · exact harmless_pure hsome h.sheltered.look

theorem collapseDuplicates_harmless (hsome : grants ≠ []) (h : Sheltered kind r grants [] a) :
    Harmless kind r grants (collapseDuplicates summary)
      (fun _ => Sheltered kind r grants []) a := by
  refine safe_checkpoint step_callsOnly fun summary => ?_
  split
  · exact harmless_pure hsome h
  · rw [Groups.findDuplicates, bind_assoc]
    refine harmless_store (stable_sheltered hsome) h (fun a groups t h hgives => ?_) fun a e h =>
      harmless_fail hsome h.look
    obtain ⟨-, -, rfl⟩ := hgives
    refine harmless_forItems hsome (fun g summary a h => ?_) h.look
    have hgroup : Harmless kind r grants (collapseGroup g)
        (fun _ => Sheltered kind r grants []) a := by
      refine harmless_store (stable_sheltered hsome) h (fun a rows t h hgives => ?_) fun a e h =>
        harmless_pure hsome h.look
      obtain ⟨rfl, rfl⟩ := hgives
      have hrows : (a.ledger.rowsOf g).Pairwise fun x y => x.id < y.id :=
        a.ledger.ascending.filter _
      dsimp only
      rw [sortRows_eq hrows]
      refine deleteRepeated_harmless hsome
        ⟨h.look, hrows, fun e he => ?_, .inr ⟨fun _ => id, nofun⟩⟩
      exact Ledger.lasting_of_mem (Ledger.mem_rowsOf.1 he).1
    refine hgroup.bind ?_
    rintro (e | n) a h
    · exact harmless_fail hsome h
    · dsimp only
      split
      · exact harmless_log (harmless_pure hsome h)
      · exact harmless_pure hsome h

/-! ### A run -/

/-- All phases leave the client what it stored. -/
theorem repair_harmless (hsome : grants ≠ []) (hunmixed : ∀ x ∈ grants, x.isMixed = false)
    (h : Sheltered kind r grants s.orphans a) (hnodup : s.orphans.Nodup) :
    Harmless kind r grants (repair operator s summary) (fun _ => Sheltered kind r grants []) a := by
  refine (splitMixed_harmless hsome hunmixed h).bind fun _ _ h => ?_
  refine (reassignShared_harmless hsome h).bind fun _ _ h => ?_
  refine (createMissingGroups_harmless hsome h).bind fun _ _ h => ?_
  exact (deleteOrphans_harmless hsome h hnodup).bind fun _ _ h =>
    collapseDuplicates_harmless hsome h

theorem runOnce_harmless (hsome : grants ≠ []) (hunmixed : ∀ x ∈ grants, x.isMixed = false)
    (h : Unread kind r grants a) :
    Harmless kind r grants (runOnce operator) (fun _ => Sheltered kind r grants []) a := by
  refine harmless_quiet (fun _ => nofun) fun taken => ?_
  split
  · have hrun : Harmless kind r grants (runHolding operator)
        (fun _ => Sheltered kind r grants []) a := by
      refine harmless_log ((scan_harmless hsome h).bind ?_)
      rintro (e | ⟨s, summary⟩) a hscan
      · exact harmless_quiet (fun _ => nofun) fun _ => harmless_pure hsome hscan
      · refine (repair_harmless hsome hunmixed hscan.1 hscan.2).bind fun _ a h => ?_
        exact harmless_quiet (fun _ => nofun) fun _ =>
          harmless_log (harmless_pure hsome h)
    exact hrun.bind fun _ a h =>
      harmless_quiet (fun _ => nofun) fun _ => harmless_pure hsome h
  · exact harmless_log (harmless_quiet (fun _ => nofun) fun _ =>
      harmless_pure hsome h.sheltered)

end Sweep

/-- The resource is there, and its group has all of the grants. -/
def World.Honours (kind : ResourceKind) (r : ResourceId) (grants : List Grant) (w : World) : Prop :=
  (∃ a ∈ w.backend.refs kind, a.resource = r) ∧ ∀ a ∈ w.backend.refs kind, a.resource = r →
    ∀ x ∈ grants, ∃ e ∈ w.backend.entries, e.toGrant = x.withGroup a.group

instance (kind : ResourceKind) (r : ResourceId) (grants : List Grant) (w : World) :
    Decidable (w.Honours kind r grants) :=
  inferInstanceAs (Decidable (_ ∧ _))

/-- A grant that passes the check has one principal. -/
theorem Grant.isMixed_of_checkAll {grants : List Grant}
    (h : checkAll validatePrincipal grants = .ok ()) : ∀ x ∈ grants, x.isMixed = false := by
  induction grants with
  | nil => nofun
  | cons x grants ih =>
    rw [checkAll] at h
    split at h
    · cases h
    · next hx =>
      refine List.forall_mem_cons.2 ⟨?_, ih h⟩
      by_contra hmixed
      rw [Bool.not_eq_false, isMixed] at hmixed
      rw [validatePrincipal, if_pos hmixed] at hx
      cases hx

namespace Sweep

variable {kind : ResourceKind} {r : ResourceId} {grants : List Grant} {operator : UserId}
  {w : World}

/-- **A resource that is created during a sweep keeps its rows.** Let a client store valid rows
under a fresh group and register a new resource with it, while a sweep goes on. In whichever order
the two make their calls, once both are done the resource has a group with all that the client
stored, as long as no counter of identifiers is exhausted and the creation does not straddle the
scan. -/
theorem honours_runOnce (hsound : w.backend.Sound) (hsome : grants ≠ [])
    (hvalid : Grant.checkAll Grant.validatePrincipal grants = .ok ())
    {c : Amid (Except ServiceError SweepOutcome) Client Deed}
    (h : (Setting.creation kind r World.HasRoom).Reaches
      ⟨runOnce operator, .creating (Groups.createGroup grants), w, []⟩ c)
    (hfinished : c.Finished) (hstraddles : ¬ Straddles kind c.history) :
    c.world.Honours kind r grants := by
  obtain ⟨l, hshows, -⟩ := hsound.exists_shows
  have hunread : Unread kind r grants ⟨l, .idle, []⟩ :=
    ⟨⟨nofun, nofun, nofun, nofun, nofun⟩, nofun, nofun⟩
  obtain ⟨a, ⟨hshows', hat, hpassed⟩, hsafe⟩ :=
    (Setting.simulates_creation kind r grants).reaches h
      ⟨hshows, Client.at_createGroup hsome hvalid, rfl⟩
      (runOnce_harmless hsome (Grant.isMixed_of_checkAll hvalid) hunread)
  obtain ⟨⟨x, hx⟩, g, hg⟩ := hfinished
  rw [hx] at hsafe
  have hsheltered : Outlook.Sheltered kind r grants [] a := hsafe a .refl
  obtain ⟨l', stage, passed⟩ := a
  rw [hg] at hat
  cases hat
  have hnot : ¬ Outlook.Straddling ⟨l', .registered, passed⟩ := by
    rwa [Straddles, ← hpassed] at hstraddles
  refine ⟨?_, fun b hb heq => ?_⟩
  · obtain ⟨f, hf⟩ := hsheltered.refers rfl
    exact ⟨⟨r, f⟩, hshows'.refs_eq kind ▸ hf, rfl⟩
  · rw [hshows'.refs_eq] at hb
    rw [hshows'.entries_eq]
    exact hsheltered.carries trivial hnot b.group (heq ▸ hb)

/-- The rows for a new resource, two of which are the same. -/
def newRows : List Grant :=
  [⟨⟨0⟩, some ⟨2⟩, none, Privilege.read.mask⟩, ⟨⟨0⟩, none, some ⟨4⟩, .full⟩,
    ⟨⟨0⟩, some ⟨2⟩, none, Privilege.read.mask⟩]

/-- The rows are stored before the sweep reads any, and the resource is registered before the sweep
lists those of its kind. -/
theorem honours_runOnce_disordered :
    ∃ c, (Setting.creation .page ⟨3⟩ World.HasRoom).Reaches
        ⟨runOnce ⟨7⟩, .creating (Groups.createGroup newRows), disordered, []⟩ c ∧
      c.Finished ∧ c.world.Honours .page ⟨3⟩ newRows := by
  have hreaches : (Setting.creation .page ⟨3⟩ World.HasRoom).Reaches
      ⟨runOnce ⟨7⟩, .creating (Groups.createGroup newRows), disordered, []⟩ _ :=
    Amid.reaches_play
      (.replicate 3 .client ++ .replicate 6 .program ++ .client :: .replicate 60 .program) _
  refine ⟨_, hreaches, by decide +kernel, ?_⟩
  exact honours_runOnce sound_disordered (by decide) rfl hreaches (by decide +kernel)
    (by decide +kernel)

/-- The next row gets the largest identifier, and the one after it the smallest, which a row with
two principals has. -/
def brimming : World where
  backend := .memory
    { entries := .ofRows [
        ⟨⟨⟨5⟩, some ⟨1⟩, some ⟨2⟩, .full⟩, ⟨Int64.minValue⟩⟩,
        ⟨⟨⟨5⟩, some ⟨1⟩, none, Privilege.read.mask⟩, ⟨Int64.maxValue - 1⟩⟩]
      nextEntry := Int64.maxValue }
    { refs := fun
        | .page => .ofRows [⟨⟨1⟩, ⟨5⟩⟩]
        | _ => .empty }

/-- If the creation straddles the scan, the sweep deletes the rows. If a counter of identifiers is
exhausted, it may overwrite one of them, since the row has the identifier of another one. -/
theorem not_honours_runOnce :
    (∃ c, (Setting.creation .page ⟨3⟩ World.HasRoom).Reaches
        ⟨runOnce ⟨7⟩, .creating (Groups.createGroup newRows), disordered, []⟩ c ∧
      (∀ x ∈ c.exchanges, x.failed = false) ∧ c.Finished ∧
        ¬ c.world.Honours .page ⟨3⟩ newRows) ∧
    ∃ c, (Setting.creation .page ⟨3⟩ fun _ _ => True).Reaches
        ⟨runOnce ⟨7⟩, .creating (Groups.createGroup newRows), brimming, []⟩ c ∧
      (∀ x ∈ c.exchanges, x.failed = false) ∧ c.Finished ∧ ¬ Straddles .page c.history ∧
        ¬ c.world.Honours .page ⟨3⟩ newRows :=
  ⟨⟨_, Amid.reaches_play
      (.replicate 3 .client ++ .replicate 12 .program ++ .client :: .replicate 60 .program) _,
    by decide +kernel, by decide +kernel, by decide +kernel⟩,
  ⟨_, Amid.reaches_play
      (.replicate 15 .program ++ .replicate 4 .client ++ .replicate 60 .program) _,
    by decide +kernel, by decide +kernel, by decide +kernel, by decide +kernel⟩⟩

end Sweep

end AccessGroups
