import AccessGroups.Proofs.Sweep.Restoring

/-!
# Splitting rows while a client revokes a grant

A sweep lists the rows with two principals once, and then it splits one after another without
reading them again: it stores a row for the user, and writes the one for the unit over the row that
it read. In between the row for the user may confer what the client took, but only if the other call
will count as one that restores it.

## Main definitions

* `Sweep.Untouched`: nothing has been split yet.
* `Sweep.Parting`: rows that were read and are split one after another.
* `Sweep.Midway`: the split has begun with the row on which the client acted.

## Main results

* `Sweep.Parting.lend`, `Sweep.Parting.clear`, `Sweep.Parting.leave`: the two calls of a split, and
  the second one when it fails.
* `Sweep.splitMixed_heeds`: the whole phase.
-/

namespace AccessGroups

namespace Sweep

open Prog

variable {operator : UserId} {r : Revocation} {e : Entry} {p : Principal} {x : Exchange}
  {a a' : Recall} {b : Backend} {bare : GroupId → Prop} {slack : Prop} {summary : Summary}

variable (operator r e p) in
/-- Nothing has been split yet, and new rows will not take the places of those that there are. -/
structure Untouched (bare : GroupId → Prop) (a : Recall) : Prop where
  settled : Settled operator r e p bare False a
  clear : a.backend.Avoids (a.backend.entries.map fun o => o.id)

theorem Untouched.move (h : Untouched operator r e p bare a) (hmove : Recall.Move r a a') :
    Untouched operator r e p bare a' := by
  refine ⟨h.settled.move hmove, ?_⟩
  have hclear := h.clear
  cases hmove with
  | revoke hcall =>
    refine (hclear.performStore (.inr (.inl r.numbers_call)) hcall).mono (List.forall_mem_map.2 ?_)
    intro o ho
    obtain ⟨o', ho', heq⟩ := Revocation.exists_id_of_call hcall ho
    exact List.mem_map.2 ⟨o', ho', heq⟩

theorem stable_untouched : Stable (Recall.Rely r) (Untouched operator r e p bare) :=
  stable_of_move fun _ _ h => h.move

theorem Untouched.alike (h : Untouched operator r e p bare a) (hb : a.backend.Alike b)
    (hx : x.dissolved? = none) : Untouched operator r e p bare (a.after x b) := by
  refine ⟨h.settled.alike hb hx, ?_⟩
  rw [Recall.backend_after, hb.entries]
  exact hb.avoids h.clear

/-! ### One row -/

variable (operator r e p) in
/-- The rows were read earlier, and new rows will stay clear of the identifiers of those that are
left. -/
structure Parting (bare : GroupId → Prop) (excuse : Prop) (rows rest : List Entry) (a : Recall) :
    Prop where
  settled : Settled operator r e p bare excuse a
  avoids : a.backend.Avoids (rest.map fun o => o.id)
  traced : ∀ o ∈ rows, Traced operator r e p o a

variable {rows rest : List Entry} {o : Entry} {user : UserId}

theorem Parting.move (h : Parting operator r e p bare slack rows rest a)
    (hmove : Recall.Move r a a') : Parting operator r e p bare slack rows rest a' := by
  refine ⟨h.settled.move hmove, ?_, fun o ho => (h.traced o ho).move hmove⟩
  have havoids := h.avoids
  cases hmove with
  | revoke hcall => exact havoids.performStore (.inr (.inl r.numbers_call)) hcall

theorem stable_parting : Stable (Recall.Rely r) (Parting operator r e p bare slack rows rest) :=
  stable_of_move fun _ _ h => h.move

/-- A row whose turn has passed is not looked at again. -/
theorem Parting.skip (h : Parting operator r e p bare False (o :: rest) (o :: rest) a)
    (hb : a.backend.Alike b) (hx : x.dissolved? = none) :
    Parting operator r e p bare False rest rest (a.after x b) where
  settled := h.settled.alike hb hx
  avoids := by
    rw [Recall.backend_after]
    exact hb.avoids (h.avoids.mono fun _ => List.mem_cons_of_mem _)
  traced o' ho' := (h.traced o' (List.mem_cons_of_mem _ ho')).after hx (hb.entries ▸ id)
    fun o'' ho'' heq => ⟨o'', hb.entries ▸ ho'', heq⟩

variable (r p) in
/-- The row of a user may be there as long as that of the unit is still to be written over the row
on which the client acted. -/
def Midway (o : Entry) : Prop :=
  o.id = r.id ∧ ∃ u, p = .user u

/-- The rest of a split brings a grant back if it is written over the row of the client, unless that
was deleted. -/
theorem not_restorable_of_update {early late : List Exchange} {row : Entry}
    {v : StoreCall.Answer (.update row)}
    (hnot : ¬ Restores operator r e p early (late ++ [⟨.store (.update row), v⟩]))
    (hid : row.id = r.id) : ¬ r.Restorable p := fun hrestorable =>
  hnot (.inl ⟨hrestorable, _, List.mem_append_right _ List.mem_cons_self, congrArg some hid⟩)

theorem Midway.restorable (h : Midway r p o) : r.Restorable p := by
  obtain ⟨-, u, rfl⟩ := h
  cases r <;> trivial

/-- The row for the user confers what the row that was read did. -/
theorem Parting.lend {v : Entry} (h : Parting operator r e p bare False (o :: rest) (o :: rest) a)
    (hascending : (o :: rest).Pairwise fun x y => x.id < y.id) (huser : o.user = some user)
    (hcall : a.backend.performStore (.insert (.forUser o.group user o.privileges)) =
      some (.ok v, b)) :
    Parting operator r e p bare (Midway r p o) (o :: rest) rest
      (a.after ⟨.store (.insert (.forUser o.group user o.privileges)), .ok v⟩ b) := by
  obtain ⟨hclear, havoids⟩ := h.avoids.insert
    (List.forall_mem_map.2 (List.pairwise_cons.1 hascending).1) hcall
  obtain ⟨hv, hrows⟩ := Backend.alters_performStore hcall
  have hne : ∀ o' ∈ o :: rest, v.id ≠ o'.id := fun o' ho' =>
    hclear o'.id (List.mem_map_of_mem (f := fun o => o.id) ho')
  have htraced := h.traced o List.mem_cons_self
  refine ⟨⟨?_, ?_, ?_⟩, ?_, fun o' ho' => ?_⟩
  · rw [Recall.backend_after]
    exact havoids.mono nofun
  · refine h.settled.bare.after (fun _ => id) fun hnone o' ho' => ?_
    rcases (hrows o').1 ho' with rfl | ⟨hold, -⟩
    · have hbare := h.settled.bare
      rw [Traced, hnone] at htraced
      rw [Bare, hnone] at hbare
      exact .inr (congrArg Grant.group hv ▸ hbare o htraced)
    · exact .inl hold
  · refine h.settled.clean.after nofun (fun _ _ _ _ => False.elim)
      fun rows hfound htakes hnot o' ho' hconfers => ?_
    rcases (hrows o').1 ho' with rfl | ⟨hold, -⟩
    · rw [hv] at hconfers
      rw [Traced, hfound] at htraced
      cases p with
      | user u =>
        have hsame : o.Confers e.toGrant (.user u) :=
          ⟨hconfers.group, huser.trans hconfers.names, hconfers.privileges⟩
        have hid := (htraced htakes (fun h => hnot (h.append nofun)) hsame).1
        exact .inr ⟨hid, u, rfl⟩
      | unit n => cases hconfers.names
    · exact .inl hold
  · rw [Recall.backend_after]
    exact havoids
  · refine (h.traced o' ho').after rfl (fun hold => ?_) fun o'' ho'' heq => ?_
    · exact (hrows o').2 (.inr ⟨hold, (hne o' ho').symm⟩)
    · rcases (hrows o'').1 ho'' with rfl | ⟨hold, -⟩
      · exact (hne o' ho' heq).elim
      · exact ⟨o'', hold, heq⟩

/-- The row for the unit, written over the one that was read, confers what that one did. -/
theorem Parting.clear {v : Unit} (h : Parting operator r e p bare (Midway r p o) (o :: rest) rest a)
    (hascending : (o :: rest).Pairwise fun x y => x.id < y.id)
    (hcall : a.backend.performStore (.update { o with user := none }) = some (.ok v, b)) :
    Parting operator r e p bare False rest rest
      (a.after ⟨.store (.update { o with user := none }), .ok v⟩ b) := by
  have havoids : b.Avoids (rest.map fun o => o.id) :=
    h.avoids.performStore (.inr (.inl rfl)) hcall
  obtain ⟨hthere, hrows⟩ := Backend.alters_performStore hcall
  have htraced := h.traced o List.mem_cons_self
  refine ⟨⟨?_, ?_, ?_⟩, ?_, fun o' ho' => ?_⟩
  · rw [Recall.backend_after]
    exact havoids.mono nofun
  · refine h.settled.bare.after (fun _ => id) fun hnone o' ho' => ?_
    rw [hrows] at ho'
    rcases Ledger.mem_updated.1 ho' with ⟨hold, -⟩ | ⟨rfl, -⟩
    · exact .inl hold
    · have hbare := h.settled.bare
      rw [Traced, hnone] at htraced
      rw [Bare, hnone] at hbare
      exact .inr (hbare o htraced)
  · refine h.settled.clean.after nofun (fun rows _ _ hnot hmidway => ?_)
      fun rows hfound htakes hnot o' ho' hconfers => ?_
    · exact not_restorable_of_update hnot hmidway.1 hmidway.restorable
    · rw [hrows] at ho'
      rcases Ledger.mem_updated.1 ho' with ⟨hold, -⟩ | ⟨rfl, -⟩
      · exact .inl hold
      · rw [Traced, hfound] at htraced
        cases p with
        | user u => cases hconfers.names
        | unit n =>
          have hsame : o.Confers e.toGrant (.unit n) :=
            ⟨hconfers.group, hconfers.names, hconfers.privileges⟩
          obtain ⟨hid, habsent⟩ := htraced htakes (fun h => hnot (h.append nofun)) hsame
          have hnot := not_restorable_of_update hnot hid
          cases r with
          | delete id =>
            -- the row was deleted, so that nothing can be written over it
            obtain ⟨o', ho', heq⟩ := hthere
            exact (habsent o' ho' (heq.trans hid)).elim
          | update entry => exact (hnot trivial).elim
  · rw [Recall.backend_after]
    exact havoids
  · have hlt := (List.pairwise_cons.1 hascending).1 o' ho'
    refine (h.traced o' (List.mem_cons_of_mem _ ho')).after rfl (fun hold => ?_)
      fun o'' ho'' heq => ?_
    · rw [hrows]
      refine Ledger.mem_updated.2 (.inl ⟨hold, fun heq => ?_⟩)
      exact Identifier.lt_irrefl _ (heq ▸ hlt)
    · rw [hrows] at ho''
      rcases Ledger.mem_updated.1 ho'' with ⟨hold, -⟩ | ⟨rfl, -⟩
      · exact ⟨o'', hold, heq⟩
      · exact (Identifier.lt_irrefl _ (heq ▸ hlt)).elim

/-- The row is still where it was read, and its turn has passed. -/
theorem Parting.leave {v : StoreCall.Answer (.update { o with user := none })}
    (h : Parting operator r e p bare (Midway r p o) (o :: rest) rest a) (hb : a.backend.Alike b) :
    Parting operator r e p bare False rest rest
      (a.after ⟨.store (.update { o with user := none }), v⟩ b) where
  settled := by
    have hsettled := h.settled.alike hb (x := ⟨.store (.update { o with user := none }), v⟩) rfl
    refine ⟨hsettled.foreign, hsettled.bare, ?_⟩
    refine h.settled.clean.after nofun (fun rows _ _ hnot hmidway => ?_)
      fun _ _ _ _ o' ho' _ => .inl (hb.entries ▸ ho')
    exact not_restorable_of_update hnot hmidway.1 hmidway.restorable
  avoids := by
    rw [Recall.backend_after]
    exact hb.avoids h.avoids
  traced o' ho' := (h.traced o' (List.mem_cons_of_mem _ ho')).after rfl (hb.entries ▸ id)
    fun o'' ho'' heq => ⟨o'', hb.entries ▸ ho'', heq⟩

theorem splitEntry_heeds (h : Parting operator r e p bare False (o :: rest) (o :: rest) a)
    (hascending : (o :: rest).Pairwise fun x y => x.id < y.id) :
    Heeds r (splitEntry o) (fun _ => Parting operator r e p bare False rest rest) a := by
  rw [splitEntry]
  split
  · next user unit huser hunit =>
    refine heeds_store stable_parting h (fun a v b h hcall => ?_) fun a error b h hb =>
      safe_pure stable_parting (h.skip hb rfl)
    dsimp only
    rw [← bind_pure (Prog.store _)]
    exact heeds_store stable_parting (h.lend hascending huser hcall)
      (fun a v b h hcall => safe_pure stable_parting (h.clear hascending hcall))
      fun a error b h hb => safe_pure stable_parting (h.leave hb)
  · refine safe_pure stable_parting ⟨h.settled, ?_, fun o' ho' => ?_⟩
    · exact h.avoids.mono fun _ => List.mem_cons_of_mem _
    · exact h.traced o' (List.mem_cons_of_mem _ ho')

/-! ### All rows -/

/-- The rows with two principals are there when they are listed. -/
theorem Untouched.parting (h : Untouched operator r e p bare a) (hb : a.backend.Alike b) :
    Parting operator r e p bare False (a.backend.entries.filter fun o => o.isMixed)
      (a.backend.entries.filter fun o => o.isMixed)
      (a.after ⟨.store .findMixed, .ok (a.backend.entries.filter fun o => o.isMixed)⟩ b) where
  settled := h.settled.alike hb rfl
  avoids := by
    rw [Recall.backend_after]
    refine hb.avoids (h.clear.mono (List.forall_mem_map.2 fun o ho => ?_))
    exact List.mem_map_of_mem (f := fun o => o.id) (List.mem_filter.1 ho).1
  traced o ho := by
    have ho := (List.mem_filter.1 ho).1
    have hclean := h.settled.clean
    obtain ⟨backend, found, early, late⟩ := a
    cases found with
    | none => exact (hb.entries ▸ ho : o ∈ b.entries)
    | some rows =>
      intro htakes hnot hconfers
      have hnot : ¬ Restores operator r e p early late := fun h => hnot (h.append nofun)
      exact (hclean rows rfl htakes hnot o ho hconfers).elim

/-- What is split in a sweep does not bring back what the client took, unless it is written over its
row. -/
theorem splitMixed_heeds (h : Untouched operator r e p bare a) :
    Heeds r (splitMixed summary) (fun _ => Settled operator r e p bare False) a := by
  refine safe_checkpoint recall_callsOnly fun summary => ?_
  split
  · exact heeds_pure h.settled
  · refine heeds_store stable_untouched h (fun a mixed b h hcall => ?_) fun a error b h hb =>
      heeds_fail (h.settled.alike hb rfl)
    have hb := Backend.alike_of_look (.inl rfl) hcall
    obtain ⟨rfl, -⟩ := Backend.alters_performStore hcall
    have hstart := h.parting hb
    have hascending := a.backend.ascending_entries.filter fun o => o.isMixed
    have hstable (rest : List Entry) : Stable (Recall.Rely r) fun a =>
        Parting operator r e p bare False rest rest a ∧ rest.Pairwise fun x y => x.id < y.id :=
      fun _ _ h hrely => h.imp_left (stable_parting · hrely)
    refine (safe_forItems recall_callsOnly hstable (fun o rest summary a h => ?_)
      ⟨hstart, hascending⟩).mono fun _ _ ⟨_, h⟩ => h.1.settled
    refine (splitEntry_heeds h.1 h.2).bind ?_
    have hrest := (List.pairwise_cons.1 h.2).2
    rintro (error | _) a h
    · exact safe_fail recall_callsOnly (fun _ => hstable rest) fun _ => ⟨h, hrest⟩
    · exact heeds_log (safe_pure (hstable rest) ⟨h, hrest⟩)

end Sweep

end AccessGroups
