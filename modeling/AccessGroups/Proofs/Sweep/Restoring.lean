import AccessGroups.Proofs.Service.Revocation
import AccessGroups.Proofs.Sweep.Safe

/-!
# How a sweep can bring a grant back

While a sweep goes on a client revokes a grant. The sweep works off what it read earlier, and so
some of its calls after that can bring the grant back. All that is known of the rows is stated up to
these calls: which rows are still there, which groups have none, and that no row confers what was
revoked. Each of these says one thing before the client acts and another one afterwards, and is kept
when it does.

## Main definitions

* `Sweep.Restores`: the calls of a sweep after the client acted that can bring a grant back.
* `Sweep.Traced`: a row that was read is still there, or it was not that of the client.
* `Sweep.Bare`: groups without rows, none of which is that of the client.
* `Sweep.Clean`: no row confers what was revoked.
* `Sweep.Settled`: what every phase keeps.
* `Sweep.Heeds`: a part of a sweep that is safe when a client acts.

## Main results

* `Sweep.Traced.move`, `Sweep.Bare.move`, `Sweep.Clean.move`: the client acts.
* `Sweep.Traced.after`, `Sweep.Bare.after`, `Sweep.Clean.after`: the sweep makes a call.
* `Sweep.heeds_store`, `Sweep.heeds_registry`: parts that begin with a call.
* `Sweep.settled_look`, `Sweep.settled_registry`: calls that leave things as they are.
-/

namespace AccessGroups

/-! ### Calls that can bring a grant back -/

namespace Exchange

/-- The row that the call writes over. -/
def rewritten? : Exchange → Option EntryId
  | ⟨.store (.update entry), _⟩ => some entry.id
  | _ => none

/-- The grant that the call stored in a row of its own. -/
def added? : Exchange → Option Grant
  | ⟨.store (.insert grant), .ok _⟩ => some grant
  | _ => none

/-- The group whose rows the call replaced. -/
def filled? : Exchange → Option GroupId
  | ⟨.store (.replaceGroup g _), .ok _⟩ => some g
  | _ => none

/-- The group whose rows the call deleted. -/
def dissolved? : Exchange → Option GroupId
  | ⟨.store (.deleteGroup g), .ok _⟩ => some g
  | _ => none

/-- The group was filled, and it was not deleted after that. -/
def refilled (g : GroupId) (record : List Exchange) : Bool :=
  record.foldl (fun full x => (full || x.filled? = some g) && x.dissolved? ≠ some g) false

@[simp] theorem refilled_append (g : GroupId) (record : List Exchange) (x : Exchange) :
    refilled g (record ++ [x]) =
      ((refilled g record || x.filled? = some g) && x.dissolved? ≠ some g) := by
  simp [refilled]

end Exchange

/-- The rest of a split can take the place of what the client left of the row: the row of a unit
only if the client has not deleted it. -/
def Revocation.Restorable : Revocation → Principal → Prop
  | .delete _, .unit _ => False
  | _, _ => True

instance (r : Revocation) (p : Principal) : Decidable (r.Restorable p) :=
  match r, p with
  | .delete _, .unit _ => isFalse id
  | .delete _, .user _ => isTrue trivial
  | .update _, _ => isTrue trivial

namespace Sweep

open Prog

/-- What a sweep does after a client revoked a grant can bring it back: it writes the rest of a
split over the row, it fills the group as a fresh one and leaves it, or it makes up the row for the
group, which had lost its rows before the sweep read any. -/
def Restores (operator : UserId) (r : Revocation) (e : Entry) (p : Principal)
    (early late : List Exchange) : Prop :=
  (r.Restorable p ∧ ∃ x ∈ late, x.rewritten? = some r.id) ∨
    Exchange.refilled e.group late = true ∨
      (early = [] ∧ (fallback operator e.group).Confers e.toGrant p ∧
        ∃ x ∈ late, x.added? = some (fallback operator e.group))

instance (record : List Exchange) : Decidable (record = []) :=
  match record with
  | [] => isTrue rfl
  | _ :: _ => isFalse nofun

instance (operator : UserId) (r : Revocation) (e : Entry) (p : Principal)
    (early late : List Exchange) : Decidable (Restores operator r e p early late) :=
  inferInstanceAs (Decidable (_ ∨ _ ∨ _))

variable {operator : UserId} {r : Revocation} {e : Entry} {p : Principal}

theorem Restores.append {early late : List Exchange} {x : Exchange}
    (h : Restores operator r e p early late) (hx : x.dissolved? ≠ some e.group) :
    Restores operator r e p early (late ++ [x]) := by
  refine h.imp (fun h => ⟨h.1, ?_⟩) (Or.imp (fun h => ?_) fun h => ⟨h.1, h.2.1, ?_⟩)
  · obtain ⟨y, hy, heq⟩ := h.2
    exact ⟨y, List.mem_append_left _ hy, heq⟩
  · simp [h, hx]
  · obtain ⟨y, hy, heq⟩ := h.2.2
    exact ⟨y, List.mem_append_left _ hy, heq⟩

/-! ### What is known of the rows -/

variable {x y : Exchange} {a a' : Recall} {b : Backend} {bare bare' : GroupId → Prop} {slack : Prop}

variable (operator r e p) in
/-- A row that was read is still there, unless the client has acted. If it confers what the client
took, it is the row on which the client acted, and not there if the client deleted it. -/
def Traced (o : Entry) (a : Recall) : Prop :=
  match a.found with
  | none => o ∈ a.backend.entries
  | some rows => r.Takes rows e p → ¬ Restores operator r e p a.early a.late →
    o.Confers e.toGrant p → o.id = r.id ∧ r.Absent a.backend.entries

variable (r e p) in
/-- The groups have no rows, unless the client has acted. If it acted after the rows were read, its
row was in none of them. -/
def Bare (bare : GroupId → Prop) (a : Recall) : Prop :=
  match a.found with
  | none => ∀ o ∈ a.backend.entries, ¬ bare o.group
  | some rows => r.Takes rows e p → a.early ≠ [] → ¬ bare e.group

variable (operator r e p) in
/-- No row confers what the client took, or there is an excuse. -/
def Clean (excuse : Prop) (a : Recall) : Prop :=
  ∀ rows, a.found = some rows → r.Takes rows e p → ¬ Restores operator r e p a.early a.late →
    ∀ o ∈ a.backend.entries, o.Confers e.toGrant p → excuse

/-! ### When the client acts -/

theorem Traced.move {o : Entry} (h : Traced operator r e p o a) (hmove : Recall.Move r a a') :
    Traced operator r e p o a' := by
  cases hmove with
  | revoke hcall =>
    intro htakes _ hconfers
    exact ⟨by_contra fun hne => htakes.only o h hne hconfers, Revocation.absent_of_call hcall⟩

theorem Bare.move (h : Bare r e p bare a) (hmove : Recall.Move r a a') : Bare r e p bare a' := by
  cases hmove with
  | revoke hcall => exact fun htakes _ => h e htakes.mem

theorem Clean.move (hmove : Recall.Move r a a') : Clean operator r e p slack a' := by
  cases hmove with
  | revoke hcall =>
    rintro _ ⟨⟩ htakes - o ho hconfers
    exact (htakes.not_confers hcall o ho hconfers).elim

/-! ### When the sweep makes a call -/

theorem Traced.after {o : Entry} (h : Traced operator r e p o a) (hx : x.dissolved? = none)
    (hkeep : o ∈ a.backend.entries → o ∈ b.entries)
    (hids : ∀ o' ∈ b.entries, o'.id = o.id → ∃ o'' ∈ a.backend.entries, o''.id = o.id) :
    Traced operator r e p o (a.after x b) := by
  obtain ⟨backend, found, early, late⟩ := a
  cases found with
  | none => exact hkeep h
  | some rows =>
    intro htakes hnot hconfers
    obtain ⟨hid, habsent⟩ := h htakes (mt (Restores.append · (by simp [hx])) hnot) hconfers
    refine ⟨hid, ?_⟩
    cases r with
    | delete id =>
      intro o' ho' heq
      obtain ⟨o'', ho'', heq'⟩ := hids o' ho' (heq.trans hid.symm)
      exact habsent o'' ho'' (heq'.trans hid)
    | update entry => trivial

theorem Bare.after (h : Bare r e p bare a) (himp : ∀ g, bare' g → bare g)
    (hnew : a.found = none → ∀ o ∈ b.entries, o ∈ a.backend.entries ∨ ¬ bare' o.group) :
    Bare r e p bare' (a.after x b) := by
  obtain ⟨backend, found, early, late⟩ := a
  cases found with
  | none => exact fun o ho => (hnew rfl o ho).elim (fun hold => mt (himp _) (h o hold)) id
  | some rows => exact fun htakes hread => mt (himp _) (h htakes hread)

/-- Rows that come in need an excuse, and so does what was excused before. -/
theorem Clean.after {slack' : Prop} (h : Clean operator r e p slack a)
    (hx : x.dissolved? ≠ some e.group)
    (hslack : ∀ rows, a.found = some rows → r.Takes rows e p →
      ¬ Restores operator r e p a.early (a.late ++ [x]) → slack → slack')
    (hnew : ∀ rows, a.found = some rows → r.Takes rows e p →
      ¬ Restores operator r e p a.early (a.late ++ [x]) →
        ∀ o ∈ b.entries, o.Confers e.toGrant p → o ∈ a.backend.entries ∨ slack') :
    Clean operator r e p slack' (a.after x b) := by
  obtain ⟨backend, found, early, late⟩ := a
  cases found with
  | none => nofun
  | some rows =>
    rintro _ ⟨⟩ htakes hnot o ho hconfers
    rcases hnew rows rfl htakes hnot o ho hconfers with hold | hexcuse
    · exact hslack rows rfl htakes hnot
        (h rows rfl htakes (mt (Restores.append · hx) hnot) o hold hconfers)
    · exact hexcuse

/-! ### What every phase keeps -/

variable (operator r e p) in
/-- No kind has its resources in a table of the store, the groups are bare, and the rows are
clean. -/
structure Settled (bare : GroupId → Prop) (excuse : Prop) (a : Recall) : Prop where
  foreign : a.backend.Avoids []
  bare : Bare r e p bare a
  clean : Clean operator r e p excuse a

theorem Settled.move (h : Settled operator r e p bare slack a) (hmove : Recall.Move r a a') :
    Settled operator r e p bare slack a' := by
  refine ⟨?_, h.bare.move hmove, .move hmove⟩
  cases hmove with
  | revoke hcall => exact h.foreign.performStore (.inl rfl) hcall

theorem stable_settled : Stable (Recall.Rely r) (Settled operator r e p bare slack) :=
  stable_of_move fun _ _ h => h.move

theorem Settled.mono (h : Settled operator r e p bare slack a) (himp : ∀ g, bare' g → bare g) :
    Settled operator r e p bare' slack a := by
  refine ⟨h.foreign, ?_, h.clean⟩
  have hbare := h.bare
  obtain ⟨backend, found, early, late⟩ := a
  cases found with
  | none => exact fun o ho => mt (himp _) (hbare o ho)
  | some rows => exact fun htakes hread => mt (himp _) (hbare htakes hread)

/-- A call that brings in no rows leaves things settled. -/
theorem Settled.after_of_subset (h : Settled operator r e p bare slack a)
    (hx : x.dissolved? ≠ some e.group) (hforeign : b.Avoids [])
    (hrows : ∀ o ∈ b.entries, o ∈ a.backend.entries) :
    Settled operator r e p bare slack (a.after x b) where
  foreign := by simpa using hforeign
  bare := h.bare.after (fun _ => id) fun _ o ho => .inl (hrows o ho)
  clean := h.clean.after hx (fun _ _ _ _ => id) fun _ _ _ _ o ho _ => .inl (hrows o ho)

theorem Settled.alike (h : Settled operator r e p bare slack a) (hb : a.backend.Alike b)
    (hx : x.dissolved? = none) : Settled operator r e p bare slack (a.after x b) :=
  h.after_of_subset (by simp [hx]) (hb.avoids h.foreign) fun _ ho => hb.entries ▸ ho

/-! ### Parts of a sweep -/

variable {α : Type}

/-- When the client acts the part of a sweep ends as it should if it ends. -/
abbrev Heeds (r : Revocation) (q : Prog α) (Q : α → Recall → Prop) (a : Recall) : Prop :=
  q.Safe Recall.Step (Recall.Rely r) (fun _ _ => True) Q a

theorem recall_callsOnly : CallsOnly Recall.Step (fun _ _ => True) where
  keeps {a op x b} hop h := by
    cases op with
    | call c => exact (hop c rfl).elim
    | _ => exact h
  free _ := trivial

theorem heeds_log {event : Event} {f : Unit → Prog α} {Q : α → Recall → Prop}
    (h : Heeds r (f ()) Q a) : Heeds r (Prog.log event >>= f) Q a :=
  safe_log recall_callsOnly h

theorem heeds_quiet {op : Op} {f : op.Answer → Prog α} {Q : α → Recall → Prop}
    (hop : ∀ c, op ≠ .call c) (h : ∀ x, Heeds r (f x) Q a) :
    Heeds r (perform op >>= f) Q a :=
  safe_quiet recall_callsOnly hop h

theorem heeds_store {c : StoreCall} {f : c.Answer → Prog α} {I : Recall → Prop}
    {Q : α → Recall → Prop} (hI : Stable (Recall.Rely r) I) (h : I a)
    (hok : ∀ a v b, I a → a.backend.performStore c = some (.ok v, b) →
      Heeds r (f (.ok v)) Q (a.after ⟨.store c, .ok v⟩ b))
    (herror : ∀ a error b, I a → a.backend.Alike b →
      Heeds r (f (.error error)) Q (a.after ⟨.store c, .error error⟩ b)) :
    Heeds r (Prog.store c >>= f) Q a := by
  refine safe_perform hI h (fun _ _ => trivial) ?_
  rintro a x a' ha ⟨b, hcall | ⟨⟨error, rfl⟩, rfl⟩, rfl⟩
  · rcases x with error | v
    · exact herror a error b ha (Backend.alike_of_error hcall)
    · exact hok a v b ha hcall
  · exact herror a error _ ha (.refl _)

theorem heeds_registry {c : RegistryCall} {f : c.Answer → Prog α} {I : Recall → Prop}
    {Q : α → Recall → Prop} (hI : Stable (Recall.Rely r) I)
    (hforeign : ∀ a, I a → a.backend.Avoids []) (h : I a)
    (hnext : ∀ a x b, I a → a.backend.Alike b → Heeds r (f x) Q (a.after ⟨.registry c, x⟩ b)) :
    Heeds r (Prog.registry c >>= f) Q a := by
  refine safe_perform hI h (fun _ _ => trivial) ?_
  rintro a x a' ha ⟨b, hcall | ⟨-, rfl⟩, rfl⟩
  · obtain rfl : (a.backend.performRegistry c).2 = b := congrArg Prod.snd hcall
    exact hnext a x _ ha ((hforeign a ha).alike_performRegistry c)
  · exact hnext a x _ ha (.refl _)

theorem dissolved?_of_look {c : StoreCall} (hc : c.isWrite = false ∨ c = .allocateGroup)
    (v : c.Answer) : Exchange.dissolved? ⟨.store c, v⟩ = none := by
  cases c with
  | deleteGroup => rcases hc with hc | hc <;> cases hc
  | _ => cases v <;> rfl

/-- A call that stores nothing leaves things settled, whatever the answer. -/
theorem settled_look {c : StoreCall} {f : c.Answer → Prog α} {Q : α → Recall → Prop}
    (hc : c.isWrite = false ∨ c = .allocateGroup) (h : Settled operator r e p bare slack a)
    (hnext : ∀ v a, Settled operator r e p bare slack a → Heeds r (f v) Q a) :
    Heeds r (Prog.store c >>= f) Q a :=
  heeds_store stable_settled h
    (fun _ v _ h hcall => hnext (.ok v) _
      (h.alike (Backend.alike_of_look hc hcall) (dissolved?_of_look hc (.ok v))))
    fun _ error _ h hb => hnext (.error error) _
      (h.alike hb (dissolved?_of_look hc (.error error)))

theorem settled_registry {c : RegistryCall} {f : c.Answer → Prog α} {Q : α → Recall → Prop}
    (h : Settled operator r e p bare slack a)
    (hnext : ∀ v a, Settled operator r e p bare slack a → Heeds r (f v) Q a) :
    Heeds r (Prog.registry c >>= f) Q a :=
  heeds_registry stable_settled (fun _ h => h.foreign) h fun _ v _ h hb =>
    hnext v _ (h.alike hb rfl)

/-- The end of a part that leaves things settled. -/
theorem heeds_pure {x : α} (h : Settled operator r e p bare slack a) :
    Heeds r (pure x) (fun _ => Settled operator r e p bare slack) a :=
  safe_pure stable_settled h

theorem heeds_fail {summary : Summary} {phase : Phase} {target error : String}
    (h : Settled operator r e p bare slack a) :
    Heeds r (fail summary phase target error) (fun _ => Settled operator r e p bare slack) a :=
  safe_fail recall_callsOnly (fun _ => stable_settled) fun _ => h

variable {summary : Summary}

theorem heeds_forItems {ι : Type} {handle : ι → Summary → Prog Summary} {items : List ι}
    (hitem : ∀ item summary a, Settled operator r e p bare False a →
      Heeds r (handle item summary) (fun _ => Settled operator r e p bare False) a)
    (h : Settled operator r e p bare False a) : Heeds r (forItems handle items summary)
      (fun _ => Settled operator r e p bare False) a :=
  (safe_forItems recall_callsOnly (fun _ => stable_settled)
    (fun item _ summary a h => hitem item summary a h) h).mono fun _ _ ⟨_, h⟩ => h

end Sweep

end AccessGroups
