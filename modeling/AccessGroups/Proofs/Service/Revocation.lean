import AccessGroups.Proofs.Program.Among
import AccessGroups.Proofs.Program.Answer
import AccessGroups.Proofs.Store.Numbering
import AccessGroups.Service.Groups

/-!
# Revoking a grant among others

A client takes a grant back: it deletes the row, or it writes another grant over it. Either is one
call, and a program of somebody else may be at any point when it takes effect. What the program
asked for before and after that is told apart, since only what it does afterwards can bring the
grant back.

## Main definitions

* `Grant.Confers`: a principal has the privileges of another grant in its group.
* `Revocation`: what a client does to a row, with `Revocation.Takes` for what it takes.
* `Setting.revoking`: a program among others that revoke a grant once.
* `Amid.early`, `Amid.late`, `Amid.found`: the calls before and after, and the rows in between.
* `Recall`: a store with what is remembered of a run, with `Recall.Step` and `Recall.Move`.

## Main results

* `Revocation.call_of_run`: a revocation that succeeds is one call.
* `Revocation.reaches_interrupt`: a run that is interrupted once.
* `Setting.simulates_revoking`: the steps of the program and of the client are those on the record.
-/

namespace AccessGroups

/-! ### What a principal has -/

namespace Grant

/-- The principal is in its column. -/
def Names (x : Grant) : Principal → Prop
  | .user u => x.user = some u
  | .unit n => x.unit = some n

instance (x : Grant) (p : Principal) : Decidable (x.Names p) :=
  match p with
  | .user u => inferInstanceAs (Decidable (x.user = some u))
  | .unit n => inferInstanceAs (Decidable (x.unit = some n))

/-- The grant gives the principal in the group of another one what that one gives. -/
structure Confers (x y : Grant) (p : Principal) : Prop where
  group : x.group = y.group
  names : x.Names p
  privileges : x.privileges = y.privileges

instance (x y : Grant) (p : Principal) : Decidable (x.Confers y p) :=
  decidable_of_iff (x.group = y.group ∧ x.Names p ∧ x.privileges = y.privileges)
    ⟨fun ⟨hgroup, hnames, hprivileges⟩ => ⟨hgroup, hnames, hprivileges⟩,
      fun h => ⟨h.group, h.names, h.privileges⟩⟩

end Grant

/-! ### What a client does -/

/-- A client deletes a row or writes another grant over it. -/
inductive Revocation where
  | delete (id : EntryId)
  | update (entry : Entry)

namespace Revocation

/-- The identifier of the row. -/
def id : Revocation → EntryId
  | .delete id => id
  | .update entry => entry.id

/-- The request to the service. -/
def program : Revocation → Prog (Except ServiceError Unit)
  | .delete id => Groups.deleteEntry id
  | .update entry => Groups.update entry

/-- The call to the store. -/
def call : Revocation → StoreCall
  | .delete id => .deleteEntry id
  | .update entry => .update entry

/-- The row confers something on the principal that no other row does, and neither does what is
written over it. -/
structure Takes (r : Revocation) (rows : List Entry) (e : Entry) (p : Principal) : Prop where
  mem : e ∈ rows
  id : e.id = r.id
  names : e.Names p
  only : ∀ o ∈ rows, o.id ≠ r.id → ¬ o.Confers e.toGrant p
  new : ∀ x ∈ r.call.grants, ¬ x.Confers e.toGrant p

instance (r : Revocation) (rows : List Entry) (e : Entry) (p : Principal) :
    Decidable (r.Takes rows e p) :=
  decidable_of_iff (e ∈ rows ∧ e.id = r.id ∧ e.Names p ∧
      (∀ o ∈ rows, o.id ≠ r.id → ¬ o.Confers e.toGrant p) ∧
        ∀ x ∈ r.call.grants, ¬ x.Confers e.toGrant p)
    ⟨fun ⟨hmem, hid, hnames, honly, hnew⟩ => ⟨hmem, hid, hnames, honly, hnew⟩,
      fun h => ⟨h.mem, h.id, h.names, h.only, h.new⟩⟩

/-- A row that was deleted is not there. -/
def Absent (r : Revocation) (rows : List Entry) : Prop :=
  match r with
  | .delete id => ∀ o ∈ rows, o.id ≠ id
  | .update _ => True

/-- The client revokes the grant, once. -/
inductive Acts (r : Revocation) : Bool → World → World → Bool → World → Prop
  | revoke {w v : World} (hrun : w.run r.program = (some (.ok ()), v)) : Acts r false w w true v

variable {r : Revocation} {w v : World}

/-- A revocation is refused, or it is one call. -/
theorem program_eq (r : Revocation) :
    (∃ e, r.program = return .error e) ∨
      ∃ next, r.program = Prog.store r.call >>= next ∧
        (∀ e, ∃ e', next (.error e) = return .error e') ∧ ∀ x, next (.ok x) = return .ok () := by
  cases r with
  | delete id => exact .inr ⟨_, rfl, fun e => ⟨_, rfl⟩, fun x => rfl⟩
  | update entry =>
    simp only [program, Groups.update]
    split
    · exact .inl ⟨_, rfl⟩
    · cases entry.validate with
      | error e => exact .inl ⟨_, rfl⟩
      | ok => exact .inr ⟨_, rfl, fun e => ⟨_, rfl⟩, fun x => rfl⟩

/-- A store answers the call of a revocation. -/
theorem exists_performStore (r : Revocation) (b : Backend) :
    ∃ y, b.performStore r.call = some y := by
  cases b with
  | memory s registry =>
    cases r with
    | delete id =>
      simp only [call, Backend.performStore, MemoryStore.perform]
      split <;> exact ⟨_, rfl⟩
    | update entry =>
      simp only [call, Backend.performStore, MemoryStore.perform]
      split <;> exact ⟨_, rfl⟩
  | database tables d => exact ⟨_, rfl⟩

/-- A revocation that succeeds is one successful call. -/
theorem call_of_run (h : w.run r.program = (some (.ok ()), v)) :
    ∃ x, w.backend.performStore r.call = some (.ok x, v.backend) := by
  obtain ⟨e, hprogram⟩ | ⟨next, hprogram, herror, hok⟩ := r.program_eq
  · rw [hprogram, Prog.pure_eq, World.run_done] at h
    cases h
  · obtain ⟨⟨x, b⟩, hcall⟩ := r.exists_performStore w.backend
    have hanswer : w.answer (.store r.call) = (some x, { w with backend := b }) := by
      rw [World.answer, hcall]
    have hrun : w.run (Prog.store r.call >>= next) = World.run { w with backend := b } (next x) :=
      World.run_call _ hanswer
    rw [hprogram, hrun] at h
    rcases x with e | x
    · obtain ⟨e', heq⟩ := herror e
      rw [heq] at h
      cases h
    · rw [hok] at h
      cases h
      exact ⟨x, hcall⟩

/-- A revocation brings in no new rows. -/
theorem numbers_call (r : Revocation) : r.call.numbers = false := by
  cases r <;> rfl

section Call

variable {b b' : Backend} {x : r.call.Value} (hcall : b.performStore r.call = some (.ok x, b'))

include hcall

/-- A revocation brings in no identifiers. -/
theorem exists_id_of_call {o : Entry} (ho : o ∈ b'.entries) : ∃ a ∈ b.entries, a.id = o.id := by
  have halters := Backend.alters_performStore hcall
  cases r with
  | delete id =>
    obtain ⟨-, heq⟩ := halters
    rw [heq] at ho
    exact ⟨o, (List.mem_filter.1 ho).1, rfl⟩
  | update entry =>
    obtain ⟨-, heq⟩ := halters
    rw [heq] at ho
    rcases Ledger.mem_updated.1 ho with ⟨ho, -⟩ | ⟨rfl, hthere⟩
    · exact ⟨o, ho, rfl⟩
    · exact hthere

theorem absent_of_call : r.Absent b'.entries := by
  have halters := Backend.alters_performStore hcall
  cases r with
  | delete id =>
    intro o ho
    rw [halters.2] at ho
    exact of_decide_eq_true (List.mem_filter.1 ho).2
  | update entry => trivial

/-- What is taken is gone. -/
theorem Takes.not_confers {e : Entry} {p : Principal} (h : r.Takes b.entries e p) :
    ∀ o ∈ b'.entries, ¬ o.Confers e.toGrant p := by
  have halters := Backend.alters_performStore hcall
  intro o ho
  cases r with
  | delete id =>
    rw [halters.2] at ho
    obtain ⟨ho, hne⟩ := List.mem_filter.1 ho
    exact h.only o ho (of_decide_eq_true hne)
  | update entry =>
    rw [halters.2] at ho
    rcases Ledger.mem_updated.1 ho with ⟨ho, hne⟩ | ⟨rfl, -⟩
    · exact h.only o ho hne
    · exact h.new _ List.mem_cons_self

end Call

end Revocation

/-- A program among others that revoke a grant once. -/
def Setting.revoking (r : Revocation) (k : Conditions) : Setting Bool World where
  acts := r.Acts
  conditions := k
  admits _ _ := True

/-! ### Before and after -/

namespace Amid

variable {α : Type}

/-- The calls of the program before the client acted. -/
def early (c : Amid α Bool World) : List Exchange :=
  (c.history.takeWhile fun m => m.other?.isNone).filterMap Moment.own?

/-- The calls of the program after the client acted. -/
def late (c : Amid α Bool World) : List Exchange :=
  (c.history.dropWhile fun m => m.other?.isNone).filterMap Moment.own?

/-- The rows that the client found; none if it has not acted. -/
def found (c : Amid α Bool World) : List Entry :=
  ((c.history.findSome? Moment.other?).map fun w => w.backend.entries).getD []

end Amid

/-- The client acts on what is going on, if the service lets it. -/
def Revocation.interrupt {α : Type} (r : Revocation) (c : Amid α Bool World) : Amid α Bool World :=
  if c.others then c
  else
    match c.world.run r.program with
    | (some (.ok ()), v) => ⟨c.rest, true, v, c.history ++ [.other c.world]⟩
    | _ => c

/-- The client may act after any number of operations of the program. -/
theorem Revocation.reaches_interrupt {α : Type} {r : Revocation} {k : Conditions}
    (before after : Nat) (c : Amid α Bool World) : (Setting.revoking r k).Reaches c
      (Nat.repeat Amid.advance after (r.interrupt (Nat.repeat Amid.advance before c))) := by
  have hadvance (n : Nat) (c : Amid α Bool World) :
      (Setting.revoking r k).Reaches c (Nat.repeat Amid.advance n c) :=
    Setting.reaches_repeat_advance (fun _ _ => trivial) n c
  refine (hadvance before c).trans (.trans ?_ (hadvance after _))
  obtain ⟨rest, others, w, h⟩ := Nat.repeat Amid.advance before c
  cases others with
  | true => exact .refl
  | false =>
    rcases hrun : w.run r.program with ⟨_ | e | x, v⟩
    · simp only [interrupt, hrun]
      exact .refl
    · simp only [interrupt, hrun]
      exact .refl
    · simp only [interrupt, hrun]
      exact .single (.other (Acts.revoke hrun))

/-! ### What is remembered of a run -/

/-- A store with the calls of a program before and after the client acted, and with the rows that
the client found when it did. -/
structure Recall where
  backend : Backend
  found : Option (List Entry) := none
  early : List Exchange := []
  late : List Exchange := []

/-- A store can answer the call and leave this one. A call that fails may leave it alone. -/
def Backend.Answers (b : Backend) : (c : Call) → c.Answer → Backend → Prop
  | .store c, x, b' => b.performStore c = some (x, b') ∨ (∃ e, x = .error e) ∧ b' = b
  | .registry c, x, b' => b.performRegistry c = (x, b') ∨ (∃ e, x = .error e) ∧ b' = b
  | .principal _, _, b' => b' = b

namespace Recall

variable {r : Revocation} {a a' : Recall} {b : Backend} {s : Bool} {history : List (Moment World)}

/-- After a call of the program that left this store. -/
def after (a : Recall) (x : Exchange) (b : Backend) : Recall :=
  match a.found with
  | none => ⟨b, none, a.early ++ [x], a.late⟩
  | some rows => ⟨b, some rows, a.early, a.late ++ [x]⟩

@[simp] theorem backend_after (x : Exchange) : (a.after x b).backend = b := by
  rw [after]
  split <;> rfl

/-- An operation of the program. -/
def Step (a : Recall) : (op : Op) → op.Answer → Recall → Prop
  | .call c, x, a' => ∃ b, a.backend.Answers c x b ∧ a' = a.after ⟨c, x⟩ b
  | _, _, a' => a' = a

/-- The client acts. -/
inductive Move (r : Revocation) : Recall → Recall → Prop
  | revoke {b b' : Backend} {early late : List Exchange} {x : r.call.Value}
      (hcall : b.performStore r.call = some (.ok x, b')) :
      Move r ⟨b, none, early, late⟩ ⟨b', some b.entries, early, []⟩

/-- The client acts or does nothing. -/
abbrev Rely (r : Revocation) : Recall → Recall → Prop :=
  Relation.ReflTransGen (Move r)

instance (r : Revocation) : IsPreorder Recall (Rely r) where
  refl _ := .refl
  trans _ _ _ := .trans

/-- The history is the one that is remembered. -/
def Tells (a : Recall) (s : Bool) (history : List (Moment World)) : Prop :=
  match a.found with
  | none => s = false ∧ history = a.early.map .own
  | some rows => s = true ∧ ∃ u : World, u.backend.entries = rows ∧
      history = a.early.map .own ++ .other u :: a.late.map .own

theorem Tells.after (h : a.Tells s history) (x : Exchange) :
    (a.after x b).Tells s (history ++ [.own x]) := by
  obtain ⟨backend, found, early, late⟩ := a
  cases found with
  | none =>
    obtain ⟨hs, rfl⟩ := h
    exact ⟨hs, by simp [Recall.after]⟩
  | some rows =>
    obtain ⟨hs, u, hu, rfl⟩ := h
    exact ⟨hs, u, hu, by simp [Recall.after]⟩

private theorem other?_own {record : List Exchange} :
    ∀ m ∈ record.map (Moment.own : Exchange → Moment World), m.other? = none :=
  List.forall_mem_map.2 fun _ _ => rfl

/-- As long as the client has not acted it has found nothing. -/
theorem Tells.found_eq_nil {α : Type} {c : Amid α Bool World} (h : a.Tells s c.history)
    (hfound : a.found = none) : c.found = [] := by
  obtain ⟨backend, found, early, late⟩ := a
  cases hfound
  rw [Amid.found, h.2, List.findSome?_eq_none_iff.2 other?_own]
  rfl

/-- What is remembered can be read off the history. -/
theorem Tells.eq {α : Type} {c : Amid α Bool World} {rows : List Entry}
    (h : a.Tells s c.history) (hfound : a.found = some rows) :
    c.found = rows ∧ c.early = a.early ∧ c.late = a.late := by
  obtain ⟨backend, found, early, late⟩ := a
  cases hfound
  obtain ⟨-, u, hu, hhistory⟩ := h
  have hown (record : List Exchange) :
      (record.map (Moment.own : Exchange → Moment World)).filterMap Moment.own? = record := by
    rw [List.filterMap_map]
    exact List.filterMap_some
  have hnone (m) (hm : m ∈ early.map (Moment.own : Exchange → Moment World)) :
      m.other?.isNone = true := Option.isNone_iff_eq_none.2 (other?_own m hm)
  refine ⟨?_, ?_, ?_⟩
  · rw [Amid.found, hhistory, List.findSome?_append, List.findSome?_eq_none_iff.2 other?_own]
    exact hu
  · rw [Amid.early, hhistory, List.takeWhile_append_of_pos hnone]
    simp [Moment.other?, hown]
  · rw [Amid.late, hhistory, List.dropWhile_append_of_pos hnone]
    exact hown late

/-- The world has the store, and the history is the one that is remembered. -/
structure Shown (s : Bool) (w : World) (history : List (Moment World)) (a : Recall) : Prop where
  backend : a.backend = w.backend
  tells : a.Tells s history

end Recall

/-- The steps of a program and of the client are those on what is remembered. -/
theorem Setting.simulates_revoking (r : Revocation) (k : Conditions) :
    (Setting.revoking r k).Simulates Recall.Shown Recall.Step (Recall.Rely r)
      (fun _ _ => True) where
  own {s w h a op x v} hR _ hanswer := by
    obtain ⟨hbackend, htells⟩ := hR
    cases op with
    | call c =>
      have hanswers : a.backend.Answers c x v.backend := by
        rw [hbackend]
        rcases hanswer with ⟨-, hanswer⟩ | ⟨-, ⟨e, hrefusal⟩, rfl⟩
        · cases c with
          | store c =>
            rw [World.answer] at hanswer
            split at hanswer <;> cases hanswer
            next hcall => exact .inl hcall
          | registry c =>
            obtain ⟨log, hlog⟩ := World.foldl_say_eq
              (w.backend.remarks c (w.backend.performRegistry c).1)
              { w with backend := (w.backend.performRegistry c).2 }
            simp only [World.answer] at hanswer
            rw [hlog] at hanswer
            cases hanswer
            exact .inl rfl
          | principal c =>
            cases hanswer
            rfl
        · cases c with
          | store c =>
            cases hrefusal
            exact .inr ⟨⟨e, rfl⟩, rfl⟩
          | registry c =>
            cases hrefusal
            exact .inr ⟨⟨e, rfl⟩, rfl⟩
          | principal c => cases hrefusal
      exact ⟨a.after ⟨c, x⟩ v.backend, ⟨_, hanswers, rfl⟩, a.backend_after _, htells.after _⟩
    | poll =>
      obtain ⟨-, rfl⟩ := hanswer
      exact ⟨a, rfl, hbackend, by simpa [Op.exchange?] using htells⟩
    | log | record | claim | release =>
      cases hanswer
      exact ⟨a, rfl, hbackend, by simpa [Op.exchange?] using htells⟩
  other {s w h a e s' v} hR hacts := by
    obtain ⟨hbackend, htells⟩ := hR
    obtain ⟨hrun⟩ : r.Acts s w e s' v := hacts
    obtain ⟨x, hcall⟩ := r.call_of_run hrun
    obtain ⟨backend, found, early, late⟩ := a
    obtain rfl : backend = w.backend := hbackend
    cases found with
    | none =>
      obtain ⟨-, rfl⟩ := htells
      exact ⟨⟨v.backend, some w.backend.entries, early, []⟩, .single (.revoke hcall), rfl,
        rfl, w, rfl, by simp⟩
    | some rows => cases htells.1

end AccessGroups
