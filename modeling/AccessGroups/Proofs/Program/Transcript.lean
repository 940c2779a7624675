import AccessGroups.Proofs.Program.Among
import AccessGroups.Proofs.Program.Stateful

/-!
# Transcripts

All that can be told of a run without looking into the program is which calls it made and how they
were answered. The transcripts that a program can leave are described here by recursion on the
program, without saying who answers. They can be taken apart where the program is put together, so
that what a program does becomes a statement about lists. A watched run leaves the transcript that
was recorded, whatever disturbed it.

A transcript also tells what became of the store: each call did what it does when it is answered
like this, or it failed on the way and did nothing. If the store keeps a ledger, each successful
call did to that what the ledger says, and a failed one did nothing.

## Main definitions

* `Prog.Leaves`: a program can leave a transcript and come to an end.
* `Backend.Undergoes`: what a call that was answered like this made of a store.
* `Backend.Leads`, `Ledger.Leads`: the calls of a transcript lead from one store, or one ledger, to
  another.

## Main results

* `Prog.leaves_bind`: the transcript of a program is put together as the program is.
* `World.watch_leaves`, `World.watch_rest_leaves`: the transcript of a watched run.
* `World.watch_leads`, `Backend.Leads.shows`: the store after a watched run, and its ledger.
-/

namespace AccessGroups

namespace Prog

variable {α β : Type} {fair : (op : Op) → op.Answer → Prop} {xs : List Exchange}

/-- Answered fairly, the program can make these calls, which have these answers, and come to this
end: a value, or nothing if it is abandoned. -/
def Leaves (fair : (op : Op) → op.Answer → Prop) : Prog α → List Exchange → Option α → Prop
  | .done a, xs, y => xs = [] ∧ y = some a
  | .step op next, xs, y => ∃ x rest, fair op x ∧ xs = (op.exchange? x).toList ++ rest ∧
    (next x).Leaves fair rest y
  | .abandon, xs, y => xs = [] ∧ y = none

@[simp] theorem leaves_pure {a : α} {y : Option α} :
    (pure a : Prog α).Leaves fair xs y ↔ xs = [] ∧ y = some a :=
  Iff.rfl

/-- What a program leaves when it is answered in one way it leaves when it can be answered in more
ways. -/
theorem Leaves.mono {fair' : (op : Op) → op.Answer → Prop} {p : Prog α} {y : Option α}
    (h : p.Leaves fair xs y) (hfair : ∀ op x, fair op x → fair' op x) : p.Leaves fair' xs y := by
  induction p generalizing xs with
  | done a => exact h
  | step op next ih =>
    obtain ⟨x, rest, hx, rfl, hrest⟩ := h
    exact ⟨x, rest, hfair op x hx, rfl, ih x hrest⟩
  | abandon => exact h

/-- The transcript of a program is put together as the program is. -/
theorem leaves_bind (p : Prog α) (f : α → Prog β) {y : Option β} :
    (p >>= f).Leaves fair xs y ↔
      (∃ front rest a, xs = front ++ rest ∧ p.Leaves fair front (some a) ∧
        (f a).Leaves fair rest y) ∨ (p.Leaves fair xs none ∧ y = none) := by
  induction p generalizing xs with
  | done a =>
    constructor
    · exact fun h => .inl ⟨[], xs, a, rfl, ⟨rfl, rfl⟩, h⟩
    · rintro (⟨front, rest, b, rfl, ⟨rfl, hb⟩, h⟩ | ⟨⟨-, h⟩, -⟩)
      · cases hb
        exact h
      · cases h
  | step op next ih =>
    rw [step_bind]
    constructor
    · rintro ⟨x, rest, hx, rfl, h⟩
      rcases (ih x).1 h with ⟨front, rest, a, rfl, hp, hf⟩ | ⟨hp, rfl⟩
      · exact .inl ⟨_, rest, a, (List.append_assoc _ _ _).symm, ⟨x, front, hx, rfl, hp⟩, hf⟩
      · exact .inr ⟨⟨x, rest, hx, rfl, hp⟩, rfl⟩
    · rintro (⟨_, rest, a, rfl, ⟨x, front, hx, rfl, hp⟩, hf⟩ | ⟨⟨x, rest, hx, rfl, hp⟩, rfl⟩)
      · exact ⟨x, front ++ rest, hx, List.append_assoc _ _ _,
          (ih x).2 (.inl ⟨front, rest, a, rfl, hp, hf⟩)⟩
      · exact ⟨x, rest, hx, rfl, (ih x).2 (.inr ⟨hp, rfl⟩)⟩
  | abandon =>
    constructor
    · exact fun ⟨hxs, hy⟩ => .inr ⟨⟨hxs, rfl⟩, hy⟩
    · rintro (⟨front, rest, a, -, ⟨-, h⟩, -⟩ | ⟨⟨hxs, -⟩, hy⟩)
      · cases h
      · exact ⟨hxs, hy⟩

/-- A program that begins with a call records it first. -/
theorem leaves_call {c : Call} {f : c.Answer → Prog α} {y : Option α} :
    (perform (.call c) >>= f).Leaves fair xs y ↔
      ∃ x rest, fair (.call c) x ∧ xs = ⟨c, x⟩ :: rest ∧ (f x).Leaves fair rest y :=
  Iff.rfl

/-- An operation that is no call leaves nothing in the transcript. -/
theorem leaves_quiet {op : Op} {f : op.Answer → Prog α} {y : Option α} (hop : ∀ c, op ≠ .call c) :
    (perform op >>= f).Leaves fair xs y ↔ ∃ x, fair op x ∧ (f x).Leaves fair xs y := by
  have hnone (x : op.Answer) : op.exchange? x = none := by
    cases op with
    | call c => exact absurd rfl (hop c)
    | log | record | poll | claim | release => rfl
  constructor
  · rintro ⟨x, rest, hx, rfl, h⟩
    rw [hnone]
    exact ⟨x, hx, h⟩
  · rintro ⟨x, hx, h⟩
    exact ⟨x, xs, hx, by rw [hnone]; rfl, h⟩

/-- A line of the log leaves nothing in the transcript. -/
theorem leaves_log {e : Event} {f : Unit → Prog α} {y : Option α}
    (h : (log e >>= f).Leaves fair xs y) : (f ()).Leaves fair xs y := by
  have hquiet : ∀ c, Op.log e ≠ .call c := fun _ => nofun
  obtain ⟨x, -, h⟩ := (leaves_quiet hquiet).1 h
  exact h

/-- A line of the log leaves nothing in the transcript if it comes last. -/
theorem leaves_logged {e : Event} {y : Option Unit} (h : (log e).Leaves fair xs y) :
    xs = [] ∧ y = some () := by
  rw [← bind_pure (log e)] at h
  exact leaves_log h

end Prog

/-! ### Stores and ledgers -/

/-- The call was answered like this and left this store, or it failed and changed nothing. -/
def Backend.Undergoes (b : Backend) : Exchange → Backend → Prop
  | ⟨.store c, x⟩, b' => (∃ e, x = .error e) ∧ b' = b ∨
    b.idCounters.exhaustedBy (.store c) = false ∧ b.performStore c = some (x, b')
  | ⟨.registry c, x⟩, b' => (∃ e, x = .error e) ∧ b' = b ∨ b.performRegistry c = (x, b')
  | ⟨.principal _, _⟩, b' => b' = b

/-- The calls of a transcript lead from one store to another. -/
def Backend.Leads (b : Backend) : List Exchange → Backend → Prop
  | [], b' => b' = b
  | x :: rest, b' => ∃ m, b.Undergoes x m ∧ m.Leads rest b'

/-- The calls of a transcript lead from one ledger to another. -/
def Ledger.Leads (l : Ledger) : List Exchange → Ledger → Prop
  | [], t => t = l
  | ⟨.store c, .ok v⟩ :: rest, t => ∃ m, l.Gives c v m ∧ m.Leads rest t
  | ⟨.registry c, .ok v⟩ :: rest, t => ∃ m, l.GivesRegistry c v m ∧ m.Leads rest t
  | _ :: rest, t => l.Leads rest t

/-- The resources of a kind are listed in order. -/
theorem Ledger.Leads.ordered {l t : Ledger} {xs : List Exchange} {kind : ResourceKind}
    {refs : List GroupRef} (h : l.Leads xs t) (hx : ⟨.registry (.listRefs kind), .ok refs⟩ ∈ xs) :
    refs.Pairwise fun a b => a.resource < b.resource := by
  induction xs generalizing l with
  | nil => cases hx
  | cons x xs ih =>
    rcases List.mem_cons.1 hx with rfl | hlater
    · obtain ⟨m, ⟨rfl, -⟩, -⟩ := h
      exact l.ordered kind
    · rcases x with ⟨c | c | c, e | v⟩
      · exact ih h hlater
      · obtain ⟨m, -, h⟩ := h
        exact ih h hlater
      · exact ih h hlater
      · obtain ⟨m, -, h⟩ := h
        exact ih h hlater
      · exact ih h hlater
      · exact ih h hlater

namespace Backend.Leads

variable {b m b' : Backend} {xs ys : List Exchange}

theorem append (h : b.Leads xs m) (h' : m.Leads ys b') : b.Leads (xs ++ ys) b' := by
  induction xs generalizing b with
  | nil => exact h ▸ h'
  | cons x xs ih =>
    obtain ⟨n, hx, h⟩ := h
    exact ⟨n, hx, ih h⟩

theorem exists_mid (h : b.Leads (xs ++ ys) b') : ∃ m, b.Leads xs m ∧ m.Leads ys b' := by
  induction xs generalizing b with
  | nil => exact ⟨b, rfl, h⟩
  | cons x xs ih =>
    obtain ⟨n, hx, h⟩ := h
    obtain ⟨m, hxs, hys⟩ := ih h
    exact ⟨m, ⟨n, hx, hxs⟩, hys⟩

/-- A transcript that leads from a store that keeps a ledger leads from that ledger as well. -/
theorem shows {l : Ledger} (h : b.Leads xs b') (hl : b.Shows l) :
    ∃ t, l.Leads xs t ∧ b'.Shows t := by
  induction xs generalizing b l with
  | nil => exact ⟨l, rfl, h ▸ hl⟩
  | cons x xs ih =>
    obtain ⟨m, hx, h⟩ := h
    rcases x with ⟨c | c | c, x⟩
    · rcases hx with ⟨⟨e, rfl⟩, rfl⟩ | ⟨hroom, hperform⟩
      · exact ih h hl
      · rcases performStore_shows hl c hroom with ⟨v, m', t, hperform', hgives, ht⟩ |
          ⟨e, hperform'⟩ <;> cases hperform.symm.trans hperform'
        · obtain ⟨u, hleads, hu⟩ := ih h ht
          exact ⟨u, ⟨t, hgives, hleads⟩, hu⟩
        · exact ih h hl
    · rcases hx with ⟨⟨e, rfl⟩, rfl⟩ | hperform
      · exact ih h hl
      · rcases performRegistry_shows hl c with ⟨v, m', t, hperform', hgives, ht⟩ |
          ⟨e, hperform'⟩ <;> cases hperform.symm.trans hperform'
        · obtain ⟨u, hleads, hu⟩ := ih h ht
          exact ⟨u, ⟨t, hgives, hleads⟩, hu⟩
        · exact ih h hl
    · obtain ⟨t, hleads, ht⟩ := ih h (hx ▸ hl)
      exact ⟨t, by cases x <;> exact hleads, ht⟩

end Backend.Leads

/-! ### Watched runs -/

namespace World

/-- A call that takes no counter to its end is answered. -/
theorem exists_answer {w : World} {c : Call}
    (hroom : w.backend.idCounters.exhaustedBy c = false) : ∃ x v, w.answer c = (some x, v) := by
  cases c with
  | registry c => exact ⟨_, _, rfl⟩
  | principal c => exact ⟨_, _, rfl⟩
  | store c =>
    cases hbackend : w.backend with
    | database tables d => exact ⟨_, _, by rw [answer, hbackend]; rfl⟩
    | memory s r =>
      have hanswered : ∃ x s', s.perform c = some (x, s') := by
        cases c with
        | findAll | findGroup | findDuplicateGroups | findMixed | insert | deleteGroup
        | replaceGroup => exact ⟨_, _, rfl⟩
        | update | deleteEntry =>
          rw [MemoryStore.perform]
          split <;> exact ⟨_, _, rfl⟩
        | allocateGroup =>
          have hne : s.largestGroup ≠ Int64.maxValue := by
            rw [hbackend] at hroom
            intro hfull
            have hlt := (IdCounters.exhaustedBy_allocateGroup_eq_false.1 hroom).2
            change s.largestGroup.toInt + 2 < _ at hlt
            rw [hfull] at hlt
            omega
          rw [MemoryStore.perform, MemoryStore.allocateGroup?, if_neg hne]
          exact ⟨_, _, rfl⟩
      obtain ⟨x, s', hperform⟩ := hanswered
      exact ⟨x, { w with backend := .memory s' r }, by
        simp only [answer, hbackend, Backend.performStore, hperform, Option.map_some]⟩

/-- A call that is answered leaves the store that it should. -/
theorem undergoes_answer {w v : World} {c : Call} {x : c.Answer} (h : w.answer c = (some x, v))
    (hroom : w.backend.idCounters.exhaustedBy c = false) :
    w.backend.Undergoes ⟨c, x⟩ v.backend := by
  cases c with
  | principal c =>
    cases h
    exact rfl
  | store c =>
    rw [answer] at h
    cases hperform : w.backend.performStore c with
    | none =>
      rw [hperform] at h
      cases h
    | some r =>
      rw [hperform] at h
      cases h
      exact .inr ⟨hroom, hperform⟩
  | registry c =>
    obtain ⟨log, hlog⟩ := foldl_say_eq
      (w.backend.remarks c (w.backend.performRegistry c).1)
      { w with backend := (w.backend.performRegistry c).2 }
    simp only [answer] at h
    rw [hlog] at h
    cases h
    exact .inr rfl

/-- Nobody withdraws a request for cancellation or makes one while a call is answered. -/
theorem cancelled_answer (w : World) (c : Call) : (w.answer c).2.cancelled = w.cancelled := by
  cases c with
  | principal c => rfl
  | registry c =>
    obtain ⟨log, hlog⟩ := foldl_say_eq
      (w.backend.remarks c (w.backend.performRegistry c).1)
      { w with backend := (w.backend.performRegistry c).2 }
    simp only [answer]
    rw [hlog]
  | store c =>
    rw [answer]
    cases w.backend.performStore c <;> rfl

end World

namespace Watch

variable {α : Type} {d : Disturbance} {held : Bool} {w v : Watch}

/-- An operation that is answered adds to the record what it adds to a transcript. -/
theorem handle_eq {op : Op} {x : op.Answer} (h : w.handle d op = (some x, v)) :
    v.exchanges = w.exchanges ++ (op.exchange? x).toList ∧
      v.world.cancelled = w.world.cancelled := by
  cases op with
  | call c =>
    rw [handle, answer] at h
    cases hq : (d.fault w.exchanges.length).bind (refusal? c) with
    | some y =>
      rw [hq] at h
      cases h
      exact ⟨rfl, rfl⟩
    | none =>
      rw [hq, reach] at h
      have hcancelled := w.world.cancelled_answer c
      rcases hanswer : w.world.answer c with ⟨_ | y, world⟩ <;> rw [hanswer] at h hcancelled
      · cases h
      · cases h
        exact ⟨rfl, hcancelled⟩
  | log | record | poll | claim | release =>
    cases h
    exact ⟨(List.append_nil _).symm, rfl⟩

/-- An operation is answered unless it takes a counter to its end. -/
theorem spent_of_handle_none {op : Op} (h : w.handle d op = (none, v)) : v.spent = true := by
  cases op with
  | call c =>
    rw [handle, answer] at h
    cases hq : (d.fault w.exchanges.length).bind (refusal? c) with
    | some y =>
      rw [hq] at h
      cases h
    | none =>
      rw [hq, reach] at h
      cases hroom : w.world.backend.idCounters.exhaustedBy c with
      | false =>
        obtain ⟨y, world, hanswer⟩ := World.exists_answer hroom
        rw [hanswer] at h
        cases h
      | true =>
        rcases hanswer : w.world.answer c with ⟨_ | y, world⟩ <;> rw [hanswer] at h <;> cases h
        simp [hroom]
  | log | record | poll | claim | release => cases h

/-- What is left of a run leaves a transcript that the program can leave, if it comes to a value or
takes no counter to its end. -/
theorem leaves_execFrom {fair : (op : Op) → op.Answer → Prop} {p : Prog α}
    (hfair : ∀ (u : Watch) op x v, u.world.cancelled = w.world.cancelled →
      u.handle d op = (some x, v) → fair op x)
    (hend : (execFrom d held p w).1 ≠ none ∨ (execFrom d held p w).2.spent = false) :
    ∃ xs, (execFrom d held p w).2.exchanges = w.exchanges ++ xs ∧
      p.Leaves fair xs ((execFrom d held p w).1.map Prod.fst) := by
  induction p generalizing w held with
  | done a => exact ⟨[], (List.append_nil _).symm, rfl, rfl⟩
  | step op next ih =>
    rcases hhandle : w.handle d op with ⟨_ | x, v⟩
    · rw [execFrom_step_none hhandle] at hend
      have hspent := (grows_execFrom d held (.abandon : Prog α) v).2 (spent_of_handle_none hhandle)
      rcases hend with hend | hend
      · exact absurd (by rw [execFrom_abandon]) hend
      · rw [hspent] at hend
        cases hend
    · rw [execFrom_step_some hhandle] at hend ⊢
      obtain ⟨hexchanges, hcancelled⟩ := handle_eq hhandle
      obtain ⟨xs, hxs, hleaves⟩ := ih x (fun u op y u' hu => hfair u op y u' (hu.trans hcancelled))
        hend
      exact ⟨_, by rw [hxs, hexchanges, List.append_assoc], x, xs,
        hfair w op x v rfl hhandle, rfl, hleaves⟩
  | abandon =>
    refine ⟨[], ?_, rfl, by rw [execFrom_abandon]; rfl⟩
    rw [execFrom_abandon, List.append_nil]
    cases held <;> rfl

/-- An operation leads to the store that it leaves, as long as no counter is exhausted. -/
theorem leads_handle {op : Op} {x : op.Answer} (h : w.handle d op = (some x, v))
    (hspent : v.spent = false) :
    w.world.backend.Leads (op.exchange? x).toList v.world.backend := by
  cases op with
  | call c =>
    rw [handle, answer] at h
    cases hq : (d.fault w.exchanges.length).bind (refusal? c) with
    | some y =>
      rw [hq] at h
      cases h
      have hfailed := failed_of_refusal? (Option.bind_eq_some_iff.1 hq).choose_spec.2
      refine ⟨_, ?_, rfl⟩
      rcases c with c | c | c
      · cases x with
        | error e => exact .inl ⟨⟨e, rfl⟩, rfl⟩
        | ok => cases hfailed
      · cases x with
        | error e => exact .inl ⟨⟨e, rfl⟩, rfl⟩
        | ok => cases hfailed
      · exact rfl
    | none =>
      rw [hq, reach] at h
      rcases hanswer : w.world.answer c with ⟨_ | y, world⟩ <;> rw [hanswer] at h <;> cases h
      have hroom : w.world.backend.idCounters.exhaustedBy c = false :=
        (Bool.or_eq_false_iff.1 hspent).2
      exact ⟨_, World.undergoes_answer hanswer hroom, rfl⟩
  | log | record | poll | claim | release =>
    cases h
    exact rfl

/-- The record of the second watch goes on from that of the first one, and leads from the store of
the first one to that of the second one. -/
def LeadsTo (w v : Watch) : Prop :=
  (w.spent = true → v.spent = true) ∧ (v.spent = false →
    ∃ xs, v.exchanges = w.exchanges ++ xs ∧ w.world.backend.Leads xs v.world.backend)

theorem LeadsTo.refl (w : Watch) : w.LeadsTo w :=
  ⟨id, fun _ => ⟨[], (List.append_nil _).symm, rfl⟩⟩

theorem LeadsTo.trans {u : Watch} (h : w.LeadsTo v) (h' : v.LeadsTo u) : w.LeadsTo u := by
  refine ⟨h'.1 ∘ h.1, fun hspent => ?_⟩
  obtain ⟨xs, hxs, hleads⟩ :=
    h.2 (Bool.eq_false_iff.2 fun hv => Bool.eq_false_iff.1 hspent (h'.1 hv))
  obtain ⟨ys, hys, hleads'⟩ := h'.2 hspent
  exact ⟨xs ++ ys, by rw [hys, hxs, List.append_assoc], hleads.append hleads'⟩

theorem leadsTo_handle (d : Disturbance) (w : Watch) (op : Op) :
    w.LeadsTo (w.handle d op).2 := by
  refine ⟨(grows_handle d w op).2, fun hspent => ?_⟩
  rcases hhandle : w.handle d op with ⟨_ | x, v⟩
  · rw [hhandle] at hspent
    rw [spent_of_handle_none hhandle] at hspent
    cases hspent
  · rw [hhandle] at hspent
    exact ⟨_, (handle_eq hhandle).1, leads_handle hhandle hspent⟩

end Watch

namespace World

variable {α : Type} {d : Disturbance} {w : World}
  {fair : (op : Op) → op.Answer → Prop} {p : Prog α}

/-- A watched run leaves a transcript that the program can leave, if it comes to a value or takes no
counter to its end. -/
theorem watch_leaves
    (hfair : ∀ (u : Watch) op x v, u.world.cancelled = w.cancelled →
      u.handle d op = (some x, v) → fair op x)
    (hend : (w.watch d p).1 ≠ none ∨ (w.watch d p).2.spent = false) :
    p.Leaves fair (w.watch d p).2.exchanges (w.watch d p).1 := by
  rw [watch_eq] at hend ⊢
  have hend' : (Watch.execFrom d false p { world := w }).1 ≠ none ∨
      (Watch.execFrom d false p { world := w }).2.spent = false :=
    hend.imp_left fun h hnone => h (by rw [hnone]; rfl)
  obtain ⟨xs, hxs, hleaves⟩ := Watch.leaves_execFrom hfair hend'
  have hall : xs = (Watch.execFrom d false p { world := w }).2.exchanges := hxs.symm
  exact hall ▸ hleaves

/-- A watched run whose first operation is answered, and is no call, leaves what the rest of the
program can leave. -/
theorem watch_rest_leaves {op : Op} {next : op.Answer → Prog α} {x : op.Answer} {v : Watch}
    (hhandle : Watch.handle d { world := w } op = (some x, v)) (hquiet : op.exchange? x = none)
    (hfair : ∀ (u : Watch) op x v, u.world.cancelled = w.cancelled →
      u.handle d op = (some x, v) → fair op x)
    (hend : (w.watch d (.step op next)).1 ≠ none ∨
      (w.watch d (.step op next)).2.spent = false) :
    (next x).Leaves fair (w.watch d (.step op next)).2.exchanges (w.watch d (.step op next)).1 := by
  obtain ⟨hexchanges, hcancelled⟩ := Watch.handle_eq hhandle
  rw [watch_eq, Watch.execFrom_step_some hhandle] at hend ⊢
  have hend' : (Watch.execFrom d (op.holds x false) (next x) v).1 ≠ none ∨
      (Watch.execFrom d (op.holds x false) (next x) v).2.spent = false :=
    hend.imp_left fun h hnone => h (by rw [hnone]; rfl)
  obtain ⟨xs, hxs, hleaves⟩ := Watch.leaves_execFrom
    (fun u op y u' hu => hfair u op y u' (hu.trans hcancelled)) hend'
  have hall : xs = (Watch.execFrom d (op.holds x false) (next x) v).2.exchanges := by
    rw [hxs, hexchanges, hquiet]
    rfl
  exact hall ▸ hleaves

/-- The calls of a watched run lead to the store that it leaves, as long as no counter is
exhausted. -/
theorem watch_leads (hspent : (w.watch d p).2.spent = false) :
    w.backend.Leads (w.watch d p).2.exchanges (w.watch d p).2.world.backend := by
  have hrelated : Watch.LeadsTo { world := w } (w.watch d p).2 :=
    Prog.runFrom_related Watch.LeadsTo.refl (fun _ _ _ => Watch.LeadsTo.trans)
      (Watch.leadsTo_handle d) false p { world := w }
  obtain ⟨xs, hxs, hleads⟩ := hrelated.2 hspent
  have hall : xs = (w.watch d p).2.exchanges := hxs.symm
  exact hall ▸ hleads

end World

end AccessGroups
