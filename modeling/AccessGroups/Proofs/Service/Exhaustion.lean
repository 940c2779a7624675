import AccessGroups.Proofs.Program.Asks
import AccessGroups.Proofs.Store.Effects
import AccessGroups.Scenario.Step

/-!
# A store without group identifiers

The service accepts rows in any positive group, up to the largest word, and above that there is no
identifier that an allocation could hand out. What the failed allocation leaves behind depends on
the store. In memory it leaves everything as it was, and allocations succeed again once the rows in
the group of the largest word are gone. A database has stored the sum that left the range by the
time that it cannot be read, so that no later allocation succeeds, whatever is deleted before it.

## Main definitions

* `World.nextGroup?`: the group that the service hands out next, if it does.
* `World.serve`: the world after requests to the service.
* `Backend.Blank`: a store in which nothing has been done yet.
* `Backend.Exhausted`: no group identifier is left.

## Main results

* `World.nextGroup?_eq_none_iff`: an allocation fails exactly if no group identifier is left.
* `World.lt_of_nextGroup?`: an identifier that is handed out is above all groups of rows.
* `World.serve_keeps`: what the calls to the store keep, requests to the service keep.
* `World.serve_nextGroup_memory`, `World.serve_nextGroup_database`: what a failed allocation leaves.
* `World.nextGroup?_serve_of_failure`: allocations after one that failed.
-/

namespace AccessGroups

open Scenario (GroupRequest)

/-! ### Handing out -/

namespace Backend

/-- Nothing has been stored, and no identifier has been handed out. -/
def Blank : Backend → Prop
  | .memory s _ => s = {}
  | .database _ d =>
    d.entries = some .empty ∧ d.marks = [] ∧ d.counters = [] ∧ d.sequence = .at 1

instance (b : Backend) : Decidable b.Blank :=
  match b with
  | .memory s _ => inferInstanceAs (Decidable (s = {}))
  | .database _ d => inferInstanceAs (Decidable (d.entries = some .empty ∧ _ ∧ _ ∧ _))

/-- In a database the table of the rows is there, and the sequence has its row. -/
def Working : Backend → Prop
  | .memory _ _ => True
  | .database _ d =>
    (∃ t, d.entries = some t) ∧ (d.sequence = .inexact ∨ ∃ next, d.sequence = .at next)

/-- No group identifier is left above those of the rows or, in a database, above those that were
handed out. A sequence without an integer has none left for ever. -/
def Exhausted : Backend → Prop
  | .memory s _ => ∃ e ∈ s.entries.rows, e.group.val = Int64.maxValue
  | .database _ d =>
    d.sequence = .inexact ∨ d.sequence = .at Int64.maxValue ∨
      ∃ t, d.entries = some t ∧ ∃ e ∈ t.rows, Int64.maxValue - 1 ≤ e.group.val

variable {b b' : Backend} {s : MemoryStore} {r : MemoryRegistry} {tables : ResourceTables}
  {d : Database} {t : Table Entry.id}

theorem Blank.working (h : b.Blank) : b.Working := by
  cases b with
  | memory s r => trivial
  | database tables d => exact ⟨⟨_, h.1⟩, .inr ⟨1, h.2.2.2⟩⟩

/-- Some group is at least `n` if the largest one is. -/
theorem le_highestGroup_iff {rows : List Entry} {n : Int64} (hn : 0 < n) :
    n ≤ highestGroup rows ↔ ∃ e ∈ rows, n ≤ e.group.val := by
  have hpos : 0 < n.toInt := by simpa using Int64.lt_iff_toInt_lt.1 hn
  have hnot : ¬ (highestGroup rows).toInt < n.toInt ↔ _ := not_congr (highestGroup_lt_iff hpos)
  simpa [Int64.le_iff_toInt_le] using hnot

theorem exhausted_memory_iff :
    (memory s r).Exhausted ↔ highestGroup s.entries.rows = Int64.maxValue := by
  have hle (n : Int64) : n = Int64.maxValue ↔ Int64.maxValue ≤ n := by
    rw [Int64.le_iff_toInt_le, ← Int64.toInt_inj]
    have := n.toInt_le
    omega
  rw [Exhausted, hle, le_highestGroup_iff (by decide)]
  simp only [hle]

/-- In memory an allocation succeeds unless some row is in the group of the largest word. -/
theorem performStore_memory :
    ((memory s r).Exhausted ∧ (memory s r).performStore .allocateGroup = none) ∨
      (¬ (memory s r).Exhausted ∧
        ∃ g b', (memory s r).performStore .allocateGroup = some (.ok g, b')) := by
  rw [exhausted_memory_iff, highestGroup, ← s.largestGroup_eq]
  by_cases hfull : s.largestGroup = Int64.maxValue
  · refine .inl ⟨hfull, ?_⟩
    simp only [performStore, MemoryStore.perform, MemoryStore.allocateGroup?, if_pos hfull]
    rfl
  · refine .inr ⟨hfull, ?_⟩
    simp only [performStore, MemoryStore.perform, MemoryStore.allocateGroup?, if_neg hfull]
    exact ⟨_, _, rfl⟩

/-- In a database an allocation that fails leaves a sequence from which no identifier is read. -/
theorem performStore_database (h : (database tables d).Working) :
    ((database tables d).Exhausted ∧ (database tables d).performStore .allocateGroup =
        some (.error Database.inexact.toStoreError,
          .database tables { d with sequence := .inexact })) ∨
      (¬ (database tables d).Exhausted ∧ ∃ g next, (database tables d).performStore .allocateGroup =
        some (.ok g, .database tables { d with sequence := .at next })) := by
  obtain ⟨⟨t, ht⟩, hsequence⟩ := h
  obtain ⟨entries, marks, counters, sequence, hosts, migrations⟩ := d
  obtain rfl : entries = some t := ht
  obtain rfl | ⟨next, rfl⟩ := hsequence
  · exact .inl ⟨.inl rfl, rfl⟩
  · have hlimit : Int64.maxValue - 1 ≤ Database.largestGroup t ↔
        ∃ e ∈ t.rows, Int64.maxValue - 1 ≤ e.group.val := le_highestGroup_iff (by decide)
    by_cases hfull : Int64.maxValue - 1 ≤ Database.largestGroup t ∨ next = Int64.maxValue
    · refine .inl ⟨?_, ?_⟩
      · rcases hfull with hrow | rfl
        · exact .inr (.inr ⟨t, rfl, hlimit.1 hrow⟩)
        · exact .inr (.inl rfl)
      · simp only [performStore, Database.performStore, Database.allocateGroup,
          Database.entriesOrError, if_pos hfull]
    · refine .inr ⟨?_, ?_⟩
      · rintro (hinexact | hnext | ⟨t', heq, hrow⟩)
        · cases hinexact
        · cases hnext
          exact hfull (.inr rfl)
        · cases heq
          exact hfull (.inl (hlimit.2 hrow))
      · simp only [performStore, Database.performStore, Database.allocateGroup,
          Database.entriesOrError, if_neg hfull]
        exact ⟨_, _, rfl⟩

/-- A database that works goes on to do so, and a sequence without an integer stays without one. -/
theorem working_performStore {c : StoreCall} {x : c.Answer} (h : (database tables d).Working)
    (hcall : (database tables d).performStore c = some (x, b')) :
    ∃ d', b' = database tables d' ∧ b'.Working ∧
      (d.sequence = .inexact → d'.sequence = .inexact) := by
  obtain ⟨⟨t, ht⟩, hsequence⟩ := h
  by_cases hc : c = .allocateGroup
  · subst hc
    rcases performStore_database ⟨⟨t, ht⟩, hsequence⟩ with ⟨-, herror⟩ | ⟨hroom, g, next, hok⟩
    · cases hcall.symm.trans herror
      exact ⟨_, rfl, ⟨⟨t, ht⟩, .inl rfl⟩, fun _ => rfl⟩
    · cases hcall.symm.trans hok
      exact ⟨_, rfl, ⟨⟨t, ht⟩, .inr ⟨next, rfl⟩⟩, fun hinexact => absurd (.inl hinexact) hroom⟩
  · obtain ⟨hkeep, ht'⟩ := Database.sequence_performStore ht hc
    obtain rfl : database tables (d.performStore c).2 = b' :=
      congrArg Prod.snd (Option.some.inj hcall)
    exact ⟨_, rfl, ⟨ht', hkeep ▸ hsequence⟩, fun hinexact => hkeep.trans hinexact⟩

/-- An identifier that is handed out is above all groups of rows. -/
theorem lt_of_allocateGroup {g : GroupId} (h : b.performStore .allocateGroup = some (.ok g, b')) :
    ∀ e ∈ b.entries, e.group < g := by
  cases b with
  | memory s r =>
    obtain ⟨⟨x, s'⟩, hperform, heq⟩ := Option.map_eq_some_iff.1 h
    cases heq
    obtain ⟨⟨fresh, s'⟩, hallocate, heq⟩ := Option.map_eq_some_iff.1 hperform
    cases heq
    intro e he
    have hle : e.group.val.toInt ≤ (highestGroup s.entries.rows).toInt :=
      Int64.toInt_le_largest (List.mem_map_of_mem he)
    have hlargest : s.largestGroup = highestGroup s.entries.rows := s.largestGroup_eq
    rw [MemoryStore.allocateGroup?, hlargest] at hallocate
    split at hallocate <;> cases hallocate
    next hne =>
    have hnot : (highestGroup s.entries.rows).toInt ≠ Int64.maxValue.toInt :=
      fun heq => hne (Int64.toInt_inj.1 heq)
    have := (highestGroup s.entries.rows).toInt_le
    rw [Identifier.lt_iff_toInt, Int64.toInt_max, Int64.toInt_add_one (by omega)]
    omega
  | database tables d =>
    have hallocate : d.allocateGroup.1 = .ok g := congrArg Prod.fst (Option.some.inj h)
    intro e he
    cases ht : d.entries with
    | none => simp [entries, ht] at he
    | some t =>
      refine Database.above_of_allocateGroup ht hallocate e ?_
      simpa [entries, ht] using he

end Backend

/-! ### Requests -/

namespace World

/-- The group that the service hands out next; there is none if the request fails or panics. -/
def nextGroup? (w : World) : Option GroupId :=
  (w.run Groups.nextGroup).1.bind Except.toOption

/-- The world after requests to the service one after another, whatever their results are. -/
def serve (w : World) (requests : List GroupRequest) : World :=
  requests.foldl (fun w request => (w.run request.program).2) w

variable {w : World}

theorem serve_append (first rest : List GroupRequest) :
    w.serve (first ++ rest) = (w.serve first).serve rest :=
  List.foldl_append ..

/-- Running a program whose value comes from one call to the store. -/
theorem run_store_map {α : Type} (w : World) (c : StoreCall) (f : c.Answer → α) :
    w.run (Prog.store c >>= fun x => pure (f x)) =
      ((w.answer (.store c)).1.map f, (w.answer (.store c)).2) := by
  let next : c.Answer → Prog α := fun x => pure (f x)
  change Prog.runIn handle (.step (.call (.store c)) next) w = _
  rw [Prog.runIn_eq]
  rcases hanswer : w.answer (.store c) with ⟨_ | x, v⟩
  · have hhandle : handle w (.call (.store c)) = (none, v) := hanswer
    rw [Prog.runFrom_step_none hhandle]
    rfl
  · have hhandle : handle w (.call (.store c)) = (some x, v) := hanswer
    rw [Prog.runFrom_step hhandle]
    rfl

theorem nextGroup?_eq (w : World) :
    w.nextGroup? = (w.backend.performStore .allocateGroup).bind fun r => r.1.toOption := by
  rw [nextGroup?, Groups.nextGroup, run_store_map, answer]
  rcases w.backend.performStore .allocateGroup with _ | ⟨_ | g, b⟩ <;> rfl

theorem serve_nextGroup (w : World) :
    w.serve [.nextGroup] = (w.answer (.store .allocateGroup)).2 :=
  congrArg Prod.snd (w.run_store_map .allocateGroup fun x =>
    Scenario.Result.ofExcept .service .group (Groups.ofAnswer x))

/-- An allocation fails exactly if no group identifier is left. -/
theorem nextGroup?_eq_none_iff (h : w.backend.Working) :
    w.nextGroup? = none ↔ w.backend.Exhausted := by
  have hcall : (w.backend.Exhausted ∧ w.nextGroup? = none) ∨
      (¬ w.backend.Exhausted ∧ ∃ g, w.nextGroup? = some g) := by
    rw [nextGroup?_eq]
    cases hb : w.backend with
    | memory s r =>
      refine Backend.performStore_memory.imp (fun ⟨hfull, hnone⟩ => ⟨hfull, ?_⟩)
        fun ⟨hroom, g, b', hok⟩ => ⟨hroom, g, ?_⟩
      · rw [hnone]
        rfl
      · rw [hok]
        rfl
    | database tables d =>
      rw [hb] at h
      refine (Backend.performStore_database h).imp (fun ⟨hfull, herror⟩ => ⟨hfull, ?_⟩)
        fun ⟨hroom, g, next, hok⟩ => ⟨hroom, g, ?_⟩
      · rw [herror]
        rfl
      · rw [hok]
        rfl
  rcases hcall with ⟨hfull, hnone⟩ | ⟨hroom, g, hsome⟩
  · exact iff_of_true hnone hfull
  · exact iff_of_false (by simp [hsome]) hroom

/-- An identifier that is handed out is above all groups of rows. -/
theorem lt_of_nextGroup? {g : GroupId} (h : w.nextGroup? = some g) :
    ∀ e ∈ w.backend.entries, e.group < g := by
  rw [nextGroup?_eq, Option.bind_eq_some_iff] at h
  obtain ⟨⟨_ | fresh, b'⟩, hcall, hok⟩ := h <;> cases hok
  exact Backend.lt_of_allocateGroup hcall

end World

/-! ### What requests keep -/

/-- The operation is a call to the store or a line of the log. -/
def Op.IsStoring : Op → Prop
  | .call (.store _) | .log _ => True
  | _ => False

namespace Groups

open Prog (asks_perform asks_pure Asks.bind)

variable {group : GroupId} {grants : List Grant}

/-- After a call to the store a program asks what it asks after a failure and after a value. -/
theorem asks_storing {α : Type} {Q : α → Prop} {c : StoreCall} {f : c.Answer → Prog α}
    (herror : ∀ e, (f (.error e)).Asks Op.IsStoring Q)
    (hok : ∀ v, (f (.ok v)).Asks Op.IsStoring Q) :
    (Prog.store c >>= f).Asks Op.IsStoring Q :=
  asks_perform trivial fun x => x.casesOn herror hok

theorem asks_create (grant : Grant) : (create grant).Asks Op.IsStoring fun _ => True := by
  rw [create]
  split
  · exact asks_pure trivial
  · exact asks_storing (fun _ => asks_pure trivial) fun _ =>
      asks_perform trivial fun _ => asks_pure trivial

theorem asks_update (entry : Entry) : (update entry).Asks Op.IsStoring fun _ => True := by
  rw [update]
  split
  · exact asks_pure trivial
  · split
    · exact asks_pure trivial
    · exact asks_storing (fun _ => asks_pure trivial) fun _ => asks_pure trivial

theorem asks_replaceGroup : (replaceGroup group grants).Asks Op.IsStoring fun _ => True := by
  rw [replaceGroup]
  split
  · exact asks_pure trivial
  · split
    · exact asks_pure trivial
    · split
      · exact asks_pure trivial
      · exact asks_storing (fun _ => asks_pure trivial) fun _ =>
          asks_perform trivial fun _ => asks_pure trivial

theorem asks_createGroup : (createGroup grants).Asks Op.IsStoring fun _ => True := by
  rw [createGroup]
  split
  · exact asks_pure trivial
  · split
    · exact asks_pure trivial
    · refine Asks.bind (R := fun _ => True) (asks_perform trivial fun _ => trivial) fun x _ => ?_
      split
      · exact asks_pure trivial
      · exact asks_storing (fun _ => asks_pure trivial) fun _ =>
          asks_perform trivial fun _ => asks_pure trivial

theorem asks_deleteGroup : (deleteGroup group).Asks Op.IsStoring fun _ => True := by
  refine asks_storing (fun _ => asks_pure trivial) fun removed => ?_
  dsimp only
  split
  · exact asks_pure trivial
  · exact asks_perform trivial fun _ => asks_pure trivial

end Groups

/-- A request to the service calls the store only. -/
theorem Scenario.GroupRequest.asks_program (request : GroupRequest) :
    request.program.Asks Op.IsStoring fun _ => True := by
  have hreturn {α : Type} {p : Prog α} {f : α → Result} (h : p.Asks Op.IsStoring fun _ => True) :
      (p >>= fun a => pure (f a)).Asks Op.IsStoring fun _ => True :=
    h.bind fun _ _ => Prog.asks_pure trivial
  cases request with
  | findAll | findDuplicates | nextGroup => exact ⟨trivial, fun _ => trivial⟩
  | findGroup group =>
    refine hreturn (Groups.asks_storing (fun _ => trivial) fun rows => ?_)
    cases rows <;> trivial
  | create grant => exact hreturn (Groups.asks_create grant)
  | update entry => exact hreturn (Groups.asks_update entry)
  | replaceGroup => exact hreturn Groups.asks_replaceGroup
  | createGroup => exact hreturn Groups.asks_createGroup
  | deleteGroup => exact hreturn Groups.asks_deleteGroup
  | deleteEntry id =>
    exact hreturn (Groups.asks_storing (fun _ => trivial) fun _ => trivial)

namespace World

variable {w : World} {P : Backend → Prop}

/-- What every call to the store keeps, requests to the service keep. -/
theorem serve_keeps (hcall : ∀ b (c : StoreCall) x b', P b → b.performStore c = some (x, b') → P b')
    (h : P w.backend) (requests : List GroupRequest) : P (w.serve requests).backend := by
  have hop (w : World) (op : Op) (hop : op.IsStoring ∨ op = .release) (hw : P w.backend) :
      P (w.handle op).2.backend := by
    cases op with
    | call c =>
      cases c with
      | store c =>
        simp only [handle, answer]
        split
        · next x b' hcall' => exact hcall _ c x b' hw hcall'
        · exact hw
      | registry | principal => simp [Op.IsStoring] at hop
    | log | release | record | poll | claim => exact hw
  induction requests generalizing w with
  | nil => exact h
  | cons request rest ih => exact ih (request.asks_program.keeps hop false h)

/-! ### After a failure -/

/-- A store in memory stays one. -/
theorem serve_memory {s : MemoryStore} {r : MemoryRegistry} (h : w.backend = .memory s r)
    (requests : List GroupRequest) : ∃ s' r', (w.serve requests).backend = .memory s' r' := by
  refine serve_keeps (P := fun b => ∃ s r, b = .memory s r) ?_ ⟨s, r, h⟩ requests
  rintro _ c x b' ⟨s, r, rfl⟩ hcall
  obtain ⟨⟨y, s'⟩, -, heq⟩ := Option.map_eq_some_iff.1 hcall
  cases heq
  exact ⟨s', r, rfl⟩

/-- A database that works goes on to do so, and a sequence without an integer stays without one. -/
theorem serve_database {tables : ResourceTables} {d : Database} (h : w.backend = .database tables d)
    (hworking : w.backend.Working) (requests : List GroupRequest) :
    ∃ d', (w.serve requests).backend = .database tables d' ∧
      (w.serve requests).backend.Working ∧ (d.sequence = .inexact → d'.sequence = .inexact) := by
  refine serve_keeps (P := fun b => ∃ d', b = .database tables d' ∧ b.Working ∧
    (d.sequence = .inexact → d'.sequence = .inexact)) ?_ ⟨d, h, hworking, id⟩ requests
  rintro _ c x b' ⟨d₁, rfl, hworking₁, hinexact₁⟩ hcall
  obtain ⟨d₂, hd₂, hworking₂, hinexact₂⟩ := Backend.working_performStore hworking₁ hcall
  exact ⟨d₂, hd₂, hworking₂, hinexact₂ ∘ hinexact₁⟩

/-- In memory an allocation that fails changes nothing. -/
theorem serve_nextGroup_memory {s : MemoryStore} {r : MemoryRegistry}
    (h : w.backend = .memory s r) (hfailure : w.nextGroup? = none) : w.serve [.nextGroup] = w := by
  rw [serve_nextGroup, answer, h]
  rcases Backend.performStore_memory (s := s) (r := r) with ⟨-, hnone⟩ | ⟨-, g, b', hok⟩
  · rw [hnone]
  · rw [nextGroup?_eq, h, hok] at hfailure
    cases hfailure

/-- In a database an allocation that fails leaves the sequence without an integer. -/
theorem serve_nextGroup_database {tables : ResourceTables} {d : Database}
    (h : w.backend = .database tables d) (hworking : w.backend.Working)
    (hfailure : w.nextGroup? = none) : w.serve [.nextGroup] =
      { w with backend := .database tables { d with sequence := .inexact } } := by
  rw [serve_nextGroup, answer, h]
  rcases Backend.performStore_database (h ▸ hworking) with ⟨-, herror⟩ | ⟨-, g, n, hok⟩
  · rw [herror]
  · rw [nextGroup?_eq, h, hok] at hfailure
    cases hfailure

/-- In memory a group is handed out unless a row is in that of the largest word. -/
theorem exists_nextGroup?_memory {s : MemoryStore} {r : MemoryRegistry}
    (h : w.backend = .memory s r) : (∃ e ∈ w.backend.entries, e.group.val = Int64.maxValue) ∨
      ∃ g, w.nextGroup? = some g ∧ ∀ e ∈ w.backend.entries, e.group < g := by
  have hnone := nextGroup?_eq_none_iff (w := w) (h ▸ trivial)
  cases hnext : w.nextGroup? with
  | none =>
    rw [hnext, h] at hnone
    rw [h]
    exact .inl (hnone.1 rfl)
  | some g => exact .inr ⟨g, rfl, lt_of_nextGroup? hnext⟩

/-- The store was empty, and requests to the service were made until an allocation failed. In memory
the failure has left the world as it was, and whatever is requested afterwards, an allocation hands
out a group above those of all rows unless a row is in the group of the largest word. In a database
the failure has left the rows as they were but not the sequence, and no allocation hands out a group
any more. -/
theorem nextGroup?_serve_of_failure (hblank : w.backend.Blank) (before after : List GroupRequest)
    (hfailure : (w.serve before).nextGroup? = none) :
    match w.backend with
    | .memory _ _ =>
      w.serve (before ++ [.nextGroup]) = w.serve before ∧
        let v := w.serve (before ++ .nextGroup :: after)
        (∃ e ∈ v.backend.entries, e.group.val = Int64.maxValue) ∨
          ∃ g, v.nextGroup? = some g ∧ ∀ e ∈ v.backend.entries, e.group < g
    | .database tables _ =>
      (∃ d, (w.serve before).backend = .database tables d ∧
        w.serve (before ++ [.nextGroup]) =
          { w.serve before with backend := .database tables { d with sequence := .inexact } }) ∧
        (w.serve (before ++ .nextGroup :: after)).nextGroup? = none := by
  cases hw : w.backend with
  | memory s r =>
    obtain ⟨s₁, r₁, hbefore⟩ := serve_memory hw before
    obtain ⟨s₂, r₂, hafter⟩ := serve_memory hw (before ++ .nextGroup :: after)
    refine ⟨?_, exists_nextGroup?_memory hafter⟩
    rw [serve_append, serve_nextGroup_memory hbefore hfailure]
  | database tables d =>
    obtain ⟨d₁, hbefore, hworking, -⟩ := serve_database hw hblank.working before
    have hlost : w.serve (before ++ [.nextGroup]) =
        { w.serve before with backend := .database tables { d₁ with sequence := .inexact } } := by
      rw [serve_append, serve_nextGroup_database hbefore hworking hfailure]
    refine ⟨⟨d₁, hbefore, hlost⟩, ?_⟩
    obtain ⟨-, -, hworking', -⟩ := serve_database hw hblank.working (before ++ [.nextGroup])
    obtain ⟨d₂, hafter, hworking₂, hinexact⟩ :=
      serve_database (congrArg World.backend hlost) hworking' after
    rw [List.append_cons, serve_append, nextGroup?_eq_none_iff hworking₂, hafter]
    exact .inl (hinexact rfl)

/-- A request to store a row in the group of the largest word. -/
def takeLast : GroupRequest :=
  .create ⟨⟨Int64.maxValue⟩, some ⟨1⟩, none, ⟨true, false, false, false⟩⟩

/-- With a row in the group of the largest word no group is handed out. Once the row is gone, one is
in memory, and still none in a database. -/
theorem nextGroup?_serve_takeLast :
    let memory : World := { backend := .memory {} {} }
    let database : World := { backend := .database .standard {} }
    let freed := [takeLast, .nextGroup, .deleteGroup ⟨Int64.maxValue⟩]
    ((memory.serve [takeLast]).nextGroup? = none ∧ ∃ g, (memory.serve freed).nextGroup? = some g) ∧
      (database.serve [takeLast]).nextGroup? = none ∧ (database.serve freed).nextGroup? = none := by
  intro memory database freed
  have hmemory : (memory.serve [takeLast]).nextGroup? = none := by decide +kernel
  have hdatabase : (database.serve [takeLast]).nextGroup? = none := by decide +kernel
  have hfreed := nextGroup?_serve_of_failure (w := memory) (by decide) [takeLast]
    [.deleteGroup ⟨Int64.maxValue⟩] hmemory
  have hlost := nextGroup?_serve_of_failure (w := database) (by decide) [takeLast]
    [.deleteGroup ⟨Int64.maxValue⟩] hdatabase
  refine ⟨⟨hmemory, ?_⟩, hdatabase, hlost.2⟩
  rcases hfreed.2 with hrow | ⟨g, hg, -⟩
  · exact absurd hrow (by decide +kernel)
  · exact ⟨g, hg⟩

end World

end AccessGroups
