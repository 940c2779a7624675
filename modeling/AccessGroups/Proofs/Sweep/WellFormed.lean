import AccessGroups.Proofs.Service.WellFormed
import AccessGroups.Proofs.Store.Allocation
import AccessGroups.Proofs.Sweep.Groups
import AccessGroups.Proofs.Sweep.Safe

/-!
# Rows stay well-formed

Requests to the service of permission groups, removals of resources and sweeps go on at the same
time, in steps of single calls. Calls fail, runs are cancelled, and other writers put resources with
any references. None of this brings in a row that is not well-formed.

## Main definitions

* `Operation`: what can be asked for.
* `Bustle`: a world with the programs that go on in it, with `Bustle.Event` and `Bustle.run`.

## Main results

* `Sweep.careful_runOnce`: a sweep stores well-formed grants only.
* `Bustle.wellFormed_run`: whatever happens, the rows stay well-formed.
-/

namespace AccessGroups

/-! ### Sweeps -/

namespace Sweep

open Prog

variable {operator : UserId} {r : Summary} {s : Scan} {group : GroupId}

theorem wellFormed_fallback (hg : group.IsValid) : (fallback operator group).WellFormed :=
  Grant.validate_eq_ok.1 (validate_fallback operator hg)

theorem wellFormed_copies {source : List Entry} (hsource : ∀ e ∈ source, e.WellFormed)
    (hg : group.IsValid) : ∀ g ∈ copies operator source group, g.WellFormed := by
  rw [copies]
  split
  · exact List.forall_mem_singleton.2 (wellFormed_fallback hg)
  · rw [List.forall_mem_map]
    exact fun e he => ⟨hg, (hsource e he).2⟩

theorem careful_fail {phase : Phase} {target error : String} :
    (fail r phase target error).Careful fun _ => True :=
  safe_fail sane_callsOnly (fun _ _ _ _ _ => trivial) fun _ => trivial

theorem careful_checkpoint {β : Type} {f : Summary → Prog β} {Q : β → Prop}
    (h : ∀ r, (f r).Careful Q) : (checkpoint r >>= f).Careful Q :=
  safe_checkpoint sane_callsOnly h

theorem careful_forItems {ι : Type} {handle : ι → Summary → Prog Summary} {items : List ι}
    (h : ∀ item r, (handle item r).Careful fun _ => True) :
    (forItems handle items r).Careful fun _ => True :=
  (safe_forItems (I := fun _ _ => True) sane_callsOnly (fun _ _ _ _ _ => trivial)
    (fun item _ r _ _ => h item r) trivial).mono fun _ _ _ => trivial

theorem careful_scanKinds (kinds : List ResourceKind) :
    (scanKinds kinds s r).Careful fun _ => True := by
  induction kinds generalizing s r with
  | nil => exact careful_pure trivial
  | cons kind rest ih => exact careful_registry (fun _ => ih) fun _ => careful_log ih

theorem careful_scan : scan.Careful fun _ => True := by
  refine careful_look rfl (fun rows _ => ?_) fun _ => careful_pure trivial
  refine safe_reportUnrepairable sane_callsOnly (Careful.bind (careful_scanKinds _) ?_)
  rintro ⟨s, r⟩ -
  dsimp only
  split
  · exact careful_log (careful_log (careful_pure trivial))
  · exact careful_log (careful_pure trivial)

/-- There is nothing to split. -/
theorem careful_splitMixed : (splitMixed r).Careful fun _ => True := by
  refine careful_checkpoint fun r => ?_
  split
  · exact careful_pure trivial
  · refine careful_look rfl (fun mixed hnone => ?_) fun _ => careful_fail
    obtain rfl : mixed = [] := hnone
    exact careful_pure trivial

theorem careful_allocateFresh (referenced : List GroupId) (limit : Nat) :
    (allocateFresh referenced limit).Careful fun x => ∀ g, x = .ok g → g.IsValid := by
  induction limit with
  | zero => trivial
  | succ limit ih =>
    rw [allocateFresh_succ]
    refine careful_look rfl (fun g hg => ?_) fun e => careful_pure nofun
    dsimp only
    split
    · refine careful_pure ?_
      rintro _ ⟨⟩
      exact hg
    · exact careful_log ih

theorem careful_readGroup {α : Type} {f : Except StoreError (List Entry) → Prog α} {Q : α → Prop}
    (h : ∀ x, (∀ rows, x = .ok rows → ∀ e ∈ rows, e.WellFormed) → (f x).Careful Q) :
    (readGroup group >>= f).Careful Q := by
  rw [readGroup]
  split
  · refine careful_look rfl (fun rows hrows => h _ ?_) fun e => h _ nofun
    rintro _ ⟨⟩
    exact hrows
  · refine h _ ?_
    rintro _ ⟨⟩
    exact nofun

/-- A resource gets copies of well-formed rows, or the row that a sweep makes up, in a positive
group. -/
theorem careful_reassign (kind : ResourceKind) (resource : ResourceId) :
    (reassign operator s kind resource).Careful fun _ => True := by
  refine careful_registry (fun current => ?_) fun e => ?_
  · refine Careful.bind (careful_allocateFresh _ _) fun x hx => ?_
    rcases x with e | fresh
    · exact careful_pure trivial
    · refine careful_readGroup fun y hy => ?_
      rcases y with e | source
      · exact careful_pure trivial
      · have hcopies : ∀ g ∈ copies operator source fresh, g.WellFormed :=
          wellFormed_copies (hy source rfl) (hx fresh rfl)
        refine careful_store hcopies (fun _ _ => ?_) fun _ => careful_pure trivial
        exact careful_registry (fun _ => careful_pure trivial) fun _ => careful_pure trivial
  · cases e <;> exact careful_pure trivial

theorem careful_reassignItem (item : ResourceKind × ResourceId) (r : Summary) :
    (reassignItem operator s item r).Careful fun _ => True := by
  refine Careful.bind (careful_reassign _ _) fun x _ => ?_
  rcases x with e | _ | ⟨old, fresh⟩
  · exact careful_fail
  · exact careful_log (careful_pure trivial)
  · exact careful_log (careful_pure trivial)

theorem careful_createItem (g : GroupId) (r : Summary) :
    (createItem operator g r).Careful fun _ => True := by
  have hcreate : (createMissing operator g).Careful fun _ => True := by
    refine careful_look rfl (fun rows _ => ?_) fun _ => careful_pure trivial
    dsimp only
    split
    · exact careful_pure trivial
    · refine Careful.bind (Groups.careful_create _) fun x _ => ?_
      cases x <;> exact careful_pure trivial
  refine hcreate.bind fun x _ => ?_
  rcases x with e | _ | _
  · exact careful_fail
  · exact careful_log (careful_pure trivial)
  · exact careful_log (careful_pure trivial)

theorem careful_deleteItem (g : GroupId) (r : Summary) :
    (deleteItem g r).Careful fun _ => True := by
  refine careful_look rfl (fun removed _ => ?_) fun e => ?_
  · dsimp only
    split
    · exact careful_log (careful_pure trivial)
    · exact careful_log (careful_pure trivial)
  · cases e with
    | notFound => exact careful_log (careful_pure trivial)
    | _ => exact careful_fail

theorem careful_deleteRepeated (kept : List Grant) (removed : Nat) (rows : List Entry) :
    (deleteRepeated kept removed rows).Careful fun _ => True := by
  induction rows generalizing kept removed with
  | nil => exact careful_pure trivial
  | cons e rest ih =>
    rw [deleteRepeated]
    split
    · exact ih _ _
    · refine careful_look rfl (fun _ _ => ih _ _) fun e => ?_
      cases e with
      | notFound => exact ih _ _
      | _ => exact careful_pure trivial

theorem careful_collapseItem (g : GroupId) (r : Summary) :
    (collapseItem g r).Careful fun _ => True := by
  have hcollapse : (collapseGroup g).Careful fun _ => True :=
    careful_look rfl (fun rows _ => careful_deleteRepeated _ _ _) fun _ => careful_pure trivial
  refine hcollapse.bind fun x _ => ?_
  rcases x with e | removed
  · exact careful_fail
  · dsimp only
    split
    · exact careful_log (careful_pure trivial)
    · exact careful_pure trivial

theorem careful_collapseDuplicates : (collapseDuplicates r).Careful fun _ => True := by
  refine careful_checkpoint fun r => ?_
  split
  · exact careful_pure trivial
  · exact careful_look rfl (fun _ _ => careful_forItems careful_collapseItem) fun _ => careful_fail

theorem careful_repair : (repair operator s r).Careful fun _ => True := by
  refine careful_splitMixed.bind fun r _ => ?_
  refine (careful_forItems careful_reassignItem).bind fun r _ => ?_
  refine (careful_forItems careful_createItem).bind fun r _ => ?_
  refine (careful_forItems careful_deleteItem).bind fun r _ => ?_
  exact careful_collapseDuplicates

theorem careful_runHolding : (runHolding operator).Careful fun _ => True := by
  refine careful_log (careful_scan.bind fun x _ => ?_)
  rcases x with e | ⟨s, r⟩
  · exact careful_quiet (by simp) fun _ => careful_pure trivial
  · refine careful_repair.bind fun r _ => ?_
    exact careful_quiet (by simp) fun _ => careful_log (careful_pure trivial)

/-- A sweep stores well-formed grants only. -/
theorem careful_runOnce : (runOnce operator).Careful fun _ => True := by
  refine careful_quiet (by simp) fun claimed => ?_
  split
  · exact careful_runHolding.bind fun _ _ => careful_quiet (by simp) fun _ => careful_pure trivial
  · exact careful_log (careful_quiet (by simp) fun _ => careful_pure trivial)

end Sweep

/-! ### Orderly stores -/

/-- A failing call shows nothing. -/
theorem Op.sane_of_refusal? {c : Call} {e : StoreError} {x : c.Answer}
    (h : Watch.refusal? c e = some x) : Op.Sane (.call c) x := by
  cases c with
  | store c =>
    cases h
    cases c <;> trivial
  | registry c =>
    cases h
    trivial
  | principal c => cases h

/-- All rows are well-formed, and no kind has its resources among them. -/
structure Backend.Orderly (b : Backend) : Prop where
  wellFormed : ∀ e ∈ b.entries, e.WellFormed
  apart : b.Apart

namespace Backend.Orderly

variable {b b' : Backend} {c : StoreCall} {x : c.Answer}

/-- A call that brings in well-formed grants only keeps the store orderly. -/
theorem performStore (h : b.Orderly) (hc : ∀ g ∈ c.grants, g.WellFormed)
    (hcall : b.performStore c = some (x, b')) : b'.Orderly where
  wellFormed e he := (mem_entries_performStore hcall e he).elim (hc _) (h.wellFormed e)
  apart := h.apart.performStore hcall

/-- The answers of an orderly store are sane. -/
theorem sane (h : b.Orderly) (hcall : b.performStore c = some (x, b')) :
    Op.Sane (.call (.store c)) x := by
  rcases x with e | v
  · cases c <;> trivial
  · have hshown := mem_entries_of_shown hcall
    cases c with
    | findAll | findGroup => exact fun e he => h.wellFormed e (hshown e he).1
    | findMixed =>
      refine List.eq_nil_iff_forall_not_mem.2 fun e he => ?_
      have hunmixed := (h.wellFormed e (hshown e he).1).isMixed_eq_false
      exact Bool.eq_false_iff.1 hunmixed ((hshown e he).2 rfl)
    | allocateGroup => exact isValid_of_allocateGroup (fun e he => (h.wellFormed e he).1) hcall
    | _ => trivial

end Backend.Orderly

namespace World

variable {w : World} {op : Op}

/-- What the world answers to an operation. A call can fail without an effect, and a poll can see a
request for cancellation. -/
def respond (w : World) (fault : Option StoreError) (cancelled : Bool) (op : Op) :
    Option op.Answer × World :=
  let (x, u) := Watch.handle ⟨fun _ => fault, fun _ => cancelled⟩ { world := w } op
  (x, u.world)

theorem orderly_answer (h : w.backend.Orderly) {c : Call} (hc : Op.Proper (.call c)) :
    (w.answer c).2.backend.Orderly ∧ ∀ x, (w.answer c).1 = some x → Op.Sane (.call c) x := by
  cases c with
  | store c =>
    rw [answer]
    cases hcall : w.backend.performStore c with
    | none =>
      refine ⟨h, ?_⟩
      rintro _ ⟨⟩
    | some y =>
      refine ⟨h.performStore hc hcall, ?_⟩
      rintro _ ⟨⟩
      exact h.sane hcall
  | registry c =>
    obtain ⟨hentries, hapart⟩ := Backend.entries_performRegistry h.apart c
    refine ⟨?_, fun _ _ => by cases c <;> trivial⟩
    rw [answer]
    dsimp only
    obtain ⟨log, hlog⟩ := foldl_say_eq (w.backend.remarks c (w.backend.performRegistry c).1)
      { w with backend := (w.backend.performRegistry c).2 }
    rw [hlog]
    exact ⟨fun e he => h.wellFormed e (hentries ▸ he), hapart⟩
  | principal c => exact ⟨h, fun _ _ => by cases c <;> trivial⟩

/-- Operations that bring in well-formed grants only keep the store orderly, and the answers to them
are sane. -/
theorem orderly_respond (h : w.backend.Orderly) (hop : op.Proper) (fault : Option StoreError)
    (cancelled : Bool) : (w.respond fault cancelled op).2.backend.Orderly ∧
      ∀ x, (w.respond fault cancelled op).1 = some x → op.Sane x := by
  cases op with
  | call c =>
    rw [respond, Watch.handle, Watch.answer]
    cases hrefusal : (Option.bind fault (Watch.refusal? c)) with
    | some y =>
      refine ⟨h, ?_⟩
      rintro _ ⟨⟩
      obtain ⟨e, -, hrefuse⟩ := Option.bind_eq_some_iff.1 hrefusal
      exact Op.sane_of_refusal? hrefuse
    | none =>
      have hreach : (({ world := w } : Watch).reach c).1 = (w.answer c).1 ∧
          (({ world := w } : Watch).reach c).2.world = (w.answer c).2 := by
        rw [Watch.reach]
        rcases w.answer c with ⟨_ | x, v⟩ <;> exact ⟨rfl, rfl⟩
      dsimp only
      rw [hreach.1, hreach.2]
      exact orderly_answer h hop
  | log | record | poll | claim | release => exact ⟨h, fun _ _ => trivial⟩

end World

/-! ### Everything at the same time -/

/-- What can be asked for. -/
inductive Operation where
  | groups (request : Scenario.GroupRequest)
  | remove (kind : ResourceKind) (resource : ResourceId)
  | sweep (operator : UserId)

namespace Operation

/-- The program that does what was asked for. -/
def program : Operation → Prog Unit
  | .groups request => request.program >>= fun _ => pure ()
  | .remove kind resource => Removal.deleteResource kind resource >>= fun _ => pure ()
  | .sweep operator => Sweep.runOnce operator >>= fun _ => pure ()

theorem careful_program (operation : Operation) : operation.program.Careful fun _ => True := by
  have hreturn {α : Type} {p : Prog α} (h : p.Careful fun _ => True) :
      (p >>= fun _ => pure ()).Careful fun _ => True :=
    h.bind fun _ _ => Prog.careful_pure trivial
  cases operation with
  | groups request => exact hreturn request.careful_program
  | remove => exact hreturn Removal.careful_deleteResource
  | sweep => exact hreturn Sweep.careful_runOnce

end Operation

/-- A world with the programs that go on in it. -/
structure Bustle where
  world : World
  programs : List (Prog Unit) := []

namespace Bustle

/-- What happens next. -/
inductive Event where
  /-- Something is asked for. -/
  | ask (operation : Operation)
  /-- The program of this number is answered its next operation. If that is a call, it can fail, and
  if it looks for a cancellation, it can see one. A program without an answer is abandoned. -/
  | go (n : Nat) (fault : Option StoreError) (cancelled : Bool)
  /-- An abandoned program gives the flag back. -/
  | release
  /-- Another writer adds a resource or overwrites its reference. -/
  | put (kind : ResourceKind) (row : HostRow)

/-- The world and the programs after an event. -/
def after (w : Bustle) : Event → Bustle
  | .ask operation => { w with programs := w.programs ++ [operation.program] }
  | .go n fault cancelled =>
    match w.programs[n]? with
    | some (.step op next) =>
      let (x, world) := w.world.respond fault cancelled op
      ⟨world, w.programs.set n (x.elim .abandon next)⟩
    | _ => w
  | .release => { w with world := { w.world with running := false } }
  | .put kind row =>
    match Scenario.writeBehind (.put kind row) w.world.backend with
    | some backend => { w with world := { w.world with backend } }
    | none => w

/-- The world and the programs after some events. -/
def run (w : Bustle) (events : List Event) : Bustle :=
  events.foldl after w

/-- The store is orderly, and the programs are careful. -/
structure Orderly (w : Bustle) : Prop where
  backend : w.world.backend.Orderly
  careful : ∀ p ∈ w.programs, p.Careful fun _ => True

variable {w : Bustle}

/-- Whatever happens next keeps the store orderly. -/
theorem Orderly.after (h : w.Orderly) (event : Event) : (w.after event).Orderly := by
  cases event with
  | ask operation =>
    refine ⟨h.backend, fun p hp => ?_⟩
    rcases List.mem_append.1 hp with hp | hp
    · exact h.careful p hp
    · exact List.mem_singleton.1 hp ▸ operation.careful_program
  | go n fault cancelled =>
    rw [Bustle.after]
    split
    · next op next hp =>
      obtain ⟨hproper, hnext⟩ := h.careful _ (List.mem_of_getElem? hp) () rfl
      obtain ⟨hbackend, hsane⟩ := World.orderly_respond h.backend hproper fault cancelled
      refine ⟨hbackend, fun p hp => ?_⟩
      rcases List.mem_or_eq_of_mem_set hp with hp | rfl
      · exact h.careful p hp
      · cases hx : (w.world.respond fault cancelled op).1 with
        | none => trivial
        | some x => exact hnext x () (hsane x hx)
    · exact h
  | release => exact ⟨h.backend, h.careful⟩
  | put kind row =>
    rw [Bustle.after]
    split
    · next b hput =>
      obtain ⟨hentries, hapart⟩ := Backend.entries_put h.backend.apart hput
      exact ⟨⟨fun e he => h.backend.wellFormed e (hentries ▸ he), hapart⟩, h.careful⟩
    · exact h

theorem Orderly.run (h : w.Orderly) (events : List Event) : (w.run events).Orderly := by
  induction events generalizing w with
  | nil => exact h
  | cons event rest ih => exact ih (h.after event)

/-- **No operation brings in a row that is not well-formed.** Let all rows be well-formed, and let
any requests, removals of resources and sweeps go on at the same time, with any failing calls, any
cancellation and any references of resources. After each step all rows are well-formed. -/
theorem wellFormed_run {w : World} (hrows : ∀ e ∈ w.backend.entries, e.WellFormed)
    (hapart : w.backend.Apart) (events : List Event) :
    ∀ e ∈ (run ⟨w, []⟩ events).world.backend.entries, e.WellFormed :=
  (Orderly.run ⟨⟨hrows, hapart⟩, fun _ hp => (List.not_mem_nil hp).elim⟩ events).backend.wellFormed

/-- A store with one row. -/
def sparse : World where
  backend := .memory
    { entries := .ofRows [⟨⟨⟨5⟩, some ⟨1⟩, none, .full⟩, ⟨1⟩⟩], nextEntry := 2 } {}

/-- Resources share a group or have none while a sweep, a removal that fails, and the creation of
rows go on at the same time. -/
def turmoil : List Event :=
  [.put .page ⟨⟨1⟩, some ⟨5⟩⟩, .put .page ⟨⟨2⟩, some ⟨5⟩⟩, .put .form ⟨⟨1⟩, some ⟨-3⟩⟩,
    .put .form ⟨⟨2⟩, some ⟨8⟩⟩, .ask (.sweep ⟨9⟩),
    .ask (.groups (.createGroup [.forUnit ⟨-1⟩ ⟨4⟩ .full])), .ask (.remove .page ⟨1⟩)] ++
  List.replicate 20 (.go 0 none false) ++ List.replicate 2 (.go 1 none false) ++
  List.replicate 3 (.go 2 none false) ++ List.replicate 4 (.go 0 none false) ++
  [.go 2 (some (.backend "locked")) false, .go 2 none false] ++
  List.replicate 40 (.go 0 none false)

theorem wellFormed_turmoil :
    (∀ e ∈ sparse.backend.entries, e.WellFormed) ∧ sparse.backend.Apart ∧
      (run ⟨sparse, []⟩ turmoil).world.backend.entries.map (fun e => (e.id.val, e.group.val)) =
        [(2, 6), (3, 7), (4, 5), (5, 9), (6, 8)] ∧
      ∀ e ∈ (run ⟨sparse, []⟩ turmoil).world.backend.entries, e.WellFormed := by
  have hrows : ∀ e ∈ sparse.backend.entries, e.WellFormed := by decide +kernel
  exact ⟨hrows, trivial, by decide +kernel, wellFormed_run hrows trivial turmoil⟩

end Bustle

end AccessGroups
