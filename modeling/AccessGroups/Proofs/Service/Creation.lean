import AccessGroups.Proofs.Program.Among
import AccessGroups.Service.Groups

/-!
# Creating a resource among others

A client creates a resource in two steps: it creates a group with the rows for it, and then it
registers the resource with that group. Between its calls a program of somebody else goes on, and
between the calls of that program the client does. On the ledger the client makes three moves: it is
allotted a group, the rows are stored, and the resource is registered.

Some moments are milestones, and it matters in which order they come: when the rows of the client
are stored, when the other program reads all rows, when it lists the resources of the kind, and when
the resource is registered.

## Main definitions

* `Backend.put`: another writer puts a resource into the store.
* `Client`, `Client.Acts`: a client that creates a resource.
* `Setting.creation`: a program among the calls of such a client.
* `Amid.turn`, `Amid.play`: what the two do if they go on in given turns.
* `Milestone`, `Straddles`: the moments that matter, and their one order that does harm.
* `Outlook`, `Outlook.Move`: the ledger with how far the client has come, and its moves.

## Main results

* `Backend.put_shows`: what putting a resource into a store does in the ledger.
* `Amid.reaches_play`: taking turns is one way to go on.
* `Client.At.acts`: whatever the client does is a move on the ledger, or none.
* `Setting.simulates_creation`: the steps of the program and of the client are those on the ledger.
-/

namespace AccessGroups

/-! ### Putting a resource into a store -/

/-- The ledger with another resource, whose reference the kinds in its table have. -/
structure Ledger.Registered (l : Ledger) (kind : ResourceKind) (ref : GroupRef) (t : Ledger) :
    Prop where
  rows : t.rows = l.rows
  nextGroup : t.nextGroup = l.nextGroup
  table : t.table = l.table
  new : ∀ a ∈ l.refs kind, a.resource ≠ ref.resource
  mem : ref ∈ t.refs kind

namespace Backend

variable {b : Backend} {l : Ledger} {kind : ResourceKind} {ref : GroupRef}

/-- The store after another writer has put a resource into it. A constraint may forbid it. -/
def put (b : Backend) (kind : ResourceKind) (ref : GroupRef) : Backend :=
  match b with
  | .memory store registry => .memory store (registry.put kind ref)
  | .database tables data =>
    .database tables (data.putResource (tables.table kind) ⟨ref.resource, some ref.group⟩)

/-- Putting a row into a table of others changes its rows only. -/
theorem putRaw_eq (h : HostTable) (row : HostRow) : ∃ rows, h.putRaw row = { h with rows } := by
  rw [HostTable.putRaw]
  split
  · exact ⟨h.rows, rfl⟩
  · exact ⟨_, rfl⟩

/-- A table of others is what it was, or has other rows. -/
theorem putResource_eq {d : Database} {names : ResourceTable} {h : HostTable} {row : HostRow}
    (hn : d.Houses names h) :
    d.putResource names row = d ∨
      ∃ rows, d.putResource names row = d.setHost { h with rows } := by
  rw [Database.putResource, Database.table?_eq hn]
  dsimp only
  split
  · next new _ =>
    refine (ite_eq_or_eq _ _ _).symm.imp_right fun hadd => ?_
    obtain ⟨rows, hrows⟩ := putRaw_eq h new
    exact ⟨rows, hadd.trans (congrArg d.setHost hrows)⟩
  · exact .inl rfl

/-- A new resource that is there after it was put into the store is all that has changed. -/
theorem put_shows (h : b.Shows l) (hnew : ∀ a ∈ b.refs kind, a.resource ≠ ref.resource)
    (hmem : ref ∈ (b.put kind ref).refs kind) :
    ∃ t, (b.put kind ref).Shows t ∧ l.Registered kind ref t := by
  rw [h.refs_eq] at hnew
  cases b with
  | memory s r =>
    have hseparate : l.Separate := MemoryStore.Shows.separate h
    let t : Ledger := { l with
      refs := fun k => ((r.put kind ref).refs k).rows
      ordered := fun k => ((r.put kind ref).refs k).ascending
      together := fun k k' heq => by rw [hseparate k k' heq] }
    have hshows : (Backend.put (.memory s r) kind ref).Shows t :=
      ⟨h.rows, fun _ => rfl, h.counted, h.nextGroup, hseparate⟩
    exact ⟨t, hshows, rfl, rfl, rfl, hnew, hshows.refs_eq kind ▸ hmem⟩
  | database tables d =>
    have hnot : d.putResource (tables.table kind) ⟨ref.resource, some ref.group⟩ ≠ d := by
      intro heq
      rw [put, heq, h.refs_eq] at hmem
      exact hnew ref hmem rfl
    rcases h.2.hosts kind with hlacks | ⟨host, hn⟩
    · refine (hnot ?_).elim
      have htable : d.table? (tables.table kind).table = none := by
        rw [Database.table?_of_foreign hlacks.foreign, hlacks.absent]
        rfl
      rw [Database.putResource, htable]
    · obtain ⟨rows, hput⟩ := (putResource_eq hn).resolve_left hnot
      let t : Ledger := { l with
        refs := fun k =>
          if l.table k = l.table kind then rows.rows.map HostRow.shown else l.refs k
        ordered := fun k => by
          split
          · exact List.pairwise_map.2 rows.ascending
          · exact l.ordered k
        together := fun k k' heq => by rw [heq, l.together k k' heq] }
      have hrefs : (d.setHost { host with rows }).ShowsRefs tables t :=
        Database.showsRefs_setHost h.2 hn rows (if_pos rfl) rfl fun k hk => if_neg hk
      have hshows : (Backend.put (.database tables d) kind ref).Shows t := by
        rw [put, hput]
        obtain ⟨⟨t₀, htidy, hrows⟩, hsequence⟩ := h.1
        exact ⟨⟨⟨t₀, ⟨htidy.entries, htidy.marks, htidy.nonnegative, htidy.counted⟩, hrows⟩,
          hsequence⟩, hrefs⟩
      exact ⟨t, hshows, rfl, rfl, rfl, hnew, hshows.refs_eq kind ▸ hmem⟩

end Backend

/-! ### The client -/

/-- A client that creates a resource: a group is being created for it, or it has been registered
with its group. -/
inductive Client where
  | creating (rest : Prog (Except ServiceError GroupId))
  | registered (group : GroupId)

/-- What a client does. -/
inductive Deed where
  | asked (op : Op) (answer : op.Answer)
  | registered (group : GroupId)

/-- The client goes on creating the group, or it registers a new resource with it. There has to be
room for a call. -/
inductive Client.Acts (kind : ResourceKind) (r : ResourceId) (room : World → Call → Prop) :
    Client → World → Deed → Client → World → Prop
  | ask {op : Op} {next : op.Answer → Prog (Except ServiceError GroupId)} {w v : World}
      {x : op.Answer} (hroom : ∀ c, op = .call c → room w c)
      (hhandle : w.handle op = (some x, v)) :
      Acts kind r room (.creating (.step op next)) w (.asked op x) (.creating (next x)) v
  | register {g : GroupId} {w : World} (hnew : ∀ a ∈ w.backend.refs kind, a.resource ≠ r)
      (hmem : ⟨r, g⟩ ∈ (w.backend.put kind ⟨r, g⟩).refs kind) :
      Acts kind r room (.creating (.done (.ok g))) w (.registered g) (.registered g)
        { w with backend := w.backend.put kind ⟨r, g⟩ }

/-- A program among the calls of a client that creates a resource. Its own calls can fail, and it
can be cancelled. -/
def Setting.creation (kind : ResourceKind) (r : ResourceId) (room : World → Call → Prop) :
    Setting Client Deed where
  acts := Client.Acts kind r room
  conditions := ⟨fun _ => True, True⟩
  admits := room

/-- Both are done: the program has a value, and the client has registered its resource. -/
def Amid.Finished {α : Type} (c : Amid α Client Deed) : Prop :=
  (∃ x, c.rest = .done x) ∧ ∃ g, c.others = .registered g

instance (s : Client) : Decidable (∃ g, s = .registered g) :=
  match s with
  | .creating _ => isFalse nofun
  | .registered g => isTrue ⟨g, rfl⟩

instance {α : Type} (c : Amid α Client Deed) : Decidable c.Finished :=
  inferInstanceAs (Decidable (_ ∧ _))

/-- The call exhausts no counter of identifiers. -/
def World.HasRoom (w : World) (c : Call) : Prop :=
  w.backend.idCounters.exhaustedBy c = false

instance (w : World) (c : Call) : Decidable (w.HasRoom c) :=
  inferInstanceAs (Decidable (_ = _))

/-! ### Taking turns -/

/-- Whose turn it is. -/
inductive Turn where
  | program
  | client

instance (room : World → Call → Prop) [∀ w c, Decidable (room w c)] (w : World) (op : Op) :
    Decidable (∀ c, op = .call c → room w c) :=
  match op with
  | .call c => decidable_of_iff (room w c) ⟨fun h _ heq => Op.call.inj heq ▸ h, fun h => h c rfl⟩
  | .log _ | .record _ | .poll | .claim | .release => isTrue nofun

namespace Amid

variable {α : Type} (kind : ResourceKind) (r : ResourceId) (room : World → Call → Prop)
  [∀ w c, Decidable (room w c)]

/-- One step of the program or of the client. Without room, an answer, or anything left to do all
stays as it is. -/
def turn (b : Amid α Client Deed) : Turn → Amid α Client Deed
  | .program =>
    match b.rest with
    | .step op next =>
      if ∀ c, op = .call c → room b.world c then
        match b.world.handle op with
        | (some x, v) => ⟨next x, b.others, v, b.history ++ (op.exchange? x).toList.map .own⟩
        | (none, _) => b
      else b
    | _ => b
  | .client =>
    match b.others with
    | .creating (.step op next) =>
      if ∀ c, op = .call c → room b.world c then
        match b.world.handle op with
        | (some x, v) => ⟨b.rest, .creating (next x), v, b.history ++ [.other (.asked op x)]⟩
        | (none, _) => b
      else b
    | .creating (.done (.ok g)) =>
      if (∀ a ∈ b.world.backend.refs kind, a.resource ≠ r) ∧
          ⟨r, g⟩ ∈ (b.world.backend.put kind ⟨r, g⟩).refs kind then
        ⟨b.rest, .registered g, { b.world with backend := b.world.backend.put kind ⟨r, g⟩ },
          b.history ++ [.other (.registered g)]⟩
      else b
    | _ => b

/-- Steps in these turns. -/
def play (turns : List Turn) (b : Amid α Client Deed) : Amid α Client Deed :=
  turns.foldl (turn kind r room) b

variable {kind r room}

/-- Taking turns is one way for a program and a client to go on. -/
theorem reaches_turn (b : Amid α Client Deed) (t : Turn) :
    (Setting.creation kind r room).Reaches b (b.turn kind r room t) := by
  obtain ⟨rest, others, w, h⟩ := b
  cases t with
  | program =>
    cases rest with
    | done x => exact .refl
    | abandon => exact .refl
    | step op next =>
      simp only [turn]
      split
      · next hroom =>
        split
        · next x v hhandle =>
          exact .single (.own (Setting.answers_of_handle _ hroom hhandle))
        · exact .refl
      · exact .refl
  | client =>
    simp only [turn]
    split
    · split
      · next hroom =>
        split
        · next hhandle => exact .single (.other (.ask hroom hhandle))
        · exact .refl
      · exact .refl
    · split
      · next h => exact .single (.other (.register h.1 h.2))
      · exact .refl
    · exact .refl

theorem reaches_play (turns : List Turn) (b : Amid α Client Deed) :
    (Setting.creation kind r room).Reaches b (b.play kind r room turns) := by
  induction turns generalizing b with
  | nil => exact .refl
  | cons t turns ih => exact (reaches_turn b t).trans (ih _)

end Amid

/-! ### Milestones -/

/-- A moment that matters: the rows of the client are stored, the other program reads all rows or
lists the resources of the kind, the resource is registered. -/
inductive Milestone where
  | stored
  | read
  | listed
  | registered
  deriving DecidableEq

/-- The milestone that a call of the other program is, if it is one. -/
def Call.milestone? (kind : ResourceKind) : Call → Option Milestone
  | .store .findAll => some .read
  | .registry (.listRefs k) => if k = kind then some .listed else none
  | _ => none

/-- The milestone that something the client does is, if it is one. -/
def Deed.milestone? : Deed → Option Milestone
  | .asked (.call (.store (.replaceGroup _ _))) (.ok _) => some .stored
  | .registered _ => some .registered
  | _ => none

/-- The milestone that the moment is, if it is one. -/
def Moment.milestone? (kind : ResourceKind) : Moment Deed → Option Milestone
  | .own x => x.call.milestone? kind
  | .other e => e.milestone?

/-- The creation straddles the scan of the kind: the rows were stored before all rows were read, and
the resource was registered after the resources were listed. -/
def Straddles (kind : ResourceKind) (history : List (Moment Deed)) : Prop :=
  [.stored, .read, .listed, .registered].Sublist (history.filterMap (Moment.milestone? kind))

instance (kind : ResourceKind) (history : List (Moment Deed)) :
    Decidable (Straddles kind history) :=
  inferInstanceAs (Decidable (List.Sublist _ _))

/-! ### The client on the ledger -/

/-- How far the client has come. -/
inductive Client.Stage where
  | idle
  | allotted (group : GroupId)
  | stored (group : GroupId)
  | registered

/-- The ledger with how far the client has come, and the milestones so far. -/
structure Outlook where
  ledger : Ledger
  stage : Client.Stage
  passed : List Milestone

namespace Outlook

/-- One move of the client. -/
inductive Move (kind : ResourceKind) (r : ResourceId) (grants : List Grant) :
    Outlook → Outlook → Prop
  | allot {l t : Ledger} {g : GroupId} {passed : List Milestone}
      (hgives : l.Gives .allocateGroup g t) :
      Move kind r grants ⟨l, .idle, passed⟩ ⟨t, .allotted g, passed⟩
  | store {l t : Ledger} {g : GroupId} {v : List Entry} {passed : List Milestone}
      (hgives : l.Gives (.replaceGroup g (grants.map (·.withGroup g))) v t) :
      Move kind r grants ⟨l, .allotted g, passed⟩ ⟨t, .stored g, passed ++ [.stored]⟩
  | register {l t : Ledger} {g : GroupId} {passed : List Milestone}
      (hregistered : l.Registered kind ⟨r, g⟩ t) :
      Move kind r grants ⟨l, .stored g, passed⟩ ⟨t, .registered, passed ++ [.registered]⟩

/-- Any number of moves of the client. -/
abbrev Rely (kind : ResourceKind) (r : ResourceId) (grants : List Grant) :
    Outlook → Outlook → Prop :=
  Relation.ReflTransGen (Move kind r grants)

instance (kind : ResourceKind) (r : ResourceId) (grants : List Grant) :
    IsPreorder Outlook (Rely kind r grants) where
  refl _ := .refl
  trans _ _ _ := .trans

/-- After a call of the other program that left this ledger. -/
def after (a : Outlook) (kind : ResourceKind) (c : Call) (t : Ledger) : Outlook :=
  ⟨t, a.stage, a.passed ++ (c.milestone? kind).toList⟩

/-- An operation of the other program. A call is answered as the ledger says, or it fails. -/
def Step (kind : ResourceKind) (a : Outlook) : (op : Op) → op.Answer → Outlook → Prop
  | .call (.store c), .ok v, b => ∃ t, a.ledger.Gives c v t ∧ b = a.after kind (.store c) t
  | .call (.registry c), .ok v, b =>
    ∃ t, a.ledger.GivesRegistry c v t ∧ b = a.after kind (.registry c) t
  | .call c, _, b => b = a.after kind c a.ledger
  | _, _, b => b = a

end Outlook

namespace Client

/-- Ask for a group, and store the rows under it. -/
def storing (grants : List Grant) (g : GroupId) : Prog (Except ServiceError GroupId) := do
  match ← Prog.store (.replaceGroup g (grants.map (·.withGroup g))) with
  | .error e => return .error (.store e)
  | .ok _ =>
    Prog.log (.groupCreated g grants.length)
    return .ok g

/-- What is left of a client at each stage. -/
inductive At (grants : List Grant) : Client → Stage → Prop
  | allocating : At grants (.creating (Groups.nextGroup >>= fun x => match x with
      | .error e => return .error e
      | .ok g => storing grants g)) .idle
  | storing {g : GroupId} : At grants (.creating (storing grants g)) (.allotted g)
  | logging {g : GroupId} : At grants (.creating (Prog.log (.groupCreated g grants.length) >>=
      fun _ => return .ok g)) (.stored g)
  | ready {g : GroupId} : At grants (.creating (return .ok g)) (.stored g)
  | registered {g : GroupId} : At grants (.registered g) .registered
  | failed {e : ServiceError} {stage : Stage} : At grants (.creating (return .error e)) stage

/-- A client with valid grants begins by asking for a group. -/
theorem at_createGroup {grants : List Grant} (hsome : grants ≠ [])
    (hvalid : Grant.checkAll Grant.validatePrincipal grants = .ok ()) :
    At grants (.creating (Groups.createGroup grants)) .idle := by
  have heq : Groups.createGroup grants = Groups.nextGroup >>= fun x => match x with
      | .error e => return .error e
      | .ok g => storing grants g := by
    rw [Groups.createGroup, if_neg (by simpa using hsome), hvalid]
    rfl
  rw [heq]
  exact .allocating

variable {kind : ResourceKind} {r : ResourceId} {grants : List Grant} {s s' : Client}
  {w v : World} {e : Deed} {a : Outlook}

theorem Acts.of_step {room : World → Call → Prop} {op : Op}
    {next : op.Answer → Prog (Except ServiceError GroupId)}
    (h : Acts kind r room (.creating (.step op next)) w e s' v) :
    ∃ x, (∀ c, op = .call c → room w c) ∧ w.handle op = (some x, v) ∧ e = .asked op x ∧
      s' = .creating (next x) := by
  cases h with
  | ask hroom hhandle => exact ⟨_, hroom, hhandle, rfl, rfl⟩

/-- Whatever the client does is a move on the ledger, or none. -/
theorem At.acts (hat : s.At grants a.stage) (hshows : w.backend.Shows a.ledger)
    (h : Acts kind r World.HasRoom s w e s' v) :
    ∃ b, Outlook.Rely kind r grants a b ∧ v.backend.Shows b.ledger ∧ s'.At grants b.stage ∧
      b.passed = a.passed ++ e.milestone?.toList := by
  obtain ⟨l, stage, passed⟩ := a
  cases hat with
  | allocating =>
    obtain ⟨x, hroom, hhandle, rfl, rfl⟩ := Acts.of_step h
    rcases World.answer_store hshows .allocateGroup (hroom _ rfl) with
      ⟨g, b, t, hanswer, hgives, hb⟩ | ⟨e, hanswer⟩
    · cases hhandle.symm.trans hanswer
      exact ⟨⟨t, .allotted g, passed⟩, .single (.allot hgives), hb, .storing,
        (List.append_nil _).symm⟩
    · cases hhandle.symm.trans hanswer
      exact ⟨⟨l, .idle, passed⟩, .refl, hshows, .failed, (List.append_nil _).symm⟩
  | @storing g =>
    obtain ⟨x, hroom, hhandle, rfl, rfl⟩ := Acts.of_step h
    rcases World.answer_store hshows _ (hroom _ rfl) with
      ⟨rows, b, t, hanswer, hgives, hb⟩ | ⟨e, hanswer⟩
    · cases hhandle.symm.trans hanswer
      exact ⟨⟨t, .stored g, passed ++ [.stored]⟩, .single (.store hgives), hb, .logging, rfl⟩
    · cases hhandle.symm.trans hanswer
      exact ⟨⟨l, .allotted g, passed⟩, .refl, hshows, .failed, (List.append_nil _).symm⟩
  | @logging g =>
    obtain ⟨x, -, hhandle, rfl, rfl⟩ := Acts.of_step h
    cases hhandle
    exact ⟨⟨l, .stored g, passed⟩, .refl, hshows, .ready, (List.append_nil _).symm⟩
  | @ready g =>
    cases h with
    | register hnew hmem =>
      obtain ⟨t, ht, hregistered⟩ := Backend.put_shows hshows hnew hmem
      exact ⟨⟨t, .registered, passed ++ [.registered]⟩, .single (.register hregistered), ht,
        .registered, rfl⟩
  | registered => cases h
  | failed => cases h

end Client

/-! ### The steps on the ledger -/

/-- The world keeps the ledger, the client is where it should be, and the milestones are those that
were passed. -/
structure Outlook.Shown (kind : ResourceKind) (grants : List Grant) (s : Client) (w : World)
    (history : List (Moment Deed)) (a : Outlook) : Prop where
  shows : w.backend.Shows a.ledger
  client : s.At grants a.stage
  passed : a.passed = history.filterMap (Moment.milestone? kind)

/-- The steps of a program and of a client are those on the ledger, as long as no counter of
identifiers is exhausted. -/
theorem Setting.simulates_creation (kind : ResourceKind) (r : ResourceId) (grants : List Grant) :
    (Setting.creation kind r World.HasRoom).Simulates (Outlook.Shown kind grants)
      (Outlook.Step kind) (Outlook.Rely kind r grants) (fun _ _ => True) where
  own {s w h a op x v} hR _ hanswer := by
    obtain ⟨hshows, hat, hpassed⟩ := hR
    have hafter {c : Call} {x : c.Answer} : (a.after kind c a.ledger).passed =
        (h ++ [Moment.own ⟨c, x⟩]).filterMap (Moment.milestone? kind) := by
      rw [List.filterMap_append, ← hpassed]
      cases hc : c.milestone? kind <;> simp [Outlook.after, Moment.milestone?, hc]
    cases op with
    | call c =>
      rcases hanswer with ⟨hroom, hanswer⟩ | ⟨-, ⟨e, hrefusal⟩, rfl⟩
      · cases c with
        | store c =>
          rcases World.answer_store hshows c hroom with ⟨y, b, t, heq, hgives, hb⟩ | ⟨e, heq⟩
          · cases hanswer.symm.trans heq
            exact ⟨_, ⟨t, hgives, rfl⟩, hb, hat, hafter⟩
          · cases hanswer.symm.trans heq
            exact ⟨_, rfl, hshows, hat, hafter⟩
        | registry c =>
          rcases World.answer_registry hshows c with
            ⟨y, b, log, t, heq, hgives, hb⟩ | ⟨e, log, heq⟩
          · cases hanswer.symm.trans heq
            exact ⟨_, ⟨t, hgives, rfl⟩, hb, hat, hafter⟩
          · cases hanswer.symm.trans heq
            exact ⟨_, rfl, hshows, hat, hafter⟩
        | principal c =>
          cases hanswer
          exact ⟨_, rfl, hshows, hat, hafter⟩
      · cases c with
        | store c =>
          cases hrefusal
          exact ⟨_, rfl, hshows, hat, hafter⟩
        | registry c =>
          cases hrefusal
          exact ⟨_, rfl, hshows, hat, hafter⟩
        | principal c => cases hrefusal
    | poll =>
      obtain ⟨-, rfl⟩ := hanswer
      exact ⟨a, rfl, hshows, hat, by simpa [Op.exchange?] using hpassed⟩
    | log | record | claim | release =>
      cases hanswer
      exact ⟨a, rfl, hshows, hat, by simpa [Op.exchange?] using hpassed⟩
  other {s w h a e s' v} hR hacts := by
    obtain ⟨hshows, hat, hpassed⟩ := hR
    obtain ⟨b, hrely, hb, hat', hpassed'⟩ := hat.acts hshows hacts
    refine ⟨b, hrely, hb, hat', ?_⟩
    rw [hpassed', hpassed, List.filterMap_append]
    cases he : e.milestone? <;> simp [Moment.milestone?, he]

end AccessGroups
