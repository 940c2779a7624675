import AccessGroups.Proofs.Sweep.Moves
import AccessGroups.Proofs.Sweep.Safe

/-!
# What justifies the writes of a sweep

Others may change the world between any two calls of a sweep, and any call may fail, so that nothing
is known of the world when a sweep changes it. What a sweep does know is what its own calls answered
before. Every call that changes something has to be justified by these answers: a group is deleted
only if all listings succeeded and none had it, a row only if the sweep read one like it that it
keeps, and so on.

## Main definitions

* `Sweep.Justified`: the record of a sweep justifies a call.
* `Sweep.Honest`: a program makes justified calls only, whatever its calls answer.
* `Sweep.Sees`: what a scan says is in the record.

## Main results

* `Sweep.honest_store`, `Sweep.honest_registry`: programs that begin with a call.
* `Sweep.scan_honest`: what a scan says comes from the record.
-/

namespace AccessGroups

namespace Exchange

/-- The call reads what a scan is made of. -/
def isScanning : Exchange → Bool
  | ⟨.store .findAll, _⟩ | ⟨.registry (.listRefs _), _⟩ => true
  | _ => false

/-- The call splits a row. -/
def isSplitting : Exchange → Bool
  | ⟨.store (.insert _), _⟩ | ⟨.store (.update _), _⟩ => true
  | _ => false

/-- The call prepares the move of a resource. -/
def isPreparing : Exchange → Bool
  | ⟨.store .allocateGroup, _⟩ | ⟨.store (.findGroup _), _⟩ => true
  | _ => false

/-- The call deletes a row. -/
def isDeletion : Exchange → Bool
  | ⟨.store (.deleteEntry _), _⟩ => true
  | _ => false

theorem isDeletion_iff {x : Exchange} :
    x.isDeletion = true ↔ ∃ id, x.call = .store (.deleteEntry id) := by
  rcases x with ⟨c | c | c, v⟩
  · cases c <;> simp [isDeletion]
  · simp [isDeletion]
  · simp [isDeletion]

/-- The rows of a group come in the order of their identifiers. -/
def Credible : Exchange → Prop
  | ⟨.store (.findGroup _), .ok rows⟩ => rows.Pairwise fun a b => a.id < b.id
  | _ => True

end Exchange

namespace Sweep

/-! ### What justifies a call -/

/-- The listing of the kind succeeded with these references. -/
def Listed (record : List Exchange) (kind : ResourceKind) (refs : List GroupRef) : Prop :=
  ⟨.registry (.listRefs kind), .ok refs⟩ ∈ record

/-- All listings succeeded, and the group had a row but is not valid or was not in a listing. -/
structure Orphaned (record : List Exchange) (g : GroupId) : Prop where
  listed : ∀ kind, ∃ refs, Listed record kind refs
  unfailed : ∀ kind e, ⟨.registry (.listRefs kind), .error e⟩ ∉ record
  stored : ∃ rows, ⟨.store .findAll, .ok rows⟩ ∈ record ∧ ∃ e ∈ rows, e.group = g
  unreferred : g.IsValid → ∀ kind refs, Listed record kind refs → ∀ a ∈ refs, a.group ≠ g

/-- Of the rows that were read last, one has the identifier, and one with a smaller identifier has
the same grant. That one is deleted neither before nor in the deletions that follow. -/
def Repeated (before : List Exchange) (id : EntryId) (after : List Exchange) : Prop :=
  ∃ front g rows deleted, before = front ++ ⟨.store (.findGroup g), .ok rows⟩ :: deleted ∧
    (∀ x ∈ deleted, ∃ j, j < id ∧ x.call = .store (.deleteEntry j)) ∧
      ∃ e ∈ rows, ∃ v ∈ rows, e.id = id ∧ v.id < id ∧ v.toGrant = e.toGrant ∧
        ∀ x ∈ deleted ++ after.takeWhile Exchange.isDeletion, x.call ≠ .store (.deleteEntry v.id)

/-- From this call on only these were made, all of one sort. -/
def Since (record : List Exchange) (start : Exchange) (sort : Exchange → Bool)
    (item : List Exchange) : Prop :=
  (∃ front, record = front ++ start :: item) ∧ ∀ x ∈ item, sort x = true

theorem Since.note {record item : List Exchange} {start x : Exchange} {sort : Exchange → Bool}
    (h : Since record start sort item) (hx : sort x = true) :
    Since (record ++ [x]) start sort (item ++ [x]) := by
  obtain ⟨⟨front, rfl⟩, hall⟩ := h
  refine ⟨⟨front, by simp⟩, fun y hy => ?_⟩
  rcases List.mem_append.1 hy with hy | hy
  · exact hall y hy
  · exact List.mem_singleton.1 hy ▸ hx

/-- Since the group of the resource was looked up only calls were made that prepare its move. -/
abbrev Preparing (record : List Exchange) (kind : ResourceKind) (r : ResourceId) (g : GroupId)
    (item : List Exchange) : Prop :=
  Since record ⟨.registry (.findRef kind r), .ok g⟩ Exchange.isPreparing item

/-- The group was handed out for a resource, is in no listing, and gets the rows that were read of
the group of the resource. -/
structure Allotted (operator : UserId) (record : List Exchange) (n : GroupId)
    (grants : List Grant) : Prop where
  issued : ∃ kind r g item source, Preparing record kind r g item ∧
    ⟨.store .allocateGroup, .ok n⟩ ∈ item ∧ grants = copies operator source n ∧
      if g.IsValid then ⟨.store (.findGroup g), .ok source⟩ ∈ item else source = []
  unreferred : ∀ kind refs, Listed record kind refs →
    ∀ a ∈ refs, a.group.IsValid → a.group ≠ n
  nonempty : grants ≠ []
  stamped : ∀ x ∈ grants, x.group = n

/-- Since the rows with two principals were listed only rows were split. -/
abbrev Halving (record : List Exchange) (mixed : List Entry) (splits : List Exchange) : Prop :=
  Since record ⟨.store .findMixed, .ok mixed⟩ Exchange.isSplitting splits

/-- The row lacks the user that a listed row with two principals has, and the user got a row. -/
def Cleared (record : List Exchange) (row : Entry) : Prop :=
  ∃ mixed splits, Halving record mixed splits ∧ ∃ e ∈ mixed, e.isMixed = true ∧
    row = { e with user := none } ∧ ∃ v, ⟨.store (.insert e.toGrant.userHalf), .ok v⟩ ∈ splits

/-- The grant is that of the user of a listed row with two principals. -/
def Borrowed (record : List Exchange) (grant : Grant) : Prop :=
  ∃ mixed splits, Halving record mixed splits ∧
    ∃ e ∈ mixed, e.isMixed = true ∧ grant = e.toGrant.userHalf

/-- The group was just found to have no rows. It had none before, and was in a listing. -/
def MadeUp (operator : UserId) (record : List Exchange) (grant : Grant) : Prop :=
  ∃ front g, record = front ++ [⟨.store (.findGroup g), .ok []⟩] ∧ grant = fallback operator g ∧
    g.IsValid ∧ (∃ kind refs, Listed record kind refs ∧ ∃ a ∈ refs, a.group = g) ∧
      ∀ rows, ⟨.store .findAll, .ok rows⟩ ∈ record → ∀ e ∈ rows, e.group ≠ g

/-- The resource was in a listing, and the group was just filled for it. -/
def Relocated (record : List Exchange) (kind : ResourceKind) (r : ResourceId) (n : GroupId) :
    Prop :=
  (∃ refs, Listed record kind refs ∧ ∃ a ∈ refs, a.resource = r) ∧
    ∃ front g item grants v, Preparing front kind r g item ∧
      record = front ++ [⟨.store (.replaceGroup n grants), .ok v⟩]

/-- The calls before, with their answers, justify a call. Of the calls after it those matter that go
on deleting rows. -/
def Justified (operator : UserId) (before : List Exchange) (c : Call) (after : List Exchange) :
    Prop :=
  match c with
  | .store (.deleteGroup g) => Orphaned before g
  | .store (.deleteEntry id) => Repeated before id after
  | .store (.replaceGroup n grants) => Allotted operator before n grants
  | .store (.update row) => Cleared before row
  | .store (.insert grant) => Borrowed before grant ∨ MadeUp operator before grant
  | .registry (.assign kind r n) => Relocated before kind r n
  | .registry (.delete _ _) => False
  | _ => True

/-! ### Programs that make justified calls -/

/-- The record after the answer to an operation. -/
def Recorded (record : List Exchange) : (op : Op) → op.Answer → List Exchange → Prop
  | .call c, x, t => Exchange.Credible ⟨c, x⟩ ∧ t = record ++ [⟨c, x⟩]
  | _, _, t => t = record

/-- The record justifies the operation. -/
def May (operator : UserId) (record : List Exchange) : Op → Prop
  | .call c => Justified operator record c []
  | _ => True

/-- Whatever its calls answer, the program makes justified calls only, and if it ends with a value
the record satisfies `Q`. -/
abbrev Honest {α : Type} (operator : UserId) (p : Prog α) (Q : α → List Exchange → Prop)
    (record : List Exchange) : Prop :=
  p.Safe Recorded Eq (May operator) Q record

variable {operator : UserId} {α β : Type} {Q : α → List Exchange → Prop} {record : List Exchange}
  {r : Summary} {s : Scan}

theorem recorded_callsOnly : Prog.CallsOnly Recorded (May operator) where
  keeps {s op x t} hop h := by
    cases op with
    | call c => exact (hop c rfl).elim
    | _ => exact h
  free {s op} hop := by
    cases op with
    | call c => exact (hop c rfl).elim
    | _ => trivial

/-- Nobody else writes into the record. -/
theorem stable_record (I : List Exchange → Prop) : Prog.Stable Eq I :=
  fun _ _ h heq => heq ▸ h

theorem honest_pure {a : α} (h : Q a record) : Honest operator (pure a) Q record :=
  Prog.safe_pure (stable_record _) h

theorem honest_log {e : Event} {f : Unit → Prog α} (h : Honest operator (f ()) Q record) :
    Honest operator (Prog.log e >>= f) Q record :=
  Prog.safe_log recorded_callsOnly h

theorem honest_store {c : StoreCall} {f : c.Answer → Prog α}
    (hmay : Justified operator record (.store c) [])
    (hok : ∀ v, Exchange.Credible ⟨.store c, .ok v⟩ →
      Honest operator (f (.ok v)) Q (record ++ [⟨.store c, .ok v⟩]))
    (herror : ∀ e, Honest operator (f (.error e)) Q (record ++ [⟨.store c, .error e⟩])) :
    Honest operator (Prog.store c >>= f) Q record := by
  refine Prog.safe_perform (stable_record (record = ·)) rfl (fun t ht => ht ▸ hmay) ?_
  rintro _ (e | v) t rfl ⟨hcredible, rfl⟩
  · exact herror e
  · exact hok v hcredible

theorem honest_registry {c : RegistryCall} {f : c.Answer → Prog α}
    (hmay : Justified operator record (.registry c) [])
    (hok : ∀ v, Honest operator (f (.ok v)) Q (record ++ [⟨.registry c, .ok v⟩]))
    (herror : ∀ e, Honest operator (f (.error e)) Q (record ++ [⟨.registry c, .error e⟩])) :
    Honest operator (Prog.registry c >>= f) Q record := by
  refine Prog.safe_perform (stable_record (record = ·)) rfl (fun t ht => ht ▸ hmay) ?_
  rintro _ (e | v) t rfl ⟨-, rfl⟩
  · exact herror e
  · exact hok v

theorem fail_honest {phase : Phase} {target error : String} {Q : Summary → List Exchange → Prop}
    (h : ∀ r, Q r record) : Honest operator (fail r phase target error) Q record :=
  safe_fail recorded_callsOnly (fun _ => stable_record _) h

theorem checkpoint_honest {f : Summary → Prog β} {Q : β → List Exchange → Prop}
    (h : ∀ r, Honest operator (f r) Q record) :
    Honest operator (checkpoint r >>= f) Q record :=
  safe_checkpoint recorded_callsOnly h

/-- A phase keeps what the handling of each item keeps. -/
theorem forItems_honest {ι : Type} {handle : ι → Summary → Prog Summary}
    {I : List Exchange → Prop} {items : List ι}
    (hitem : ∀ item ∈ items, ∀ r record, I record →
      Honest operator (handle item r) (fun _ => I) record)
    (h : I record) : Honest operator (forItems handle items r) (fun _ => I) record := by
  refine (safe_forItems recorded_callsOnly
    (I := fun rest record => I record ∧ ∀ item ∈ rest, item ∈ items) (fun _ => stable_record _)
    (fun item rest r record h => ?_) ⟨h, fun _ => id⟩).mono fun _ _ ⟨_, h⟩ => h.1
  obtain ⟨hrecord, hrest⟩ := h
  refine (hitem item (hrest item List.mem_cons_self) r record hrecord).mono fun _ _ h => ⟨h, ?_⟩
  exact fun item hitem => hrest item (List.mem_cons_of_mem _ hitem)

/-! ### The scan -/

/-- What the scan says is in the record, but for the kinds that are still to be listed. -/
structure Sees (s : Scan) (record : List Exchange) (rest : List ResourceKind) : Prop where
  stored : ∀ g ∈ s.stored, ∃ rows, ⟨.store .findAll, .ok rows⟩ ∈ record ∧ ∃ e ∈ rows, e.group = g
  read : ∀ rows, ⟨.store .findAll, .ok rows⟩ ∈ record → ∀ e ∈ rows, e.group ∈ s.stored
  referenced : ∀ kind refs, Listed record kind refs →
    ∀ a ∈ refs, a.group.IsValid → a.group ∈ s.referenced
  referred : ∀ g ∈ s.referenced, g.IsValid ∧
    ∃ kind refs, Listed record kind refs ∧ ∃ a ∈ refs, a.group = g
  missing : ∀ g ∈ s.missing, g ∈ s.referenced ∧ g ∉ s.stored
  shared : ∀ i ∈ s.shared, ∃ refs, Listed record i.1 refs ∧ ∃ a ∈ refs, a.resource = i.2
  listed : s.listingFailed = false → ∀ kind ∉ rest, ∃ refs, Listed record kind refs
  unfailed : s.listingFailed = false →
    ∀ kind e, ⟨.registry (.listRefs kind), .error e⟩ ∉ record

/-- Other calls do not change what a scan is made of. -/
theorem Sees.note {rest : List ResourceKind} (h : Sees s record rest) {x : Exchange}
    (hx : x.isScanning = false) : Sees s (record ++ [x]) rest := by
  have hread : ∀ v, ⟨.store .findAll, v⟩ ∈ record ++ [x] ↔ ⟨.store .findAll, v⟩ ∈ record := by
    intro v
    rw [List.mem_append, or_iff_left]
    rintro hmem
    rw [← List.mem_singleton.1 hmem] at hx
    cases hx
  have hlist : ∀ kind v, ⟨.registry (.listRefs kind), v⟩ ∈ record ++ [x] ↔
      ⟨.registry (.listRefs kind), v⟩ ∈ record := by
    intro kind v
    rw [List.mem_append, or_iff_left]
    rintro hmem
    rw [← List.mem_singleton.1 hmem] at hx
    cases hx
  obtain ⟨hstored, hread', hreferenced, hreferred, hmissing, hshared, hlisted, hunfailed⟩ := h
  constructor <;> simp only [Listed, hread, hlist] at * <;> assumption

theorem sees_start (rows : List Entry) :
    Sees (Scan.start rows) [⟨.store .findAll, .ok rows⟩] ResourceKind.all where
  stored g hg := by
    refine ⟨rows, List.mem_singleton_self _, ?_⟩
    simpa [Scan.start, Identifier.mem_distinct] using hg
  read rows' h e he := by
    cases List.mem_singleton.1 h
    simpa [Scan.start, Identifier.mem_distinct] using ⟨e, he, rfl⟩
  referenced kind refs h := by cases List.mem_singleton.1 h
  referred g hg := (List.not_mem_nil hg).elim
  missing g hg := (List.not_mem_nil hg).elim
  shared i hi := (List.not_mem_nil hi).elim
  listed _ kind hkind := (hkind kind.mem_all).elim
  unfailed _ kind e h := by cases List.mem_singleton.1 h

theorem read_append {c : RegistryCall} {x : c.Answer} {v : Except StoreError (List Entry)} :
    ⟨.store .findAll, v⟩ ∈ record ++ [(⟨.registry c, x⟩ : Exchange)] ↔
      ⟨.store .findAll, v⟩ ∈ record := by
  rw [List.mem_append, or_iff_left]
  intro h
  cases List.mem_singleton.1 h

theorem listed_append_error {kind k : ResourceKind} {e : StoreError} {refs : List GroupRef} :
    Listed (record ++ [⟨.registry (.listRefs kind), .error e⟩]) k refs ↔ Listed record k refs := by
  rw [Listed, List.mem_append, or_iff_left]
  · exact Iff.rfl
  · intro h
    cases List.mem_singleton.1 h

theorem listed_append_ok {kind k : ResourceKind} {refs refs' : List GroupRef} :
    Listed (record ++ [⟨.registry (.listRefs kind), .ok refs⟩]) k refs' ↔
      Listed record k refs' ∨ (k = kind ∧ refs' = refs) := by
  rw [Listed, List.mem_append]
  refine or_congr_right ⟨fun h => ?_, ?_⟩
  · cases List.mem_singleton.1 h
    exact ⟨rfl, rfl⟩
  · rintro ⟨rfl, rfl⟩
    exact List.mem_singleton_self _

theorem Sees.addFailure {kind : ResourceKind} {rest : List ResourceKind} {e : StoreError}
    (h : Sees s record (kind :: rest)) :
    Sees s.addFailure (record ++ [⟨.registry (.listRefs kind), .error e⟩]) rest where
  stored g hg := by
    obtain ⟨rows, hrows, he⟩ := h.stored g hg
    exact ⟨rows, read_append.2 hrows, he⟩
  read rows hrows := h.read rows (read_append.1 hrows)
  referenced k refs hlisted := h.referenced k refs (listed_append_error.1 hlisted)
  referred g hg := by
    obtain ⟨hvalid, k, refs, hlisted, ha⟩ := h.referred g hg
    exact ⟨hvalid, k, refs, listed_append_error.2 hlisted, ha⟩
  missing := h.missing
  shared i hi := by
    obtain ⟨refs, hlisted, ha⟩ := h.shared i hi
    exact ⟨refs, listed_append_error.2 hlisted, ha⟩
  listed hnone := Bool.noConfusion hnone
  unfailed hnone := Bool.noConfusion hnone

theorem Sees.addListing {kind : ResourceKind} {rest : List ResourceKind} {refs : List GroupRef}
    (h : Sees s record (kind :: rest)) :
    Sees (s.addListing kind refs) (record ++ [⟨.registry (.listRefs kind), .ok refs⟩]) rest := by
  have hfailed : (s.addListing kind refs).listingFailed = s.listingFailed :=
    Scan.listingFailed_addRefs refs s []
  have hstored : (s.addListing kind refs).stored = s.stored := Scan.stored_addRefs refs s []
  have hreferenced : ∀ g, g ∈ (s.addListing kind refs).referenced ↔
      g ∈ s.referenced ∨ (g.IsValid ∧ ∃ a ∈ refs, a.group = g) := by
    intro g
    rw [Scan.addListing, Scan.mem_referenced_addRefs]
    simp
  constructor
  · intro g hg
    obtain ⟨rows, hrows, he⟩ := h.stored g (hstored ▸ hg)
    exact ⟨rows, read_append.2 hrows, he⟩
  · rw [hstored]
    exact fun rows hrows => h.read rows (read_append.1 hrows)
  · intro k refs' hlisted a ha hvalid
    refine (hreferenced _).2 ?_
    rcases listed_append_ok.1 hlisted with hold | ⟨-, rfl⟩
    · exact .inl (h.referenced k refs' hold a ha hvalid)
    · exact .inr ⟨hvalid, a, ha, rfl⟩
  · intro g hg
    rcases (hreferenced g).1 hg with hold | ⟨hvalid, ha⟩
    · obtain ⟨hvalid, k, refs', hlisted, ha⟩ := h.referred g hold
      exact ⟨hvalid, k, refs', listed_append_ok.2 (.inl hlisted), ha⟩
    · exact ⟨hvalid, kind, refs, listed_append_ok.2 (.inr ⟨rfl, rfl⟩), ha⟩
  · intro g hg
    rw [hreferenced, hstored]
    rcases (Scan.mem_missing_addRefs refs s [] g).1 hg with hold | ⟨⟨hvalid, -, ha⟩, hnot⟩
    · exact (h.missing g hold).imp_left .inl
    · exact ⟨.inr ⟨hvalid, ha⟩, hnot⟩
  · intro i hi
    rcases Scan.mem_shared_addRefs hi with hold | ⟨hkind, ha⟩
    · obtain ⟨refs', hlisted, ha⟩ := h.shared i hold
      exact ⟨refs', listed_append_ok.2 (.inl hlisted), ha⟩
    · exact ⟨refs, listed_append_ok.2 (.inr ⟨hkind, rfl⟩), ha⟩
  · intro hnone k hk
    by_cases heq : k = kind
    · exact ⟨refs, listed_append_ok.2 (.inr ⟨heq, rfl⟩)⟩
    · obtain ⟨refs', hlisted⟩ := h.listed (hfailed ▸ hnone) k (by simp [heq, hk])
      exact ⟨refs', listed_append_ok.2 (.inl hlisted)⟩
  · intro hnone k e hmem
    rcases List.mem_append.1 hmem with hmem | hmem
    · exact h.unfailed (hfailed ▸ hnone) k e hmem
    · cases List.mem_singleton.1 hmem

theorem scanKinds_honest (kinds : List ResourceKind) (h : Sees s record kinds) :
    Honest operator (scanKinds kinds s r) (fun x record => Sees x.1 record []) record := by
  induction kinds generalizing s r record with
  | nil => exact honest_pure h
  | cons kind rest ih =>
    refine honest_registry trivial (fun refs => ih h.addListing) fun e => ?_
    exact honest_log (ih h.addFailure)

/-- What a scan says comes from the record. -/
theorem scan_honest : Honest operator scan (fun x record => match x with
    | .ok x => Sees x.1 record []
    | .error _ => True) [] := by
  refine honest_store trivial (fun rows _ => ?_) fun e => honest_pure trivial
  refine safe_reportUnrepairable recorded_callsOnly ((scanKinds_honest _ (sees_start rows)).bind ?_)
  rintro ⟨s, r⟩ record h
  dsimp only
  split
  · exact honest_log (honest_log (honest_pure h))
  · exact honest_log (honest_pure h)

end Sweep

end AccessGroups
