import AccessGroups.Proofs.Store.Effects
import AccessGroups.Proofs.Sweep.Agenda
import AccessGroups.Proofs.Sweep.Survey
import Mathlib.Data.List.Perm.Subperm

/-!
# The chronicle of a sweep

A sweep that comes to an end has read the rows and the listings, and then made attempts. The calls
of the whole run are those of the scan and of the attempts, and the report is what the scan makes of
an empty one and the attempts of that. A sweep comes to an end unless a counter of identifiers is
exhausted: as long as the counter for groups goes up, the store cannot go on handing out group
identifiers that are referenced.

## Main definitions

* `Sweep.Conducted`: what the transcript of a sweep can be.
* `Sweep.Chronicle`: what a sweep that was completed has done.

## Main results

* `Backend.Leads.not_starved`: no attempt waits for a group forever.
* `Backend.reliable_of_performStore`: the listings of a store can be relied on.
* `Sweep.conducted_runOnce`, `Sweep.runOnce_returns`: the end of a watched sweep.
* `Sweep.Conducted.exists_chronicle`: what a sweep that was completed has done.
-/

namespace AccessGroups

namespace Sweep

open Prog

variable {may : Prop} {operator : UserId} {xs : List Exchange}

/-- A run that holds the flag fails if the rows cannot be read, and then it has made no other call.
Otherwise it works off the agenda of its scan. -/
def Conducted (may : Prop) (operator : UserId) (xs : List Exchange)
    (y : Option (Except ServiceError SweepOutcome)) : Prop :=
  (∃ e, xs = [⟨.store .findAll, .error e⟩] ∧ y = some (.error (.store e))) ∨
    ∃ (v : Survey) (calls : List Exchange) (z : Option Summary), xs = v.exchanges ++ calls ∧
      Worked may operator v.scan (agenda v.scan) v.summary calls z ∧
        y = z.map fun r => .ok (.completed r)

theorem leaves_runHolding {y : Option (Except ServiceError SweepOutcome)}
    (h : (runHolding operator).Leaves (Plausible may) xs y) : Conducted may operator xs y := by
  have hrecord {e : SweepEnd} : ∀ c, Op.record e ≠ .call c := fun _ => nofun
  rw [runHolding] at h
  obtain ⟨front, rest, x, rfl, hscan, hrest⟩ | ⟨hnone, -⟩ := (leaves_bind _ _).1 (leaves_log h)
  · obtain ⟨e, rfl, hx⟩ | ⟨v, rfl, hx⟩ := leaves_scan hscan <;> cases hx
    · obtain ⟨-, -, rfl, rfl⟩ := (leaves_quiet hrecord).1 hrest
      exact .inl ⟨e, rfl, rfl⟩
    · have hrepair : Performs may operator v.scan (agenda v.scan) (repair operator v.scan) :=
        performs_repair fun g hg => (v.mem_missing.1 hg).1
      obtain ⟨calls, others, r, rfl, hcalls, hend⟩ | ⟨hcalls, rfl⟩ := (leaves_bind _ _).1 hrest
      · obtain ⟨-, -, hend⟩ := (leaves_quiet hrecord).1 hend
        obtain ⟨rfl, rfl⟩ := leaves_log hend
        exact .inr ⟨v, calls, some r, by rw [List.append_nil], hrepair hcalls, rfl⟩
      · exact .inr ⟨v, rest, none, rfl, hrepair hcalls, rfl⟩
  · obtain ⟨e, -, hx⟩ | ⟨v, -, hx⟩ := leaves_scan hnone <;> cases hx

end Sweep

/-! ### Fresh groups -/

namespace Backend.Leads

variable {b b' : Backend} {xs : List Exchange}

/-- Group identifiers that are handed out one right after another ascend, from the counter on. -/
theorem ascending {issued : List GroupId} (h : b.Leads (issued.map Sweep.handedOut) b') :
    issued.Pairwise (· < ·) ∧ ∀ n, b.Counts n → ∀ g ∈ issued, n ≤ g.val.toInt := by
  induction issued generalizing b with
  | nil => exact ⟨.nil, fun _ _ => List.forall_mem_nil _⟩
  | cons g rest ih =>
    obtain ⟨m, ⟨⟨e, he⟩, -⟩ | ⟨hroom, hcall⟩, hrest⟩ := h
    · cases he
    obtain ⟨hcounter, hafter⟩ := counts_of_allocateGroup hroom hcall
    obtain ⟨hascending, habove⟩ := ih hrest
    have hlater : ∀ g' ∈ rest, g.val.toInt + 1 ≤ g'.val.toInt := habove _ hafter
    refine ⟨List.pairwise_cons.2 ⟨fun g' hg' => ?_, hascending⟩, fun n hn => ?_⟩
    · rw [Identifier.lt_iff_toInt]
      have := hlater g' hg'
      omega
    · refine List.forall_mem_cons.2 ⟨hcounter n hn, fun g' hg' => ?_⟩
      have := hcounter n hn
      have := hlater g' hg'
      omega

/-- No attempt waits for a group forever: there are fewer references than identifiers that the store
can hand out. -/
theorem not_starved {referenced : List GroupId} (h : b.Leads xs b') :
    ¬ Sweep.Starved referenced xs := by
  rintro ⟨before, issued, rfl, hmore, hreferenced⟩
  obtain ⟨m, -, hissued⟩ := h.exists_mid
  have hnodup : issued.Nodup := Identifier.nodup_of_pairwise_lt hissued.ascending.1
  have hle := (hnodup.subperm hreferenced).length_le
  omega

end Backend.Leads

/-! ### Listings of the store -/

/-- Whatever the state of a store, its listings can be relied on. -/
theorem Backend.reliable_of_performStore {b b' : Backend} {c : StoreCall} {v : c.Value}
    (h : b.performStore c = some (.ok v, b')) : c.Reliable v := by
  cases c with
  | findMixed =>
    obtain ⟨rfl, -⟩ := alters_performStore h
    have hnodup : b.entries.Nodup := Identifier.nodup_of_pairwise_lt b.ascending_entries
    exact ⟨fun e he => (List.mem_filter.1 he).2, hnodup.filter _⟩
  | findDuplicateGroups => exact nodup_duplicateGroups h
  | _ => trivial

/-- A call to the store that succeeds was answered by the store. -/
theorem Watch.performStore_of_handle {d : Disturbance} {u v : Watch} {c : StoreCall} {x : c.Value}
    (h : u.handle d (.call (.store c)) = (some (.ok x), v)) :
    ∃ b, u.world.backend.performStore c = some (.ok x, b) := by
  rw [handle, answer] at h
  cases hfault : d.fault u.exchanges.length with
  | some e =>
    rw [hfault] at h
    cases h
  | none =>
    rw [hfault, Option.bind_none, reach, World.answer] at h
    cases hperform : u.world.backend.performStore c with
    | none =>
      rw [hperform] at h
      cases h
    | some y =>
      obtain ⟨y, b⟩ := y
      rw [hperform] at h
      cases h
      exact ⟨b, rfl⟩

/-! ### Watched sweeps -/

namespace Sweep

open Prog

variable {may : Prop} {operator : UserId} {w : World} {d : Disturbance} {xs : List Exchange}

/-- Whatever disturbs a run, it is told nothing that cannot be. -/
theorem plausible_handle (hmay : ∀ n, (w.cancelled || d.cancelled n) = true → may) (u : Watch)
    (op : Op) (x : op.Answer) (v : Watch) (hsame : u.world.cancelled = w.cancelled)
    (h : u.handle d op = (some x, v)) : Plausible may op x := by
  cases op with
  | poll =>
    cases h
    exact fun hx => hmay u.polls (hsame ▸ hx)
  | log | record | claim | release => trivial
  | call c =>
    rcases c with c | c | c
    · cases x with
      | error e => trivial
      | ok x =>
        obtain ⟨b, hperform⟩ := u.performStore_of_handle h
        exact Backend.reliable_of_performStore hperform
    · cases x <;> trivial
    · cases x <;> trivial

/-- A watched sweep is skipped if the flag is taken, and conducted otherwise. -/
theorem conducted_runOnce (hmay : ∀ n, (w.cancelled || d.cancelled n) = true → may)
    (hend : (w.watch d (runOnce operator)).1 ≠ none ∨
      (w.watch d (runOnce operator)).2.spent = false) :
    let run := w.watch d (runOnce operator)
    (w.running = true ∧ run.1 = some (.ok .skipped) ∧ run.2.exchanges = []) ∨
      (w.running = false ∧ Conducted may operator run.2.exchanges run.1) := by
  intro run
  have hclaim : Watch.handle d { world := w } .claim =
      (some (!w.running), { world := { w with running := true } }) := rfl
  have hrest := World.watch_rest_leaves hclaim rfl (plausible_handle hmay) hend
  cases hrunning : w.running with
  | true =>
    have hskipped : (Prog.log .sweepRunning >>= fun _ => Prog.perform (.record .skipped) >>=
        fun _ => pure (.ok .skipped)).Leaves (Plausible may) run.2.exchanges run.1 := by
      rw [hrunning] at hrest
      exact hrest
    have hrecord : ∀ c, Op.record .skipped ≠ .call c := fun _ => nofun
    obtain ⟨-, -, hexchanges, hresult⟩ := (leaves_quiet hrecord).1 (leaves_log hskipped)
    exact .inl ⟨rfl, hresult, hexchanges⟩
  | false =>
    have hholding : (runHolding operator >>= fun result => Prog.perform .release >>= fun _ =>
        pure result).Leaves (Plausible may) run.2.exchanges run.1 := by
      rw [hrunning] at hrest
      exact hrest
    have hrelease : ∀ c, Op.release ≠ .call c := fun _ => nofun
    refine .inr ⟨rfl, ?_⟩
    obtain ⟨front, rest, x, hexchanges, hfront, hafter⟩ | ⟨hnone, hresult⟩ :=
      (leaves_bind _ _).1 hholding
    · obtain ⟨-, -, rfl, hresult⟩ := (leaves_quiet hrelease).1 hafter
      rw [hexchanges, hresult, List.append_nil]
      exact leaves_runHolding hfront
    · rw [hresult]
      exact leaves_runHolding hnone

/-- A watched sweep comes to an end unless a counter of identifiers is exhausted. -/
theorem runOnce_returns (hspent : (w.watch d (runOnce operator)).2.spent = false) :
    (w.watch d (runOnce operator)).1 ≠ none := by
  intro hnone
  have hmay : ∀ n, (w.cancelled || d.cancelled n) = true → True := fun _ _ => trivial
  obtain ⟨-, hskipped, -⟩ | ⟨-, hconducted⟩ := conducted_runOnce hmay (.inr hspent)
  · rw [hnone] at hskipped
    cases hskipped
  · rw [hnone] at hconducted
    obtain ⟨e, -, hfailed⟩ | ⟨v, calls, z, hexchanges, hworked, hz⟩ := hconducted
    · cases hfailed
    · obtain rfl : z = none := Option.map_eq_none_iff.1 hz.symm
      have hstarved := hworked.starved_of_none.2.append v.exchanges
      rw [← hexchanges] at hstarved
      exact (World.watch_leads hspent).not_starved hstarved

/-- What a sweep that was completed has done: it has made attempts in the order of the agenda of its
scan, and all of them if it was not cancelled. The report is what these attempts make of that of the
scan. -/
structure Chronicle (operator : UserId) (v : Survey) (attempts : List Task.Attempt)
    (rest : List Task) (r : Summary) : Prop where
  works : WorksOff (agenda v.scan) attempts rest
  made : ∀ a ∈ attempts, a.Made operator v.scan
  report : r = { attempts.foldl Summary.settle v.summary with cancelled := r.cancelled }
  finished : r.cancelled = false → rest = []

theorem cancelled_foldl_settle (attempts : List Task.Attempt) (r : Summary) :
    (attempts.foldl Summary.settle r).cancelled = r.cancelled := by
  induction attempts generalizing r with
  | nil => rfl
  | cons a attempts ih => rw [List.foldl_cons, ih, Summary.cancelled_settle]

/-- A sweep that was conducted and has come to an end has failed, or it was completed and has a
chronicle. -/
theorem Conducted.exists_chronicle {result : Except ServiceError SweepOutcome}
    (h : Conducted may operator xs (some result)) :
    (∃ e, xs = [⟨.store .findAll, .error e⟩] ∧ result = .error (.store e)) ∨
      ∃ v attempts rest r, result = .ok (.completed r) ∧
        xs = v.exchanges ++ attempts.flatMap Task.Attempt.calls ∧
          Chronicle operator v attempts rest r ∧ (r.cancelled = true → may) := by
  obtain ⟨e, hxs, hresult⟩ | ⟨v, calls, z, rfl, hworked, hz⟩ := h
  · exact .inl ⟨e, hxs, Option.some.inj hresult⟩
  obtain ⟨r, rfl, rfl⟩ := Option.map_eq_some_iff.1 hz.symm
  have hnew : v.summary.cancelled = false := by
    obtain ⟨_, _, _, _, hsummary⟩ := v.exists_summary
    rw [hsummary]
  refine .inr ?_
  obtain ⟨attempts, rest, hworks, hmade, rfl, ⟨rfl, rfl⟩ | ⟨hmay, rfl⟩⟩ := hworked.attempts hnew
  · have hgo := (cancelled_foldl_settle attempts v.summary).trans hnew
    exact ⟨v, attempts, [], _, rfl, rfl, ⟨hworks, hmade, rfl, fun _ => rfl⟩,
      fun h => absurd (hgo.symm.trans h) Bool.false_ne_true⟩
  · exact ⟨v, attempts, rest, _, rfl, rfl, ⟨hworks, hmade, rfl, nofun⟩, fun _ => hmay⟩

end Sweep

end AccessGroups
