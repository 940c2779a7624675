import AccessGroups.Proofs.Program.Watched
import AccessGroups.Proofs.Store.Allocation

/-!
# Group identifiers are handed out once

A store hands out group identifiers in ascending order, each one above the groups of the rows at the
time when it was asked for. What an allocation in memory has read may be outdated when it takes the
counter, but the counter never goes back, and so no identifier is handed out twice.

## Main definitions

* `Issuer`: a store with allocations under way, and what it has handed out.
* `Issuer.Event`, `Issuer.run`: what happens to it.
* `Issuer.Sound`, `Issuer.Joint`: what holds whatever happens, and while only allocations go on.

## Main results

* `Issuer.Sound.run`: whatever happens, the identifiers are ascending.
* `Issuer.Joint.run`: allocations that only meet each other get consecutive identifiers.
-/

namespace AccessGroups

/-- A store with allocations that are under way, and the identifiers that it has handed out, each
with the rows that there were when it was asked for. -/
structure Issuer where
  backend : Backend
  allocations : List Allocation
  issued : List (GroupId × List Entry) := []

namespace Issuer

/-- What happens to a store: a call, a row of another writer, closing and opening it again, or the
next step of an allocation. -/
inductive Event where
  | call (c : StoreCall)
  | insertRaw (entry : Entry)
  | reopen
  | advance (n : Nat)
  deriving DecidableEq

/-- A store of which so many allocations are asked at once. -/
def asked (b : Backend) (n : Nat) : Issuer :=
  ⟨b, List.replicate n .asked, []⟩

/-- The store after an event; what gets no answer changes nothing. -/
def after (w : Issuer) : Event → Issuer
  | .call c =>
    match w.backend.performStore c with
    | none => w
    | some (x, b) =>
      { w with
        backend := b
        issued := w.issued ++
          (Exchange.issued? ⟨.store c, x⟩).toList.map (·, w.backend.entries) }
  | .insertRaw entry =>
    { w with backend := (Scenario.writeBehind (.insertRaw entry) w.backend).getD w.backend }
  | .reopen => { w with backend := w.backend.reopened }
  | .advance n =>
    match w.allocations[n]?.bind w.backend.advance with
    | none => w
    | some (a, b) => ⟨b, w.allocations.set n a, w.issued ++ a.grant?.toList⟩

/-- The store after some events. -/
def run (w : Issuer) (events : List Event) : Issuer :=
  events.foldl after w

/-- The store is in range whenever something happens to it. -/
def InRange : Issuer → List Event → Prop
  | _, [] => True
  | w, event :: rest => w.backend.BelowLimit ∧ (w.after event).InRange rest

instance decidableInRange : (w : Issuer) → (events : List Event) → Decidable (w.InRange events)
  | _, [] => isTrue trivial
  | w, event :: rest =>
    have := decidableInRange (w.after event) rest
    inferInstanceAs (Decidable (_ ∧ _))

end Issuer

variable {b b' : Backend} {n m : Int} {w : Issuer}

namespace Issuer

/-- The call for an identifier hands one out. -/
theorem after_allocateGroup (hb : w.backend.Counts n) (hlimit : w.backend.BelowLimit) :
    ∃ g b', w.after (.call .allocateGroup) =
        { w with backend := b', issued := w.issued ++ [(g, w.backend.entries)] } ∧
      g.val.toInt = max n ((highestGroup w.backend.entries).toInt + 1) ∧
      b'.Counts (g.val.toInt + 1) ∧ b'.entries = w.backend.entries := by
  obtain ⟨g, b', hcall, hg, hb', hrows⟩ := Backend.performStore_allocateGroup hb hlimit
  refine ⟨g, b', ?_, hg, hb', hrows⟩
  simp only [after, hcall, Exchange.issued?]
  rfl

/-- Other calls hand out nothing and leave the counter alone. -/
theorem after_call_of_ne {c : StoreCall} (hc : c ≠ .allocateGroup) (hb : w.backend.Counts n) :
    ∃ b', w.after (.call c) = { w with backend := b' } ∧ b'.Counts n := by
  rw [after]
  cases hcall : w.backend.performStore c with
  | none => exact ⟨w.backend, rfl, hb⟩
  | some y =>
    have hnone : Exchange.issued? ⟨.store c, y.1⟩ = none := by
      cases c with
      | allocateGroup => exact absurd rfl hc
      | _ => rfl
    simp only [hnone, Option.toList_none, List.map_nil, List.append_nil]
    exact ⟨y.2, rfl, hb.performStore hcall hc⟩

/-- What holds of a store whose counter started at `first` and stands at `n`: what was handed out is
ascending, in between, and above the rows that there were; the allocations under way have not
failed, and their rows are in range or below the counter. -/
structure Sound (first : Int) (w : Issuer) (n : Int) : Prop where
  counts : w.backend.Counts n
  grown : first ≤ n
  ascending : w.issued.Pairwise fun x y => x.1 < y.1
  issued : ∀ x ∈ w.issued, first ≤ x.1.val.toInt ∧ x.1.val.toInt < n ∧ ∀ e ∈ x.2, e.group < x.1
  informed : ∀ rows, .informed rows ∈ w.allocations →
    ∀ e ∈ rows, e.group.val < Int64.maxValue - 1
  raised : ∀ rows, .raised rows ∈ w.allocations → ∀ e ∈ rows, e.group.val.toInt < n
  granted : ∀ rows g, .granted rows g ∈ w.allocations → (g, rows) ∈ w.issued
  sound : .failed ∉ w.allocations

namespace Sound

variable {first : Int}

theorem asked (hb : b.Counts n) (k : Nat) : (Issuer.asked b k).Sound n n where
  counts := hb
  grown := Int.le_refl n
  ascending := .nil
  issued := nofun
  informed rows h := by simp [Issuer.asked] at h
  raised rows h := by simp [Issuer.asked] at h
  granted rows g h := by simp [Issuer.asked] at h
  sound h := by simp [Issuer.asked] at h

/-- A change of the rows that leaves the counter alone changes nothing else. -/
theorem withBackend (h : w.Sound first n) (hb : b.Counts n) :
    Sound first { w with backend := b } n :=
  { h with counts := hb }

/-- An identifier between the counter and where it stands afterwards is handed out. -/
theorem issue (h : w.Sound first n) {g : GroupId} {rows : List Entry}
    (hb : b.Counts (g.val.toInt + 1)) (hle : n ≤ g.val.toInt)
    (hrows : ∀ e ∈ rows, e.group.val.toInt < g.val.toInt) :
    Sound first { w with backend := b, issued := w.issued ++ [(g, rows)] } (g.val.toInt + 1) where
  counts := hb
  grown := by have := h.grown; omega
  ascending := by
    refine List.pairwise_append.2 ⟨h.ascending, List.pairwise_singleton _ _, fun x hx y hy => ?_⟩
    obtain rfl := List.mem_singleton.1 hy
    exact Identifier.lt_iff_toInt.2 (Int.lt_of_lt_of_le (h.issued x hx).2.1 hle)
  issued x hx := by
    rcases List.mem_append.1 hx with hx | hx
    · obtain ⟨hfirst, hlt, habove⟩ := h.issued x hx
      exact ⟨hfirst, by omega, habove⟩
    · obtain rfl := List.mem_singleton.1 hx
      exact ⟨Int.le_trans h.grown hle, Int.lt_succ _, fun e he =>
        Identifier.lt_iff_toInt.2 (hrows e he)⟩
  informed := h.informed
  raised rows hr e he := by have := h.raised rows hr e he; omega
  granted rows g hg := List.mem_append_left _ (h.granted rows g hg)
  sound := h.sound

/-- An allocation under way goes on, and the counter does not go back. -/
theorem moved (h : w.Sound first n) {a : Allocation} {k : Nat} (hle : n ≤ m) (hb : b.Counts m)
    (hinformed : ∀ rows, a = .informed rows → ∀ e ∈ rows, e.group.val < Int64.maxValue - 1)
    (hraised : ∀ rows, a = .raised rows → ∀ e ∈ rows, e.group.val.toInt < m)
    (hgranted : ∀ rows g, a = .granted rows g → (g, rows) ∈ w.issued) (hsound : a ≠ .failed) :
    Sound first { w with backend := b, allocations := w.allocations.set k a } m where
  counts := hb
  grown := Int.le_trans h.grown hle
  ascending := h.ascending
  issued x hx := by
    obtain ⟨hfirst, hlt, habove⟩ := h.issued x hx
    exact ⟨hfirst, Int.lt_of_lt_of_le hlt hle, habove⟩
  informed rows hr := by
    rcases List.mem_or_eq_of_mem_set hr with hr | hr
    · exact h.informed rows hr
    · exact hinformed rows hr.symm
  raised rows hr e he := by
    rcases List.mem_or_eq_of_mem_set hr with hr | hr
    · exact Int.lt_of_lt_of_le (h.raised rows hr e he) hle
    · exact hraised rows hr.symm e he
  granted rows g hg := by
    rcases List.mem_or_eq_of_mem_set hg with hg | hg
    · exact h.granted rows g hg
    · exact hgranted rows g hg.symm
  sound hf := by
    rcases List.mem_or_eq_of_mem_set hf with hf | hf
    · exact h.sound hf
    · exact hsound hf.symm

/-- Below the number after the largest group are all groups. -/
theorem lt_of_highestGroup {rows : List Entry} (hm : 0 < m)
    (h : (highestGroup rows).toInt + 1 ≤ m) : ∀ e ∈ rows, e.group.val.toInt < m :=
  (highestGroup_lt_iff hm).1 (by omega)

/-- The next step of an allocation keeps all this. -/
theorem advance (h : w.Sound first n) (hpos : 0 < first) (hlimit : w.backend.BelowLimit)
    {a a' : Allocation} {k : Nat} (hk : w.allocations[k]? = some a)
    (hadvance : w.backend.advance a = some (a', b')) :
    ∃ m, Sound first ⟨b', w.allocations.set k a', w.issued ++ a'.grant?.toList⟩ m := by
  have hn : 0 < n := Int.lt_of_lt_of_le hpos h.grown
  have hmem : a ∈ w.allocations := List.mem_of_getElem? hk
  obtain ⟨-, m, hstep, hm⟩ := Backend.advance_spec h.counts hlimit
    (fun rows heq => h.informed rows (heq ▸ hmem)) hadvance
  cases hstep with
  | inform =>
    have hmoved := h.moved (k := k) (a := .informed w.backend.entries) (Int.le_refl n) hm
      (fun rows heq => by cases heq; exact hlimit.1) (fun _ => nofun) (fun _ _ => nofun) nofun
    exact ⟨n, by simpa [Allocation.grant?] using hmoved⟩
  | @raise seen =>
    have hmoved := h.moved (k := k) (a := .raised seen) (Int.le_max_left _ _) hm (fun _ => nofun)
      (fun rows heq => by cases heq; exact lt_of_highestGroup (by omega) (Int.le_max_right _ _))
      (fun _ _ => nofun) nofun
    exact ⟨_, by simpa [Allocation.grant?] using hmoved⟩
  | @take seen g hg =>
    rw [← hg] at hm
    have hissue := h.issue hm (Int.le_of_eq hg.symm) (hg ▸ h.raised seen hmem)
    exact ⟨_, hissue.moved (Int.le_refl _) hm (fun _ => nofun) (fun _ => nofun)
      (fun rows g heq => by cases heq; simp) nofun⟩
  | @grant _ g _ hg =>
    have habove : ∀ e ∈ w.backend.entries, e.group.val.toInt < g.val.toInt :=
      lt_of_highestGroup (by omega) (by omega)
    have hissue := h.issue hm (by omega) habove
    exact ⟨_, hissue.moved (Int.le_refl _) hm (fun _ => nofun) (fun _ => nofun)
      (fun rows g heq => by cases heq; simp) nofun⟩

/-- A call keeps all this. -/
theorem call (h : w.Sound first n) (hpos : 0 < first) (hlimit : w.backend.BelowLimit)
    (c : StoreCall) : ∃ m, (w.after (.call c)).Sound first m := by
  have hn : 0 < n := Int.lt_of_lt_of_le hpos h.grown
  by_cases hc : c = .allocateGroup
  · subst hc
    obtain ⟨g, b', heq, hg, hb', -⟩ := after_allocateGroup h.counts hlimit
    rw [heq]
    exact ⟨_, h.issue hb' (by omega) (lt_of_highestGroup (by omega) (by omega))⟩
  · obtain ⟨b', heq, hb'⟩ := after_call_of_ne hc h.counts
    rw [heq]
    exact ⟨n, h.withBackend hb'⟩

/-- Whatever happens in range keeps all this. -/
theorem after (h : w.Sound first n) (hpos : 0 < first) (hlimit : w.backend.BelowLimit)
    (event : Event) : ∃ m, (w.after event).Sound first m := by
  cases event with
  | call c => exact h.call hpos hlimit c
  | insertRaw entry => exact ⟨n, h.withBackend h.counts.insertRaw⟩
  | reopen => exact ⟨n, h.withBackend h.counts.reopened⟩
  | advance k =>
    rw [Issuer.after]
    cases hadvance : w.allocations[k]?.bind w.backend.advance with
    | none => exact ⟨n, h⟩
    | some y =>
      obtain ⟨a, hk, ha⟩ := Option.bind_eq_some_iff.1 hadvance
      exact h.advance hpos hlimit hk ha

/-- As long as the store is in range, nothing of this is lost. -/
theorem run (h : w.Sound first n) (hpos : 0 < first) (events : List Event)
    (hrange : w.InRange events) :
    ∃ m, (w.run events).Sound first m := by
  induction events generalizing w n with
  | nil => exact ⟨n, h⟩
  | cons event rest ih =>
    obtain ⟨m, hm⟩ := h.after hpos hrange.1 event
    exact ih hm hrange.2

end Sound

/-! ### Every allocation is granted -/

/-- How many allocations have ended with an identifier. -/
def granted (w : Issuer) : Nat :=
  w.allocations.countP fun a => a.grant?.isSome

variable {first : Int}

/-- Of an allocation that goes on, the identifier that it ends with is new. -/
theorem granted_set {a a' : Allocation} {k : Nat} {issued : List (GroupId × List Entry)}
    (hk : w.allocations[k]? = some a) (ha : a.grant? = none) :
    granted ⟨b, w.allocations.set k a', issued⟩ = w.granted + a'.grant?.toList.length := by
  obtain ⟨hlt, hget⟩ := List.getElem?_eq_some_iff.1 hk
  rw [granted, List.countP_set hlt, hget, ha, granted]
  cases a'.grant? <;> rfl

/-- A call, or the end of an allocation, hands out one identifier. -/
theorem length_issued_after (h : w.Sound first n) (hlimit : w.backend.BelowLimit) (event : Event) :
    (w.after event).issued.length + w.granted =
      w.issued.length + (w.after event).granted + [event].count (.call .allocateGroup) := by
  cases event with
  | insertRaw entry => rfl
  | reopen => rfl
  | call c =>
    by_cases hc : c = .allocateGroup
    · subst hc
      obtain ⟨g, b', heq, -⟩ := after_allocateGroup h.counts hlimit
      rw [heq, List.length_append, List.count_singleton_self]
      exact Nat.add_right_comm ..
    · obtain ⟨b', heq, -⟩ := after_call_of_ne hc h.counts
      rw [heq, List.count_eq_zero_of_not_mem (by simpa using Ne.symm hc)]
      rfl
  | advance k =>
    rw [after]
    cases hadvance : w.allocations[k]?.bind w.backend.advance with
    | none => rfl
    | some y =>
      obtain ⟨a, hk, ha⟩ := Option.bind_eq_some_iff.1 hadvance
      have hnone : a.grant? = none := by
        cases a with
        | granted => cases hb : w.backend <;> rw [hb] at ha <;> cases ha
        | _ => rfl
      rw [granted_set hk hnone, List.length_append, List.count_eq_zero_of_not_mem (by simp)]
      omega

/-- All calls and all ended allocations have been handed an identifier. -/
theorem length_issued_run (h : w.Sound first n) (hpos : 0 < first) (events : List Event)
    (hrange : w.InRange events) :
    (w.run events).issued.length + w.granted =
      w.issued.length + (w.run events).granted + events.count (.call .allocateGroup) := by
  induction events generalizing w n with
  | nil => rfl
  | cons event rest ih =>
    obtain ⟨m, hm⟩ := h.after hpos hrange.1 event
    have hfirst := length_issued_after h hrange.1 event
    have hrest := ih hm hrange.2
    rw [List.count_cons]
    rw [List.count_singleton] at hfirst
    change ((w.after event).run rest).issued.length + _ =
      _ + ((w.after event).run rest).granted + _
    omega

/-- With every turn that it gets, an allocation comes further. -/
theorem rank_after (h : w.Sound first n) (hlimit : w.backend.BelowLimit) (event : Event) {k : Nat}
    {a : Allocation} (hk : w.allocations[k]? = some a) :
    ∃ a', (w.after event).allocations[k]? = some a' ∧
      min 3 (a.rank + [event].count (.advance k)) ≤ a'.rank := by
  cases event with
  | insertRaw | reopen => exact ⟨a, hk, Nat.min_le_right _ _⟩
  | call c =>
    refine ⟨a, ?_, Nat.min_le_right _ _⟩
    rw [after]
    split <;> exact hk
  | advance i =>
    by_cases hi : i = k
    · subst hi
      rw [after, hk, Option.bind_some, List.count_singleton_self]
      cases hadvance : w.backend.advance a with
      | none =>
        have := Backend.rank_of_advance_eq_none hadvance
        exact ⟨a, hk, by omega⟩
      | some y =>
        obtain ⟨-, m, hstep, -⟩ := Backend.advance_spec h.counts hlimit
          (fun rows heq => h.informed rows (heq ▸ List.mem_of_getElem? hk)) hadvance
        obtain ⟨hlt, -⟩ := List.getElem?_eq_some_iff.1 hk
        have := hstep.rank_lt
        exact ⟨y.1, List.getElem?_set_self hlt, by omega⟩
    · have hcount : [Event.advance i].count (.advance k) = 0 :=
        List.count_eq_zero_of_not_mem (by simpa using Ne.symm hi)
      refine ⟨a, ?_, by omega⟩
      rw [after]
      split
      · exact hk
      · exact (List.getElem?_set_ne hi).trans hk

/-- An allocation that gets three turns is granted. -/
theorem rank_run (h : w.Sound first n) (hpos : 0 < first) (events : List Event)
    (hrange : w.InRange events) {k : Nat} {a : Allocation}
    (hk : w.allocations[k]? = some a) :
    ∃ a', (w.run events).allocations[k]? = some a' ∧
      min 3 (a.rank + events.count (.advance k)) ≤ a'.rank := by
  induction events generalizing w n a with
  | nil => exact ⟨a, hk, Nat.min_le_right _ _⟩
  | cons event rest ih =>
    obtain ⟨m, hm⟩ := h.after hpos hrange.1 event
    obtain ⟨a₁, hk₁, hle₁⟩ := rank_after h hrange.1 event hk
    obtain ⟨a₂, hk₂, hle₂⟩ := ih hm hrange.2 hk₁
    refine ⟨a₂, hk₂, ?_⟩
    rw [List.count_cons]
    rw [List.count_singleton] at hle₁
    omega

/-! ### Allocations at the same time -/

/-- What holds while nothing but allocations goes on: they have found these rows, and the counter
stands where it started, or as many numbers behind `base` as identifiers have been handed out. -/
structure Joint (rows : List Entry) (first base : Int) (w : Issuer) : Prop where
  entries : w.backend.entries = rows
  informed : ∀ seen, .informed seen ∈ w.allocations → seen = rows
  raised : ∀ seen, .raised seen ∈ w.allocations → seen = rows
  counts : ∃ n, w.backend.Counts n ∧
    (n = first ∧ w.issued = [] ∧ (∀ seen, .raised seen ∉ w.allocations) ∨
      n = base + w.issued.length)
  consecutive : w.issued.map (fun x => x.1.val.toInt) =
    (List.range w.issued.length).map fun i : Nat => base + i

namespace Joint

variable {rows : List Entry} {base : Int}

theorem asked (hb : b.Counts n) (k : Nat) : (Issuer.asked b k).Joint b.entries n m where
  entries := rfl
  informed seen h := by simp [Issuer.asked] at h
  raised seen h := by simp [Issuer.asked] at h
  counts := ⟨n, hb, .inl ⟨rfl, rfl, fun seen h => by simp [Issuer.asked] at h⟩⟩
  consecutive := rfl

/-- An allocation under way has found the rows. -/
theorem moved (h : w.Joint rows first base) {a : Allocation} {k : Nat}
    (hb : b.entries = w.backend.entries)
    (ha : ∀ seen, a = .informed seen ∨ a = .raised seen → seen = rows)
    (hcounts : ∃ n, b.Counts n ∧
      (n = first ∧ w.issued = [] ∧ (∀ seen, .raised seen ∉ w.allocations.set k a) ∨
        n = base + w.issued.length)) :
    Joint rows first base { w with backend := b, allocations := w.allocations.set k a } where
  entries := hb.trans h.entries
  informed seen hs := by
    rcases List.mem_or_eq_of_mem_set hs with hs | hs
    · exact h.informed seen hs
    · exact ha seen (.inl hs.symm)
  raised seen hs := by
    rcases List.mem_or_eq_of_mem_set hs with hs | hs
    · exact h.raised seen hs
    · exact ha seen (.inr hs.symm)
  counts := hcounts
  consecutive := h.consecutive

/-- An allocation ends with the next identifier. -/
theorem issue (h : w.Joint rows first base) {g : GroupId} {seen : List Entry} {k : Nat}
    (hrows : b.entries = w.backend.entries) (hg : g.val.toInt = base + w.issued.length)
    (hb : b.Counts (g.val.toInt + 1)) :
    Joint rows first base
      ⟨b, w.allocations.set k (.granted seen g), w.issued ++ [(g, seen)]⟩ where
  entries := hrows.trans h.entries
  informed rows hs := by
    rcases List.mem_or_eq_of_mem_set hs with hs | hs
    · exact h.informed rows hs
    · cases hs
  raised rows hs := by
    rcases List.mem_or_eq_of_mem_set hs with hs | hs
    · exact h.raised rows hs
    · cases hs
  counts := ⟨_, hb, .inr (by rw [hg, List.length_append, List.length_singleton]; omega)⟩
  consecutive := by
    rw [List.length_append, List.length_singleton, List.range_succ, List.map_append,
      List.map_append, h.consecutive]
    simp [hg]

/-- The next step of an allocation keeps all this. -/
theorem advance (h : w.Joint rows first (max first ((highestGroup rows).toInt + 1)))
    (hlimit : w.backend.BelowLimit) (k : Nat) :
    (w.after (.advance k)).Joint rows first (max first ((highestGroup rows).toInt + 1)) := by
  rw [after]
  rcases hadvance : w.allocations[k]?.bind w.backend.advance with _ | ⟨a', b'⟩
  · exact h
  · obtain ⟨a, hk, ha⟩ := Option.bind_eq_some_iff.1 hadvance
    have hmem : a ∈ w.allocations := List.mem_of_getElem? hk
    obtain ⟨n, hn, hwhere⟩ := h.counts
    have hseen (seen : List Entry) (heq : a = .informed seen) :
        ∀ e ∈ seen, e.group.val < Int64.maxValue - 1 := by
      rw [h.informed seen (heq ▸ hmem), ← h.entries]
      exact hlimit.1
    obtain ⟨hrows, m, hstep, hm⟩ := Backend.advance_spec hn hlimit hseen ha
    -- behind the groups of the rows the counter stands at the next identifier
    have hnext : max n ((highestGroup rows).toInt + 1) =
        max first ((highestGroup rows).toInt + 1) + w.issued.length := by
      rcases hwhere with ⟨rfl, hnil, -⟩ | rfl
      · simp [hnil]
      · omega
    cases hstep with
    | inform =>
      have hmoved := h.moved (k := k) (a := .informed w.backend.entries) hrows
        (fun seen heq => by rcases heq with heq | heq <;> cases heq; exact h.entries)
        ⟨n, hm, hwhere.imp_left fun ⟨hfirst, hnil, hnone⟩ => ⟨hfirst, hnil, fun seen hs =>
          (List.mem_or_eq_of_mem_set hs).elim (hnone seen) nofun⟩⟩
      simpa [Allocation.grant?] using hmoved
    | @raise seen =>
      obtain rfl := h.informed seen hmem
      have hmoved := h.moved (k := k) (a := .raised seen) hrows
        (fun other heq => by rcases heq with heq | heq <;> cases heq; rfl) ⟨_, hm, .inr hnext⟩
      simpa [Allocation.grant?] using hmoved
    | @take seen g hg =>
      have hcounter : n = _ + _ := hwhere.resolve_left fun hstart => hstart.2.2 seen hmem
      exact h.issue hrows (hg.trans hcounter) (hg ▸ hm)
    | @grant _ g _ hg => exact h.issue hrows (hg.trans (h.entries ▸ hnext)) hm

/-- As long as the store is in range, nothing of this is lost. -/
theorem run (h : w.Joint rows first (max first ((highestGroup rows).toInt + 1)))
    (events : List Event) (honly : ∀ event ∈ events, ∃ k, event = .advance k)
    (hrange : w.InRange events) :
    (w.run events).Joint rows first (max first ((highestGroup rows).toInt + 1)) := by
  induction events generalizing w with
  | nil => exact h
  | cons event rest ih =>
    obtain ⟨k, rfl⟩ := honly event List.mem_cons_self
    exact ih (h.advance hrange.1 k) (fun e he => honly e (List.mem_cons_of_mem _ he)) hrange.2

end Joint

/-! ### What is handed out -/

/-- **No group identifier is handed out twice.** Whatever happens to a store in range, the
identifiers that it hands out are ascending and positive, and each one is above the groups of the
rows at the time when it was asked for. Every call hands one out, and so does every allocation that
gets three turns. If only allocations go on, their identifiers are consecutive. -/
theorem ascending_issued {k : Nat} {events : List Event} (hb : b.Counts n) (hpos : 0 < n)
    (hrange : (asked b k).InRange events) (hrun : (asked b k).run events = w) :
    w.issued.Pairwise (fun x y => x.1 < y.1) ∧
      (∀ x ∈ w.issued, x.1.IsValid ∧ n ≤ x.1.val.toInt ∧ ∀ e ∈ x.2, e.group < x.1) ∧
      w.issued.length = events.count (.call .allocateGroup) + w.granted ∧
      (∀ i < k, 3 ≤ events.count (.advance i) →
        ∃ rows g, w.allocations[i]? = some (.granted rows g) ∧ (g, rows) ∈ w.issued) ∧
      ((∀ event ∈ events, ∃ i, event = .advance i) →
        w.issued.map (fun x => x.1.val.toInt) =
          (List.range w.granted).map fun i : Nat =>
            max n ((highestGroup b.entries).toInt + 1) + i) := by
  subst hrun
  have hstart := Sound.asked hb k
  obtain ⟨m, hend⟩ := hstart.run hpos events hrange
  have hnone : (asked b k).granted = 0 := by simp [asked, granted, Allocation.grant?]
  have hlength : ((asked b k).run events).issued.length =
      events.count (.call .allocateGroup) + ((asked b k).run events).granted := by
    have hall := length_issued_run hstart hpos events hrange
    rw [hnone] at hall
    exact hall.trans (by rw [asked, List.length_nil, Nat.zero_add, Nat.add_comm])
  refine ⟨hend.ascending, fun x hx => ?_, hlength, fun i hi hthree => ?_, fun honly => ?_⟩
  · obtain ⟨hfirst, -, habove⟩ := hend.issued x hx
    refine ⟨?_, hfirst, habove⟩
    rw [Identifier.IsValid, Int64.lt_iff_toInt_lt]
    exact Int.lt_of_lt_of_le hpos hfirst
  · have hk : (asked b k).allocations[i]? = some .asked := by simp [asked, hi]
    obtain ⟨a, ha, hrank⟩ := rank_run hstart hpos events hrange hk
    cases a with
    | granted rows g => exact ⟨rows, g, ha, hend.granted rows g (List.mem_of_getElem? ha)⟩
    | failed => exact absurd (List.mem_of_getElem? ha) hend.sound
    | _ => simp only [Allocation.rank] at hrank; omega
  · have hjoint := (Joint.asked hb k).run events honly hrange
    have hnocall : events.count (.call .allocateGroup) = 0 :=
      List.count_eq_zero_of_not_mem fun hmem => by
        obtain ⟨i, hi⟩ := honly _ hmem
        cases hi
    rw [hjoint.consecutive, hlength, hnocall, Nat.zero_add]

/-- Rows in high and in negative groups come and go while two allocations are under way: both have
read the rows before the others change them. -/
def rush : List Event :=
  [.call (.insert (.forUser ⟨41⟩ ⟨1⟩ .full)), .advance 0,
    .insertRaw ((Grant.forUser ⟨90⟩ ⟨1⟩ .full).toEntry ⟨7⟩), .advance 1, .advance 0,
    .call .allocateGroup, .call (.deleteGroup ⟨90⟩), .reopen, .advance 1,
    .call (.update ((Grant.forUser ⟨-3⟩ ⟨1⟩ .full).toEntry ⟨1⟩)), .advance 0, .call .allocateGroup,
    .advance 1]

theorem ascending_rush :
    let w := (asked (.memory {} {}) 2).run rush
    (Backend.memory {} {}).Counts 1 ∧ (asked (.memory {} {}) 2).InRange rush ∧
      w.issued.map (fun x => x.1.val) = [91, 92, 93, 94] ∧
      w.issued.Pairwise (fun x y => x.1 < y.1) ∧ w.granted = 2 := by
  have hrange : (asked (.memory {} {}) 2).InRange rush := by decide +kernel
  have hcounts : (Backend.memory {} {}).Counts 1 := by rfl
  exact ⟨hcounts, hrange, by decide +kernel,
    (ascending_issued hcounts (by decide) hrange rfl).1, by decide +kernel⟩

end Issuer

end AccessGroups