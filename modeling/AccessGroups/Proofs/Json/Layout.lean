import AccessGroups.Json.Fields
import Mathlib.Data.List.Perm.Basic
import Mathlib.Data.List.Forall2

/-!
# Layouts of structures

A layout says how a structure is spelled by documents: the fields in declared order, each with its
name, with the documents that spell what a value has in it, and with whether it may be left out
where null would spell it. A list spells a value by its fields in declared order. An object spells
it by its fields in any order, each one once, and may have any other members.

## Main definitions

* `Json.FieldRule`: a field of a structure, with `FieldRule.required` and `FieldRule.nullable`.
* `Json.SpelledBy`: a document spells a value in a layout.

## Main results

* `Json.spelledBy_record_iff`: what an object must have of each field.
* `Json.exists_fields?_iff`: the documents of the fields are found and spell the value if and only
  if the whole document does.
-/

namespace AccessGroups.Json

variable {α β : Type}

/-! ### Fields -/

/-- A field of a structure. -/
structure FieldRule (α : Type) where
  name : String
  /-- The document spells what the value has in the field. -/
  Spells : α → Source → Prop
  /-- The field may be left out where null would spell it. -/
  optional : Bool

namespace FieldRule

/-- The field of the value may be given by the document, or left out. -/
def Holds (f : FieldRule α) (v : α) : Option Source → Prop
  | some s => f.Spells v s
  | none => f.optional = true ∧ f.Spells v .null

/-- A field that must be there. -/
def required (name : String) (Spells : β → Source → Prop) (get : α → β) : FieldRule α :=
  ⟨name, fun v => Spells (get v), false⟩

/-- A field that is null where the value has nothing in it. -/
def nullable (name : String) (Spells : β → Source → Prop) (get : α → Option β) : FieldRule α :=
  ⟨name, fun v s => (get v).elim (s = .null) fun b => Spells b s, true⟩

variable {name : String} {Spells : β → Source → Prop} {decode : Source → Option β} {v : α}

theorem required_holds_iff {get : α → β} (hdecode : ∀ b s, decode s = some b ↔ Spells b s)
    (d : Option Source) :
    (required name Spells get).Holds v d ↔ required? decode d = some (get v) := by
  cases d with
  | none => simp [Holds, required, required?]
  | some s => exact (hdecode _ s).symm

theorem nullable_holds_iff {get : α → Option β} (hdecode : ∀ b s, decode s = some b ↔ Spells b s)
    (hnull : ∀ b, ¬Spells b .null) (d : Option Source) :
    (nullable name Spells get).Holds v d ↔ optional? decode d = some (get v) := by
  have hempty : (get v).elim (Source.null = .null) (fun b => Spells b .null) ↔
      some none = some (get v) := by
    cases hget : get v with
    | none => simp
    | some b => simpa using hnull b
  have hfull (s : Source) (hs : s ≠ .null) : (get v).elim (s = .null) (fun b => Spells b s) ↔
      (decode s).map some = some (get v) := by
    cases hget : get v with
    | none => simpa using hs
    | some b => simp [hdecode]
  cases d with
  | none => simpa [Holds, nullable, optional?] using hempty
  | some s =>
    cases s with
    | null => exact hempty
    | bool | number | text | list | record => exact hfull _ (by simp)

end FieldRule

/-! ### Spelled values -/

/-- The members are the fields of the value in declared order, without some that may be left
out. -/
inductive Listed (v : α) : List (FieldRule α) → List (Option String × Source) → Prop
  | nil : Listed v [] []
  | present {f : FieldRule α} {fields : List (FieldRule α)} {s : Source}
    {members : List (Option String × Source)} (h : f.Spells v s) (hrest : Listed v fields members) :
    Listed v (f :: fields) ((some f.name, s) :: members)
  | absent {f : FieldRule α} {fields : List (FieldRule α)} {members : List (Option String × Source)}
    (h : f.optional = true) (hnull : f.Spells v .null) (hrest : Listed v fields members) :
    Listed v (f :: fields) members

/-- The document spells the value: a list of its fields, or an object of its fields in any order
among other members, whose names are no fields. -/
def SpelledBy (layout : List (FieldRule α)) (v : α) : Source → Prop
  | .list items => List.Forall₂ (fun f s => f.Spells v s) layout items
  | .record members => ∃ known unknown, members.Perm (known ++ unknown) ∧ Listed v layout known ∧
      ∀ m ∈ unknown, ∃ name, m.1 = some name ∧ ∀ f ∈ layout, name ≠ f.name
  | _ => False

variable {layout : List (FieldRule α)} {v : α} {members known : List (Option String × Source)}

namespace Source

/-- A field is found if the members with its name are at most one. -/
theorem field?_eq_some_iff {name : String} {d : Option Source} : field? members name = some d ↔
    (members.filter fun m => m.1 == some name) = d.toList.map (some name, ·) := by
  have hname : ∀ m ∈ members.filter fun m => m.1 == some name, m.1 = some name := fun m hm => by
    simpa using (List.mem_filter.1 hm).2
  unfold field?
  split
  case h_1 h => cases d <;> simp [h]
  case h_2 m h =>
    have hm := hname m (by simp [h])
    cases d <;> simp [h, Prod.ext_iff, hm]
  case h_3 hnil hone =>
    cases d with
    | none => simpa using hnil
    | some s => simpa using hone (some name, s)

end Source

/-- Every listed member is a field. -/
theorem Listed.exists_field (h : Listed v layout known) {m : Option String × Source}
    (hm : m ∈ known) : ∃ f ∈ layout, m.1 = some f.name := by
  induction h with
  | nil => cases hm
  | @present f fields s members h hrest ih =>
    rcases List.mem_cons.1 hm with rfl | hm
    · exact ⟨f, List.mem_cons_self, rfl⟩
    · obtain ⟨g, hg, hname⟩ := ih hm
      exact ⟨g, List.mem_cons_of_mem _ hg, hname⟩
  | absent h hnull hrest ih =>
    obtain ⟨g, hg, hname⟩ := ih hm
    exact ⟨g, List.mem_cons_of_mem _ hg, hname⟩

/-! ### What an object has of each field -/

theorem Listed.filter_eq_nil (h : Listed v layout known) {name : String}
    (hname : name ∉ layout.map FieldRule.name) : (known.filter fun m => m.1 == some name) = [] := by
  refine List.filter_eq_nil_iff.2 fun m hm hm' => hname ?_
  obtain ⟨f, hf, hfield⟩ := h.exists_field hm
  exact List.mem_map.2 ⟨f, hf, Option.some.inj (hfield.symm.trans (beq_iff_eq.1 hm'))⟩

/-- Listed members have each field once, or not at all where it may be left out. -/
theorem Listed.field? (h : Listed v layout known) (hnames : (layout.map FieldRule.name).Nodup)
    {f : FieldRule α} (hf : f ∈ layout) :
    ∃ d, Source.field? known f.name = some d ∧ f.Holds v d := by
  simp only [Source.field?_eq_some_iff]
  induction h with
  | nil => cases hf
  | @present g fields s members h hrest ih =>
    obtain ⟨hg, hnames⟩ := List.nodup_cons.1 hnames
    rcases List.mem_cons.1 hf with rfl | hf
    · exact ⟨some s, by simp [hrest.filter_eq_nil hg], h⟩
    · have hne : g.name ≠ f.name := fun h => hg (h ▸ List.mem_map_of_mem hf)
      obtain ⟨d, hd, hholds⟩ := ih hnames hf
      exact ⟨d, by simpa [hne] using hd, hholds⟩
  | @absent g fields members h hnull hrest ih =>
    obtain ⟨hg, hnames⟩ := List.nodup_cons.1 hnames
    rcases List.mem_cons.1 hf with rfl | hf
    · exact ⟨none, hrest.filter_eq_nil hg, h, hnull⟩
    · exact ih hnames hf

/-- The member is a field of the layout. -/
def isField (layout : List (FieldRule α)) (m : Option String × Source) : Bool :=
  layout.any fun f => m.1 == some f.name

/-- If each field is there as it must be, then the fields are listed by the members. -/
theorem exists_listed (hnames : (layout.map FieldRule.name).Nodup)
    (h : ∀ f ∈ layout, ∃ d, Source.field? members f.name = some d ∧ f.Holds v d) :
    ∃ known, Listed v layout known ∧ (members.filter (isField layout)).Perm known := by
  simp only [Source.field?_eq_some_iff] at h
  induction layout with
  | nil => exact ⟨[], .nil, by simp [isField]⟩
  | cons f fields ih =>
    obtain ⟨hf, hnames⟩ := List.nodup_cons.1 hnames
    obtain ⟨d, hd, hholds⟩ := h f List.mem_cons_self
    obtain ⟨known, hknown, hperm⟩ := ih hnames fun g hg => h g (List.mem_cons_of_mem _ hg)
    refine ⟨d.toList.map (some f.name, ·) ++ known, ?_, ?_⟩
    · cases d with
      | none => exact .absent hholds.1 hholds.2 hknown
      | some s => exact .present hholds hknown
    -- The members are split by the name of the first field; no other field has this name.
    have hother {m : Option String × Source} (hm : isField fields m = true) :
        (m.1 == some f.name) = false := by
      obtain ⟨g, hg, hname⟩ := List.any_eq_true.1 hm
      refine beq_eq_false_iff_ne.2 fun hfield => hf (List.mem_map.2 ⟨g, hg, ?_⟩)
      exact Option.some.inj ((beq_iff_eq.1 hname).symm.trans hfield)
    have hthis : (members.filter (isField (f :: fields))).filter (fun m => m.1 == some f.name) =
        d.toList.map (some f.name, ·) := by
      rw [← hd, List.filter_filter]
      refine List.filter_congr fun m _ => ?_
      cases hm : m.1 == some f.name <;> simp [isField, hm]
    have hthose : (members.filter (isField (f :: fields))).filter (fun m => !(m.1 == some f.name)) =
        members.filter (isField fields) := by
      rw [List.filter_filter]
      refine List.filter_congr fun m _ => ?_
      rw [show isField (f :: fields) m = (m.1 == some f.name || isField fields m) from rfl]
      cases hm : isField fields m with
      | false => cases m.1 == some f.name <;> rfl
      | true => rw [hother hm]; rfl
    have hsplit := List.filter_append_perm (fun m => m.1 == some f.name)
      (members.filter (isField (f :: fields)))
    rw [hthis, hthose] at hsplit
    exact hsplit.symm.trans (hperm.append_left _)

/-- An object spells the value if and only if all names are texts and each field is there once, or
left out where it may be. -/
theorem spelledBy_record_iff (hnames : (layout.map FieldRule.name).Nodup) :
    SpelledBy layout v (.record members) ↔ (∀ m ∈ members, m.1.isSome = true) ∧
      ∀ f ∈ layout, ∃ d, Source.field? members f.name = some d ∧ f.Holds v d := by
  constructor
  · rintro ⟨known, unknown, hperm, hlisted, hunknown⟩
    refine ⟨fun m hm => ?_, fun f hf => ?_⟩
    · rcases List.mem_append.1 (hperm.subset hm) with hm | hm
      · obtain ⟨f, -, hname⟩ := hlisted.exists_field hm
        rw [hname]
        rfl
      · obtain ⟨name, hname, -⟩ := hunknown m hm
        rw [hname]
        rfl
    · obtain ⟨d, hd, hholds⟩ := hlisted.field? hnames hf
      refine ⟨d, ?_, hholds⟩
      rw [Source.field?_eq_some_iff] at hd ⊢
      have hnone : (unknown.filter fun m => m.1 == some f.name) = [] := by
        refine List.filter_eq_nil_iff.2 fun m hm hname => ?_
        obtain ⟨name, hm', hne⟩ := hunknown m hm
        exact hne f hf (Option.some.inj (hm'.symm.trans (beq_iff_eq.1 hname)))
      have hfilter := hperm.filter fun m => m.1 == some f.name
      rw [List.filter_append, hd, hnone, List.append_nil] at hfilter
      cases d with
      | none => exact List.perm_nil.1 hfilter
      | some s => exact List.perm_singleton.1 hfilter
  · rintro ⟨htexts, hfields⟩
    obtain ⟨known, hlisted, hknown⟩ := exists_listed hnames hfields
    refine ⟨known, members.filter fun m => !isField layout m, ?_, hlisted, fun m hm => ?_⟩
    · exact (List.filter_append_perm (isField layout) members).symm.trans (hknown.append_right _)
    · obtain ⟨hm, hother⟩ := List.mem_filter.1 hm
      obtain ⟨name, hname⟩ := Option.isSome_iff_exists.1 (htexts m hm)
      refine ⟨name, hname, fun f hf hfield => ?_⟩
      have : isField layout m = true := List.any_eq_true.2 ⟨f, hf, by rw [hname, hfield]; simp⟩
      simp [this] at hother

/-! ### The documents of the fields -/

theorem mapM_eq_some_iff {f : α → Option β} {xs : List α} {ys : List β} :
    xs.mapM f = some ys ↔ List.Forall₂ (fun x y => f x = some y) xs ys := by
  induction xs generalizing ys with
  | nil => simp [eq_comm]
  | cons x xs ih =>
    rw [List.mapM_cons]
    simp only [Option.bind_eq_bind, Option.pure_def, Option.bind_eq_some_iff, Option.some.injEq, ih,
      List.forall₂_cons_left_iff]
    grind

theorem exists_forall₂_iff {p q : α → β → Prop} {xs : List α} :
    (∃ ys, List.Forall₂ p xs ys ∧ List.Forall₂ q xs ys) ↔ ∀ x ∈ xs, ∃ y, p x y ∧ q x y := by
  induction xs with
  | nil => simp
  | cons x xs ih =>
    simp only [List.forall_mem_cons, ← ih]
    constructor
    · rintro ⟨_, hps, hqs⟩
      obtain ⟨y, ys, hp, hptail, rfl⟩ := List.forall₂_cons_left_iff.1 hps
      obtain ⟨hq, hqtail⟩ := List.forall₂_cons.1 hqs
      exact ⟨⟨y, hp, hq⟩, ys, hptail, hqtail⟩
    · rintro ⟨⟨y, hp, hq⟩, ys, hps, hqs⟩
      exact ⟨y :: ys, .cons hp hps, .cons hq hqs⟩

/-- The documents of the fields are found and spell the value if and only if the document does. -/
theorem exists_fields?_iff (hnames : (layout.map FieldRule.name).Nodup) {s : Source} :
    (∃ docs, s.fields? (layout.map FieldRule.name) = some docs ∧
      List.Forall₂ (fun f d => f.Holds v d) layout docs) ↔ SpelledBy layout v s := by
  cases s with
  | null | bool | number | text => simp [Source.fields?, SpelledBy]
  | list items =>
    constructor
    · rintro ⟨docs, hdocs, hholds⟩
      simp only [Source.fields?, Option.ite_none_right_eq_some] at hdocs
      obtain rfl := Option.some.inj hdocs.2
      exact (List.forall₂_map_right_iff (f := some)).1 hholds
    · intro h
      have hlength : items.length = (layout.map FieldRule.name).length := by
        rw [List.length_map, h.length_eq]
      exact ⟨items.map some, if_pos hlength, List.forall₂_map_right_iff.2 h⟩
  | record members =>
    rw [spelledBy_record_iff hnames, ← exists_forall₂_iff]
    simp only [Source.fields?, Option.ite_none_right_eq_some, mapM_eq_some_iff,
      List.forall₂_map_left_iff, List.all_eq_true, and_assoc, exists_and_left]

end AccessGroups.Json
