import AccessGroups.Proofs.Json.Tokens

/-!
# Reading documents

The reader takes every text of the grammar and gives the document that it writes. The steps that a
text needs are bounded by twice its length, one step to enter a value and one to go on to the next
item or member.

## Main definitions

* `Json.Source.ReadsWithin`: within so many steps the readers take the texts of the grammar.

## Main results

* `Json.Source.readsWithin`: this holds for every number of steps.
* `Json.Source.ofString?_of_spaced`: a whole text is read to the document that it writes.
-/

namespace AccessGroups.Json

variable {front back cs rest : List Char} {s : Source}

/-! ### Blanks -/

theorem skipBlanks_append (hfront : Blanks front) (rest : List Char) :
    skipBlanks (front ++ rest) = skipBlanks rest :=
  List.dropWhile_append_of_pos hfront

theorem skipBlanks_cons {c : Char} (h : isBlank c = false) (rest : List Char) :
    skipBlanks (c :: rest) = c :: rest :=
  List.dropWhile_cons_of_neg (by simp [h])

/-- What is left of a text stands after blanks. -/
theorem exists_skipBlanks (cs : List Char) : ∃ front, Blanks front ∧ front ++ skipBlanks cs = cs :=
  ⟨cs.takeWhile isBlank, List.all_eq_true.1 List.all_takeWhile, List.takeWhile_append_dropWhile⟩

theorem Ends.append (hback : Blanks back) (hrest : Ends rest) : Ends (back ++ rest) := by
  cases back with
  | nil => exact hrest
  | cons c back =>
    rintro _ ⟨⟩
    have hc : isBlank c = true := hback c List.mem_cons_self
    simp only [isBlank, Bool.or_eq_true, decide_eq_true_eq] at hc
    rcases hc with ((rfl | rfl) | rfl) | rfl <;> decide

/-- The comma after an item or a member, and the end of a list or of an object, end a number. -/
theorem ends_cons {c : Char} (hc : c = ',' ∨ c = ']' ∨ c = '\x7d') (rest : List Char) :
    Ends (c :: rest) := by
  rintro _ ⟨⟩
  rcases hc with rfl | rfl | rfl <;> decide

/-! ### The first character of a value -/

theorem Written.exists_cons (h : Written cs s) :
    ∃ c tail, cs = c :: tail ∧ isBlank c = false ∧ c ≠ ']' := by
  cases h with
  | null => exact ⟨_, _, rfl, rfl, by decide⟩
  | bool b => cases b <;> exact ⟨_, _, rfl, rfl, by decide⟩
  | number h =>
    obtain ⟨c, tail, rfl, hc⟩ := h.exists_cons
    refine ⟨c, tail, rfl, ?_⟩
    rcases hc with rfl | hc
    · exact ⟨rfl, by decide⟩
    · have hrange : 48 ≤ c.toNat ∧ c.toNat ≤ 57 := Char.isDigit_iff_toNat.1 hc
      have hne (d : Char) (hd : d.toNat < 48 ∨ 57 < d.toNat) : c ≠ d := by
        rintro rfl
        omega
      simp [isBlank, hne]
  | text h =>
    obtain ⟨body, pieces, rfl, -⟩ := h
    exact ⟨_, _, rfl, rfl, by decide⟩
  | emptyList | list | emptyRecord | record => exact ⟨_, _, rfl, rfl, by decide⟩

theorem Spaced.head?_ne (h : Spaced cs s) (rest : List Char) :
    (skipBlanks (cs ++ rest)).head? ≠ some ']' := by
  obtain ⟨hfront, hwritten, -⟩ := h
  obtain ⟨c, tail, rfl, hblank, hc⟩ := hwritten.exists_cons
  rw [List.append_assoc, skipBlanks_append hfront, List.cons_append, List.cons_append,
    skipBlanks_cons hblank]
  exact fun h => hc (Option.some.inj h)

theorem WrittenItems.head?_ne {items : List Source} (h : WrittenItems cs items)
    (rest : List Char) : (skipBlanks (cs ++ rest)).head? ≠ some ']' := by
  cases h with
  | last h => exact h.head?_ne rest
  | cons h =>
    rw [List.append_assoc]
    exact h.head?_ne _

theorem WrittenMember.head?_ne {member : Option String × Source} (h : WrittenMember cs member)
    (rest : List Char) : (skipBlanks (cs ++ rest)).head? ≠ some '\x7d' := by
  obtain ⟨hfront, ⟨body, pieces, rfl, -⟩, -, -⟩ := h
  rw [List.append_assoc, skipBlanks_append hfront, List.cons_append, List.cons_append,
    skipBlanks_cons rfl]
  exact fun h => absurd (Option.some.inj h) (by decide)

theorem WrittenMembers.head?_ne {members : List (Option String × Source)}
    (h : WrittenMembers cs members) (rest : List Char) :
    (skipBlanks (cs ++ rest)).head? ≠ some '\x7d' := by
  cases h with
  | last h => exact h.head?_ne rest
  | cons h =>
    rw [List.append_assoc]
    exact h.head?_ne _

namespace Source

/-- Blanks before a value are skipped. -/
theorem read?_append (hfront : Blanks front) (fuel : Nat) (rest : List Char) :
    read? fuel (front ++ rest) = read? fuel rest := by
  cases fuel with
  | zero => rw [read?, read?]
  | succ fuel => rw [read?, read?, skipBlanks_append hfront]

theorem readItems?_skipBlanks (fuel : Nat) (cs : List Char) :
    readItems? fuel (skipBlanks cs) = readItems? fuel cs := by
  obtain ⟨front, hfront, hcs⟩ := exists_skipBlanks cs
  cases fuel with
  | zero => rw [readItems?, readItems?]
  | succ fuel => rw [readItems?, readItems?, ← read?_append hfront, hcs]

theorem readMembers?_skipBlanks (fuel : Nat) (cs : List Char) :
    readMembers? fuel (skipBlanks cs) = readMembers? fuel cs := by
  obtain ⟨front, hfront, hcs⟩ := exists_skipBlanks cs
  cases fuel with
  | zero => rw [readMembers?, readMembers?]
  | succ fuel => rw [readMembers?, readMembers?, ← skipBlanks_append hfront, hcs]

/-! ### The first step of the reader -/

theorem read?_number {c : Char} (hc : c = '-' ∨ c.isDigit = true) (fuel : Nat)
    (rest : List Char) : read? (fuel + 1) (c :: rest) = readNumber? (c :: rest) := by
  have hne (d : Char) (hd : d ≠ '-' ∧ d.isDigit = false) : c ≠ d := by
    rintro rfl
    simp [hd] at hc
  have hblank : isBlank c = false := by simp [isBlank, hne]
  rw [read?, skipBlanks_cons hblank]
  simp only [hne 'n' (by decide), hne 't' (by decide), hne 'f' (by decide), hne '"' (by decide),
    hne '[' (by decide), hne '\x7b' (by decide), if_false]

/-- After its bracket a list is over, or it is read item by item. -/
theorem read?_bracket (fuel : Nat) (cs : List Char) : read? (fuel + 1) ('[' :: cs) =
    match skipBlanks cs with
    | ']' :: rest => some (.list [], rest)
    | rest => (readItems? fuel rest).map fun r => (.list r.1, r.2) := by
  rw [read?]
  rfl

theorem read?_emptyList (fuel : Nat) (h : skipBlanks cs = ']' :: rest) :
    read? (fuel + 1) ('[' :: cs) = some (.list [], rest) := by
  rw [read?_bracket, h]
  rfl

theorem read?_list (fuel : Nat) (h : (skipBlanks cs).head? ≠ some ']') :
    read? (fuel + 1) ('[' :: cs) = (readItems? fuel cs).map fun r => (.list r.1, r.2) := by
  rw [read?_bracket, ← readItems?_skipBlanks]
  split
  case h_1 heq => exact absurd (by rw [heq]; rfl) h
  case h_2 => rfl

/-- After its brace an object is over, or it is read member by member. -/
theorem read?_brace (fuel : Nat) (cs : List Char) : read? (fuel + 1) ('\x7b' :: cs) =
    match skipBlanks cs with
    | '\x7d' :: rest => some (.record [], rest)
    | rest => (readMembers? fuel rest).map fun r => (.record r.1, r.2) := by
  rw [read?]
  rfl

theorem read?_emptyRecord (fuel : Nat) (h : skipBlanks cs = '\x7d' :: rest) :
    read? (fuel + 1) ('\x7b' :: cs) = some (.record [], rest) := by
  rw [read?_brace, h]
  rfl

theorem read?_record (fuel : Nat) (h : (skipBlanks cs).head? ≠ some '\x7d') :
    read? (fuel + 1) ('\x7b' :: cs) = (readMembers? fuel cs).map fun r => (.record r.1, r.2) := by
  rw [read?_brace, ← readMembers?_skipBlanks]
  split
  case h_1 heq => exact absurd (by rw [heq]; rfl) h
  case h_2 => rfl

theorem read?_null (fuel : Nat) (rest : List Char) :
    read? (fuel + 1) ('n' :: 'u' :: 'l' :: 'l' :: rest) = some (.null, rest) := by
  rw [read?]
  rfl

theorem read?_bool (fuel : Nat) (b : Bool) (rest : List Char) :
    read? (fuel + 1) (boolChars b ++ rest) = some (.bool b, rest) := by
  rw [read?]
  cases b <;> rfl

theorem read?_text (fuel : Nat) (rest : List Char) :
    read? (fuel + 1) ('"' :: rest) = (readText? rest).map fun r => (.text r.1, r.2) := by
  rw [read?]
  rfl

/-! ### After an item or a member -/

/-- The items from one that was read, by what stands after it: there are more after a comma. -/
def itemsAfter? (fuel : Nat) (item : Source) : List Char → Option (List Source × List Char)
  | ',' :: rest => (readItems? fuel rest).map fun r => (item :: r.1, r.2)
  | ']' :: rest => some ([item], rest)
  | _ => none

/-- The members from one that was read, by what stands after it: there are more after a comma. -/
def membersAfter? (fuel : Nat) (member : Option String × Source) :
    List Char → Option (List (Option String × Source) × List Char)
  | ',' :: rest => (readMembers? fuel rest).map fun r => (member :: r.1, r.2)
  | '\x7d' :: rest => some ([member], rest)
  | _ => none

/-! ### What some steps suffice for -/

/-- Within `fuel` steps the readers take the texts of the grammar, whatever stands after them: a
value needs a step for itself and one more for each character, to enter it and to go on after
it. -/
structure ReadsWithin (fuel : Nat) : Prop where
  value : ∀ {cs rest : List Char} {s : Source}, Written cs s → 2 * cs.length + 1 ≤ fuel →
    Ends rest → read? fuel (cs ++ rest) = some (s, rest)
  items : ∀ {cs rest : List Char} {items : List Source}, WrittenItems cs items →
    2 * cs.length + 2 ≤ fuel → readItems? fuel (cs ++ ']' :: rest) = some (items, rest)
  members : ∀ {cs rest : List Char} {members : List (Option String × Source)},
    WrittenMembers cs members → 2 * cs.length + 2 ≤ fuel →
      readMembers? fuel (cs ++ '\x7d' :: rest) = some (members, rest)

namespace ReadsWithin

variable {fuel : Nat}

/-- Blanks before a value are read with it; those after it are left. -/
theorem spaced (h : ReadsWithin fuel) (hcs : Spaced cs s) (hfuel : 2 * cs.length + 1 ≤ fuel)
    (hrest : Ends rest) :
    ∃ back, Blanks back ∧ read? fuel (cs ++ rest) = some (s, back ++ rest) := by
  obtain ⟨hfront, hwritten, hback⟩ := hcs
  simp only [List.length_append] at hfuel
  refine ⟨_, hback, ?_⟩
  rw [List.append_assoc, List.append_assoc, read?_append hfront]
  exact h.value hwritten (by omega) (hrest.append hback)

theorem item (h : ReadsWithin fuel) (hcs : Spaced cs s) (hfuel : 2 * cs.length + 1 ≤ fuel)
    (hrest : Ends rest) :
    readItems? (fuel + 1) (cs ++ rest) = itemsAfter? fuel s (skipBlanks rest) := by
  obtain ⟨back, hback, hread⟩ := h.spaced hcs hfuel hrest
  rw [readItems?, hread, ← skipBlanks_append hback rest]
  rfl

theorem member (h : ReadsWithin fuel) {member : Option String × Source}
    (hcs : WrittenMember cs member) (hfuel : 2 * cs.length + 1 ≤ fuel) (hrest : Ends rest) :
    readMembers? (fuel + 1) (cs ++ rest) = membersAfter? fuel member (skipBlanks rest) := by
  obtain @⟨front, _, back, cs, name, s, hfront, ⟨body, pieces, rfl, hpieces, hvalue⟩, hback,
    hspaced⟩ := hcs
  simp only [List.length_append, List.length_cons] at hfuel
  have hquote : skipBlanks (front ++ ('"' :: (body ++ ['"']) ++ (back ++ ':' :: cs)) ++ rest) =
      '"' :: (body ++ '"' :: (back ++ ':' :: (cs ++ rest))) := by
    rw [List.append_assoc, skipBlanks_append hfront]
    simp [skipBlanks_cons (c := '"') rfl]
  have hname := readText?_append hpieces hvalue (back ++ ':' :: (cs ++ rest))
  have hcolon : skipBlanks (back ++ ':' :: (cs ++ rest)) = ':' :: (cs ++ rest) := by
    rw [skipBlanks_append hback, skipBlanks_cons rfl]
  obtain ⟨after, hafter, hread⟩ := h.spaced hspaced (by omega) hrest
  rw [readMembers?, hquote, ← skipBlanks_append hafter rest]
  simp only [hname, hcolon, hread, Option.bind_eq_bind, Option.bind_some]
  rfl

theorem items_succ (h : ReadsWithin fuel) {items : List Source} (hcs : WrittenItems cs items)
    (hfuel : 2 * cs.length + 2 ≤ fuel + 1) :
    readItems? (fuel + 1) (cs ++ ']' :: rest) = some (items, rest) := by
  cases hcs with
  | last hspaced =>
    rw [h.item hspaced (by omega) (ends_cons (by decide) rest), skipBlanks_cons rfl]
    rfl
  | cons hspaced htail =>
    simp only [List.length_append, List.length_cons] at hfuel
    rw [List.append_assoc, List.cons_append, h.item hspaced (by omega) (ends_cons (by decide) _),
      skipBlanks_cons rfl]
    rw [itemsAfter?, h.items htail (by omega)]
    rfl

theorem members_succ (h : ReadsWithin fuel) {members : List (Option String × Source)}
    (hcs : WrittenMembers cs members) (hfuel : 2 * cs.length + 2 ≤ fuel + 1) :
    readMembers? (fuel + 1) (cs ++ '\x7d' :: rest) = some (members, rest) := by
  cases hcs with
  | last hmember =>
    rw [h.member hmember (by omega) (ends_cons (by decide) rest), skipBlanks_cons rfl]
    rfl
  | cons hmember htail =>
    simp only [List.length_append, List.length_cons] at hfuel
    rw [List.append_assoc, List.cons_append,
      h.member hmember (by omega) (ends_cons (by decide) _), skipBlanks_cons rfl]
    rw [membersAfter?, h.members htail (by omega)]
    rfl

theorem value_succ (h : ReadsWithin fuel) (hcs : Written cs s)
    (hfuel : 2 * cs.length + 1 ≤ fuel + 1) (hrest : Ends rest) :
    read? (fuel + 1) (cs ++ rest) = some (s, rest) := by
  cases hcs with
  | null => exact read?_null fuel rest
  | bool b => exact read?_bool fuel b rest
  | number hnumber =>
    obtain ⟨c, tail, rfl, hc⟩ := hnumber.exists_cons
    exact (read?_number hc fuel (tail ++ rest)).trans (readNumber?_append hnumber hrest)
  | text htext =>
    obtain ⟨body, pieces, rfl, hpieces, hvalue⟩ := htext
    have hread := readText?_append hpieces hvalue rest
    simp only [List.cons_append, List.append_assoc, List.nil_append]
    rw [read?_text, hread]
    rfl
  | @emptyList blanks hblanks =>
    have hskip : skipBlanks (blanks ++ ']' :: rest) = ']' :: rest := by
      rw [skipBlanks_append hblanks, skipBlanks_cons rfl]
    rw [List.cons_append, List.append_assoc, List.singleton_append]
    exact read?_emptyList fuel hskip
  | @list cs items hitems =>
    simp only [List.length_append, List.length_cons] at hfuel
    rw [List.cons_append, List.append_assoc, List.singleton_append,
      read?_list fuel (hitems.head?_ne _), h.items hitems (by omega)]
    rfl
  | @emptyRecord blanks hblanks =>
    have hskip : skipBlanks (blanks ++ '\x7d' :: rest) = '\x7d' :: rest := by
      rw [skipBlanks_append hblanks, skipBlanks_cons rfl]
    rw [List.cons_append, List.append_assoc, List.singleton_append]
    exact read?_emptyRecord fuel hskip
  | @record cs members hmembers =>
    simp only [List.length_append, List.length_cons] at hfuel
    rw [List.cons_append, List.append_assoc, List.singleton_append,
      read?_record fuel (hmembers.head?_ne _), h.members hmembers (by omega)]
    rfl

end ReadsWithin

/-- The readers take the texts of the grammar within any number of steps that their lengths
allow. -/
theorem readsWithin (fuel : Nat) : ReadsWithin fuel := by
  -- The three readers call each other with a step less, so that one induction carries them all.
  induction fuel with
  | zero => exact ⟨fun _ h => by omega, fun _ h => by omega, fun _ h => by omega⟩
  | succ fuel ih => exact ⟨ih.value_succ, ih.items_succ, ih.members_succ⟩

/-- A whole text is read to the document that it writes. -/
theorem ofString?_of_spaced {text : String} (h : Spaced text.toList s) :
    ofString? text = some s := by
  have hend : Ends [] := fun c hc => nomatch hc
  obtain ⟨back, hback, hread⟩ := (readsWithin _).spaced h (Nat.le_refl _) hend
  rw [List.append_nil, List.append_nil] at hread
  have hempty : skipBlanks back = [] := by simpa [skipBlanks] using skipBlanks_append hback []
  simp [ofString?, ofChars?, hread, hempty]

end Source

end AccessGroups.Json
