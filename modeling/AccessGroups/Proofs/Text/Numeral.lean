import AccessGroups.Text.Blank
import AccessGroups.Text.Decimal
import Mathlib.Data.List.Basic
import Mathlib.Tactic.Ring

/-!
# Numbers in a text

A number is written with at least one ASCII digit, after a sign if the reader takes one, and with
blanks around it. Leading zeros are allowed, and there is no bound on the length, so that every
number can be written in many ways; a reader takes all of them as long as the number fits in its
word.

## Main definitions

* `Text.Sign`: the signs that can stand before a number.
* `Text.placeValue`: the number that digits write.
* `Text.Writes`: a text writes a number.

## Main results

* `Text.readWord?_trim_eq_some_iff`, `Text.readInt64?_trim_eq_some_iff`: the readers of words take
  the texts that write a number of their range, and no other text.
-/

namespace AccessGroups.Text

/-! ### Blanks -/

/-- A run of characters is dropped up to the first one of another sort. -/
theorem dropWhile_append_of_head {p : Char → Bool} {front rest : List Char}
    (hfront : ∀ c ∈ front, p c = true) (hrest : ∀ c ∈ rest.head?, p c = false) :
    (front ++ rest).dropWhile p = rest := by
  rw [List.dropWhile_append_of_pos hfront]
  cases rest with
  | nil => rfl
  | cons c rest => exact List.dropWhile_cons_of_neg (by simp [hrest c rfl])

theorem trimBlanks_append {front cs back : List Char} (hfront : ∀ c ∈ front, isBlank c = true)
    (hback : ∀ c ∈ back, isBlank c = true) (hne : cs ≠ []) (hcs : ∀ c ∈ cs, isBlank c = false) :
    trimBlanks (front ++ cs ++ back) = cs := by
  have hfirst : (front ++ cs ++ back).dropWhile isBlank = cs ++ back := by
    rw [List.append_assoc]
    refine dropWhile_append_of_head hfront fun c hc => hcs c ?_
    rw [List.head?_append_of_ne_nil _ hne] at hc
    exact List.mem_of_mem_head? hc
  have hlast : (back.reverse ++ cs.reverse).dropWhile isBlank = cs.reverse := by
    refine dropWhile_append_of_head (fun c hc => hback c (List.mem_reverse.1 hc)) fun c hc => ?_
    exact hcs c (List.mem_reverse.1 (List.mem_of_mem_head? hc))
  rw [trimBlanks, hfirst, List.reverse_append, hlast, List.reverse_reverse]

/-- Around what is left of a text there were blanks. -/
theorem exists_trimBlanks (cs : List Char) : ∃ front back, cs = front ++ trimBlanks cs ++ back ∧
    (∀ c ∈ front, isBlank c = true) ∧ ∀ c ∈ back, isBlank c = true := by
  have hsplit (ds : List Char) := (List.takeWhile_append_dropWhile (p := isBlank) (l := ds)).symm
  have hblank (ds : List Char) : ∀ c ∈ ds.takeWhile isBlank, isBlank c = true :=
    List.all_eq_true.1 List.all_takeWhile
  refine ⟨cs.takeWhile isBlank, ((cs.dropWhile isBlank).reverse.takeWhile isBlank).reverse, ?_,
    hblank cs, fun c hc => hblank _ c (List.mem_reverse.1 hc)⟩
  rw [trimBlanks, List.append_assoc, ← List.reverse_append, ← hsplit, List.reverse_reverse,
    ← hsplit]

/-! ### Signs and digits -/

/-- The sign before a number. -/
inductive Sign where
  | absent
  | plus
  | minus
  deriving DecidableEq, Repr

namespace Sign

/-- The characters of the sign. -/
def chars : Sign → List Char
  | absent => []
  | plus => ['+']
  | minus => ['-']

/-- The number with the sign. -/
def apply : Sign → Nat → Int
  | minus, n => -(n : Int)
  | _, n => n

/-- The signs before a number that cannot be negative. -/
def unsigned : List Sign := [absent, plus]

/-- The signs before any number. -/
def signed : List Sign := [absent, plus, minus]

theorem mem_signed (sign : Sign) : sign ∈ signed := by
  cases sign <;> decide

theorem apply_of_unsigned {sign : Sign} (h : sign ∈ unsigned) (n : Nat) : sign.apply n = n := by
  cases sign with
  | absent | plus => rfl
  | minus => exact absurd h (by decide)

end Sign

/-- The number that digits write: each one counts as often as its place says. -/
def placeValue : List Char → Nat
  | [] => 0
  | c :: rest => (c.toNat - '0'.toNat) * 10 ^ rest.length + placeValue rest

/-- There is a digit, and nothing but ASCII digits. -/
def IsDigits (cs : List Char) : Prop :=
  cs ≠ [] ∧ ∀ c ∈ cs, c.isDigit = true

/-- The text is a number after one of the signs, with blanks around it. -/
def Writes (signs : List Sign) (text : String) (n : Int) : Prop :=
  ∃ front sign digits back, text.toList = front ++ (sign.chars ++ digits) ++ back ∧
    (∀ c ∈ front, isBlank c = true) ∧ (∀ c ∈ back, isBlank c = true) ∧
      sign ∈ signs ∧ IsDigits digits ∧ n = sign.apply (placeValue digits)

theorem ofDigitChars_eq (cs : List Char) (n : Nat) :
    Nat.ofDigitChars 10 cs n = n * 10 ^ cs.length + placeValue cs := by
  induction cs generalizing n with
  | nil => simp [Nat.ofDigitChars, placeValue]
  | cons c rest ih =>
    have hstep : Nat.ofDigitChars 10 (c :: rest) n =
        Nat.ofDigitChars 10 rest (10 * n + (c.toNat - '0'.toNat)) := rfl
    rw [hstep, ih, placeValue, List.length_cons]
    ring

theorem readDigits?_eq_some_iff {cs : List Char} {n : Nat} :
    Decimal.readDigits? cs = some n ↔ IsDigits cs ∧ n = placeValue cs := by
  have hvalue : Nat.ofDigitChars 10 cs 0 = placeValue cs := by simp [ofDigitChars_eq]
  have hdigits : (cs.isEmpty || !cs.all Char.isDigit) = false ↔ IsDigits cs := by
    simp [IsDigits]
  rw [Decimal.readDigits?, hvalue, ← hdigits]
  cases cs.isEmpty || !cs.all Char.isDigit <;> simp [eq_comm]

theorem isBlank_of_isDigit {c : Char} (h : c.isDigit = true) : isBlank c = false := by
  have hrange : 48 ≤ c.toNat ∧ c.toNat ≤ 57 := Char.isDigit_iff_toNat.1 h
  simp only [isBlank, Bool.or_eq_false_iff, Bool.and_eq_false_iff, decide_eq_false_iff_not]
  omega

theorem isBlank_of_mem_chars {sign : Sign} {c : Char} (h : c ∈ sign.chars) :
    isBlank c = false := by
  cases sign with
  | absent => cases h
  | plus | minus =>
    obtain rfl := List.mem_singleton.1 h
    rfl

/-- A number that may not be negative is read from digits after no sign or a plus sign. -/
theorem readNat?_eq_some_iff {cs : List Char} {n : Nat} : Decimal.readNat? cs = some n ↔
    ∃ sign digits, cs = Sign.chars sign ++ digits ∧ sign ∈ Sign.unsigned ∧ IsDigits digits ∧
      n = placeValue digits := by
  constructor
  · intro h
    unfold Decimal.readNat? at h
    split at h
    · next rest =>
      obtain ⟨hdigits, rfl⟩ := readDigits?_eq_some_iff.1 h
      exact ⟨.plus, rest, rfl, by decide, hdigits, rfl⟩
    · obtain ⟨hdigits, rfl⟩ := readDigits?_eq_some_iff.1 h
      exact ⟨.absent, cs, rfl, by decide, hdigits, rfl⟩
  · rintro ⟨sign, digits, rfl, hsign, hdigits, rfl⟩
    cases sign with
    | absent =>
      rw [Sign.chars, List.nil_append, Decimal.readNat?]
      · exact readDigits?_eq_some_iff.2 ⟨hdigits, rfl⟩
      · rintro rest rfl
        exact absurd (hdigits.2 '+' (List.mem_cons_self ..)) (by decide)
    | plus => exact readDigits?_eq_some_iff.2 ⟨hdigits, rfl⟩
    | minus => exact absurd hsign (by decide)

/-- Any number is read from digits after no sign or one of the two signs. -/
theorem readInt?_eq_some_iff {cs : List Char} {n : Int} : Decimal.readInt? cs = some n ↔
    ∃ sign digits, cs = Sign.chars sign ++ digits ∧ sign ∈ Sign.signed ∧ IsDigits digits ∧
      n = sign.apply (placeValue digits) := by
  constructor
  · intro h
    unfold Decimal.readInt? at h
    split at h
    · next rest =>
      obtain ⟨m, hm, rfl⟩ := Option.map_eq_some_iff.1 h
      obtain ⟨k, hk, hcast⟩ := Option.bind_eq_some_iff.1 hm
      obtain rfl := Option.some.inj hcast
      obtain ⟨hdigits, rfl⟩ := readDigits?_eq_some_iff.1 hk
      exact ⟨.minus, rest, rfl, Sign.mem_signed _, hdigits, rfl⟩
    · obtain ⟨m, hm, rfl⟩ := Option.map_eq_some_iff.1 h
      obtain ⟨k, hk, hcast⟩ := Option.bind_eq_some_iff.1 hm
      obtain rfl := Option.some.inj hcast
      obtain ⟨sign, digits, rfl, hsign, hdigits, rfl⟩ := readNat?_eq_some_iff.1 hk
      refine ⟨sign, digits, rfl, sign.mem_signed, hdigits, ?_⟩
      rw [Sign.apply_of_unsigned hsign]
  · rintro ⟨sign, digits, rfl, hsign, hdigits, rfl⟩
    by_cases hminus : sign = .minus
    · subst hminus
      have hread := readDigits?_eq_some_iff.2 ⟨hdigits, rfl⟩
      simp [Sign.chars, Sign.apply, Decimal.readInt?, hread]
    · have hunsigned : sign ∈ Sign.unsigned := by cases sign <;> simp_all [Sign.unsigned]
      have hread := readNat?_eq_some_iff.2 ⟨sign, digits, rfl, hunsigned, hdigits, rfl⟩
      rw [Sign.apply_of_unsigned hunsigned, Decimal.readInt?, hread]
      · rfl
      · intro rest hrest
        cases sign with
        | absent =>
          obtain rfl : digits = '-' :: rest := hrest
          exact absurd (hdigits.2 '-' (List.mem_cons_self ..)) (by decide)
        | plus => cases hrest
        | minus => exact hminus rfl

/-! ### Words -/

/-- A text writes a number if what is left of it without blanks does. -/
theorem writes_iff {signs : List Sign} {text : String} {n : Int} : Writes signs text n ↔
    ∃ sign digits, (trim text).toList = sign.chars ++ digits ∧ sign ∈ signs ∧ IsDigits digits ∧
      n = sign.apply (placeValue digits) := by
  have htrim : (trim text).toList = trimBlanks text.toList := String.toList_ofList
  rw [htrim]
  constructor
  · rintro ⟨front, sign, digits, back, htext, hfront, hback, hsign, hdigits, rfl⟩
    refine ⟨sign, digits, ?_, hsign, hdigits, rfl⟩
    rw [htext]
    refine trimBlanks_append hfront hback (List.append_ne_nil_of_right_ne_nil _ hdigits.1) ?_
    intro c hc
    rcases List.mem_append.1 hc with hc | hc
    · exact isBlank_of_mem_chars hc
    · exact isBlank_of_isDigit (hdigits.2 c hc)
  · rintro ⟨sign, digits, htrimmed, hsign, hdigits, rfl⟩
    obtain ⟨front, back, htext, hfront, hback⟩ := exists_trimBlanks text.toList
    exact ⟨front, sign, digits, back, htrimmed ▸ htext, hfront, hback, hsign, hdigits, rfl⟩

/-- A word is read from a text that writes a number below 2^64 without a minus sign. -/
theorem readWord?_trim_eq_some_iff {text : String} {n : Nat} :
    Decimal.readWord? (trim text) = some n ↔ Writes Sign.unsigned text n ∧ n < 2 ^ 64 := by
  rw [Decimal.readWord?, Option.filter_eq_some_iff, readNat?_eq_some_iff, writes_iff]
  simp only [decide_eq_true_eq]
  refine and_congr_left fun _ => exists_congr fun sign => exists_congr fun digits => ?_
  refine and_congr_right fun _ => and_congr_right fun hsign => and_congr_right fun _ => ?_
  rw [Sign.apply_of_unsigned hsign, Int.natCast_inj]

theorem int64?_eq_some_iff {n : Int} {x : Int64} : Decimal.int64? n = some x ↔ x.toInt = n := by
  constructor
  · intro h
    rw [Decimal.int64?] at h
    split at h
    · next hrange =>
      obtain rfl := Option.some.inj h
      exact Int64.toInt_ofInt_of_le hrange.1 (Int.lt_add_one_of_le hrange.2)
    · cases h
  · rintro rfl
    exact Decimal.int64?_toInt x

/-- A signed word is read from a text that writes it, with any sign. -/
theorem readInt64?_trim_eq_some_iff {text : String} {x : Int64} :
    Decimal.readInt64? (trim text) = some x ↔ Writes Sign.signed text x.toInt := by
  rw [Decimal.readInt64?, Option.bind_eq_some_iff, writes_iff, ← readInt?_eq_some_iff]
  constructor
  · rintro ⟨n, hread, hfits⟩
    rwa [int64?_eq_some_iff.1 hfits]
  · exact fun h => ⟨_, h, Decimal.int64?_toInt x⟩

end AccessGroups.Text
