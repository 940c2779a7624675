import AccessGroups.Proofs.Json.Written

/-!
# Reading numbers and strings

The readers of numbers and of strings take the texts that the grammar gives, whatever stands after
them, and find their values. A string ends at its closing quote; a number ends where no character
can continue it.

## Main definitions

* `Json.Ends`: no character that could continue a number stands at the start of the text.

## Main results

* `Json.readNumber?_append`: a number is read with its value.
* `Json.joinPieces?_eq_some_iff`: the pieces of a string are joined as the grammar says.
* `Json.readText?_append`: a string is read with its value.
-/

namespace AccessGroups.Json

open Text (IsDigits placeValue)

variable {cs rest whole fraction exponent : List Char}

/-! ### Digits -/

theorem digits_append (hcs : ∀ c ∈ cs, c.isDigit = true)
    (hrest : ∀ c ∈ rest.head?, c.isDigit = false) : digits (cs ++ rest) = (cs, rest) := by
  have hdrop : (cs ++ rest).dropWhile Char.isDigit = rest :=
    Text.dropWhile_append_of_head hcs hrest
  have htake : (cs ++ rest).takeWhile Char.isDigit ++ rest = cs ++ rest := by
    conv_rhs => rw [← List.takeWhile_append_dropWhile (p := Char.isDigit) (l := cs ++ rest), hdrop]
  rw [digits, hdrop, List.append_cancel_right htake]

theorem exists_cons_of_isDigits (h : IsDigits cs) :
    ∃ d ds, cs = d :: ds ∧ d.isDigit = true := by
  obtain ⟨hne, hdigits⟩ := h
  cases cs with
  | nil => exact absurd rfl hne
  | cons d ds => exact ⟨d, ds, rfl, hdigits d List.mem_cons_self⟩

theorem IsWhole.isDigits (h : IsWhole whole) : IsDigits whole := by
  rcases h with rfl | h
  · exact ⟨List.cons_ne_nil _ _, fun c hc => List.mem_singleton.1 hc ▸ rfl⟩
  · exact h.1

/-! ### The parts of a number -/

/-- No character that could continue a number stands at the start of the text. -/
def Ends (rest : List Char) : Prop :=
  ∀ c ∈ rest.head?, c.isDigit = false ∧ c ≠ '.' ∧ c ≠ 'e' ∧ c ≠ 'E'

theorem Ends.not_isDigit (h : Ends rest) : ∀ c ∈ rest.head?, c.isDigit = false :=
  fun c hc => (h c hc).1

theorem readWhole?_append (h : IsWhole whole) (hrest : ∀ c ∈ rest.head?, c.isDigit = false) :
    readWhole? (whole ++ rest) = some (whole, rest) := by
  rcases h with rfl | ⟨hdigits, hzero⟩
  · rfl
  · obtain ⟨d, ds, rfl, -⟩ := exists_cons_of_isDigits hdigits
    have hd : d ≠ '0' := fun h => hzero (by rw [h]; rfl)
    have hread := digits_append hdigits.2 hrest
    unfold readWhole?
    split
    case h_1 heq => exact absurd (List.cons.inj heq).1 hd
    case h_2 => rw [hread]

theorem readFraction?_append (h : fraction = [] ∨ IsFraction fraction)
    (hrest : ∀ c ∈ rest.head?, c.isDigit = false ∧ c ≠ '.') :
    readFraction? (fraction ++ rest) = some (!fraction.isEmpty, rest) := by
  rcases h with rfl | ⟨digits, rfl, hdigits⟩
  · unfold readFraction?
    split
    case h_1 heq => exact absurd rfl (hrest '.' (by rw [← List.nil_append rest, heq]; rfl)).2
    case h_2 => rfl
  · obtain ⟨d, ds, rfl, -⟩ := exists_cons_of_isDigits hdigits
    have hread := digits_append hdigits.2 fun c hc => (hrest c hc).1
    simp only [List.cons_append] at hread ⊢
    simp [readFraction?, hread]

theorem readExponentDigits?_append (h : IsDigits cs)
    (hrest : ∀ c ∈ rest.head?, c.isDigit = false) :
    readExponentDigits? (cs ++ rest) = some (true, rest) := by
  obtain ⟨d, ds, rfl, -⟩ := exists_cons_of_isDigits h
  rw [readExponentDigits?, digits_append h.2 hrest]

theorem readExponent?_append (h : exponent = [] ∨ IsExponent exponent) (hrest : Ends rest) :
    readExponent? (exponent ++ rest) = some (!exponent.isEmpty, rest) := by
  rcases h with rfl | ⟨letter, sign, digits, rfl, hletter, hdigits⟩
  · cases rest with
    | nil => rfl
    | cons c rest =>
      obtain ⟨-, -, he, hE⟩ := hrest c rfl
      simp [readExponent?, he, hE]
  · have hread := readExponentDigits?_append hdigits hrest.not_isDigit
    have hletter' : (letter = 'e' || letter = 'E') = true := by simpa using hletter
    obtain ⟨d, ds, rfl, hd⟩ := exists_cons_of_isDigits hdigits
    cases sign with
    | absent =>
      have hplus : d ≠ '+' := fun h => by simp [h] at hd
      have hminus : d ≠ '-' := fun h => by simp [h] at hd
      simp only [Text.Sign.chars, List.nil_append, List.cons_append] at hread ⊢
      rw [readExponent?, if_pos hletter']
      · exact hread
      · exact fun ds heq => hplus (List.cons.inj heq).1
      · exact fun ds heq => hminus (List.cons.inj heq).1
    | plus => simpa [readExponent?, Text.Sign.chars, hletter'] using hread
    | minus => simpa [readExponent?, Text.Sign.chars, hletter'] using hread

/-! ### Numbers -/

/-- Where a fraction or an exponent may stand, or the number end, there is no digit. -/
theorem not_isDigit_of_parts (hfraction : fraction = [] ∨ IsFraction fraction)
    (hexponent : exponent = [] ∨ IsExponent exponent) (hrest : Ends rest) :
    ∀ c ∈ (fraction ++ (exponent ++ rest)).head?, c.isDigit = false := by
  rcases hfraction with rfl | ⟨digits, rfl, -⟩
  · rcases hexponent with rfl | ⟨letter, sign, digits, rfl, hletter, -⟩
    · exact hrest.not_isDigit
    · rintro c ⟨⟩
      rcases hletter with rfl | rfl <;> rfl
  · rintro c ⟨⟩
    rfl

theorem no_point_of_exponent (hexponent : exponent = [] ∨ IsExponent exponent)
    (hrest : Ends rest) : ∀ c ∈ (exponent ++ rest).head?, c.isDigit = false ∧ c ≠ '.' := by
  rcases hexponent with rfl | ⟨letter, sign, digits, rfl, hletter, -⟩
  · exact fun c hc => ⟨(hrest c hc).1, (hrest c hc).2.1⟩
  · rintro c ⟨⟩
    rcases hletter with rfl | rfl <;> exact ⟨rfl, by decide⟩

theorem readUnsigned?_append (negative : Bool) (hwhole : IsWhole whole)
    (hfraction : fraction = [] ∨ IsFraction fraction)
    (hexponent : exponent = [] ∨ IsExponent exponent) (hrest : Ends rest) :
    readUnsigned? negative (whole ++ (fraction ++ (exponent ++ rest))) = some
      (.number (numberValue negative whole (!fraction.isEmpty) (!exponent.isEmpty)), rest) := by
  simp [readUnsigned?,
    readWhole?_append hwhole (not_isDigit_of_parts hfraction hexponent hrest),
    readFraction?_append hfraction (no_point_of_exponent hexponent hrest),
    readExponent?_append hexponent hrest]

/-- Before a number there may be a minus sign. -/
theorem readNumber?_of_whole (hwhole : IsWhole whole) (rest : List Char) :
    readNumber? (whole ++ rest) = readUnsigned? false (whole ++ rest) := by
  obtain ⟨d, ds, rfl, hd⟩ := exists_cons_of_isDigits hwhole.isDigits
  have hminus : d ≠ '-' := fun h => by simp [h] at hd
  unfold readNumber?
  split
  case h_1 heq => exact absurd (List.cons.inj heq).1 hminus
  case h_2 => rfl

theorem numberValue_natural (whole : List Char) :
    numberValue false whole false false = some (placeValue whole : Int) := by
  simp [numberValue, Text.ofDigitChars_eq]

theorem placeValue_ne_zero (h : IsWhole whole) (hzero : whole ≠ ['0']) : placeValue whole ≠ 0 := by
  obtain rfl | ⟨hdigits, hhead⟩ := h
  · exact absurd rfl hzero
  · obtain ⟨d, ds, rfl, hd⟩ := exists_cons_of_isDigits hdigits
    have hrange : 48 ≤ d.toNat ∧ d.toNat ≤ 57 := Char.isDigit_iff_toNat.1 hd
    have hne : d.toNat ≠ '0'.toNat := fun h => hhead (by rw [← Char.ofNat_toNat d, h]; rfl)
    have hpos : 0 < (d.toNat - '0'.toNat) * 10 ^ ds.length :=
      Nat.mul_pos (Nat.sub_pos_of_lt (Nat.lt_of_le_of_ne hrange.1 hne.symm))
        (Nat.pow_pos (by decide))
    rw [placeValue]
    omega

theorem numberValue_negative (h : IsWhole whole) (hzero : whole ≠ ['0']) :
    numberValue true whole false false = some (-(placeValue whole : Int)) := by
  simp [numberValue, Text.ofDigitChars_eq, placeValue_ne_zero h hzero]

/-- A number is read with its value, up to where nothing continues it. -/
theorem readNumber?_append {value : Option Int} (h : NumberText cs value) (hrest : Ends rest) :
    readNumber? (cs ++ rest) = some (.number value, rest) := by
  have hplain (negative : Bool) {whole : List Char} (hwhole : IsWhole whole) :=
    readUnsigned?_append negative hwhole (.inl rfl) (.inl rfl) hrest
  cases h with
  | natural hwhole =>
    rw [readNumber?_of_whole hwhole]
    exact (hplain false hwhole).trans (by rw [← numberValue_natural]; rfl)
  | negative hwhole hzero =>
    exact (hplain true hwhole).trans (by rw [← numberValue_negative hwhole hzero]; rfl)
  | negativeZero => exact hplain true (.inl rfl)
  | @real sign whole fraction exponent hsign hwhole hfraction hexponent hpart =>
    have hread (negative : Bool) :=
      readUnsigned?_append negative hwhole hfraction hexponent hrest
    have hvalue (negative : Bool) :
        numberValue negative whole (!fraction.isEmpty) (!exponent.isEmpty) = none := by
      have : (!fraction.isEmpty || !exponent.isEmpty) = true := by simpa using hpart
      rw [numberValue, if_pos this]
    simp only [hvalue] at hread
    rcases hsign with rfl | rfl
    · simpa [readNumber?_of_whole hwhole] using hread false
    · simpa [readNumber?] using hread true

/-- A number starts with a minus sign or a digit. -/
theorem NumberText.exists_cons {value : Option Int} (h : NumberText cs value) :
    ∃ c tail, cs = c :: tail ∧ (c = '-' ∨ c.isDigit = true) := by
  have hfirst {whole : List Char} (hwhole : IsWhole whole) (tail : List Char) :
      ∃ c ds, whole ++ tail = c :: ds ∧ (c = '-' ∨ c.isDigit = true) := by
    obtain ⟨d, ds, rfl, hd⟩ := exists_cons_of_isDigits hwhole.isDigits
    exact ⟨d, ds ++ tail, rfl, .inr hd⟩
  cases h with
  | natural hwhole => simpa using hfirst hwhole []
  | negative | negativeZero => exact ⟨_, _, rfl, .inl rfl⟩
  | real hsign hwhole =>
    rcases hsign with rfl | rfl
    · exact hfirst hwhole _
    · exact ⟨_, _, rfl, .inl rfl⟩

/-! ### The pieces of a string -/

theorem hexDigit?_of_isHexDigit {c : Char} {n : Nat} (h : IsHexDigit c n) :
    hexDigit? c = some n := by
  have hsmall : ∀ i : Fin 16, hexDigit? "0123456789abcdef".toList[i] = some i.val := by decide
  have hcapital : ∀ i : Fin 16, hexDigit? "0123456789ABCDEF".toList[i] = some i.val := by decide
  rcases h with h | h
  · obtain ⟨hn, rfl⟩ := List.getElem?_eq_some_iff.1 h
    exact hsmall ⟨n, hn⟩
  · obtain ⟨hn, rfl⟩ := List.getElem?_eq_some_iff.1 h
    exact hcapital ⟨n, hn⟩

theorem readEscape?_of_mem {letter c : Char} (h : (letter, c) ∈ escapes) (rest : List Char) :
    readEscape? (letter :: rest) = some (.char c, rest) := by
  simp only [escapes, List.mem_cons, Prod.mk.injEq, List.not_mem_nil, or_false] at h
  rcases h with ⟨rfl, rfl⟩ | ⟨rfl, rfl⟩ | ⟨rfl, rfl⟩ | ⟨rfl, rfl⟩ | ⟨rfl, rfl⟩ | ⟨rfl, rfl⟩ |
    ⟨rfl, rfl⟩ | ⟨rfl, rfl⟩ <;> rfl

theorem readEscape?_unit {a b c d : Char} {i j k l : Nat} (ha : IsHexDigit a i)
    (hb : IsHexDigit b j) (hc : IsHexDigit c k) (hd : IsHexDigit d l) (rest : List Char) :
    readEscape? ('u' :: a :: b :: c :: d :: rest) =
      some (.unit (i * 16 ^ 3 + j * 16 ^ 2 + k * 16 + l), rest) := by
  have hvalue : ((i * 16 + j) * 16 + k) * 16 + l = i * 16 ^ 3 + j * 16 ^ 2 + k * 16 + l := by ring
  simp [readEscape?, hexDigit?_of_isHexDigit ha, hexDigit?_of_isHexDigit hb,
    hexDigit?_of_isHexDigit hc, hexDigit?_of_isHexDigit hd, hvalue]

/-- One piece is read in one step. -/
theorem readPieces?_piece {piece : Piece} (h : PieceText cs piece) (fuel : Nat)
    (rest : List Char) : readPieces? (fuel + 1) (cs ++ rest) =
      (readPieces? fuel rest).map fun r => (piece :: r.1, r.2) := by
  cases h with
  | plain hquote hbackslash hcontrol =>
    rw [List.singleton_append, readPieces?, if_neg hquote, if_neg hbackslash,
      if_neg (Nat.not_lt.2 hcontrol)]
    cases readPieces? fuel rest <;> rfl
  | escape h =>
    rw [List.cons_append, readPieces?, if_neg (by decide), if_pos rfl, List.singleton_append]
    simp only [readEscape?_of_mem h, Option.bind_eq_bind, Option.bind_some]
    cases readPieces? fuel rest <;> rfl
  | unit ha hb hc hd =>
    rw [List.cons_append, readPieces?, if_neg (by decide), if_pos rfl]
    simp only [List.cons_append, List.nil_append, readEscape?_unit ha hb hc hd,
      Option.bind_eq_bind, Option.bind_some]
    cases readPieces? fuel rest <;> rfl

theorem readPieces?_append {pieces : List Piece} (h : PiecesText cs pieces) {fuel : Nat}
    (hfuel : cs.length < fuel) :
    readPieces? fuel (cs ++ '"' :: rest) = some (pieces, rest) := by
  induction h generalizing fuel with
  | nil =>
    obtain ⟨fuel, rfl⟩ := Nat.exists_eq_add_one.2 (Nat.lt_of_le_of_lt (Nat.zero_le _) hfuel)
    rfl
  | @cons cs tail piece pieces hpiece hrest ih =>
    obtain ⟨fuel, rfl⟩ := Nat.exists_eq_add_one.2 (Nat.lt_of_le_of_lt (Nat.zero_le _) hfuel)
    have hlength : 0 < cs.length := by cases hpiece <;> simp
    rw [List.length_append] at hfuel
    rw [List.append_assoc, readPieces?_piece hpiece, ih (by omega)]
    rfl

/-! ### The characters of a string -/

theorem joinPieces?_of_joined {pieces : List Piece} {chars : List Char}
    (h : Joined pieces chars) : joinPieces? pieces = some chars := by
  induction h with
  | nil => rfl
  | char h ih => rw [joinPieces?, ih]; rfl
  | @unit n pieces cs hn h ih =>
    have hhigh : ¬(0xd800 ≤ n && n < 0xdc00) = true := by grind
    have hlow : ¬(0xdc00 ≤ n && n < 0xe000) = true := by grind
    unfold joinPieces?
    simp only [if_neg hhigh, if_neg hlow, ih, Option.map_some]
  | @pair high low pieces cs hhigh hlow h ih =>
    have hfirst : (0xd800 ≤ 0xd800 + high && 0xd800 + high < 0xdc00) = true := by grind
    have hsecond : (0xdc00 ≤ 0xdc00 + low && 0xdc00 + low < 0xe000) = true := by grind
    unfold joinPieces?
    simp only [if_pos hfirst, if_pos hsecond, ih, Option.map_some, Nat.add_sub_cancel_left]

theorem joined_of_joinPieces? {pieces : List Piece} {chars : List Char}
    (h : joinPieces? pieces = some chars) : Joined pieces chars := by
  fun_induction joinPieces? pieces generalizing chars with
  | case1 =>
    obtain rfl := Option.some.inj h
    exact .nil
  | case2 c pieces ih =>
    obtain ⟨cs, hcs, rfl⟩ := Option.map_eq_some_iff.1 h
    exact .char (ih hcs)
  | case3 n hhigh m pieces hlow ih =>
    obtain ⟨cs, hcs, rfl⟩ := Option.map_eq_some_iff.1 h
    obtain ⟨high, rfl⟩ := Nat.exists_eq_add_of_le (show 0xd800 ≤ n by grind)
    obtain ⟨low, rfl⟩ := Nat.exists_eq_add_of_le (show 0xdc00 ≤ m by grind)
    rw [Nat.add_sub_cancel_left, Nat.add_sub_cancel_left]
    exact .pair (by grind) (by grind) (ih hcs)
  | case4 | case5 | case6 => cases h
  | case7 n pieces hhigh hlow ih =>
    obtain ⟨cs, hcs, rfl⟩ := Option.map_eq_some_iff.1 h
    exact .unit (by grind) (ih hcs)

/-- The pieces of a string are joined as the grammar says. -/
theorem joinPieces?_eq_some_iff {pieces : List Piece} {chars : List Char} :
    joinPieces? pieces = some chars ↔ Joined pieces chars :=
  ⟨joined_of_joinPieces?, joinPieces?_of_joined⟩

/-- A string is read with its value, up to its closing quote. -/
theorem readText?_append {body : List Char} {pieces : List Piece} {value : Option String}
    (h : PiecesText body pieces) (hvalue : ∀ s, value = some s ↔ Joined pieces s.toList)
    (rest : List Char) : readText? (body ++ '"' :: rest) = some (value, rest) := by
  have hjoin : (joinPieces? pieces).map String.ofList = value := by
    apply Option.ext
    intro s
    rw [hvalue s, ← joinPieces?_eq_some_iff]
    cases joinPieces? pieces <;> simp [← String.toList_inj]
  have hpieces : readPieces? ((body ++ '"' :: rest).length + 1) (body ++ '"' :: rest) =
      some (pieces, rest) :=
    readPieces?_append h (by rw [List.length_append]; omega)
  rw [readText?, hpieces]
  exact congrArg (fun v => some (v, rest)) hjoin

end AccessGroups.Json
