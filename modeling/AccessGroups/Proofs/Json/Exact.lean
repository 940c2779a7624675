import AccessGroups.Proofs.Json.Reading

/-!
# The reader takes the texts of the grammar only

Whatever a reader takes off a text is a text of the grammar for what the reader gives, and the rest
follows it. With the other direction, the reader of whole texts and the grammar agree on every text
and on every document.

## Main definitions

* `Json.Source.ReadsOnly`: within so many steps the readers take nothing but texts of the grammar.

## Main results

* `Json.Source.readsOnly`: this holds for every number of steps.
* `Json.Source.ofString?_eq_some_iff`: a text is read to a document if and only if it writes it,
  with blanks around it.
-/

namespace AccessGroups.Json

open Text (IsDigits placeValue)

variable {cs rest : List Char}

/-! ### Numbers -/

theorem isDigits_of_digits {ds : List Char} (h : digits cs = (ds, rest)) (hne : ds ≠ []) :
    cs = ds ++ rest ∧ IsDigits ds := by
  obtain ⟨rfl, rfl⟩ := Prod.mk.inj h
  exact ⟨List.takeWhile_append_dropWhile.symm, hne, List.all_eq_true.1 List.all_takeWhile⟩

theorem isWhole_of_readWhole? {whole : List Char} (h : readWhole? cs = some (whole, rest)) :
    cs = whole ++ rest ∧ IsWhole whole := by
  unfold readWhole? at h
  split at h
  case h_1 tail =>
    obtain ⟨rfl, rfl⟩ := Prod.mk.inj (Option.some.inj h)
    exact ⟨rfl, .inl rfl⟩
  case h_2 hzero =>
    split at h
    case h_1 => cases h
    case h_2 ds after hne hread =>
      obtain ⟨rfl, rfl⟩ := Prod.mk.inj (Option.some.inj h)
      obtain ⟨rfl, hdigits⟩ := isDigits_of_digits hread hne
      refine ⟨rfl, .inr ⟨hdigits, fun hhead => ?_⟩⟩
      obtain ⟨tail, rfl⟩ := List.head?_eq_some_iff.1 hhead
      exact hzero _ rfl

theorem isFraction_of_readFraction? {present : Bool} (h : readFraction? cs = some (present, rest)) :
    ∃ fraction, cs = fraction ++ rest ∧ (fraction = [] ∨ IsFraction fraction) ∧
      present = !fraction.isEmpty := by
  unfold readFraction? at h
  split at h
  case h_1 tail =>
    split at h
    case h_1 => cases h
    case h_2 ds after hne hread =>
      obtain ⟨rfl, rfl⟩ := Prod.mk.inj (Option.some.inj h)
      obtain ⟨rfl, hdigits⟩ := isDigits_of_digits hread hne
      exact ⟨'.' :: ds, rfl, .inr ⟨ds, rfl, hdigits⟩, rfl⟩
  case h_2 =>
    obtain ⟨rfl, rfl⟩ := Prod.mk.inj (Option.some.inj h)
    exact ⟨[], rfl, .inl rfl, rfl⟩

theorem isDigits_of_readExponentDigits? {present : Bool}
    (h : readExponentDigits? cs = some (present, rest)) :
    ∃ digits, cs = digits ++ rest ∧ IsDigits digits ∧ present = true := by
  unfold readExponentDigits? at h
  split at h
  case h_1 => cases h
  case h_2 ds after hne hread =>
    obtain ⟨rfl, rfl⟩ := Prod.mk.inj (Option.some.inj h)
    obtain ⟨rfl, hdigits⟩ := isDigits_of_digits hread hne
    exact ⟨ds, rfl, hdigits, rfl⟩

theorem isExponent_of_readExponent? {present : Bool} (h : readExponent? cs = some (present, rest)) :
    ∃ exponent, cs = exponent ++ rest ∧ (exponent = [] ∨ IsExponent exponent) ∧
      present = !exponent.isEmpty := by
  have hpart {letter : Char} (hletter : letter = 'e' ∨ letter = 'E') (sign : Text.Sign)
      {tail : List Char} (htail : readExponentDigits? tail = some (present, rest)) :
      ∃ exponent, letter :: (sign.chars ++ tail) = exponent ++ rest ∧
        (exponent = [] ∨ IsExponent exponent) ∧ present = !exponent.isEmpty := by
    obtain ⟨digits, rfl, hdigits, rfl⟩ := isDigits_of_readExponentDigits? htail
    exact ⟨letter :: (sign.chars ++ digits), by simp,
      .inr ⟨letter, sign, digits, rfl, hletter, hdigits⟩, rfl⟩
  unfold readExponent? at h
  split at h
  case h_1 =>
    obtain ⟨rfl, rfl⟩ := Prod.mk.inj (Option.some.inj h)
    exact ⟨[], rfl, .inl rfl, rfl⟩
  case h_2 letter tail =>
    split at h
    case isTrue hletter =>
      have hletter' : letter = 'e' ∨ letter = 'E' := by simpa using hletter
      split at h
      case h_1 => exact hpart hletter' .plus h
      case h_2 => exact hpart hletter' .minus h
      case h_3 => exact hpart hletter' .absent h
    case isFalse =>
      obtain ⟨rfl, rfl⟩ := Prod.mk.inj (Option.some.inj h)
      exact ⟨[], rfl, .inl rfl, rfl⟩

theorem numberText_of_parts {negative : Bool} {whole fraction exponent : List Char}
    (hwhole : IsWhole whole) (hfraction : fraction = [] ∨ IsFraction fraction)
    (hexponent : exponent = [] ∨ IsExponent exponent) :
    NumberText ((if negative then ['-'] else []) ++ (whole ++ (fraction ++ exponent)))
      (numberValue negative whole (!fraction.isEmpty) (!exponent.isEmpty)) := by
  by_cases hpart : fraction ≠ [] ∨ exponent ≠ []
  · have hvalue : (!fraction.isEmpty || !exponent.isEmpty) = true := by simpa using hpart
    rw [numberValue, if_pos hvalue]
    exact .real (by cases negative <;> simp) hwhole hfraction hexponent hpart
  · obtain ⟨rfl, rfl⟩ : fraction = [] ∧ exponent = [] := by simpa [not_or] using hpart
    cases negative with
    | false => simpa [numberValue_natural] using NumberText.natural hwhole
    | true =>
      by_cases hzero : whole = ['0']
      · rw [hzero]
        exact .negativeZero
      · simpa [numberValue_negative hwhole hzero] using NumberText.negative hwhole hzero

theorem numberText_of_readUnsigned? {negative : Bool} {s : Source}
    (h : readUnsigned? negative cs = some (s, rest)) :
    ∃ body value, cs = body ++ rest ∧ s = .number value ∧
      NumberText ((if negative then ['-'] else []) ++ body) value := by
  obtain ⟨⟨whole, afterWhole⟩, hreadWhole, h⟩ := Option.bind_eq_some_iff.1 h
  obtain ⟨⟨fractional, afterFraction⟩, hreadFraction, h⟩ := Option.bind_eq_some_iff.1 h
  obtain ⟨⟨scaled, afterExponent⟩, hreadExponent, h⟩ := Option.bind_eq_some_iff.1 h
  obtain ⟨rfl, rfl⟩ := Prod.mk.inj (Option.some.inj h)
  obtain ⟨rfl, hwhole⟩ := isWhole_of_readWhole? hreadWhole
  obtain ⟨fraction, rfl, hfraction, rfl⟩ := isFraction_of_readFraction? hreadFraction
  obtain ⟨exponent, rfl, hexponent, rfl⟩ := isExponent_of_readExponent? hreadExponent
  exact ⟨whole ++ (fraction ++ exponent), _, by simp, rfl,
    numberText_of_parts hwhole hfraction hexponent⟩

/-- What is read as a number is the text of a number. -/
theorem numberText_of_readNumber? {s : Source} (h : readNumber? cs = some (s, rest)) :
    ∃ body value, cs = body ++ rest ∧ s = .number value ∧ NumberText body value := by
  unfold readNumber? at h
  split at h
  case h_1 =>
    obtain ⟨body, value, rfl, rfl, hbody⟩ := numberText_of_readUnsigned? h
    exact ⟨'-' :: body, value, rfl, rfl, hbody⟩
  case h_2 =>
    obtain ⟨body, value, rfl, rfl, hbody⟩ := numberText_of_readUnsigned? h
    exact ⟨body, value, rfl, rfl, hbody⟩

/-! ### Strings -/

theorem isHexDigit_of_hexDigit? {c : Char} {n : Nat} (h : hexDigit? c = some n) :
    IsHexDigit c n := by
  have hdecimal : ∀ i : Fin 10, "0123456789abcdef".toList[i.val]? = some (Char.ofNat (i + 48)) := by
    decide
  have hsmall : ∀ i : Fin 6,
      "0123456789abcdef".toList[i.val + 10]? = some (Char.ofNat (i + 10 + 87)) := by decide
  have hcapital : ∀ i : Fin 6,
      "0123456789ABCDEF".toList[i.val + 10]? = some (Char.ofNat (i + 10 + 55)) := by decide
  unfold hexDigit? at h
  split_ifs at h with hdigit hletter hletter
  · obtain rfl := Option.some.inj h
    have hrange : 48 ≤ c.toNat ∧ c.toNat ≤ 57 := Char.isDigit_iff_toNat.1 hdigit
    have htable := hdecimal ⟨c.toNat - 48, by omega⟩
    simp only [Nat.sub_add_cancel hrange.1, Char.ofNat_toNat] at htable
    exact .inl htable
  · obtain rfl := Option.some.inj h
    have hrange : 97 ≤ c.toNat ∧ c.toNat ≤ 102 := by
      simpa [Char.le_def, UInt32.le_iff_toNat_le] using hletter
    have htable := hsmall ⟨c.toNat - 97, by omega⟩
    simp only [show c.toNat - 97 + 10 = c.toNat - 87 by omega,
      show c.toNat - 87 + 87 = c.toNat by omega, Char.ofNat_toNat] at htable
    exact .inl htable
  · obtain rfl := Option.some.inj h
    have hrange : 65 ≤ c.toNat ∧ c.toNat ≤ 70 := by
      simpa [Char.le_def, UInt32.le_iff_toNat_le] using hletter
    have htable := hcapital ⟨c.toNat - 65, by omega⟩
    simp only [show c.toNat - 65 + 10 = c.toNat - 55 by omega,
      show c.toNat - 55 + 55 = c.toNat by omega, Char.ofNat_toNat] at htable
    exact .inr htable

theorem pieceText_of_readEscape? {piece : Piece} (h : readEscape? cs = some (piece, rest)) :
    ∃ body, '\\' :: cs = body ++ rest ∧ PieceText body piece := by
  have hletter {letter c : Char} {tail : List Char} (hmem : (letter, c) ∈ escapes)
      (h : some (Piece.char c, tail) = some (piece, rest)) :
      ∃ body, '\\' :: letter :: tail = body ++ rest ∧ PieceText body piece := by
    obtain ⟨rfl, rfl⟩ := Prod.mk.inj (Option.some.inj h)
    exact ⟨['\\', letter], rfl, .escape hmem⟩
  unfold readEscape? at h
  split at h
  case h_9 a b c d tail =>
    obtain ⟨i, hi, h⟩ := Option.bind_eq_some_iff.1 h
    obtain ⟨j, hj, h⟩ := Option.bind_eq_some_iff.1 h
    obtain ⟨k, hk, h⟩ := Option.bind_eq_some_iff.1 h
    obtain ⟨l, hl, h⟩ := Option.bind_eq_some_iff.1 h
    obtain ⟨rfl, rfl⟩ := Prod.mk.inj (Option.some.inj h)
    have hvalue : ((i * 16 + j) * 16 + k) * 16 + l = i * 16 ^ 3 + j * 16 ^ 2 + k * 16 + l := by
      ring
    rw [hvalue]
    exact ⟨['\\', 'u', a, b, c, d], rfl, .unit (isHexDigit_of_hexDigit? hi)
      (isHexDigit_of_hexDigit? hj) (isHexDigit_of_hexDigit? hk) (isHexDigit_of_hexDigit? hl)⟩
  case h_10 => cases h
  all_goals exact hletter (by decide) h

theorem piecesText_of_readPieces? {fuel : Nat} {pieces : List Piece}
    (h : readPieces? fuel cs = some (pieces, rest)) :
    ∃ body, cs = body ++ '"' :: rest ∧ PiecesText body pieces := by
  induction fuel generalizing cs pieces with
  | zero => cases h
  | succ fuel ih =>
    cases cs with
    | nil => cases h
    | cons c cs =>
      rw [readPieces?] at h
      split_ifs at h with hquote hbackslash hcontrol
      · obtain ⟨rfl, rfl⟩ := Prod.mk.inj (Option.some.inj h)
        exact ⟨[], by rw [hquote]; rfl, .nil⟩
      · obtain ⟨⟨piece, afterPiece⟩, hescape, h⟩ := Option.bind_eq_some_iff.1 h
        obtain ⟨⟨tail, afterTail⟩, htail, h⟩ := Option.bind_eq_some_iff.1 h
        obtain ⟨rfl, rfl⟩ := Prod.mk.inj (Option.some.inj h)
        obtain ⟨first, hfirst, hpiece⟩ := pieceText_of_readEscape? hescape
        obtain ⟨body, rfl, hbody⟩ := ih htail
        exact ⟨first ++ body, by rw [hbackslash, hfirst, List.append_assoc], .cons hpiece hbody⟩
      · obtain ⟨⟨tail, afterTail⟩, htail, h⟩ := Option.bind_eq_some_iff.1 h
        obtain ⟨rfl, rfl⟩ := Prod.mk.inj (Option.some.inj h)
        obtain ⟨body, rfl, hbody⟩ := ih htail
        exact ⟨[c] ++ body, rfl, .cons (.plain hquote hbackslash (Nat.le_of_not_lt hcontrol)) hbody⟩

/-- What is read as a string, after its opening quote, is the text of a string. -/
theorem stringText_of_readText? {value : Option String} (h : readText? cs = some (value, rest)) :
    ∃ body, '"' :: cs = body ++ rest ∧ StringText body value := by
  obtain ⟨⟨pieces, after⟩, hpieces, h⟩ := Option.bind_eq_some_iff.1 h
  obtain ⟨rfl, rfl⟩ := Prod.mk.inj (Option.some.inj h)
  obtain ⟨body, rfl, hbody⟩ := piecesText_of_readPieces? hpieces
  refine ⟨'"' :: (body ++ ['"']), by simp, body, pieces, rfl, hbody, fun s => ?_⟩
  rw [← joinPieces?_eq_some_iff]
  cases joinPieces? pieces <;> simp [← String.toList_inj]

/-! ### Documents -/

theorem eq_append_of_expect? {literal : List Char} (h : expect? literal cs = some rest) :
    cs = literal ++ rest := by
  unfold expect? at h
  split_ifs at h with hprefix
  obtain ⟨tail, rfl⟩ := List.isPrefixOf_iff_prefix.1 hprefix
  rw [← Option.some.inj h, List.drop_left]

/-- What is read is turned into something else, and the rest of the text stays. -/
theorem exists_of_map_eq_some {α β : Type} {f : α → β} {o : Option (α × List Char)} {b : β}
    (h : (o.map fun r => (f r.1, r.2)) = some (b, rest)) : ∃ a, o = some (a, rest) ∧ f a = b := by
  obtain ⟨⟨a, after⟩, ho, heq⟩ := Option.map_eq_some_iff.1 h
  obtain ⟨rfl, rfl⟩ := Prod.mk.inj heq
  exact ⟨a, ho, rfl⟩

namespace Source

/-- Within `fuel` steps the readers take nothing but texts of the grammar. -/
structure ReadsOnly (fuel : Nat) : Prop where
  value : ∀ {cs rest : List Char} {s : Source}, read? fuel cs = some (s, rest) →
    ∃ front body, cs = front ++ (body ++ rest) ∧ Blanks front ∧ Written body s
  items : ∀ {cs rest : List Char} {items : List Source}, readItems? fuel cs = some (items, rest) →
    ∃ body, cs = body ++ ']' :: rest ∧ WrittenItems body items
  members : ∀ {cs rest : List Char} {members : List (Option String × Source)},
    readMembers? fuel cs = some (members, rest) →
      ∃ body, cs = body ++ '\x7d' :: rest ∧ WrittenMembers body members

namespace ReadsOnly

variable {fuel : Nat}

/-- A value is read with the blanks before it; those after it go with it too. -/
theorem spaced (h : ReadsOnly fuel) {s : Source} (hread : read? fuel cs = some (s, rest)) :
    ∃ body, cs = body ++ skipBlanks rest ∧ Spaced body s := by
  obtain ⟨front, body, rfl, hfront, hbody⟩ := h.value hread
  obtain ⟨back, hback, hrest⟩ := exists_skipBlanks rest
  refine ⟨front ++ (body ++ back), ?_, .mk hfront hbody hback⟩
  rw [List.append_assoc, List.append_assoc, hrest]

/-- What is read after a bracket is the text of a list. -/
theorem bracket (h : ReadsOnly fuel) {s : Source}
    (hread : read? (fuel + 1) ('[' :: cs) = some (s, rest)) :
    ∃ body, '[' :: cs = body ++ rest ∧ Written body s := by
  obtain ⟨blanks, hblanks, hcs⟩ := exists_skipBlanks cs
  rw [read?_bracket] at hread
  split at hread
  case h_1 after hskip =>
    obtain ⟨rfl, rfl⟩ := Prod.mk.inj (Option.some.inj hread)
    refine ⟨'[' :: (blanks ++ [']']), ?_, .emptyList hblanks⟩
    rw [← hcs, hskip]
    simp
  case h_2 =>
    rw [readItems?_skipBlanks] at hread
    obtain ⟨items, hitems, rfl⟩ := exists_of_map_eq_some hread
    obtain ⟨body, rfl, hbody⟩ := h.items hitems
    exact ⟨'[' :: (body ++ [']']), by simp, .list hbody⟩

/-- What is read after a brace is the text of an object. -/
theorem brace (h : ReadsOnly fuel) {s : Source}
    (hread : read? (fuel + 1) ('\x7b' :: cs) = some (s, rest)) :
    ∃ body, '\x7b' :: cs = body ++ rest ∧ Written body s := by
  obtain ⟨blanks, hblanks, hcs⟩ := exists_skipBlanks cs
  rw [read?_brace] at hread
  split at hread
  case h_1 after hskip =>
    obtain ⟨rfl, rfl⟩ := Prod.mk.inj (Option.some.inj hread)
    refine ⟨'\x7b' :: (blanks ++ ['\x7d']), ?_, .emptyRecord hblanks⟩
    rw [← hcs, hskip]
    simp
  case h_2 =>
    rw [readMembers?_skipBlanks] at hread
    obtain ⟨members, hmembers, rfl⟩ := exists_of_map_eq_some hread
    obtain ⟨body, rfl, hbody⟩ := h.members hmembers
    exact ⟨'\x7b' :: (body ++ ['\x7d']), by simp, .record hbody⟩

theorem value_succ (h : ReadsOnly fuel) {s : Source}
    (hread : read? (fuel + 1) cs = some (s, rest)) :
    ∃ front body, cs = front ++ (body ++ rest) ∧ Blanks front ∧ Written body s := by
  obtain ⟨front, hfront, hcs⟩ := exists_skipBlanks cs
  suffices ∃ body, skipBlanks cs = body ++ rest ∧ Written body s by
    obtain ⟨body, hbody, hwritten⟩ := this
    exact ⟨front, body, by rw [← hbody, hcs], hfront, hwritten⟩
  have hliteral {c : Char} {literal tail : List Char} {t : Source}
      (hread : (expect? literal tail).map (t, ·) = some (s, rest)) (ht : Written (c :: literal) t) :
      ∃ body, c :: tail = body ++ rest ∧ Written body s := by
    obtain ⟨after, hexpect, heq⟩ := Option.map_eq_some_iff.1 hread
    obtain ⟨rfl, rfl⟩ := Prod.mk.inj heq
    exact ⟨_, by rw [eq_append_of_expect? hexpect]; rfl, ht⟩
  rw [read?] at hread
  generalize skipBlanks cs = cs at hread
  split at hread
  case h_1 => cases hread
  case h_2 c tail =>
    split_ifs at hread with hn ht hf hquote hbracket hbrace
    · exact hliteral hread (hn ▸ .null)
    · exact hliteral hread (ht ▸ .bool true)
    · exact hliteral hread (hf ▸ .bool false)
    · obtain ⟨value, htext, rfl⟩ := exists_of_map_eq_some hread
      obtain ⟨body, hbody, hstring⟩ := stringText_of_readText? htext
      exact ⟨body, by rw [hquote, hbody], .text hstring⟩
    · subst hbracket
      exact h.bracket ((read?_bracket fuel tail).trans hread)
    · subst hbrace
      exact h.brace ((read?_brace fuel tail).trans hread)
    · obtain ⟨body, value, hbody, rfl, hnumber⟩ := numberText_of_readNumber? hread
      exact ⟨body, hbody, .number hnumber⟩

theorem items_succ (h : ReadsOnly fuel) {items : List Source}
    (hread : readItems? (fuel + 1) cs = some (items, rest)) :
    ∃ body, cs = body ++ ']' :: rest ∧ WrittenItems body items := by
  rw [readItems?] at hread
  obtain ⟨⟨item, after⟩, hitem, hnext⟩ := Option.bind_eq_some_iff.1 hread
  obtain ⟨body, rfl, hbody⟩ := h.spaced hitem
  dsimp only at hnext
  split at hnext
  case h_1 tail hskip =>
    obtain ⟨others, hothers, rfl⟩ := exists_of_map_eq_some hnext
    obtain ⟨bodies, rfl, hbodies⟩ := h.items hothers
    exact ⟨body ++ ',' :: bodies, by rw [hskip]; simp, .cons hbody hbodies⟩
  case h_2 tail hskip =>
    obtain ⟨rfl, rfl⟩ := Prod.mk.inj (Option.some.inj hnext)
    exact ⟨body, by rw [hskip], .last hbody⟩
  case h_3 => cases hnext

/-- A member is read as a name, a colon and a value; what stands after it says whether there are
more. -/
theorem member (h : ReadsOnly fuel) {members : List (Option String × Source)}
    (hread : readMembers? (fuel + 1) cs = some (members, rest)) :
    ∃ member after body, cs = body ++ skipBlanks after ∧ WrittenMember body member ∧
      membersAfter? fuel member (skipBlanks after) = some (members, rest) := by
  obtain ⟨front, hfront, hcs⟩ := exists_skipBlanks cs
  rw [readMembers?] at hread
  split at hread
  case h_2 => cases hread
  case h_1 afterQuote hquote =>
    obtain ⟨⟨name, afterName⟩, hname, hcolon⟩ := Option.bind_eq_some_iff.1 hread
    obtain ⟨key, hkey, hstring⟩ := stringText_of_readText? hname
    obtain ⟨back, hback, hafterName⟩ := exists_skipBlanks afterName
    dsimp only at hcolon
    split at hcolon
    case h_2 => cases hcolon
    case h_1 afterColon hskip =>
      obtain ⟨⟨value, after⟩, hvalue, hnext⟩ := Option.bind_eq_some_iff.1 hcolon
      obtain ⟨body, rfl, hbody⟩ := h.spaced hvalue
      refine ⟨(name, value), after, front ++ (key ++ (back ++ ':' :: body)), ?_,
        .mk hfront hstring hback hbody, hnext⟩
      rw [← hcs, hquote, hkey, ← hafterName, hskip]
      simp

theorem members_succ (h : ReadsOnly fuel) {members : List (Option String × Source)}
    (hread : readMembers? (fuel + 1) cs = some (members, rest)) :
    ∃ body, cs = body ++ '\x7d' :: rest ∧ WrittenMembers body members := by
  obtain ⟨member, after, body, rfl, hbody, hnext⟩ := h.member hread
  unfold membersAfter? at hnext
  split at hnext
  case h_1 tail hskip =>
    obtain ⟨others, hothers, rfl⟩ := exists_of_map_eq_some hnext
    obtain ⟨bodies, rfl, hbodies⟩ := h.members hothers
    exact ⟨body ++ ',' :: bodies, by rw [hskip]; simp, .cons hbody hbodies⟩
  case h_2 tail hskip =>
    obtain ⟨rfl, rfl⟩ := Prod.mk.inj (Option.some.inj hnext)
    exact ⟨body, by rw [hskip], .last hbody⟩
  case h_3 => cases hnext

end ReadsOnly

/-- The readers take nothing but texts of the grammar, however many steps they have. -/
theorem readsOnly (fuel : Nat) : ReadsOnly fuel := by
  induction fuel with
  | zero => exact ⟨nofun, nofun, nofun⟩
  | succ fuel ih => exact ⟨ih.value_succ, ih.items_succ, ih.members_succ⟩

/-- A text is read to a document if and only if it writes it, with blanks around it. -/
theorem ofString?_eq_some_iff {text : String} {s : Source} :
    ofString? text = some s ↔ Spaced text.toList s := by
  refine ⟨fun h => ?_, ofString?_of_spaced⟩
  obtain ⟨⟨source, rest⟩, hread, h⟩ := Option.bind_eq_some_iff.1 h
  obtain ⟨body, hbody, hspaced⟩ := (readsOnly _).spaced hread
  dsimp only at h
  split at h
  case isTrue hempty =>
    obtain rfl := Option.some.inj h
    rw [List.isEmpty_iff] at hempty
    rwa [hbody, hempty, List.append_nil]
  case isFalse => cases h

end Source

end AccessGroups.Json
