import AccessGroups.Proofs.Json.Reading

/-!
# The compact form is a text of the grammar

A value that the program prints on one line is read back to its document: integers are written as
integers are, and every character of a string that may not stand for itself is escaped.

## Main definitions

* `Json.Value.source`: the document of a value.

## Main results

* `Json.numberText_ofInt`, `Json.stringText_quote`: printed integers and strings are texts of the
  grammar.
* `Json.Value.ofString?_compact`: the compact form is read to the document of the value.
-/

namespace AccessGroups.Json

open Text (IsDigits placeValue)

/-! ### Integers -/

theorem head?_toDigits {n : Nat} (hn : 0 < n) : (Nat.toDigits 10 n).head? ≠ some '0' := by
  induction n using Nat.strongRecOn with
  | ind n ih =>
    rcases Nat.lt_or_ge n 10 with hlt | hge
    · rw [Nat.toDigits_of_lt_base hlt]
      have hdigit : ∀ d : Fin 10, 0 < d.val → [Nat.digitChar d].head? ≠ some '0' := by decide
      exact hdigit ⟨n, hlt⟩ hn
    · rw [Nat.toDigits_of_base_le (by decide) hge,
        List.head?_append_of_ne_nil _ Nat.toDigits_ne_nil]
      exact ih (n / 10) (by omega) (by omega)

theorem isWhole_toDigits (n : Nat) : IsWhole (Nat.toDigits 10 n) := by
  rcases Nat.eq_zero_or_pos n with rfl | hn
  · exact .inl rfl
  · exact .inr ⟨⟨Nat.toDigits_ne_nil, fun c hc =>
      Nat.isDigit_of_mem_toDigits (by decide) (by decide) hc⟩, head?_toDigits hn⟩

theorem placeValue_toDigits (n : Nat) : placeValue (Nat.toDigits 10 n) = n := by
  have hvalue := Text.ofDigitChars_eq (Nat.toDigits 10 n) 0
  rw [Nat.ofDigitChars_toDigits (by decide) (by decide)] at hvalue
  omega

/-- A printed integer is a number with the integer as its value. -/
theorem numberText_ofInt (n : Int) : NumberText (Decimal.ofInt n) (some n) := by
  cases n with
  | ofNat n =>
    have h := NumberText.natural (isWhole_toDigits n)
    rwa [placeValue_toDigits] at h
  | negSucc n =>
    have hzero : Nat.toDigits 10 (n + 1) ≠ ['0'] := fun h =>
      head?_toDigits (Nat.succ_pos n) (by rw [h]; rfl)
    have h := NumberText.negative (isWhole_toDigits (n + 1)) hzero
    rwa [placeValue_toDigits] at h

/-! ### Strings -/

/-- A control character is escaped by its number in hexadecimal digits. -/
theorem pieceText_control (n : Fin 32) :
    PieceText (['\\', 'u', '0', '0'] ++ (if n.val < 16 then ['0'] else []) ++ Nat.toDigits 16 n)
      (.unit n) := by
  have hchars : ∀ n : Fin 32,
      ['\\', 'u', '0', '0'] ++ (if n.val < 16 then ['0'] else []) ++ Nat.toDigits 16 n =
        ['\\', 'u', '0', '0', Nat.digitChar (n / 16), Nat.digitChar (n % 16)] := by
    decide
  have hdigit : ∀ i : Fin 16, "0123456789abcdef".toList[i.val]? = some (Nat.digitChar i) := by
    decide
  have hzero : IsHexDigit '0' 0 := .inl rfl
  have hhigh : IsHexDigit (Nat.digitChar (n / 16)) (n / 16) := .inl (hdigit ⟨n / 16, by omega⟩)
  have hlow : IsHexDigit (Nat.digitChar (n % 16)) (n % 16) := .inl (hdigit ⟨n % 16, by omega⟩)
  have hpiece := PieceText.unit hzero hzero hhigh hlow
  rwa [show 0 * 16 ^ 3 + 0 * 16 ^ 2 + n.val / 16 * 16 + n.val % 16 = n.val by omega, ← hchars]
    at hpiece

/-- What is written for a character of a string is one piece that means the character. -/
theorem exists_pieceText (c : Char) : ∃ piece, PieceText (escapeChar c) piece ∧
    ∀ pieces cs, Joined pieces cs → Joined (piece :: pieces) (c :: cs) := by
  have hescape {letter d : Char} (h : (letter, d) ∈ escapes) (hd : c = d) :
      ∃ piece, PieceText ['\\', letter] piece ∧
        ∀ pieces cs, Joined pieces cs → Joined (piece :: pieces) (c :: cs) :=
    ⟨.char c, .escape (hd ▸ h), fun _ _ => .char⟩
  have hnumber {d : Char} (h : c.toNat = d.toNat) : c = d := by
    rw [← Char.ofNat_toNat c, h, Char.ofNat_toNat]
  unfold escapeChar
  -- The number of zeros of a control character is no case of its own.
  generalize hzero : (if c.toNat < 16 then ['0'] else []) = zero
  split_ifs with hquote hbackslash hnewline hreturn htab hback hfeed hcontrol
  · exact hescape (by decide) hquote
  · exact hescape (by decide) hbackslash
  · exact hescape (by decide) hnewline
  · exact hescape (by decide) hreturn
  · exact hescape (by decide) htab
  · exact hescape (by decide) (hnumber (d := '\x08') hback)
  · exact hescape (by decide) (hnumber (d := '\x0c') hfeed)
  · refine ⟨.unit c.toNat, hzero ▸ pieceText_control ⟨c.toNat, hcontrol⟩, fun _ _ h => ?_⟩
    have hjoined := Joined.unit (n := c.toNat) (.inl (by omega)) h
    rwa [Char.ofNat_toNat] at hjoined
  · exact ⟨.char c, .plain hquote hbackslash (Nat.le_of_not_lt hcontrol), fun _ _ => .char⟩

theorem exists_piecesText (cs : List Char) :
    ∃ pieces, PiecesText (cs.flatMap escapeChar) pieces ∧ Joined pieces cs := by
  induction cs with
  | nil => exact ⟨[], .nil, .nil⟩
  | cons c cs ih =>
    obtain ⟨piece, hpiece, hjoin⟩ := exists_pieceText c
    obtain ⟨pieces, hpieces, hjoined⟩ := ih
    exact ⟨piece :: pieces, .cons hpiece hpieces, hjoin _ _ hjoined⟩

/-- A printed string is a string with the same characters as its value. -/
theorem stringText_quote (s : String) : StringText (quote s) (some s) := by
  obtain ⟨pieces, hpieces, hjoined⟩ := exists_piecesText s.toList
  refine ⟨_, pieces, rfl, hpieces, fun t => ?_⟩
  rw [← joinPieces?_eq_some_iff, joinPieces?_eq_some_iff.2 hjoined, Option.some_inj,
    Option.some_inj, String.toList_inj]

/-! ### Documents -/

namespace Value

mutual

/-- The document of a value. -/
def source : Value → Source
  | .null => .null
  | .bool b => .bool b
  | .int n => .number (some n)
  | .text s => .text (some s)
  | .list items => .list (itemSources items)
  | .record members => .record (memberSources members)

/-- The documents of the items of a list. -/
def itemSources : List Value → List Source
  | [] => []
  | v :: rest => v.source :: itemSources rest

/-- The members of the document of an object. -/
def memberSources : List (String × Value) → List (Option String × Source)
  | [] => []
  | (key, v) :: rest => (some key, v.source) :: memberSources rest

end

theorem spaced_of_written {cs : List Char} {s : Source} (h : Written cs s) : Spaced cs s := by
  simpa using Spaced.mk blanks_nil h blanks_nil

theorem writtenMember_of_written {key : String} {cs : List Char} {s : Source} (h : Written cs s) :
    WrittenMember (quote key ++ ':' :: cs) (some key, s) := by
  simpa using WrittenMember.mk blanks_nil (stringText_quote key) blanks_nil (spaced_of_written h)

mutual

theorem written_compactChars : (v : Value) → Written v.compactChars v.source
  | .null => .null
  | .bool b => .bool b
  | .int n => .number (numberText_ofInt n)
  | .text s => .text (stringText_quote s)
  | .list items => by
    by_cases hne : items = []
    · rw [hne]
      exact @Written.emptyList [] blanks_nil
    · obtain ⟨cs, hcs, h⟩ := exists_writtenItems items hne
      rw [compactChars, hcs]
      exact .list h
  | .record members => by
    by_cases hne : members = []
    · rw [hne]
      exact @Written.emptyRecord [] blanks_nil
    · obtain ⟨cs, hcs, h⟩ := exists_writtenMembers members hne
      rw [compactChars, hcs]
      exact .record h

/-- The items of a list are written up to its closing bracket. -/
theorem exists_writtenItems : (items : List Value) → items ≠ [] →
    ∃ cs, compactItems items = cs ++ [']'] ∧ WrittenItems cs (itemSources items)
  | [], hne => absurd rfl hne
  | [v], _ => ⟨v.compactChars, rfl, .last (spaced_of_written v.written_compactChars)⟩
  | v :: w :: rest, _ => by
    obtain ⟨cs, hcs, h⟩ := exists_writtenItems (w :: rest) (List.cons_ne_nil _ _)
    refine ⟨v.compactChars ++ ',' :: cs, ?_, .cons (spaced_of_written v.written_compactChars) h⟩
    rw [compactItems, hcs, List.append_assoc, List.cons_append]

/-- The members of an object are written up to its closing brace. -/
theorem exists_writtenMembers : (members : List (String × Value)) → members ≠ [] →
    ∃ cs, compactMembers members = cs ++ ['\x7d'] ∧ WrittenMembers cs (memberSources members)
  | [], hne => absurd rfl hne
  | [(key, v)], _ => ⟨quote key ++ ':' :: v.compactChars, rfl,
      .last (writtenMember_of_written v.written_compactChars)⟩
  | (key, v) :: m :: rest, _ => by
    obtain ⟨cs, hcs, h⟩ := exists_writtenMembers (m :: rest) (List.cons_ne_nil _ _)
    refine ⟨quote key ++ ':' :: v.compactChars ++ ',' :: cs, ?_,
      .cons (writtenMember_of_written v.written_compactChars) h⟩
    rw [compactMembers, hcs]
    simp

end

/-- The compact form is read to the document of the value. -/
theorem ofString?_compact (v : Value) : Source.ofString? v.compact = some v.source := by
  have h : Spaced v.compact.toList v.source := by
    rw [compact, String.toList_ofList]
    exact spaced_of_written v.written_compactChars
  exact Source.ofString?_of_spaced h

end Value

end AccessGroups.Json
