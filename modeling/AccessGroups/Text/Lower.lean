/-!
# Text without regard to case

Some names and words are compared without regard to the case of the letters from `a` to `z`.

## Main definitions

* `lower`: a text with these letters in lower case.
-/

namespace AccessGroups.Text

/-- The text with the letters from `A` to `Z` in lower case. -/
def lower (s : String) : String :=
  String.ofList (s.toList.map Char.toLower)

@[simp] theorem toList_lower (s : String) : (lower s).toList = s.toList.map Char.toLower := by
  simp [lower]

end AccessGroups.Text
