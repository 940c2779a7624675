import AccessGroups.Schedule

/-!
# The first delay in machine words

A duration is held as a word of 64 bits for its seconds and a word of 32 bits for the nanoseconds
beyond them, and the delay before the first sweep is computed in such words. The longest random
share is counted in milliseconds with 128 bits and cut to 64, a share is drawn, turned into seconds
and nanoseconds again, and added. Every step has its own range, and the computation panics where
one is left. It never is: only the sum of the seconds can be too large for its word, and then the
delay is the longest duration.

## Main definitions

* `Duration.Words`: a duration in two words, with `Duration.words` and `Duration.Words.value`.
* `Duration.Words.firstDelay?`: the first delay in words; no result is a panic.
* `Draws`: a source of random words that draws one from every range that is not empty.

## Main results

* `Duration.Words.exists_saturatingAdd?`: the sum of words is the sum of durations.
* `Timetable.firstDelay_eq_of_lt`: a random share of less than a millisecond counts for nothing.
* `Timetable.firstDelay?_within`: the computation does not panic, and its result is in bounds.
-/

namespace AccessGroups

/-- The result of an operation on words that take so many values, if it is one of them. -/
def fits? (size n : Nat) : Option Nat :=
  if n < size then some n else none

theorem fits?_eq_some {size n : Nat} (h : n < size) : fits? size n = some n :=
  if_pos h

theorem fits?_eq_none {size n : Nat} (h : ¬ n < size) : fits? size n = none :=
  if_neg h

/-- A number that does not fit is cut to the largest one that does. -/
theorem fits?_getD (size n : Nat) : (fits? size n).getD (size - 1) = min n (size - 1) := by
  rw [fits?]
  split
  · rw [Option.getD_some]
    omega
  · rw [Option.getD_none]
    omega

namespace Duration

/-- A sum in range is exact. -/
theorem eq_saturatingAdd {a b d : Duration} (h : d.nanos = a.nanos + b.nanos) :
    d = a.saturatingAdd b := by
  have hbounded := d.bounded
  rw [h] at hbounded
  refine Duration.ext (h.trans ?_)
  rw [saturatingAdd, ofNanos, dif_pos hbounded]

/-- A sum out of range is the longest duration. -/
theorem saturatingAdd_eq_max {a b : Duration}
    (h : UInt64.size * 1000000000 ≤ a.nanos + b.nanos) : a.saturatingAdd b = max :=
  dif_neg (Nat.not_lt.2 h)

/-- A duration as two words. -/
structure Words where
  secs : Nat
  /-- The nanoseconds beyond the whole seconds. -/
  nanos : Nat
  secs_lt : secs < UInt64.size
  nanos_lt : nanos < 1000000000

/-- The words of a duration. -/
def words (d : Duration) : Words where
  secs := d.secs
  nanos := d.subsecNanos
  secs_lt := (Nat.div_lt_iff_lt_mul (by decide)).2 d.bounded
  nanos_lt := Nat.mod_lt _ (by decide)

namespace Words

/-- The duration that two words stand for. -/
def value (w : Words) : Duration where
  nanos := w.secs * 1000000000 + w.nanos
  bounded := by
    have hsecs := w.secs_lt
    have hnanos := w.nanos_lt
    omega

/-- The words of the longest duration. -/
def longest : Words :=
  ⟨UInt64.size - 1, 999999999, by decide, by decide⟩

/-- Two words, if they are those of a duration. -/
def ofParts? (secs nanos : Nat) : Option Words :=
  if h : secs < UInt64.size ∧ nanos < 1000000000 then some ⟨secs, nanos, h.1, h.2⟩ else none

/-- The whole milliseconds, in 128 bits. -/
def millis? (w : Words) : Option Nat := do
  let whole ← fits? (UInt64.size * UInt64.size) (w.secs * 1000)
  fits? (UInt64.size * UInt64.size) (whole + w.nanos / 1000000)

/-- So many milliseconds. -/
def ofMillis? (millis : Nat) : Option Words := do
  let nanos ← fits? UInt32.size (millis % 1000 * 1000000)
  ofParts? (millis / 1000) nanos

/-- The sum, or the longest duration if the seconds leave their word. The nanoseconds are added
before they are carried over. -/
def saturatingAdd? (a b : Words) : Option Words :=
  match fits? UInt64.size (a.secs + b.secs) with
  | none => some longest
  | some secs => do
    let nanos ← fits? UInt32.size (a.nanos + b.nanos)
    if nanos < 1000000000 then ofParts? secs nanos
    else
      match fits? UInt64.size (secs + 1) with
      | none => some longest
      | some carried => ofParts? carried (nanos - 1000000000)

/-- A random number of milliseconds. It is drawn only if it can be other than zero. -/
def share? (draw? : Nat → Nat → Option Nat) (most : Nat) : Option Nat :=
  if most = 0 then some 0 else draw? 0 most

/-- The delay before the first sweep, with a random share of at most `jitter`. -/
def firstDelay? (draw? : Nat → Nat → Option Nat) (delay jitter : Words) : Option Words := do
  let millis ← jitter.millis?
  let share ← share? draw? ((fits? UInt64.size millis).getD (UInt64.size - 1))
  let extra ← ofMillis? share
  delay.saturatingAdd? extra

/-! ### Words and durations -/

theorem value_words (d : Duration) : d.words.value = d :=
  Duration.ext (Nat.div_add_mod' d.nanos 1000000000)

theorem ofParts?_eq_some {secs nanos : Nat} (hsecs : secs < UInt64.size)
    (hnanos : nanos < 1000000000) : ofParts? secs nanos = some ⟨secs, nanos, hsecs, hnanos⟩ :=
  dif_pos ⟨hsecs, hnanos⟩

/-- The milliseconds of the longest duration still fit in 128 bits. -/
theorem millis?_eq (w : Words) : w.millis? = some w.value.millis := by
  have hsecs := w.secs_lt
  have hnanos := w.nanos_lt
  have hmillis : w.value.millis = w.secs * 1000 + w.nanos / 1000000 := by
    simp only [Duration.millis, value]
    omega
  have hwide : UInt64.size * 1000 ≤ UInt64.size * UInt64.size := by decide
  rw [millis?, fits?_eq_some (by omega), hmillis]
  exact fits?_eq_some (by omega)

theorem exists_ofMillis? (n : UInt64) :
    ∃ w, ofMillis? n.toNat = some w ∧ w.value = .ofMillis n := by
  have hn : n.toNat < UInt64.size := n.toNat_lt_size
  have hsecs : n.toNat / 1000 < UInt64.size := by omega
  have hnanos : n.toNat % 1000 * 1000000 < 1000000000 := by omega
  have hword : 1000000000 ≤ UInt32.size := by decide
  refine ⟨⟨_, _, hsecs, hnanos⟩, ?_, Duration.ext ?_⟩
  · rw [ofMillis?, fits?_eq_some (by omega)]
    exact ofParts?_eq_some hsecs hnanos
  · simp only [value, Duration.ofMillis]
    omega

theorem value_longest : longest.value = Duration.max := by
  decide

theorem nanos_value_add (a b : Words) : a.value.nanos + b.value.nanos =
    (a.secs + b.secs) * 1000000000 + (a.nanos + b.nanos) := by
  simp only [value]
  omega

/-- The sum of words is the sum of the durations, and no step of it leaves its range. -/
theorem exists_saturatingAdd? (a b : Words) :
    ∃ w, a.saturatingAdd? b = some w ∧ w.value = a.value.saturatingAdd b.value := by
  have ha := a.nanos_lt
  have hb := b.nanos_lt
  have hword : 2000000000 ≤ UInt32.size := by decide
  have hexact {w : Words} (h : w.secs * 1000000000 + w.nanos =
      (a.secs + b.secs) * 1000000000 + (a.nanos + b.nanos)) :
      w.value = a.value.saturatingAdd b.value :=
    Duration.eq_saturatingAdd (h.trans (nanos_value_add a b).symm)
  have hcut (h : UInt64.size * 1000000000 ≤
      (a.secs + b.secs) * 1000000000 + (a.nanos + b.nanos)) :
      longest.value = a.value.saturatingAdd b.value := by
    rw [← nanos_value_add] at h
    exact value_longest.trans (Duration.saturatingAdd_eq_max h).symm
  rw [saturatingAdd?]
  by_cases hsecs : a.secs + b.secs < UInt64.size
  · rw [fits?_eq_some hsecs]
    dsimp only
    rw [fits?_eq_some (by omega : a.nanos + b.nanos < UInt32.size), Option.bind_eq_bind,
      Option.bind_some]
    by_cases hnanos : a.nanos + b.nanos < 1000000000
    · rw [if_pos hnanos, ofParts?_eq_some hsecs hnanos]
      exact ⟨_, rfl, hexact rfl⟩
    · rw [if_neg hnanos]
      -- one second is carried over
      by_cases hcarry : a.secs + b.secs + 1 < UInt64.size
      · rw [fits?_eq_some hcarry]
        dsimp only
        rw [ofParts?_eq_some hcarry (by omega)]
        refine ⟨_, rfl, hexact ?_⟩
        dsimp only
        omega
      · rw [fits?_eq_none hcarry]
        exact ⟨longest, rfl, hcut (by omega)⟩
  · rw [fits?_eq_none hsecs]
    exact ⟨longest, rfl, hcut (by omega)⟩

end Words

end Duration

/-- A source of random words draws one from every range that is not empty. -/
def Draws (draw? : Nat → Nat → Option Nat) : Prop :=
  ∀ least most, least ≤ most → most < UInt64.size →
    ∃ n, draw? least most = some n ∧ least ≤ n ∧ n ≤ most

theorem Draws.exists_share? {draw? : Nat → Nat → Option Nat} (h : Draws draw?) {most : Nat}
    (hmost : most < UInt64.size) : ∃ n, Duration.Words.share? draw? most = some n ∧ n ≤ most := by
  rw [Duration.Words.share?]
  split
  · exact ⟨0, rfl, Nat.zero_le _⟩
  · obtain ⟨n, hn, -, hle⟩ := h 0 most (Nat.zero_le _) hmost
    exact ⟨n, hn, hle⟩

namespace Timetable

open Duration (Words)

variable {t : Timetable} {draw : Fin (t.jitterMillis + 1)} {draw? : Nat → Nat → Option Nat}

/-! ### The random share -/

theorem jitterMillis_lt (t : Timetable) : t.jitterMillis < UInt64.size :=
  Nat.lt_of_le_of_lt (Nat.min_le_right ..) (by decide)

/-- A random share is a word. -/
theorem toNat_draw (draw : Fin (t.jitterMillis + 1)) : (UInt64.ofNat draw.val).toNat = draw.val :=
  UInt64.toNat_ofNat_of_lt' (Nat.lt_of_le_of_lt draw.is_le t.jitterMillis_lt)

theorem nanos_firstDelay : (t.firstDelay draw).nanos =
    min (t.initialDelay.nanos + draw.val * 1000000) Duration.max.nanos := by
  have hshare : (Duration.ofMillis (UInt64.ofNat draw.val)).nanos = draw.val * 1000000 :=
    congrArg (· * 1000000) (toNat_draw draw)
  rw [firstDelay, Duration.nanos_saturatingAdd, hshare]

/-- A random share is at most the longest one. -/
theorem draw_mul_le (draw : Fin (t.jitterMillis + 1)) : draw.val * 1000000 ≤ t.jitter.nanos := by
  have hdraw := draw.isLt
  have hmost : t.jitterMillis ≤ t.jitter.nanos / 1000000 := Nat.min_le_left ..
  omega

theorem le_firstDelay : t.initialDelay ≤ t.firstDelay draw := by
  have hbounded := t.initialDelay.bounded
  rw [Duration.le_def, nanos_firstDelay]
  simp only [Duration.max]
  omega

theorem firstDelay_le : t.firstDelay draw ≤ t.initialDelay.saturatingAdd t.jitter := by
  have hdraw := draw_mul_le draw
  rw [Duration.le_def, nanos_firstDelay, Duration.nanos_saturatingAdd]
  omega

/-- A random share of less than a millisecond counts for nothing. -/
theorem firstDelay_eq_of_lt (h : t.jitter.nanos < 1000000) :
    t.firstDelay draw = t.initialDelay := by
  have hbounded := t.initialDelay.bounded
  have hdraw := draw_mul_le draw
  refine Duration.ext ?_
  rw [nanos_firstDelay]
  simp only [Duration.max]
  omega

/-! ### The computation -/

/-- The first delay in words is that of the timetable for the number that is drawn. -/
theorem exists_firstDelay? (t : Timetable) (hdraws : Draws draw?) :
    ∃ w draw, Words.firstDelay? draw? t.initialDelay.words t.jitter.words = some w ∧
      Words.share? draw? t.jitterMillis = some draw.val ∧ w.value = t.firstDelay draw := by
  have hmost : (fits? UInt64.size t.jitter.millis).getD (UInt64.size - 1) = t.jitterMillis :=
    fits?_getD ..
  obtain ⟨share, hshare, hle⟩ := hdraws.exists_share? t.jitterMillis_lt
  let draw : Fin (t.jitterMillis + 1) := ⟨share, Nat.lt_succ_of_le hle⟩
  obtain ⟨extra, hextra, hvalue⟩ := Words.exists_ofMillis? (UInt64.ofNat share)
  have hword : (UInt64.ofNat share).toNat = share := toNat_draw draw
  rw [hword] at hextra
  obtain ⟨w, hw, hsum⟩ := t.initialDelay.words.exists_saturatingAdd? extra
  refine ⟨w, draw, ?_, hshare, ?_⟩
  · rw [Words.firstDelay?, Words.millis?_eq, Words.value_words, Option.bind_eq_bind,
      Option.bind_some, hmost, hshare, Option.bind_eq_bind, Option.bind_some, hextra,
      Option.bind_some, hw]
  · rw [hsum, hvalue, Words.value_words]
    rfl

/-- The first delay is computed without a panic whatever the two parts are and whatever is drawn. It
is that of the timetable for the number that is drawn, not below the initial delay and not above the
sum of both parts, and a random share of less than a millisecond adds nothing. -/
theorem firstDelay?_within (t : Timetable) (draw? : Nat → Nat → Option Nat)
    (hdraws : Draws draw?) :
    ∃ w draw, Words.firstDelay? draw? t.initialDelay.words t.jitter.words = some w ∧
      Words.share? draw? t.jitterMillis = some draw.val ∧ w.value = t.firstDelay draw ∧
      t.initialDelay ≤ w.value ∧ w.value ≤ t.initialDelay.saturatingAdd t.jitter ∧
      (t.jitter.nanos < 1000000 → w.value = t.initialDelay) := by
  obtain ⟨w, draw, hw, hshare, hvalue⟩ := t.exists_firstDelay? hdraws
  refine ⟨w, draw, hw, hshare, hvalue, ?_⟩
  rw [hvalue]
  exact ⟨le_firstDelay, firstDelay_le, firstDelay_eq_of_lt⟩

/-- The largest number of a range. -/
def highest (least most : Nat) : Option Nat :=
  if least ≤ most then some most else none

/-- The delay has as many seconds as fit in their word. -/
def endless : Timetable :=
  ⟨.ofSecs 1, .ofSecs 18446744073709551615, .ofSecs 3600, by decide⟩

/-- The sum of its delay and an hour is cut to the longest duration. -/
theorem firstDelay?_endless : Draws highest ∧
    ∃ w, Words.firstDelay? highest endless.initialDelay.words endless.jitter.words = some w ∧
      endless.initialDelay ≤ w.value ∧ w.value = .max := by
  have hdraws : Draws highest := fun least most h _ => ⟨most, if_pos h, h, Nat.le_refl _⟩
  obtain ⟨w, -, hw, -, -, hle, -⟩ := firstDelay?_within endless highest hdraws
  have hcut : (Words.firstDelay? highest endless.initialDelay.words endless.jitter.words).map
      Words.value = some .max := by
    decide
  rw [hw] at hcut
  exact ⟨hdraws, w, hw, hle, Option.some.inj hcut⟩

end Timetable

end AccessGroups
