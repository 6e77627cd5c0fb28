import KernelReach.Proofs.Collections
import KernelReach.Proofs.Time.Stored
import Mathlib.Data.List.Induction
import Mathlib.Data.String.Basic

/-!
# The order of timestamps

Stored timestamps are compared as texts. They are in the order of the instants
(`Timestamp.storedText_lt_iff`), for three reasons:

* numerals of one width are in the order of their values (`decimal_lt_iff`), so that texts are
  compared field by field (`field_lt_iff`);
* dates are in the order of their years, months and days (`Date.toDays_lt_iff`): a year is over
  before the next one starts, and so is a month;
* the hours, minutes and seconds of a day are all in their ranges.
-/

namespace KernelReach.Time

/-! ### Numerals -/

theorem digit?_bounds {c : Char} {k : Nat} (h : digit? c = some k) :
    c.toNat = 48 + k ∧ k < 10 := by
  unfold digit? at h
  split_ifs at h with hc
  have hlow : 48 ≤ c.toNat := hc.1
  have hhigh : c.toNat ≤ 57 := hc.2
  have hk : c.toNat - 48 = k := Option.some.inj h
  omega

theorem digits?_concat {cs : List Char} {c : Char} {n : Nat} :
    digits? (cs ++ [c]) = some n ↔
      ∃ m, digits? cs = some m ∧ ∃ k, digit? c = some k ∧ 10 * m + k = n := by
  simp [digits?, List.foldlM_append, Option.bind_eq_some_iff]

/-- Digits of the same number are in the order of their values. -/
theorem lt_iff_of_digits? {cs ds : List Char} (hlength : cs.length = ds.length) {m n : Nat}
    (hm : digits? cs = some m) (hn : digits? ds = some n) :
    (cs < ds ↔ m < n) ∧ (cs = ds ↔ m = n) := by
  -- The value is read from the left, so the last digits are split off.
  induction cs using List.reverseRecOn generalizing ds m n with
  | nil =>
    rw [List.eq_nil_of_length_eq_zero hlength.symm] at hn ⊢
    have hmn : m = n := Option.some.inj (hm.symm.trans hn)
    simp [hmn]
  | append_singleton cs c ih =>
    obtain ⟨ds, d, rfl⟩ := (List.eq_nil_or_concat' ds).resolve_left
      (List.ne_nil_of_length_pos (by simp [← hlength]))
    obtain ⟨m, hcs, k, hc, rfl⟩ := digits?_concat.1 hm
    obtain ⟨n, hds, l, hd, rfl⟩ := digits?_concat.1 hn
    have hlengths : cs.length = ds.length := by simpa using hlength
    obtain ⟨hlt, heq⟩ := ih hlengths hcs hds
    obtain ⟨hck, hk⟩ := digit?_bounds hc
    obtain ⟨hdl, hl⟩ := digit?_bounds hd
    have hcd : [c] < [d] ↔ k < l := by
      rw [List.cons_lt_cons_iff]
      have hchar : c < d ↔ c.toNat < d.toNat := Iff.rfl
      simp only [List.lt_irrefl, and_false, or_false, hchar]
      omega
    have hcd' : c = d ↔ k = l := by
      rw [← Char.toNat_inj]
      omega
    have happend : cs ++ [c] = ds ++ [d] ↔ m = n ∧ k = l := by
      rw [← heq, ← hcd', List.append_eq_append_iff_of_size_eq_left hlengths, List.singleton_inj]
    rw [append_lt_append_iff hlengths, hlt, heq, hcd, happend]
    omega

theorem decimal_lt_iff {width m n : Nat} (hwidth : 0 < width) (hm : m < 10 ^ width)
    (hn : n < 10 ^ width) :
    ((Text.decimal width m).toList < (Text.decimal width n).toList ↔ m < n) ∧
      ((Text.decimal width m).toList = (Text.decimal width n).toList ↔ m = n) :=
  lt_iff_of_digits? ((length_decimal hwidth hm).trans (length_decimal hwidth hn).symm)
    (digits?_decimal width m) (digits?_decimal width n)

/-- Texts that start with numerals of one width are in the order of the values, and if these are the
    same, in the order of what follows. -/
theorem field_lt_iff {width m n : Nat} (hwidth : 0 < width) (hm : m < 10 ^ width)
    (hn : n < 10 ^ width) (c : Char) (rest rest' : List Char) :
    (Text.decimal width m).toList ++ c :: rest < (Text.decimal width n).toList ++ c :: rest' ↔
      m < n ∨ m = n ∧ rest < rest' := by
  obtain ⟨hlt, heq⟩ := decimal_lt_iff hwidth hm hn
  rw [append_lt_append_iff ((length_decimal hwidth hm).trans (length_decimal hwidth hn).symm), hlt,
    heq, List.cons_lt_cons_self]

/-! ### Dates -/

theorem daysBeforeYear_mono {year year' : Int} (h : year ≤ year') :
    daysBeforeYear year ≤ daysBeforeYear year' := by
  simp only [daysBeforeYear]
  omega

theorem total_take_mono (lengths : List Nat) {m n : Nat} (h : m ≤ n) :
    Number.total (lengths.take m) ≤ Number.total (lengths.take n) := by
  induction lengths generalizing m n with
  | nil => simp
  | cons length lengths ih =>
    cases m with
    | zero => simp
    | succ m =>
      cases n with
      | zero => omega
      | succ n =>
        have hrest := ih (Nat.le_of_succ_le_succ h)
        simp only [List.take_succ_cons, Number.total_cons]
        omega

theorem total_take_succ {lengths : List Nat} {m length : Nat} (h : lengths[m]? = some length) :
    Number.total (lengths.take (m + 1)) = Number.total (lengths.take m) + length := by
  induction lengths generalizing m with
  | nil => simp at h
  | cons first lengths ih =>
    cases m with
    | zero =>
      have hfirst : first = length := by simpa using h
      simp [hfirst]
    | succ m =>
      have hrest := ih (by simpa using h)
      simp only [List.take_succ_cons, Number.total_cons] at hrest ⊢
      omega

namespace Date

/-- The month of a date and the days of the month. -/
theorem exists_length {d : Date} (hd : d.isValid = true) :
    ∃ months length, d.month = months + 1 ∧
      (monthLengths (isLeap d.year))[months]? = some length ∧ 1 ≤ d.day ∧ d.day ≤ length := by
  simp only [isValid, Bool.and_eq_true, decide_eq_true_eq] at hd
  obtain ⟨⟨⟨hmonth, -⟩, hday⟩, hlast⟩ := hd
  obtain ⟨months, hmonths⟩ : ∃ months, d.month = months + 1 := ⟨d.month - 1, by omega⟩
  rw [hmonths, daysIn] at hlast
  cases hlength : (monthLengths (isLeap d.year))[months]? with
  | none =>
    rw [hlength] at hlast
    simp only [Option.getD_none] at hlast
    omega
  | some length =>
    rw [hlength] at hlast
    exact ⟨months, length, hmonths, hlength, hday, hlast⟩

/-- A date lies in its year. -/
theorem toDays_bounds {d : Date} (hd : d.isValid = true) :
    daysBeforeYear d.year ≤ d.toDays ∧ d.toDays < daysBeforeYear (d.year + 1) := by
  obtain ⟨months, length, hmonth, hlength, hfirst, hlast⟩ := exists_length hd
  have hmonths := (List.getElem?_eq_some_iff.1 hlength).1
  have hsucc := total_take_succ hlength
  have hyear := total_take_mono (monthLengths (isLeap d.year)) (show months + 1 ≤ _ from hmonths)
  rw [List.take_length] at hyear
  rw [daysBeforeYear_succ, toDays]
  simp only [hmonth, Nat.add_sub_cancel]
  omega

/-- A month is over before the next one starts. -/
theorem toDays_lt_of_month_lt {d d' : Date} (hd : d.isValid = true) (hd' : d'.isValid = true)
    (hyear : d.year = d'.year) (hmonth : d.month < d'.month) : d.toDays < d'.toDays := by
  obtain ⟨months, length, hmonths, hlength, -, hlast⟩ := exists_length hd
  obtain ⟨months', -, hmonths', -, hfirst', -⟩ := exists_length hd'
  have hsucc := total_take_succ hlength
  have hmono := total_take_mono (monthLengths (isLeap d.year)) (by omega : months + 1 ≤ months')
  simp only [toDays, ← hyear, hmonths, hmonths', Nat.add_sub_cancel]
  omega

/-- Dates are compared by their years, then by their months, then by their days. -/
def Precedes (d d' : Date) : Prop :=
  d.year < d'.year ∨ d.year = d'.year ∧
    (d.month < d'.month ∨ d.month = d'.month ∧ d.day < d'.day)

theorem toDays_lt_of_precedes {d d' : Date} (hd : d.isValid = true) (hd' : d'.isValid = true)
    (h : d.Precedes d') : d.toDays < d'.toDays := by
  rcases h with hyear | ⟨hyear, hmonth | ⟨hmonth, hday⟩⟩
  · have hbefore := (toDays_bounds hd).2
    have hafter := (toDays_bounds hd').1
    have hmono := daysBeforeYear_mono (Int.add_one_le_of_lt hyear)
    omega
  · exact toDays_lt_of_month_lt hd hd' hyear hmonth
  · simp only [toDays, hyear, hmonth]
    omega

theorem eq_iff {d d' : Date} :
    d = d' ↔ d.year = d'.year ∧ d.month = d'.month ∧ d.day = d'.day := by
  cases d
  cases d'
  simp

theorem precedes_or_eq (d d' : Date) : d.Precedes d' ∨ d = d' ∨ d'.Precedes d := by
  rw [eq_iff, Precedes, Precedes]
  omega

theorem toDays_lt_iff {d d' : Date} (hd : d.isValid = true) (hd' : d'.isValid = true) :
    d.toDays < d'.toDays ↔ d.Precedes d' := by
  refine ⟨fun hlt => ?_, toDays_lt_of_precedes hd hd'⟩
  rcases precedes_or_eq d d' with h | rfl | h
  · exact h
  · exact absurd hlt (lt_irrefl _)
  · exact absurd hlt (toDays_lt_of_precedes hd' hd h).not_gt

theorem toDays_inj {d d' : Date} (hd : d.isValid = true) (hd' : d'.isValid = true) :
    d.toDays = d'.toDays ↔ d = d' := by
  refine ⟨fun heq => ?_, congrArg toDays⟩
  rcases precedes_or_eq d d' with h | h | h
  · exact absurd heq (toDays_lt_of_precedes hd hd' h).ne
  · exact h
  · exact absurd heq (toDays_lt_of_precedes hd' hd h).ne'

end Date

/-! ### Timestamps -/

namespace ClockTime

/-- What clocks show is compared by the dates, then by the hours, the minutes and the seconds. -/
theorem toSeconds_lt_iff {c c' : ClockTime} (hc : c.IsValid) (hc' : c'.IsValid) :
    c.toSeconds < c'.toSeconds ↔
      c.date.Precedes c'.date ∨ c.date = c'.date ∧ (c.hour < c'.hour ∨ c.hour = c'.hour ∧
        (c.minute < c'.minute ∨ c.minute = c'.minute ∧ c.second < c'.second)) := by
  obtain ⟨hdate, hhour, hminute, hsecond⟩ := hc
  obtain ⟨hdate', hhour', hminute', hsecond'⟩ := hc'
  rw [← Date.toDays_lt_iff hdate hdate', ← Date.toDays_inj hdate hdate', toSeconds, toSeconds]
  simp only [secondsPerDay]
  omega

/-- The month and the day are written with two digits. -/
theorem IsValid.date_lt {c : ClockTime} (hc : c.IsValid) :
    c.date.month < 10 ^ 2 ∧ c.date.day < 10 ^ 2 := by
  have hdate := hc.date
  simp only [Date.isValid, Bool.and_eq_true, decide_eq_true_eq] at hdate
  have hday := daysIn_le c.date.year c.date.month
  omega

theorem toSeconds_inj {c c' : ClockTime} (hc : c.IsValid) (hc' : c'.IsValid) :
    c.toSeconds = c'.toSeconds ↔ c.date = c'.date ∧ c.hour = c'.hour ∧ c.minute = c'.minute ∧
      c.second = c'.second := by
  obtain ⟨hdate, hhour, hminute, hsecond⟩ := hc
  obtain ⟨hdate', hhour', hminute', hsecond'⟩ := hc'
  rw [← Date.toDays_inj hdate hdate', toSeconds, toSeconds]
  simp only [secondsPerDay]
  omega

end ClockTime

namespace Timestamp

theorem toSeconds_clock_utc (t : Timestamp) : t.utc.clock.toSeconds = t.seconds := by
  rw [clock, ClockTime.toSeconds_ofSeconds]
  simp [utc]

/-- The nanoseconds from the first instant of the year 1, in universal time. -/
def instant (t : Timestamp) : Int := t.seconds * nanosPerSecond + t.nanos.val

/-- The characters of a stored timestamp. -/
theorem toList_storedText {t : Timestamp} {year : Nat} (hyear : t.utc.clock.date.year = year) :
    t.storedText.toList =
      (Text.decimal 4 year).toList ++ '-' :: ((Text.decimal 2 t.utc.clock.date.month).toList ++
        '-' :: ((Text.decimal 2 t.utc.clock.date.day).toList ++
          'T' :: ((Text.decimal 2 t.utc.clock.hour).toList ++
            ':' :: ((Text.decimal 2 t.utc.clock.minute).toList ++
              ':' :: ((Text.decimal 2 t.utc.clock.second).toList ++
                '.' :: ((Text.decimal 9 t.nanos.val).toList ++ 'Z' :: [])))))) := by
  rw [← ClockTime.toList_text_append hyear]
  simp [storedText]

theorem instant_lt_iff (t u : Timestamp) :
    t.instant < u.instant ↔ t.seconds < u.seconds ∨ t.seconds = u.seconds ∧ t.nanos < u.nanos := by
  have ht : t.nanos.val < 1000000000 := t.nanos.isLt
  have hu : u.nanos.val < 1000000000 := u.nanos.isLt
  simp only [Fin.lt_def, instant, nanosPerSecond]
  omega

/-- Stored timestamps are in the order of the instants. -/
theorem storedText_lt_iff {t u : Timestamp} (ht : t.HasPlainYear) (hu : u.HasPlainYear) :
    t.storedText < u.storedText ↔ t.instant < u.instant := by
  obtain ⟨year, hyear⟩ := Int.eq_ofNat_of_zero_le ht.1
  obtain ⟨year', hyear'⟩ := Int.eq_ofNat_of_zero_le hu.1
  have hrange : year < 10 ^ 4 := by
    have hhigh := ht.2
    omega
  have hrange' : year' < 10 ^ 4 := by
    have hhigh := hu.2
    omega
  have hc := t.utc.isValid_clock
  have hc' := u.utc.isValid_clock
  obtain ⟨hmonth, hday⟩ := hc.date_lt
  obtain ⟨hmonth', hday'⟩ := hc'.date_lt
  rw [instant_lt_iff, ← toSeconds_clock_utc t, ← toSeconds_clock_utc u,
    ClockTime.toSeconds_lt_iff hc hc', ClockTime.toSeconds_inj hc hc', String.lt_iff_toList_lt,
    toList_storedText hyear, toList_storedText hyear', field_lt_iff (by omega) hrange hrange',
    field_lt_iff (by omega) hmonth hmonth', field_lt_iff (by omega) hday hday',
    field_lt_iff (by omega) (by have := hc.hour; omega) (by have := hc'.hour; omega),
    field_lt_iff (by omega) (by have := hc.minute; omega) (by have := hc'.minute; omega),
    field_lt_iff (by omega) (by have := hc.second; omega) (by have := hc'.second; omega),
    field_lt_iff (by omega) t.nanos.isLt u.nanos.isLt]
  simp only [Date.Precedes, Date.eq_iff, hyear, hyear', Fin.lt_def, Int.ofNat_lt, Int.ofNat_inj,
    lt_self_iff_false, and_false, or_false, and_or_left, or_assoc, and_assoc]

theorem storedText_eq_iff {t u : Timestamp} (ht : t.HasPlainYear) (hu : u.HasPlainYear) :
    t.storedText = u.storedText ↔ t.instant = u.instant := by
  rw [eq_iff_le_not_lt, eq_iff_le_not_lt, ← not_lt, ← not_lt, storedText_lt_iff ht hu,
    storedText_lt_iff hu ht]

end Timestamp

end KernelReach.Time
