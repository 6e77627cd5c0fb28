import KernelReach.Time.Layout
import KernelReach.Proofs.Text.Numeral
import KernelReach.Proofs.Time.Calendar

/-!
# Stored timestamps

The stored form of a timestamp whose year has four digits is read as the same instant in universal
time (`Timestamp.ofStored_storedText`). The fields are read one by one, each whatever follows it.
-/

namespace KernelReach.Time

/-! ### Clocks -/

namespace ClockTime

/-- What a clock shows lies in the ranges of its fields. -/
structure IsValid (c : ClockTime) : Prop where
  date : c.date.isValid = true
  hour : c.hour < 24
  minute : c.minute < 60
  second : c.second < 60

theorem toSeconds_ofSeconds (s : Int) : (ofSeconds s).toSeconds = s := by
  simp only [ofSeconds, toSeconds, Date.toDays_ofDays, secondsPerDay]
  omega

theorem isValid_ofSeconds (s : Int) : (ofSeconds s).IsValid := by
  have hrest : (s % secondsPerDay).toNat < 86400 := by
    simp only [secondsPerDay]
    omega
  exact ⟨Date.isValid_ofDays _, by simp only [ofSeconds]; omega, by simp only [ofSeconds]; omega,
    by simp only [ofSeconds]; omega⟩

end ClockTime

/-! ### Fields -/

theorem digit?_digitChar : ∀ d < 10, digit? (Nat.digitChar d) = some d := by decide

theorem digits?_decimal (width n : Nat) : digits? (Text.decimal width n).toList = some n :=
  Text.foldlM_padLeft_toDigits (by omega) digit?_digitChar width n

theorem length_decimal {width n : Nat} (hwidth : 0 < width) (hn : n < 10 ^ width) :
    (Text.decimal width n).toList.length = width :=
  Text.length_padLeft_toDigits (by omega) hwidth hn

/-- A numeral of digits has no sign. -/
theorem signedDigits?_of_digits? {cs : List Char} {n : Nat} (hne : cs ≠ [])
    (hcs : digits? cs = some n) : signedDigits? cs = some (n : Int) := by
  unfold signedDigits?
  split
  · simp [digits?, digit?] at hcs
  · simp [digits?, digit?] at hcs
  · simp [hne, hcs]

theorem literal_cons (c : Char) (rest : List Char) : literal c (c :: rest) = .ok ((), rest) := by
  simp [literal]

theorem readYear_decimal {year : Nat} (hyear : year < 10000) (rest : List Char) :
    readYear ((Text.decimal 4 year).toList ++ rest) = .ok ((year : Int), rest) := by
  have hdigits := digits?_decimal 4 year
  have hlength := length_decimal (by omega : 0 < 4) hyear
  generalize (Text.decimal 4 year).toList = cs at hdigits hlength ⊢
  match cs, hlength with
  | [a, b, c, d], _ =>
    simp only [readYear, List.cons_append, List.nil_append, hdigits]
    rfl

theorem readTwo_decimal {n : Nat} (hn : n < 100) (single : Bool) (field : String)
    (rest : List Char) :
    readTwo single field ((Text.decimal 2 n).toList ++ rest) = .ok (n, rest) := by
  have hdigits := digits?_decimal 2 n
  have hlength := length_decimal (by omega : 0 < 2) hn
  generalize (Text.decimal 2 n).toList = cs at hdigits hlength ⊢
  match cs, hlength with
  | [a, b], _ =>
    cases ha : digit? a with
    | none => simp [digits?, ha] at hdigits
    | some m =>
      cases hb : digit? b with
      | none => simp [digits?, ha, hb] at hdigits
      | some k =>
        have hmk : 10 * m + k = n := by simpa [digits?, ha, hb] using hdigits
        simp only [readTwo, List.cons_append, List.nil_append, ha, hb, hmk]

theorem readRanged_decimal {n low high : Nat} (hn : n < 100) (hlow : low ≤ n) (hhigh : n ≤ high)
    (single : Bool) (field what : String) (rest : List Char) :
    readRanged single field what low high ((Text.decimal 2 n).toList ++ rest) = .ok (n, rest) := by
  rw [readRanged, readTwo_decimal hn]
  simp only [hlow, hhigh, and_self, if_true]

theorem readFraction_decimal (nanos : Fin nanosPerSecond) (rest : List Char) :
    readFraction ('.' :: ((Text.decimal 9 nanos.val).toList ++ rest)) = .ok (nanos, rest) := by
  have hlength := length_decimal (by omega : 0 < 9) nanos.isLt
  have hread := digits?_decimal 9 nanos.val
  generalize (Text.decimal 9 nanos.val).toList = digits at hlength hread ⊢
  have hsigned : signedDigits? digits = some (nanos.val : Int) :=
    signedDigits?_of_digits? (List.ne_nil_of_length_pos (by omega)) hread
  have hnanos : nanosOf nanos.val = nanos := Fin.ext (Nat.mod_eq_of_lt nanos.isLt)
  have hlong : 9 ≤ (digits ++ rest).length := by
    rw [List.length_append]
    omega
  simp only [readFraction, true_or, hlong, and_self, if_true, List.take_left' hlength,
    List.drop_left' hlength, hsigned]
  simp [hnanos]

theorem readZone_utc (rest : List Char) : readZone ('Z' :: rest) = .ok (0, rest) := rfl

/-! ### The whole form -/

/-- The characters of a date and a time of day, with what follows them. -/
theorem ClockTime.toList_text_append {c : ClockTime} {year : Nat} (hyear : c.date.year = year)
    (rest : List Char) :
    c.text.toList ++ rest =
      (Text.decimal 4 year).toList ++ '-' :: ((Text.decimal 2 c.date.month).toList ++
        '-' :: ((Text.decimal 2 c.date.day).toList ++ 'T' :: ((Text.decimal 2 c.hour).toList ++
          ':' :: ((Text.decimal 2 c.minute).toList ++
            ':' :: ((Text.decimal 2 c.second).toList ++ rest))))) := by
  have hsigned : ClockTime.signed 4 c.date.year = Text.decimal 4 year := by
    rw [hyear, ClockTime.signed, if_neg (by omega), Int.natAbs_natCast, String.empty_append]
  simp [ClockTime.text, hsigned]

theorem daysIn_le (year : Int) (month : Nat) : daysIn year month ≤ 31 := by
  have hlengths : ∀ leap, ∀ n ∈ monthLengths leap, n ≤ 31 := by decide
  cases month with
  | zero => exact Nat.zero_le 31
  | succ m =>
    rw [daysIn]
    cases hm : (monthLengths (isLeap year))[m]? with
    | none => exact Nat.zero_le 31
    | some n => exact hlengths _ n (List.mem_of_getElem? hm)

theorem readClock_text {c : ClockTime} (hc : c.IsValid) {year : Nat} (hyear : c.date.year = year)
    (hrange : year < 10000) (rest : List Char) :
    readClock (c.text.toList ++ rest) = .ok (c, rest) := by
  obtain ⟨hdate, hhour, hminute, hsecond⟩ := hc
  simp only [Date.isValid, Bool.and_eq_true, decide_eq_true_eq] at hdate
  -- A day is written with two digits, for no month has more days.
  have hday := daysIn_le c.date.year c.date.month
  rw [ClockTime.toList_text_append hyear, readClock, readYear_decimal hrange]
  simp only [bind, Except.bind, literal_cons,
    readRanged_decimal (by omega : c.date.month < 100) hdate.1.1.1 hdate.1.1.2,
    readTwo_decimal (by omega : c.date.day < 100),
    readRanged_decimal (by omega : c.hour < 100) (Nat.zero_le _) (Nat.le_of_lt_succ hhour),
    readRanged_decimal (by omega : c.minute < 100) (Nat.zero_le _) (Nat.le_of_lt_succ hminute),
    readRanged_decimal (by omega : c.second < 100) (Nat.zero_le _) (Nat.le_of_lt_succ hsecond)]
  rw [← hyear]
  rfl

theorem assemble_nil {c : ClockTime} (hdate : c.date.isValid = true)
    (nanos : Fin nanosPerSecond) (offset : Int) :
    assemble c nanos offset [] = .ok (.ofClock c nanos offset) := by
  simp only [Date.isValid, Bool.and_eq_true, decide_eq_true_eq] at hdate
  rw [assemble, if_neg (by simp), if_neg (by omega)]

namespace Timestamp

theorem isValid_clock (t : Timestamp) : t.clock.IsValid := ClockTime.isValid_ofSeconds _

theorem ofClock_clock (t : Timestamp) : ofClock t.clock t.nanos t.offset = t := by
  rw [ofClock, clock, ClockTime.toSeconds_ofSeconds, Int.add_sub_cancel]

/-- Whether the year of the instant, in universal time, is written with four digits. -/
def HasPlainYear (t : Timestamp) : Prop :=
  0 ≤ t.utc.clock.date.year ∧ t.utc.clock.date.year ≤ 9999

instance (t : Timestamp) : Decidable t.HasPlainYear := inferInstanceAs (Decidable (_ ∧ _))

/-- The stored form of a timestamp whose year has four digits is read as the same instant. -/
theorem ofStored_storedText {t : Timestamp} (ht : t.HasPlainYear) :
    ofStored t.storedText = .ok t.utc := by
  obtain ⟨year, hyear⟩ := Int.eq_ofNat_of_zero_le ht.1
  have hrange : year < 10000 := by
    have hhigh := ht.2
    omega
  have hshape : t.storedText.toList =
      t.utc.clock.text.toList ++ '.' :: ((Text.decimal 9 t.nanos.val).toList ++ ['Z']) := by
    simp [storedText]
  rw [ofStored, hshape, readClock_text t.utc.isValid_clock hyear hrange]
  simp only [bind, Except.bind, readFraction_decimal, readZone_utc]
  rw [assemble_nil t.utc.isValid_clock.date]
  exact congrArg Except.ok t.utc.ofClock_clock

end Timestamp

end KernelReach.Time
