import KernelReach.Proofs.Text.Held
import Mathlib.Algebra.Ring.Nat
import Mathlib.Tactic.SplitIfs

/-!
# The two layers of modified UTF-8

Between a text and its bytes stand UTF-16 units. Both layers are told here without the decoder:

* `Form` is a unit as it is written, with the bits of the unit in one, two or three bytes;
  `units?_eq_some_iff` says that the decoder splits bytes exactly if they are written that way;
* `Spells` relates units to the characters that they spell, with a replacement for each surrogate
  that has no partner; `spells_iff` says that the decoder finds those characters;
* `encode` goes the other way, and picks for each unit the form that class files use.

`decode?_exact` puts the layers together.
-/

namespace KernelReach.Binary.ModifiedUtf8

theorem toNat_append {m n : Nat} (x : BitVec m) (y : BitVec n) :
    (x ++ y).toNat = 2 ^ n * x.toNat + y.toNat := by
  rw [BitVec.toNat_append, Nat.shiftLeft_eq, Nat.mul_comm, Nat.two_pow_add_eq_or_of_lt y.isLt]

/-! ### Bytes and units -/

/-- A unit as it is written. -/
inductive Form
  /-- `0xxxxxxx`, but not zero. -/
  | one (x : BitVec 7) (h : x ≠ 0)
  /-- `110xxxxx 10yyyyyy`. -/
  | two (x : BitVec 5) (y : BitVec 6)
  /-- `1110xxxx 10yyyyyy 10zzzzzz`. -/
  | three (x : BitVec 4) (y z : BitVec 6)

namespace Form

/-- A byte that continues a unit. -/
def tail (y : BitVec 6) : UInt8 := .ofBitVec (0b10#2 ++ y)

def bytes : Form → Bytes
  | one x _ => [.ofBitVec (0b0#1 ++ x)]
  | two x y => [.ofBitVec (0b110#3 ++ x), tail y]
  | three x y z => [.ofBitVec (0b1110#4 ++ x), tail y, tail z]

/-- The unit that is written. -/
def unit : Form → UInt16
  | one x _ => .ofBitVec (0#9 ++ x)
  | two x y => .ofBitVec (0#5 ++ (x ++ y))
  | three x y z => .ofBitVec (x ++ (y ++ z))

theorem unit_two_eq (x : BitVec 5) (y : BitVec 6) :
    (two x y).unit = UInt16.ofNat (64 * x.toNat + y.toNat) := by
  apply UInt16.toNat_inj.1
  rw [unit, UInt16.toNat_ofBitVec, toNat_append, toNat_append, toNat_ofNat_of_lt (by omega)]
  simp

theorem unit_three_eq (x : BitVec 4) (y z : BitVec 6) :
    (three x y z).unit = UInt16.ofNat (4096 * x.toNat + 64 * y.toNat + z.toNat) := by
  apply UInt16.toNat_inj.1
  rw [unit, UInt16.toNat_ofBitVec, toNat_append, toNat_append, toNat_ofNat_of_lt (by omega)]
  omega

end Form

open Form (tail)

theorem isContinuation_tail (y : BitVec 6) :
    isContinuation (tail y) = true ∧ payload (tail y) = UInt16.ofNat y.toNat := by
  revert y
  decide

theorem tail_of_isContinuation {b : UInt8} (h : isContinuation b = true) : ∃ y, b = tail y := by
  have hall : ∀ b : BitVec 8, isContinuation (.ofBitVec b) = true →
      UInt8.ofBitVec b = tail (b.extractLsb' 0 6) := by decide +kernel
  exact ⟨_, hall b.toBitVec h⟩

/-- A unit is read from the bytes of its form. -/
theorem units?_bytes (f : Form) (bs : Bytes) :
    units? (f.bytes ++ bs) = (units? bs).map (f.unit :: ·) := by
  rw [units?.eq_def]
  cases f with
  | one x hx =>
    have hall : ∀ x : BitVec 7, x ≠ 0 → isPlain (.ofBitVec (0b0#1 ++ x)) = true ∧
        (UInt8.ofBitVec (0b0#1 ++ x)).toUInt16 = .ofBitVec (0#9 ++ x) := by decide +kernel
    obtain ⟨hplain, hunit⟩ := hall x hx
    simp only [Form.bytes, List.cons_append, List.nil_append, hplain, if_true, hunit, Form.unit]
  | two x y =>
    have hall : ∀ x : BitVec 5, isPlain (.ofBitVec (0b110#3 ++ x)) = false ∧
        UInt8.ofBitVec (0b110#3 ++ x) &&& 0xe0 = 0xc0 ∧
        (UInt8.ofBitVec (0b110#3 ++ x) &&& 0x1f).toUInt16 = UInt16.ofNat x.toNat := by decide
    obtain ⟨hplain, htwo, hbits⟩ := hall x
    obtain ⟨hcont, hpayload⟩ := isContinuation_tail y
    simp only [Form.bytes, List.cons_append, List.nil_append, hplain, htwo, hcont, hbits, hpayload,
      beq_self_eq_true, if_true, if_false, Bool.false_eq_true, unit_two x.isLt y.isLt,
      Form.unit_two_eq]
  | three x y z =>
    have hall : ∀ x : BitVec 4, isPlain (.ofBitVec (0b1110#4 ++ x)) = false ∧
        (UInt8.ofBitVec (0b1110#4 ++ x) &&& 0xe0 == 0xc0) = false ∧
        UInt8.ofBitVec (0b1110#4 ++ x) &&& 0xf0 = 0xe0 ∧
        (UInt8.ofBitVec (0b1110#4 ++ x) &&& 0x0f).toUInt16 = UInt16.ofNat x.toNat := by decide
    obtain ⟨hplain, htwo, hthree, hbits⟩ := hall x
    obtain ⟨hcont, hpayload⟩ := isContinuation_tail y
    obtain ⟨hcont', hpayload'⟩ := isContinuation_tail z
    simp only [Form.bytes, List.cons_append, List.nil_append, hplain, htwo, hthree, hcont, hcont',
      hbits, hpayload, hpayload', beq_self_eq_true, Bool.and_true, if_true, if_false,
      Bool.false_eq_true, unit_three x.isLt y.isLt z.isLt, Form.unit_three_eq]

theorem units?_flatMap_bytes (fs : List Form) :
    units? (fs.flatMap Form.bytes) = some (fs.map Form.unit) := by
  induction fs with
  | nil => rfl
  | cons f fs ih => rw [List.flatMap_cons, units?_bytes, ih]; rfl

/-- Bytes that can be split are forms, one after the other. -/
theorem exists_forms {bs : Bytes} {us : List UInt16} (h : units? bs = some us) :
    ∃ fs : List Form, fs.flatMap Form.bytes = bs := by
  fun_induction units? bs generalizing us with
  | case1 => exact ⟨[], rfl⟩
  | case2 a bs hplain ih =>
    obtain ⟨us, hus, -⟩ := Option.map_eq_some_iff.1 h
    obtain ⟨fs, rfl⟩ := ih hus
    have hall : ∀ a : BitVec 8, isPlain (.ofBitVec a) = true → a.extractLsb' 0 7 ≠ 0 ∧
        UInt8.ofBitVec a = .ofBitVec (0b0#1 ++ a.extractLsb' 0 7) := by decide +kernel
    obtain ⟨hne, ha⟩ := hall a.toBitVec hplain
    exact ⟨.one _ hne :: fs, congrArg (· :: fs.flatMap Form.bytes) ha.symm⟩
  | case3 a hplain htwo b rest hcont ih =>
    obtain ⟨us, hus, -⟩ := Option.map_eq_some_iff.1 h
    obtain ⟨fs, rfl⟩ := ih hus
    have hall : ∀ a : BitVec 8, UInt8.ofBitVec a &&& 0xe0 = 0xc0 →
        UInt8.ofBitVec a = .ofBitVec (0b110#3 ++ a.extractLsb' 0 5) := by decide +kernel
    have ha := hall a.toBitVec (eq_of_beq htwo)
    obtain ⟨y, rfl⟩ := tail_of_isContinuation hcont
    exact ⟨.two _ y :: fs, congrArg (· :: tail y :: fs.flatMap Form.bytes) ha.symm⟩
  | case4 => cases h
  | case5 => cases h
  | case6 a hplain htwo hthree b c rest hcont ih =>
    obtain ⟨us, hus, -⟩ := Option.map_eq_some_iff.1 h
    obtain ⟨fs, rfl⟩ := ih hus
    have hall : ∀ a : BitVec 8, UInt8.ofBitVec a &&& 0xf0 = 0xe0 →
        UInt8.ofBitVec a = .ofBitVec (0b1110#4 ++ a.extractLsb' 0 4) := by decide +kernel
    have ha := hall a.toBitVec (eq_of_beq hthree)
    obtain ⟨hb, hc⟩ := Bool.and_eq_true_iff.1 hcont
    obtain ⟨y, rfl⟩ := tail_of_isContinuation hb
    obtain ⟨z, rfl⟩ := tail_of_isContinuation hc
    exact ⟨.three _ y z :: fs, congrArg (· :: tail y :: tail z :: fs.flatMap Form.bytes) ha.symm⟩
  | case7 => cases h
  | case8 => cases h
  | case9 => cases h

/-- Bytes are split into the units of the forms that they consist of. -/
theorem units?_eq_some_iff {bs : Bytes} {us : List UInt16} :
    units? bs = some us ↔ ∃ fs : List Form, fs.flatMap Form.bytes = bs ∧ fs.map Form.unit = us := by
  constructor
  · intro h
    obtain ⟨fs, rfl⟩ := exists_forms h
    rw [units?_flatMap_bytes, Option.some.injEq] at h
    exact ⟨fs, rfl, h⟩
  · rintro ⟨fs, rfl, rfl⟩
    exact units?_flatMap_bytes fs

/-! ### Units and characters -/

/-- The first half of a surrogate pair, with the upper ten bits. -/
def high (x : BitVec 10) : UInt16 := .ofBitVec (0b110110#6 ++ x)

/-- The second half of a surrogate pair, with the lower ten bits. -/
def low (y : BitVec 10) : UInt16 := .ofBitVec (0b110111#6 ++ y)

/-- The characters that a sequence of UTF-16 units spells. -/
inductive Spells : List UInt16 → List Char → Prop
  | nil : Spells [] []
  /-- A character up to U+FFFF is its own unit. No character is a surrogate. -/
  | basic {u : UInt16} {c : Char} {us : List UInt16} {cs : List Char} :
    c.toNat = u.toNat → Spells us cs → Spells (u :: us) (c :: cs)
  /-- Two surrogates carry the twenty bits of a character beyond U+FFFF. -/
  | pair {x y : BitVec 10} {c : Char} {us : List UInt16} {cs : List Char} :
    c.toNat = 0x10000 + (x ++ y).toNat → Spells us cs → Spells (high x :: low y :: us) (c :: cs)
  | loneHigh {x : BitVec 10} {us : List UInt16} {cs : List Char} :
    (∀ y, us.head? ≠ some (low y)) → Spells us cs → Spells (high x :: us) (replacement :: cs)
  | loneLow {y : BitVec 10} {us : List UInt16} {cs : List Char} :
    Spells us cs → Spells (low y :: us) (replacement :: cs)

theorem toNat_high (x : BitVec 10) : (high x).toNat = 0xd800 + x.toNat := by
  rw [high, UInt16.toNat_ofBitVec, toNat_append]
  simp

theorem toNat_low (y : BitVec 10) : (low y).toNat = 0xdc00 + y.toNat := by
  rw [low, UInt16.toNat_ofBitVec, toNat_append]
  simp

theorem isHigh_iff_toNat {u : UInt16} : isHigh u = true ↔ 0xd800 ≤ u.toNat ∧ u.toNat < 0xdc00 := by
  rw [isHigh, Bool.and_eq_true, decide_eq_true_eq, decide_eq_true_eq, UInt16.le_iff_toNat_le,
    UInt16.lt_iff_toNat_lt]
  rfl

theorem isLow_iff_toNat {u : UInt16} : isLow u = true ↔ 0xdc00 ≤ u.toNat ∧ u.toNat < 0xe000 := by
  rw [isLow, Bool.and_eq_true, decide_eq_true_eq, decide_eq_true_eq, UInt16.le_iff_toNat_le,
    UInt16.lt_iff_toNat_lt]
  rfl

theorem isHigh_iff {u : UInt16} : isHigh u = true ↔ ∃ x, u = high x := by
  rw [isHigh_iff_toNat]
  constructor
  · intro h
    refine ⟨BitVec.ofNat 10 (u.toNat - 0xd800), UInt16.toNat_inj.1 ?_⟩
    rw [toNat_high, BitVec.toNat_ofNat]
    omega
  · rintro ⟨x, rfl⟩
    have := x.isLt
    rw [toNat_high]
    omega

theorem isLow_iff {u : UInt16} : isLow u = true ↔ ∃ y, u = low y := by
  rw [isLow_iff_toNat]
  constructor
  · intro h
    refine ⟨BitVec.ofNat 10 (u.toNat - 0xdc00), UInt16.toNat_inj.1 ?_⟩
    rw [toNat_low, BitVec.toNat_ofNat]
    omega
  · rintro ⟨y, rfl⟩
    have := y.isLt
    rw [toNat_low]
    omega

theorem isHigh_low (y : BitVec 10) : isHigh (low y) = false := by
  rw [Bool.eq_false_iff, ne_eq, isHigh_iff_toNat, toNat_low]
  omega

theorem toNat_ofPair (x y : BitVec 10) :
    (ofPair (high x) (low y)).toNat = 0x10000 + (x ++ y).toNat := by
  have hx := x.isLt
  have hy := y.isLt
  rw [ofPair, toNat_high, toNat_low, toNat_append,
    Text.toNat_ofNat_of_isValidChar (.inr (by omega))]
  omega

theorem ofUnit_high (x : BitVec 10) : ofUnit (high x) = replacement := by
  rw [ofUnit, isHigh_iff.2 ⟨x, rfl⟩]
  rfl

theorem ofUnit_low (y : BitVec 10) : ofUnit (low y) = replacement := by
  rw [ofUnit, isLow_iff.2 ⟨y, rfl⟩, Bool.or_true]
  rfl

/-- A unit that is no surrogate is a character. -/
theorem toNat_ofUnit {u : UInt16} (hhigh : isHigh u = false) (hlow : isLow u = false) :
    (ofUnit u).toNat = u.toNat := by
  have hu := u.toNat_lt
  rw [Bool.eq_false_iff, ne_eq, isHigh_iff_toNat] at hhigh
  rw [Bool.eq_false_iff, ne_eq, isLow_iff_toNat] at hlow
  rw [ofUnit, if_neg, Text.toNat_ofNat_of_isValidChar]
  · unfold Nat.isValidChar
    omega
  · rw [Bool.or_eq_true, isHigh_iff_toNat, isLow_iff_toNat]
    omega

theorem not_surrogate_of_toNat {u : UInt16} {c : Char} (h : c.toNat = u.toNat) :
    isHigh u = false ∧ isLow u = false := by
  have hvalid : c.toNat < 0xd800 ∨ 0xdfff < c.toNat ∧ c.toNat < 0x110000 := c.valid
  rw [Bool.eq_false_iff, Bool.eq_false_iff, ne_eq, ne_eq, isHigh_iff_toNat, isLow_iff_toNat]
  omega

/-- A unit stands for itself unless it is the first half of a pair. -/
theorem ofUnits_cons {u : UInt16} {us : List UInt16}
    (h : isHigh u = true → ∀ v ∈ us.head?, isLow v = false) :
    ofUnits (u :: us) = ofUnit u :: ofUnits us := by
  cases us with
  | nil => rfl
  | cons v us =>
    rw [ofUnits, if_neg]
    rw [Bool.and_eq_true]
    rintro ⟨hhigh, hlow⟩
    rw [h hhigh v rfl] at hlow
    cases hlow

theorem ofUnits_pair (x y : BitVec 10) (us : List UInt16) :
    ofUnits (high x :: low y :: us) = ofPair (high x) (low y) :: ofUnits us := by
  rw [ofUnits, isHigh_iff.2 ⟨x, rfl⟩, isLow_iff.2 ⟨y, rfl⟩]
  rfl

theorem Spells.cons_ofUnit {u : UInt16} {us : List UInt16} {cs : List Char}
    (hpair : isHigh u = true → ∀ y, us.head? ≠ some (low y)) (h : Spells us cs) :
    Spells (u :: us) (ofUnit u :: cs) := by
  cases hhigh : isHigh u with
  | true =>
    have hlone := hpair hhigh
    obtain ⟨x, rfl⟩ := isHigh_iff.1 hhigh
    exact ofUnit_high x ▸ .loneHigh hlone h
  | false =>
    cases hlow : isLow u with
    | true =>
      obtain ⟨y, rfl⟩ := isLow_iff.1 hlow
      exact ofUnit_low y ▸ .loneLow h
    | false => exact .basic (toNat_ofUnit hhigh hlow) h

theorem spells_ofUnits (us : List UInt16) : Spells us (ofUnits us) := by
  fun_induction ofUnits us with
  | case1 => exact .nil
  | case2 u => exact .cons_ofUnit nofun .nil
  | case3 u v us hpair ih =>
    obtain ⟨hhigh, hlow⟩ := Bool.and_eq_true_iff.1 hpair
    obtain ⟨x, rfl⟩ := isHigh_iff.1 hhigh
    obtain ⟨y, rfl⟩ := isLow_iff.1 hlow
    exact .pair (toNat_ofPair x y) ih
  | case4 u v us hpair ih =>
    refine .cons_ofUnit (fun hhigh y hy => hpair ?_) ih
    rw [hhigh, isLow_iff.2 ⟨y, Option.some.inj hy⟩]
    rfl

/-- The decoder finds the characters that the units spell. -/
theorem spells_iff {us : List UInt16} {cs : List Char} : Spells us cs ↔ ofUnits us = cs := by
  constructor
  · intro h
    induction h with
    | nil => rfl
    | basic hc _ ih =>
      obtain ⟨hhigh, hlow⟩ := not_surrogate_of_toNat hc
      rw [ofUnits_cons (by rw [hhigh]; nofun), ih,
        Char.toNat_inj.1 ((toNat_ofUnit hhigh hlow).trans hc.symm)]
    | @pair x y _ _ _ hc _ ih =>
      rw [ofUnits_pair, ih, Char.toNat_inj.1 ((toNat_ofPair x y).trans hc.symm)]
    | @loneHigh x _ _ hlone _ ih =>
      rw [ofUnits_cons, ih, ofUnit_high]
      intro _ v hv
      rw [Bool.eq_false_iff, ne_eq, isLow_iff]
      rintro ⟨y, rfl⟩
      exact hlone y hv
    | @loneLow y _ _ _ ih =>
      rw [ofUnits_cons (by rw [isHigh_low]; nofun), ih, ofUnit_low]
  · rintro rfl
    exact spells_ofUnits us

/-! ### Writing -/

/-- The units of a character: one, or two surrogates. -/
def unitsOf (c : Char) : List UInt16 :=
  if c.toNat < 0x10000 then [unitOf c]
  else
    let bits := BitVec.ofNat 20 (c.toNat - 0x10000)
    [high (bits.extractLsb' 10 10), low (bits.extractLsb' 0 10)]

/-- The form in which class files write a unit: one byte for units from 1 to 7F, two for zero and
    for units up to 7FF, and three for all others, surrogates among them. -/
def formOf (u : UInt16) : Form :=
  if h : 0x1 ≤ u.toNat ∧ u.toNat ≤ 0x7f then
    .one (.ofNat 7 u.toNat) fun h0 => by
      have hmod : u.toNat % 128 = 0 := congrArg BitVec.toNat h0
      omega
  else if u.toNat ≤ 0x7ff then .two (u.toBitVec.extractLsb' 6 5) (u.toBitVec.extractLsb' 0 6)
  else
    .three (u.toBitVec.extractLsb' 12 4) (u.toBitVec.extractLsb' 6 6) (u.toBitVec.extractLsb' 0 6)

/-- The bytes of a text in a class file. -/
def encode (s : String) : Bytes :=
  (s.toList.flatMap unitsOf).flatMap fun u => (formOf u).bytes

theorem unit_formOf (u : UInt16) : (formOf u).unit = u := by
  have hu := u.toNat_lt
  have hbits : u.toBitVec.toNat = u.toNat := rfl
  apply UInt16.toNat_inj.1
  unfold formOf
  split_ifs with h₁ h₂
  · rw [Form.unit, UInt16.toNat_ofBitVec, toNat_append, BitVec.toNat_ofNat]
    simp only [BitVec.toNat_ofNat]
    omega
  · rw [Form.unit, UInt16.toNat_ofBitVec, toNat_append, toNat_append]
    simp only [BitVec.toNat_ofNat, BitVec.extractLsb'_toNat, hbits, Nat.shiftRight_eq_div_pow]
    omega
  · rw [Form.unit, UInt16.toNat_ofBitVec, toNat_append, toNat_append]
    simp only [BitVec.extractLsb'_toNat, hbits, Nat.shiftRight_eq_div_pow]
    omega

/-- The units of a character spell it, whatever comes after them. -/
theorem Spells.cons_unitsOf {us : List UInt16} {cs : List Char} (c : Char) (h : Spells us cs) :
    Spells (unitsOf c ++ us) (c :: cs) := by
  have hvalid : c.toNat < 0xd800 ∨ 0xdfff < c.toNat ∧ c.toNat < 0x110000 := c.valid
  unfold unitsOf
  split_ifs with hc
  · exact .basic (toNat_ofNat_of_lt hc).symm h
  · refine .pair ?_ h
    rw [toNat_append, BitVec.extractLsb'_toNat, BitVec.extractLsb'_toNat, BitVec.toNat_ofNat]
    simp only [Nat.shiftRight_eq_div_pow]
    omega

theorem spells_unitsOf (cs : List Char) : Spells (cs.flatMap unitsOf) cs := by
  induction cs with
  | nil => exact .nil
  | cons c cs ih => exact ih.cons_unitsOf c

/-! ### Decoding -/

theorem decode?_eq_some_iff {bs : Bytes} {s : String} :
    decode? bs = some s ↔
      ∃ fs : List Form, fs.flatMap Form.bytes = bs ∧ Spells (fs.map Form.unit) s.toList := by
  rw [decode?_eq, Option.map_eq_some_iff]
  constructor
  · rintro ⟨us, hus, rfl⟩
    obtain ⟨fs, hbytes, rfl⟩ := units?_eq_some_iff.1 hus
    exact ⟨fs, hbytes, spells_iff.2 String.toList_ofList.symm⟩
  · rintro ⟨fs, hbytes, hspells⟩
    refine ⟨_, units?_eq_some_iff.2 ⟨fs, hbytes, rfl⟩, ?_⟩
    rw [spells_iff.1 hspells, String.ofList_toList]

/-- Every text is read back from its bytes. Bytes can be decoded exactly if they are written units,
    and then give what the units spell. The short way for plain ASCII makes no difference. -/
theorem decode?_exact :
    (∀ s : String, decode? (encode s) = some s) ∧
    (∀ bs : Bytes, (∃ s, decode? bs = some s) ↔ ∃ fs : List Form, fs.flatMap Form.bytes = bs) ∧
    (∀ (bs : Bytes) (s : String), decode? bs = some s ↔
      ∃ fs : List Form, fs.flatMap Form.bytes = bs ∧ Spells (fs.map Form.unit) s.toList) ∧
    ∀ bs : Bytes, decode? bs = (units? bs).map fun us => String.ofList (ofUnits us) := by
  refine ⟨fun s => ?_, fun bs => ⟨?_, ?_⟩, fun bs s => decode?_eq_some_iff, decode?_eq⟩
  · -- The forms of the units of the text.
    refine decode?_eq_some_iff.2 ⟨(s.toList.flatMap unitsOf).map formOf, ?_, ?_⟩
    · rw [List.flatMap_map, encode]
    · rw [List.map_map, show Form.unit ∘ formOf = id from funext unit_formOf, List.map_id]
      exact spells_unitsOf s.toList
  · rintro ⟨s, hs⟩
    obtain ⟨fs, hbytes, -⟩ := decode?_eq_some_iff.1 hs
    exact ⟨fs, hbytes⟩
  · rintro ⟨fs, rfl⟩
    refine ⟨String.ofList (ofUnits (fs.map Form.unit)), decode?_eq_some_iff.2 ⟨fs, rfl, ?_⟩⟩
    rw [String.toList_ofList]
    exact spells_ofUnits _

end KernelReach.Binary.ModifiedUtf8
