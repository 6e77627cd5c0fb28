import KernelReach.Binary.ModifiedUtf8
import Mathlib.Tactic.Conv

/-!
# Texts in class files

Class files are read as modified UTF-8 and written as UTF-8. The two differ only for the character
zero and for characters beyond U+FFFF, so every other text is read back (`decode?_toUTF8`).
-/

namespace KernelReach.Binary.ModifiedUtf8

/-! ### Bytes -/

/-- A byte that is a character. -/
theorem plain_one {k : Nat} (hpos : 0 < k) (h : k < 128) :
    isPlain (UInt8.ofNat k) = true ∧ (UInt8.ofNat k).toUInt16 = UInt16.ofNat k := by
  have hall : ∀ k : Fin 128, 0 < k.val →
      isPlain (UInt8.ofNat k) = true ∧ (UInt8.ofNat k).toUInt16 = UInt16.ofNat k := by decide
  exact hall ⟨k, h⟩ hpos

/-- A byte that begins a character of two bytes. -/
theorem lead_two {k : Nat} (h : k < 32) :
    isPlain (UInt8.ofNat (k + 192)) = false ∧ UInt8.ofNat (k + 192) &&& 0xe0 = 0xc0 ∧
      (UInt8.ofNat (k + 192) &&& 0x1f).toUInt16 = UInt16.ofNat k := by
  have hall : ∀ k : Fin 32, isPlain (UInt8.ofNat (k + 192)) = false ∧
      UInt8.ofNat (k + 192) &&& 0xe0 = 0xc0 ∧
      (UInt8.ofNat (k + 192) &&& 0x1f).toUInt16 = UInt16.ofNat k := by decide
  exact hall ⟨k, h⟩

/-- A byte that begins a character of three bytes. -/
theorem lead_three {k : Nat} (h : k < 16) :
    isPlain (UInt8.ofNat (k + 224)) = false ∧ UInt8.ofNat (k + 224) &&& 0xe0 ≠ 0xc0 ∧
      UInt8.ofNat (k + 224) &&& 0xf0 = 0xe0 ∧
      (UInt8.ofNat (k + 224) &&& 0x0f).toUInt16 = UInt16.ofNat k := by
  have hall : ∀ k : Fin 16, isPlain (UInt8.ofNat (k + 224)) = false ∧
      UInt8.ofNat (k + 224) &&& 0xe0 ≠ 0xc0 ∧ UInt8.ofNat (k + 224) &&& 0xf0 = 0xe0 ∧
      (UInt8.ofNat (k + 224) &&& 0x0f).toUInt16 = UInt16.ofNat k := by decide
  exact hall ⟨k, h⟩

/-- A byte that continues a character. -/
theorem continuation {k : Nat} (h : k < 64) :
    isContinuation (UInt8.ofNat (k + 128)) = true ∧
      payload (UInt8.ofNat (k + 128)) = UInt16.ofNat k := by
  have hall : ∀ k : Fin 64, isContinuation (UInt8.ofNat (k + 128)) = true ∧
      payload (UInt8.ofNat (k + 128)) = UInt16.ofNat k := by decide
  exact hall ⟨k, h⟩

theorem toNat_ofNat_of_lt {n : Nat} (h : n < 65536) : (UInt16.ofNat n).toNat = n := by
  rw [UInt16.toNat_ofNat']
  exact Nat.mod_eq_of_lt h

/-- The unit of a character of two bytes. -/
theorem unit_two {a b : Nat} (ha : a < 32) (hb : b < 64) :
    UInt16.ofNat a <<< 6 ||| UInt16.ofNat b = UInt16.ofNat (64 * a + b) := by
  have hor : 64 * a + b = 64 * a ||| b := Nat.two_pow_add_eq_or_of_lt (i := 6) hb a
  have hshift : (UInt16.ofNat a <<< 6).toNat = 64 * a := by
    rw [UInt16.toNat_shiftLeft, toNat_ofNat_of_lt (by omega), Nat.shiftLeft_eq]
    simp only [UInt16.toNat_ofNat, Nat.reducePow, Nat.reduceMod]
    omega
  apply UInt16.toNat_inj.1
  rw [UInt16.toNat_or, hshift, toNat_ofNat_of_lt (by omega), toNat_ofNat_of_lt (by omega), hor]

/-- The unit of a character of three bytes. -/
theorem unit_three {a b c : Nat} (ha : a < 16) (hb : b < 64) (hc : c < 64) :
    UInt16.ofNat a <<< 12 ||| UInt16.ofNat b <<< 6 ||| UInt16.ofNat c =
      UInt16.ofNat (4096 * a + 64 * b + c) := by
  have hhigh : 4096 * a + 64 * b = 4096 * a ||| 64 * b :=
    Nat.two_pow_add_eq_or_of_lt (i := 12) (by omega) a
  have hlow : 64 * (64 * a + b) + c = 64 * (64 * a + b) ||| c :=
    Nat.two_pow_add_eq_or_of_lt (i := 6) hc (64 * a + b)
  have hshift : (UInt16.ofNat a <<< 12).toNat = 4096 * a := by
    rw [UInt16.toNat_shiftLeft, toNat_ofNat_of_lt (by omega), Nat.shiftLeft_eq]
    simp only [UInt16.toNat_ofNat, Nat.reducePow, Nat.reduceMod]
    omega
  have hshift' : (UInt16.ofNat b <<< 6).toNat = 64 * b := by
    rw [UInt16.toNat_shiftLeft, toNat_ofNat_of_lt (by omega), Nat.shiftLeft_eq]
    simp only [UInt16.toNat_ofNat, Nat.reducePow, Nat.reduceMod]
    omega
  apply UInt16.toNat_inj.1
  rw [UInt16.toNat_or, UInt16.toNat_or, hshift, hshift', toNat_ofNat_of_lt (by omega),
    toNat_ofNat_of_lt (by omega), ← hhigh,
    show 4096 * a + 64 * b = 64 * (64 * a + b) by omega, hlow]

/-! ### Characters -/

/-- The characters that have one unit, and of which no byte is zero. -/
def IsBasic (c : Char) : Prop := 0 < c.toNat ∧ c.toNat < 0x10000

instance : DecidablePred IsBasic := fun _ => inferInstanceAs (Decidable (_ ∧ _))

/-- The unit of such a character. -/
def unitOf (c : Char) : UInt16 := UInt16.ofNat c.toNat

theorem units?_plain {b : UInt8} (h : isPlain b = true) (bs : Bytes) :
    units? (b :: bs) = (units? bs).map (b.toUInt16 :: ·) := by
  rw [units?.eq_def]
  simp only [h, if_true]

/-- The bytes of a character are read as its unit. -/
theorem units?_utf8EncodeChar {c : Char} (h : IsBasic c) (bs : Bytes) :
    units? (String.utf8EncodeChar c ++ bs) = (units? bs).map (unitOf c :: ·) := by
  have hval : c.val.toNat = c.toNat := rfl
  obtain ⟨hpos, hlt⟩ := h
  rw [String.utf8EncodeChar, hval, unitOf]
  generalize c.toNat = n at hpos hlt
  by_cases h₁ : n ≤ 127
  · simp only [h₁, if_true, List.cons_append, List.nil_append]
    obtain ⟨hplain, hunit⟩ := plain_one hpos (by omega)
    rw [units?_plain hplain, hunit]
  · by_cases h₂ : n ≤ 2047
    · simp only [h₁, h₂, if_true, if_false, List.cons_append, List.nil_append]
      obtain ⟨hplain, htwo, hbits⟩ := lead_two (k := n / 64 % 32) (by omega)
      obtain ⟨hcont, hpayload⟩ := continuation (k := n % 64) (by omega)
      rw [units?.eq_def]
      simp only [hplain, htwo, hcont, hbits, hpayload, beq_self_eq_true, if_true, if_false,
        Bool.false_eq_true]
      rw [unit_two (by omega) (by omega), show 64 * (n / 64 % 32) + n % 64 = n by omega]
    · have h₃ : n ≤ 65535 := by omega
      simp only [h₁, h₂, h₃, if_true, if_false, List.cons_append, List.nil_append]
      obtain ⟨hplain, htwo, hthree, hbits⟩ := lead_three (k := n / 4096 % 16) (by omega)
      obtain ⟨hcont, hpayload⟩ := continuation (k := n / 64 % 64) (by omega)
      obtain ⟨hcont', hpayload'⟩ := continuation (k := n % 64) (by omega)
      rw [units?.eq_def]
      simp only [hplain, beq_iff_eq, htwo, hthree, hcont, hcont', hbits, hpayload, hpayload',
        Bool.and_true, if_true, if_false, Bool.false_eq_true]
      rw [unit_three (by omega) (by omega) (by omega),
        show 4096 * (n / 4096 % 16) + 64 * (n / 64 % 64) + n % 64 = n by omega]

theorem units?_flatMap {cs : List Char} (h : ∀ c ∈ cs, IsBasic c) :
    units? (cs.flatMap String.utf8EncodeChar) = some (cs.map unitOf) := by
  induction cs with
  | nil => rfl
  | cons c cs ih =>
    rw [List.flatMap_cons, units?_utf8EncodeChar (h c List.mem_cons_self),
      ih fun d hd => h d (List.mem_cons_of_mem c hd)]
    rfl

/-- No character is half of a surrogate pair. -/
theorem not_surrogate {c : Char} (h : IsBasic c) :
    isHigh (unitOf c) = false ∧ isLow (unitOf c) = false := by
  have hvalid : c.toNat < 0xd800 ∨ 0xdfff < c.toNat ∧ c.toNat < 0x110000 := c.valid
  have hunit : (unitOf c).toNat = c.toNat := toNat_ofNat_of_lt h.2
  constructor
  · rw [isHigh, Bool.and_eq_false_iff, decide_eq_false_iff_not, decide_eq_false_iff_not,
      UInt16.le_iff_toNat_le, UInt16.lt_iff_toNat_lt, hunit]
    simp only [UInt16.reduceToNat]
    omega
  · rw [isLow, Bool.and_eq_false_iff, decide_eq_false_iff_not, decide_eq_false_iff_not,
      UInt16.le_iff_toNat_le, UInt16.lt_iff_toNat_lt, hunit]
    simp only [UInt16.reduceToNat]
    omega

theorem ofUnit_unitOf {c : Char} (h : IsBasic c) : ofUnit (unitOf c) = c := by
  obtain ⟨hhigh, hlow⟩ := not_surrogate h
  rw [ofUnit, hhigh, hlow]
  simp only [Bool.or_false, Bool.false_eq_true, if_false]
  rw [unitOf, toNat_ofNat_of_lt h.2, Char.ofNat_toNat]

theorem ofUnits_map {cs : List Char} (h : ∀ c ∈ cs, IsBasic c) :
    ofUnits (cs.map unitOf) = cs := by
  induction cs with
  | nil => rfl
  | cons c cs ih =>
    have hc := h c List.mem_cons_self
    have htail := ih fun d hd => h d (List.mem_cons_of_mem c hd)
    cases cs with
    | nil => rw [List.map_cons, List.map_nil, ofUnits, ofUnit_unitOf hc]
    | cons d cs =>
      rw [List.map_cons] at htail
      rw [List.map_cons, List.map_cons, ofUnits, (not_surrogate hc).1]
      simp only [Bool.false_and, Bool.false_eq_true, if_false]
      rw [htail, ofUnit_unitOf hc]

/-! ### Texts -/

/-- A plain byte is the unit of the character that it spells. -/
theorem unitOf_plain {b : UInt8} (h : isPlain b = true) :
    IsBasic (Char.ofNat b.toNat) ∧ unitOf (Char.ofNat b.toNat) = b.toUInt16 := by
  have hall : ∀ k : Fin 128, isPlain (UInt8.ofNat k) = true → IsBasic (Char.ofNat k) ∧
      unitOf (Char.ofNat k) = (UInt8.ofNat k).toUInt16 := by
    unfold IsBasic
    decide
  have hlt : b.toNat < 128 := by
    rw [isPlain, Bool.and_eq_true, decide_eq_true_eq, UInt8.lt_iff_toNat_lt] at h
    exact h.2
  have hb : UInt8.ofNat b.toNat = b := UInt8.ofNat_toNat
  have hspec := hall ⟨b.toNat, hlt⟩
  simp only [hb] at hspec
  exact hspec h

theorem units?_of_plain {bs : Bytes} (h : ∀ b ∈ bs, isPlain b = true) :
    units? bs = some (bs.map UInt8.toUInt16) := by
  induction bs with
  | nil => rfl
  | cons b bs ih =>
    rw [units?_plain (h b List.mem_cons_self), ih fun d hd => h d (List.mem_cons_of_mem b hd)]
    rfl

/-- Plain bytes need no detour through units, and it would make no difference. -/
theorem decode?_eq (bs : Bytes) :
    decode? bs = (units? bs).map fun us => String.ofList (ofUnits us) := by
  rw [decode?]
  by_cases hplain : bs.all isPlain = true
  · simp only [hplain, if_true]
    rw [List.all_eq_true] at hplain
    have hunits : bs.map UInt8.toUInt16 = (bs.map fun b => Char.ofNat b.toNat).map unitOf := by
      rw [List.map_map]
      exact List.map_congr_left fun b hb => (unitOf_plain (hplain b hb)).2.symm
    rw [units?_of_plain hplain, hunits, Option.map_some, ofUnits_map]
    intro c hc
    obtain ⟨b, hb, rfl⟩ := List.mem_map.1 hc
    exact (unitOf_plain (hplain b hb)).1
  · simp only [hplain, Bool.false_eq_true, if_false]

theorem toList_loop (bytes : ByteArray) (i : Nat) (r : List UInt8) :
    ByteArray.toList.loop bytes i r = r.reverse ++ bytes.data.toList.drop i := by
  fun_induction ByteArray.toList.loop bytes i r with
  | case1 i r h ih =>
    have hi : i < bytes.data.toList.length := h
    have hget : bytes.get! i = bytes.data.toList[i] :=
      (getElem!_pos bytes.data i h).trans (Array.getElem_toList h).symm
    rw [ih, List.reverse_cons, List.append_assoc, List.drop_eq_getElem_cons hi, hget]
    rfl
  | case2 i r h =>
    have hi : bytes.data.toList.length ≤ i := Nat.le_of_not_lt h
    rw [List.drop_eq_nil_of_le hi, List.append_nil]

theorem toList_eq_data (bytes : ByteArray) : bytes.toList = bytes.data.toList := by
  rw [ByteArray.toList, toList_loop]
  rfl

theorem length_toUTF8 (s : String) : s.toUTF8.toList.length = s.utf8ByteSize := by
  rw [toList_eq_data]
  rfl

theorem toList_toUTF8 (s : String) : s.toUTF8.toList = s.toList.flatMap String.utf8EncodeChar := by
  conv_lhs => rw [← String.ofList_toList (s := s), String.toUTF8, String.toByteArray_ofList]
  rw [toList_eq_data, List.utf8Encode, List.toList_data_toByteArray]

/-- Every text without the character zero and without characters beyond U+FFFF is read back. -/
theorem decode?_toUTF8 {s : String} (h : ∀ c ∈ s.toList, IsBasic c) :
    decode? s.toUTF8.toList = some s := by
  rw [decode?_eq, toList_toUTF8, units?_flatMap h, Option.map_some, ofUnits_map h,
    String.ofList_toList]

end KernelReach.Binary.ModifiedUtf8
