import KernelReach.Proofs.Binary.Text
import KernelReach.Text.Utf8

/-!
# Held texts

`hold` makes a text of any bytes. A byte below 0x80 is a character of its own wherever it stands, so
a held text can be cut at such a character exactly where its bytes can be cut:

* `toList_hold_append` cuts the bytes, `exists_of_toList_hold` the text;
* `hold_toBytes`: the bytes of a text hold that text.
-/

namespace KernelReach.Text

variable {a b b₁ b₂ b₃ : UInt8} {as bs rest more : List UInt8} {c : Char} {n : Nat}

theorem toNat_ofNat_of_isValidChar (h : n.isValidChar) : (Char.ofNat n).toNat = n := by
  rw [Char.ofNat, dif_pos h]
  rfl

theorem toNat_ofNat_of_lt (h : n < 256) : (UInt8.ofNat n).toNat = n := by
  rw [UInt8.toNat_ofNat']
  exact Nat.mod_eq_of_lt h

/-- The characters of one byte. -/
def IsAscii (c : Char) : Prop := c.toNat < 0x80

instance : DecidablePred IsAscii := fun _ => inferInstanceAs (Decidable (_ < _))

/-- The byte of such a character. -/
def asciiByte (c : Char) : UInt8 := UInt8.ofNat c.toNat

theorem toNat_asciiByte (h : IsAscii c) : (asciiByte c).toNat = c.toNat :=
  toNat_ofNat_of_lt (Nat.lt_trans h (by decide))

/-! ### Single characters -/

theorem charAt?_asciiByte (h : IsAscii c) (rest : List UInt8) :
    charAt? (asciiByte c) rest = some (c, 0) := by
  have hlt : asciiByte c < 0x80 := by
    rw [UInt8.lt_iff_toNat_lt, toNat_asciiByte h]
    exact h
  rw [charAt?.eq_def, if_pos hlt, toNat_asciiByte h, Char.ofNat_toNat]

theorem isTail_asciiByte (h : IsAscii c) : isTail (asciiByte c) = false := by
  have hlt : ¬ 0x80 ≤ asciiByte c := by
    rw [UInt8.le_iff_toNat_le, toNat_asciiByte h]
    exact Nat.not_le.2 h
  rw [isTail, decide_eq_false hlt, Bool.false_and]

/-- A character ends before a byte that continues none. -/
theorem charAt?_append (hb : isTail b = false) :
    charAt? a (rest ++ b :: more) = charAt? a rest := by
  rcases rest with _ | ⟨b₁, _ | ⟨b₂, _ | ⟨b₃, rest⟩⟩⟩ <;> simp [charAt?, hb]

theorem ofNat_eq_of_toNat (h : a.toNat = n) : UInt8.ofNat n = a := by
  rw [← h, UInt8.ofNat_toNat]

theorem toNat_eq_of_isTail (h : isTail b = true) : b.toNat = tailBits b + 0x80 := by
  simp only [isTail, Bool.and_eq_true, decide_eq_true_eq, UInt8.le_iff_toNat_le,
    UInt8.lt_iff_toNat_lt, UInt8.reduceToNat] at h
  rw [tailBits]
  omega

/-- Where a character starts, there are the bytes that it is written with. -/
theorem bytes_of_charAt? : charAt? a rest = some (c, n) →
    ∃ tail, String.utf8EncodeChar c = a :: tail ∧ tail.length = n ∧ rest = tail ++ rest.drop n := by
  have htail (b : UInt8) : tailBits b < 0x40 := Nat.mod_lt _ (by decide)
  fun_cases charAt? a rest with
  | case1 _ hlt =>
    simp only [UInt8.lt_iff_toNat_lt, UInt8.reduceToNat] at hlt
    rintro ⟨⟩
    have hval : (Char.ofNat a.toNat).val.toNat = a.toNat :=
      toNat_ofNat_of_isValidChar (.inl (by omega))
    refine ⟨[], ?_, rfl, rfl⟩
    rw [String.utf8EncodeChar, hval, if_pos (by omega), UInt8.ofNat_toNat]
  | case3 hplain b₁ more h₁ htwo =>
    rintro ⟨⟩
    simp only [Bool.and_eq_true, decide_eq_true_eq, UInt8.le_iff_toNat_le, UInt8.lt_iff_toNat_lt,
      UInt8.reduceToNat] at htwo
    have hb₁ := toNat_eq_of_isTail (b := b₁) (by simpa using h₁)
    have hbits := htail b₁
    have hval := toNat_ofNat_of_isValidChar
      (n := a.toNat % 0x20 * 0x40 + tailBits b₁) (.inl (by omega))
    change (Char.ofNat _).val.toNat = _ at hval
    refine ⟨[b₁], ?_, rfl, rfl⟩
    rw [String.utf8EncodeChar, hval, if_neg (by omega), if_pos (by omega),
      ofNat_eq_of_toNat (a := a) (by omega), ofNat_eq_of_toNat (a := b₁) (by omega)]
  | case6 hplain b₁ h₁ htwo b₂ more h₂ hthree k hk =>
    rintro ⟨⟩
    simp only [Bool.and_eq_true, decide_eq_true_eq, UInt8.le_iff_toNat_le, UInt8.lt_iff_toNat_lt,
      UInt8.reduceToNat] at hthree
    simp only [Bool.or_eq_true, Bool.and_eq_true, decide_eq_true_eq] at hk
    have hb₁ := toNat_eq_of_isTail (b := b₁) (by simpa using h₁)
    have hb₂ := toNat_eq_of_isTail (b := b₂) (by simpa using h₂)
    have hbits₁ := htail b₁
    have hbits₂ := htail b₂
    have hvalid : k.isValidChar := by unfold Nat.isValidChar; omega
    have hval : (Char.ofNat k).val.toNat = k := toNat_ofNat_of_isValidChar hvalid
    refine ⟨[b₁, b₂], ?_, rfl, rfl⟩
    rw [String.utf8EncodeChar, hval, if_neg (by omega), if_neg (by omega), if_pos (by omega),
      ofNat_eq_of_toNat (a := a) (by omega), ofNat_eq_of_toNat (a := b₁) (by omega),
      ofNat_eq_of_toNat (a := b₂) (by omega)]
  | case7 hplain b₁ h₁ htwo b₂ h₂ hthree b₃ more k hfour =>
    rintro ⟨⟩
    simp only [Bool.and_eq_true, decide_eq_true_eq, UInt8.le_iff_toNat_le, UInt8.lt_iff_toNat_lt,
      UInt8.reduceToNat] at hfour
    have hb₁ := toNat_eq_of_isTail (b := b₁) (by simpa using h₁)
    have hb₂ := toNat_eq_of_isTail (b := b₂) (by simpa using h₂)
    have hb₃ := toNat_eq_of_isTail (b := b₃) hfour.1.1.1.1
    have hbits₁ := htail b₁
    have hbits₂ := htail b₂
    have hbits₃ := htail b₃
    have hval : (Char.ofNat k).val.toNat = k := toNat_ofNat_of_isValidChar (.inr (by omega))
    refine ⟨[b₁, b₂, b₃], ?_, rfl, rfl⟩
    rw [String.utf8EncodeChar, hval, if_neg (by omega), if_neg (by omega), if_neg (by omega),
      ofNat_eq_of_toNat (a := a) (by omega), ofNat_eq_of_toNat (a := b₁) (by omega),
      ofNat_eq_of_toNat (a := b₂) (by omega), ofNat_eq_of_toNat (a := b₃) (by omega)]
  | _ => exact nofun

/-- A character is its only byte, or it is beyond ASCII. -/
theorem of_charAt? (h : charAt? a rest = some (c, n)) :
    n ≤ rest.length ∧ (c.toNat = a.toNat ∧ n = 0 ∨ 0x80 ≤ c.toNat) := by
  obtain ⟨tail, hbytes, rfl, hrest⟩ := bytes_of_charAt? h
  have hlength := congrArg List.length hrest
  rw [List.length_append] at hlength
  refine ⟨by omega, ?_⟩
  by_cases hc : IsAscii c
  · have hval : c.val.toNat = c.toNat := rfl
    rw [String.utf8EncodeChar, hval, if_pos (Nat.le_of_lt_succ hc)] at hbytes
    obtain ⟨rfl, rfl⟩ := List.cons.inj hbytes
    exact .inl ⟨(toNat_asciiByte hc).symm, rfl⟩
  · exact .inr (Nat.not_lt.1 hc)

theorem charAt?_two (hlow : 0xc2 ≤ a.toNat) (hhigh : a.toNat < 0xe0) (h₁ : isTail b₁ = true)
    (hn : a.toNat % 0x20 * 0x40 + tailBits b₁ = n) (rest : List UInt8) :
    charAt? a (b₁ :: rest) = some (Char.ofNat n, 1) := by
  have hplain : ¬ a.toNat < 0x80 := by omega
  simp [charAt?, UInt8.lt_iff_toNat_lt, UInt8.le_iff_toNat_le, h₁, hplain, hlow, hhigh, hn]

theorem charAt?_three (hlow : 0xe0 ≤ a.toNat) (hhigh : a.toNat < 0xf0) (h₁ : isTail b₁ = true)
    (h₂ : isTail b₂ = true) (hn : a.toNat % 0x10 * 0x1000 + tailBits b₁ * 0x40 + tailBits b₂ = n)
    (hle : 0x800 ≤ n) (hvalid : n.isValidChar) (rest : List UInt8) :
    charAt? a (b₁ :: b₂ :: rest) = some (Char.ofNat n, 2) := by
  have hplain : ¬ a.toNat < 0x80 := by omega
  have htwo : ¬ a.toNat < 0xe0 := by omega
  have hsurrogate : 0xd800 ≤ n → 0xe000 ≤ n := by unfold Nat.isValidChar at hvalid; omega
  simpa [charAt?, UInt8.lt_iff_toNat_lt, UInt8.le_iff_toNat_le, h₁, h₂, hplain, htwo, hlow, hhigh,
    hn, Nat.not_lt.2 hle] using hsurrogate

theorem charAt?_four (hlow : 0xf0 ≤ a.toNat) (hhigh : a.toNat < 0xf5) (h₁ : isTail b₁ = true)
    (h₂ : isTail b₂ = true) (h₃ : isTail b₃ = true)
    (hn : a.toNat % 0x10 * 0x40000 + tailBits b₁ * 0x1000 + tailBits b₂ * 0x40 + tailBits b₃ = n)
    (hle : 0x10000 ≤ n) (hlt : n < 0x110000) (rest : List UInt8) :
    charAt? a (b₁ :: b₂ :: b₃ :: rest) = some (Char.ofNat n, 3) := by
  have hplain : ¬ a.toNat < 0x80 := by omega
  have htwo : ¬ a.toNat < 0xe0 := by omega
  have hthree : ¬ a.toNat < 0xf0 := by omega
  simp [charAt?, UInt8.lt_iff_toNat_lt, UInt8.le_iff_toNat_le, h₁, h₂, h₃, hplain, htwo, hthree,
    hlow, hhigh, hn, hle, hlt]

theorem isTail_ofNat {k : Nat} (h : k < 64) :
    isTail (UInt8.ofNat (k + 128)) = true ∧ tailBits (UInt8.ofNat (k + 128)) = k := by
  have hall : ∀ k : Fin 64, isTail (UInt8.ofNat (k + 128)) = true ∧
      tailBits (UInt8.ofNat (k + 128)) = k := by decide
  exact hall ⟨k, h⟩

/-- The bytes of a character, with anything after them, start with that character. -/
theorem charAt?_utf8EncodeChar (c : Char) (more : List UInt8) :
    ∃ b rest, String.utf8EncodeChar c = b :: rest ∧
      charAt? b (rest ++ more) = some (c, rest.length) := by
  have hvalid : c.toNat.isValidChar := c.valid
  have hchar : Char.ofNat c.toNat = c := Char.ofNat_toNat c
  have hval : c.val.toNat = c.toNat := rfl
  rw [String.utf8EncodeChar, hval]
  generalize c.toNat = n at hvalid hchar
  subst hchar
  have hlimit : n < 0x110000 := by unfold Nat.isValidChar at hvalid; omega
  obtain ⟨h₀, hbits₀⟩ := isTail_ofNat (k := n % 64) (by omega)
  obtain ⟨h₁, hbits₁⟩ := isTail_ofNat (k := n / 64 % 64) (by omega)
  obtain ⟨h₂, hbits₂⟩ := isTail_ofNat (k := n / 4096 % 64) (by omega)
  by_cases hone : n ≤ 127
  · have hascii : IsAscii (Char.ofNat n) := by
      rw [IsAscii, toNat_ofNat_of_isValidChar hvalid]
      omega
    refine ⟨asciiByte (Char.ofNat n), [], ?_, charAt?_asciiByte hascii more⟩
    rw [if_pos hone, asciiByte, toNat_ofNat_of_isValidChar hvalid]
  · by_cases htwo : n ≤ 2047
    · have hlead := toNat_ofNat_of_lt (n := n / 64 % 32 + 192) (by omega)
      rw [if_neg hone, if_pos htwo]
      refine ⟨_, _, rfl, charAt?_two ?_ ?_ h₀ ?_ more⟩ <;> omega
    · by_cases hthree : n ≤ 65535
      · have hlead := toNat_ofNat_of_lt (n := n / 4096 % 16 + 224) (by omega)
        rw [if_neg hone, if_neg htwo, if_pos hthree]
        refine ⟨_, _, rfl, charAt?_three ?_ ?_ h₁ h₀ ?_ ?_ hvalid more⟩ <;> omega
      · have hlead := toNat_ofNat_of_lt (n := n / 262144 % 8 + 240) (by omega)
        rw [if_neg hone, if_neg htwo, if_neg hthree]
        refine ⟨_, _, rfl, charAt?_four ?_ ?_ h₂ h₁ h₀ ?_ ?_ hlimit more⟩ <;> omega

/-! ### Pieces -/

theorem pieces_cons_char (h : charAt? a rest = some (c, n)) :
    pieces (a :: rest) = .char c :: pieces (rest.drop n) := by
  rw [pieces, h]

theorem pieces_cons_stray (h : charAt? a rest = none) :
    pieces (a :: rest) = .stray a :: pieces rest := by
  rw [pieces, h]

/-- Bytes are cut at the byte of an ASCII character. -/
theorem pieces_append (hc : IsAscii c) (as bs : List UInt8) :
    pieces (as ++ asciiByte c :: bs) = pieces as ++ .char c :: pieces bs := by
  fun_induction pieces as with
  | case1 => exact pieces_cons_char (charAt?_asciiByte hc bs)
  | case2 b rest d n h ih =>
    have hn := (of_charAt? h).1
    rw [List.cons_append, pieces_cons_char ((charAt?_append (isTail_asciiByte hc)).trans h),
      List.drop_append_of_le_length hn, ih, List.cons_append]
  | case3 b rest h ih =>
    rw [List.cons_append, pieces_cons_stray ((charAt?_append (isTail_asciiByte hc)).trans h), ih,
      List.cons_append]

/-- Pieces are cut at an ASCII character only where the bytes are cut. -/
theorem exists_of_pieces {ps qs : List Piece} (hc : IsAscii c)
    (h : pieces bs = ps ++ .char c :: qs) :
    ∃ before after, bs = before ++ asciiByte c :: after ∧ pieces before = ps ∧
      pieces after = qs := by
  fun_induction pieces bs generalizing ps with
  | case1 => simp at h
  | case2 b rest d n hd ih =>
    obtain ⟨hn, hform⟩ := of_charAt? hd
    cases ps with
    | nil =>
      -- The character itself, which has no other byte.
      obtain ⟨⟨rfl⟩, rfl⟩ := List.cons.inj h
      obtain ⟨hb, rfl⟩ := hform.resolve_right (Nat.not_le.2 hc)
      refine ⟨[], rest, ?_, by rw [pieces], rfl⟩
      rw [asciiByte, hb, UInt8.ofNat_toNat, List.nil_append]
    | cons p ps =>
      obtain ⟨rfl, htail⟩ := List.cons.inj h
      obtain ⟨before, after, hdrop, hbefore, hafter⟩ := ih htail
      have hrest : rest = (rest.take n ++ before) ++ asciiByte c :: after := by
        rw [List.append_assoc, ← hdrop, List.take_append_drop]
      refine ⟨b :: (rest.take n ++ before), after, congrArg (b :: ·) hrest, ?_, hafter⟩
      rw [hrest, charAt?_append (isTail_asciiByte hc)] at hd
      rw [pieces_cons_char hd, List.drop_left' (List.length_take_of_le hn), hbefore]
  | case3 b rest hb ih =>
    cases ps with
    | nil => exact absurd (List.cons.inj h).1 nofun
    | cons p ps =>
      obtain ⟨rfl, htail⟩ := List.cons.inj h
      obtain ⟨before, after, rfl, hbefore, hafter⟩ := ih htail
      refine ⟨b :: before, after, rfl, ?_, hafter⟩
      rw [charAt?_append (isTail_asciiByte hc)] at hb
      rw [pieces_cons_stray hb, hbefore]

theorem pieces_utf8Encode (cs : List Char) :
    pieces (cs.flatMap String.utf8EncodeChar) = cs.map .char := by
  induction cs with
  | nil => rw [List.flatMap_nil, pieces, List.map_nil]
  | cons c cs ih =>
    obtain ⟨b, rest, hbytes, hc⟩ := charAt?_utf8EncodeChar c (cs.flatMap String.utf8EncodeChar)
    rw [List.flatMap_cons, hbytes, List.cons_append, pieces_cons_char hc, List.drop_left, ih,
      List.map_cons]

/-! ### Texts -/

theorem toBytes_eq (s : String) : toBytes s = s.toList.flatMap String.utf8EncodeChar :=
  Binary.ModifiedUtf8.toList_toUTF8 s

theorem ofBytes?_eq_some {s : String} (h : ofBytes? bs = some s) : bs = toBytes s := by
  rw [ofBytes?, String.fromUTF8?] at h
  split at h
  · obtain rfl := Option.some.inj h
    exact (Binary.ModifiedUtf8.toList_eq_data ⟨bs.toArray⟩).symm
  · cases h

theorem toList_hold (bs : List UInt8) : (hold bs).toList = (pieces bs).map Piece.held := by
  rw [hold]
  cases h : ofBytes? bs with
  | none => exact String.toList_ofList
  | some s =>
    rw [ofBytes?_eq_some h, toBytes_eq, pieces_utf8Encode, List.map_map]
    exact (List.map_id s.toList).symm

/-- The bytes of a text hold that text. -/
theorem hold_toBytes (s : String) : hold (toBytes s) = s := by
  rw [← String.toList_inj, toList_hold, toBytes_eq, pieces_utf8Encode, List.map_map]
  exact List.map_id s.toList

/-- A character that holds a byte is not in ASCII. -/
theorem eq_char_of_held {p : Piece} (hc : IsAscii c) (h : p.held = c) : p = .char c := by
  cases p with
  | char d => exact congrArg Piece.char h
  | stray b =>
    have hb := b.toNat_lt
    have htoNat : (Piece.stray b).held.toNat = holderBase + b.toNat :=
      toNat_ofNat_of_isValidChar (.inr (by rw [holderBase]; omega))
    rw [h] at htoNat
    rw [IsAscii, htoNat, holderBase] at hc
    omega

theorem toList_hold_append (hc : IsAscii c) (as bs : List UInt8) :
    (hold (as ++ asciiByte c :: bs)).toList = (hold as).toList ++ c :: (hold bs).toList := by
  rw [toList_hold, toList_hold, toList_hold, pieces_append hc, List.map_append, List.map_cons]
  rfl

theorem exists_of_toList_hold {l r : List Char} (hc : IsAscii c)
    (h : (hold bs).toList = l ++ c :: r) :
    ∃ before after, bs = before ++ asciiByte c :: after ∧ (hold before).toList = l ∧
      (hold after).toList = r := by
  rw [toList_hold, List.map_eq_append_iff] at h
  obtain ⟨ps, qs, hpieces, rfl, hqs⟩ := h
  obtain ⟨p, qs, rfl, hp, rfl⟩ := List.map_eq_cons_iff.1 hqs
  rw [eq_char_of_held hc hp] at hpieces
  obtain ⟨before, after, hbytes, rfl, rfl⟩ := exists_of_pieces hc hpieces
  exact ⟨before, after, hbytes, toList_hold before, toList_hold after⟩

theorem hold_eq_empty_iff : hold bs = "" ↔ bs = [] := by
  rw [← String.toList_inj, toList_hold]
  fun_cases pieces bs <;> simp

theorem toList_hold_cons (hc : IsAscii c) (bs : List UInt8) :
    (hold (asciiByte c :: bs)).toList = c :: (hold bs).toList := by
  have h := toList_hold_append hc [] bs
  rwa [hold_eq_empty_iff.2 rfl] at h

theorem exists_of_toList_hold_cons {r : List Char} (hc : IsAscii c)
    (h : (hold bs).toList = c :: r) :
    ∃ after, bs = asciiByte c :: after ∧ (hold after).toList = r := by
  obtain ⟨before, after, rfl, hbefore, hafter⟩ := exists_of_toList_hold (l := []) hc h
  obtain rfl := hold_eq_empty_iff.1 (String.toList_inj.1 hbefore)
  exact ⟨after, rfl, hafter⟩

theorem mem_toList_hold (hc : IsAscii c) : c ∈ (hold bs).toList ↔ asciiByte c ∈ bs := by
  constructor
  · intro h
    obtain ⟨l, r, hl⟩ := List.append_of_mem h
    obtain ⟨before, after, rfl, -⟩ := exists_of_toList_hold hc hl
    simp
  · intro h
    obtain ⟨before, after, rfl⟩ := List.append_of_mem h
    rw [toList_hold_append hc]
    simp

end KernelReach.Text
