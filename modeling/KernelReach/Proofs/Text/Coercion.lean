import KernelReach.Proofs.Text.Held

/-!
# What becomes of bytes that are not text

`ofBytes` makes a text of any bytes. `Coerces bs cs` says what the bytes `cs` of that text are, and
says it with the encoding of characters alone: from the left, the bytes of a character stay, and a
byte with which no character starts becomes a replacement character (`coerces_iff`). So bytes stay
what they are exactly if they are the bytes of a text (`toBytes_ofBytes_eq_iff`).
-/

namespace KernelReach.Text

variable {a b : UInt8} {bs cs rest : List UInt8} {c : Char} {n : Nat}

/-- The bytes `cs` are those of `bs`, with a replacement character in place of every byte with which
    no character starts. -/
inductive Coerces : List UInt8 → List UInt8 → Prop
  | nil : Coerces [] []
  | char (c : Char) {bs cs : List UInt8} (h : Coerces bs cs) :
    Coerces (String.utf8EncodeChar c ++ bs) (String.utf8EncodeChar c ++ cs)
  | stray {b : UInt8} {bs cs : List UInt8} (hb : ∀ c, ¬ String.utf8EncodeChar c <+: b :: bs)
    (h : Coerces bs cs) : Coerces (b :: bs) (0xef :: 0xbf :: 0xbd :: cs)

/-! ### Where characters start -/

/-- A character starts with the bytes that it is written with. -/
theorem eq_append_of_charAt? (h : charAt? a rest = some (c, n)) :
    a :: rest = String.utf8EncodeChar c ++ rest.drop n := by
  obtain ⟨tail, hbytes, -, hrest⟩ := bytes_of_charAt? h
  rw [hbytes, List.cons_append, ← hrest]

theorem charAt?_eq_none_iff :
    charAt? a rest = none ↔ ∀ c, ¬ String.utf8EncodeChar c <+: a :: rest := by
  constructor
  · rintro h c ⟨more, hmore⟩
    obtain ⟨b, tail, hbytes, hc⟩ := charAt?_utf8EncodeChar c more
    rw [hbytes, List.cons_append] at hmore
    obtain ⟨rfl, rfl⟩ := List.cons.inj hmore
    rw [hc] at h
    cases h
  · intro h
    cases hc : charAt? a rest with
    | none => rfl
    | some found => exact absurd ⟨_, (eq_append_of_charAt? hc).symm⟩ (h found.1)

/-! ### The text of bytes -/

theorem pieces_utf8EncodeChar_append (c : Char) (bs : List UInt8) :
    pieces (String.utf8EncodeChar c ++ bs) = .char c :: pieces bs := by
  obtain ⟨b, rest, hbytes, hc⟩ := charAt?_utf8EncodeChar c bs
  rw [hbytes, List.cons_append, pieces_cons_char hc, List.drop_left]

theorem toList_ofBytes (bs : List UInt8) : (ofBytes bs).toList = (pieces bs).map Piece.shown := by
  rw [ofBytes]
  cases h : ofBytes? bs with
  | none => exact String.toList_ofList
  | some s =>
    rw [ofBytes?_eq_some h, toBytes_eq, pieces_utf8Encode, List.map_map]
    exact (List.map_id s.toList).symm

theorem toBytes_ofBytes (bs : List UInt8) :
    toBytes (ofBytes bs) = (pieces bs).flatMap fun p => String.utf8EncodeChar p.shown := by
  rw [toBytes_eq, toList_ofBytes, List.flatMap_map]

theorem utf8EncodeChar_replacement : String.utf8EncodeChar '�' = [0xef, 0xbf, 0xbd] := by decide

/-- The text of the bytes of a text is that text. -/
theorem ofBytes_toBytes (s : String) : ofBytes (toBytes s) = s := by
  rw [← String.toList_inj, toList_ofBytes, toBytes_eq, pieces_utf8Encode, List.map_map]
  exact List.map_id s.toList

/-- Bytes are coerced by taking them for a text. -/
theorem coerces_iff : Coerces bs cs ↔ toBytes (ofBytes bs) = cs := by
  constructor
  · intro h
    rw [toBytes_ofBytes]
    induction h with
    | nil => rw [pieces, List.flatMap_nil]
    | char c h ih => rw [pieces_utf8EncodeChar_append, List.flatMap_cons, ih, Piece.shown]
    | stray hb h ih =>
      rw [pieces_cons_stray (charAt?_eq_none_iff.2 hb), List.flatMap_cons, ih, Piece.shown,
        utf8EncodeChar_replacement]
      rfl
  · rintro rfl
    rw [toBytes_ofBytes]
    fun_induction pieces bs with
    | case1 => exact .nil
    | case2 b rest c n h ih =>
      rw [eq_append_of_charAt? h]
      exact .char c ih
    | case3 b rest h ih =>
      rw [List.flatMap_cons, Piece.shown, utf8EncodeChar_replacement]
      exact .stray (charAt?_eq_none_iff.1 h) ih

/-- The bytes of texts, and no others, are left as they are. -/
theorem toBytes_ofBytes_eq_iff : toBytes (ofBytes bs) = bs ↔ ∃ s, toBytes s = bs := by
  constructor
  · intro h
    exact ⟨ofBytes bs, h⟩
  · rintro ⟨s, rfl⟩
    rw [ofBytes_toBytes]

end KernelReach.Text
