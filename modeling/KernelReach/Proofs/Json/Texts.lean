import KernelReach.Json.Reader
import KernelReach.Proofs.Text.Numeral

/-!
# Lists of texts are read as they were written

Whatever the characters of the texts are, the written list is a document, and reading it gives the
texts back (`parse_writeTexts_some`). Where the texts are given as bytes, the bytes of their
characters are given back (`parseTexts_writeTexts`). The statements about the parts of a document
say what is read if anything follows the part.
-/

namespace KernelReach.Json

theorem skipBlank_cons {c : Char} (hc : (c == ' ' || c == '\t' || c == '\r' || c == '\n') = false)
    (cs : List Char) : skipBlank (c :: cs) = c :: cs := by
  rw [skipBlank, List.dropWhile_cons_of_neg (by simp [hc])]

/-! ### Strings -/

theorem hexDigit?_digitChar : ∀ d < 16, Text.hexDigit? (Nat.digitChar d) = some d := by decide

/-- Reading digits is reading a numeral of a known length. -/
theorem readHex4?_go_append (ds rest : List Char) (acc : Nat) :
    readHex4?.go ds.length acc (ds ++ rest) =
      (ds.foldlM (Text.readDigit 16 Text.hexDigit?) acc).map (·, rest) := by
  induction ds generalizing acc with
  | nil => rfl
  | cons d ds ih =>
    cases hd : Text.hexDigit? d with
    | none => simp [readHex4?.go, Text.readDigit, hd]
    | some k => simp [readHex4?.go, Text.readDigit, hd, ih]

theorem readHex4?_hexadecimal {n : Nat} (hn : n < 16 ^ 4) (rest : List Char) :
    readHex4? ((Text.hexadecimal 4 n).toList ++ rest) = some (n, rest) := by
  have hlength : (Text.hexadecimal 4 n).toList.length = 4 :=
    Text.length_padLeft_toDigits (by omega) (by omega) hn
  have hread := readHex4?_go_append (Text.hexadecimal 4 n).toList rest 0
  rw [hlength] at hread
  rw [readHex4?, hread, Text.hexadecimal,
    Text.foldlM_padLeft_toDigits (by omega) hexDigit?_digitChar]
  rfl

/-- A four-digit escape with the code of a character stands for the character. -/
theorem pieceOfCode_toNat (c : Char) : pieceOfCode c.toNat = .char c := by
  have hvalid : ¬(0xD800 ≤ c.toNat ∧ c.toNat < 0xE000) := by
    have h := c.valid
    simp only [UInt32.isValidChar, Nat.isValidChar] at h
    have : c.val.toNat = c.toNat := rfl
    omega
  rw [pieceOfCode, if_neg hvalid, Char.ofNat_toNat]

/-- What reading a string gives if it starts with a character. -/
def consChar (c : Char) : List Piece × List Char → List Piece × List Char
  | (ps, rest) => (.char c :: ps, rest)

theorem readPieces_letter {letter c : Char} (hletter : escaped? letter = some c) (fuel : Nat)
    (rest : List Char) :
    readPieces (fuel + 1) ('\\' :: letter :: rest) = (readPieces fuel rest).map (consChar c) := by
  have hu : letter ≠ 'u' := by
    rintro rfl
    simp [escaped?] at hletter
  rw [readPieces]
  · simp only [hletter]
    rfl
  · exact hu

theorem readPieces_code {c : Char} (hc : c.toNat < 16 ^ 4) (fuel : Nat) (rest : List Char) :
    readPieces (fuel + 1) ('\\' :: 'u' :: ((Text.hexadecimal 4 c.toNat).toList ++ rest)) =
      (readPieces fuel rest).map (consChar c) := by
  rw [readPieces, readHex4?_hexadecimal hc]
  simp only [pieceOfCode_toNat]
  rfl

theorem readPieces_plain {c : Char} (hquote : c ≠ '"') (hslash : c ≠ '\\') (hc : 0x20 ≤ c.toNat)
    (fuel : Nat) (rest : List Char) :
    readPieces (fuel + 1) (c :: rest) = (readPieces fuel rest).map (consChar c) := by
  rw [readPieces]
  · simp only [Nat.not_lt.2 hc, if_false]
    rfl
  all_goals simp [hquote, hslash]

/-- A character of a string is read as it was written, whatever follows it. -/
theorem readPieces_escape (fuel : Nat) (c : Char) (rest : List Char) :
    readPieces (fuel + 1) ((escape c).toList ++ rest) =
      (readPieces fuel rest).map (consChar c) := by
  unfold escape
  -- Five characters have a letter of their own, two more are told by their codes.
  split
  · exact readPieces_letter rfl fuel rest
  · exact readPieces_letter rfl fuel rest
  · exact readPieces_letter rfl fuel rest
  · exact readPieces_letter rfl fuel rest
  · exact readPieces_letter rfl fuel rest
  next hquote hslash _ _ _ =>
    simp only
    split_ifs with hb hf hcode
    · obtain rfl : c = '\x08' := Char.toNat_inj.1 hb
      exact readPieces_letter rfl fuel rest
    · obtain rfl : c = '\x0c' := Char.toNat_inj.1 hf
      exact readPieces_letter rfl fuel rest
    · -- Whatever else is escaped has a code of four digits.
      have hc : c.toNat < 16 ^ 4 := by
        rcases hcode with h | rfl | rfl | rfl | h | h
        · omega
        · decide
        · decide
        · decide
        · omega
        · omega
      rw [String.toList_append]
      exact readPieces_code hc fuel rest
    · rw [String.toList_singleton]
      exact readPieces_plain hquote hslash (by omega) fuel rest

theorem escape_toList_ne_nil (c : Char) : (escape c).toList ≠ [] := by
  intro h
  -- Otherwise the quote after the character would be taken for the end of the string.
  have hread := readPieces_escape 1 c ['"']
  rw [h] at hread
  simp [readPieces, Except.map, consChar] at hread

/-- The characters of a string are read as they were written, up to its closing quote. -/
theorem readPieces_escapes (cs rest : List Char) {fuel : Nat} (hfuel : cs.length < fuel) :
    readPieces fuel (cs.flatMap (fun c => (escape c).toList) ++ '"' :: rest) =
      .ok (cs.map .char, rest) := by
  induction cs generalizing fuel with
  | nil =>
    obtain ⟨fuel, rfl⟩ := Nat.exists_eq_add_of_lt hfuel
    rfl
  | cons c cs ih =>
    obtain ⟨fuel, rfl⟩ := Nat.exists_eq_add_one_of_ne_zero (Nat.ne_zero_of_lt hfuel)
    rw [List.flatMap_cons, List.append_assoc, readPieces_escape, ih (Nat.lt_of_succ_lt_succ hfuel)]
    rfl

theorem joinPieces_map_char (cs : List Char) : joinPieces (cs.map .char) = cs := by
  induction cs with
  | nil => rfl
  | cons c cs ih => rw [List.map_cons, joinPieces, ih]

/-- The characters of a written string, after its opening quote. -/
theorem toList_encode (s : String) :
    (encode s).toList = '"' :: (s.toList.flatMap (fun c => (escape c).toList) ++ ['"']) := by
  simp [encode, String.toList_join, List.flatMap_map]

theorem length_le_length_escapes (cs : List Char) :
    cs.length ≤ (cs.flatMap fun c => (escape c).toList).length := by
  induction cs with
  | nil => exact Nat.le_refl 0
  | cons c cs ih =>
    have hc := List.length_pos_iff.2 (escape_toList_ne_nil c)
    simp only [List.flatMap_cons, List.length_append, List.length_cons]
    omega

/-- A string is read as it was written, whatever follows it. -/
theorem readValue_encode (fuel depth : Nat) (s : String) (rest : List Char) :
    readValue (fuel + 1) depth ((encode s).toList ++ rest) = .ok (.string s, rest) := by
  have hread : readString (s.toList.flatMap (fun c => (escape c).toList) ++ '"' :: rest) =
      .ok (s, rest) := by
    have hlength := length_le_length_escapes s.toList
    rw [readString, readPieces_escapes _ _ (by simp only [List.length_append]; omega)]
    simp only [Except.map, joinPieces_map_char, String.ofList_toList]
  have hshape : (encode s).toList ++ rest =
      '"' :: (s.toList.flatMap (fun c => (escape c).toList) ++ '"' :: rest) := by
    simp [toList_encode]
  rw [hshape, readValue, skipBlank_cons rfl]
  simp only [hread]
  rfl

/-! ### Lists -/

theorem readItems_encode_bracket (fuel depth : Nat) (s : String) (rest : List Char) :
    readItems (fuel + 2) depth ((encode s).toList ++ ']' :: rest) = .ok ([.string s], rest) := by
  have hblank : skipBlank (']' :: rest) = ']' :: rest := skipBlank_cons rfl rest
  rw [readItems, readValue_encode]
  simp only [hblank]

theorem readItems_encode_comma (fuel depth : Nat) (s : String) (rest : List Char) :
    readItems (fuel + 2) depth ((encode s).toList ++ ',' :: rest) =
      (readItems (fuel + 1) depth rest).map fun (items, rest) => (.string s :: items, rest) := by
  have hblank : skipBlank (',' :: rest) = ',' :: rest := skipBlank_cons rfl rest
  rw [readItems, readValue_encode]
  simp only [hblank]

/-- The items of a list are read as they were written, up to its closing bracket. -/
theorem readItems_writeItems (s : String) (texts : List String) (depth : Nat) (rest : List Char)
    {fuel : Nat} (hfuel : texts.length ≤ fuel) :
    readItems (fuel + 2) depth ((writeItems (s :: texts)).toList ++ ']' :: rest) =
      .ok ((s :: texts).map .string, rest) := by
  induction texts generalizing s fuel with
  | nil => exact readItems_encode_bracket fuel depth s rest
  | cons t texts ih =>
    obtain ⟨fuel, rfl⟩ := Nat.exists_eq_add_one_of_ne_zero (Nat.ne_zero_of_lt hfuel)
    have hshape : (writeItems (s :: t :: texts)).toList ++ ']' :: rest =
        (encode s).toList ++ ',' :: ((writeItems (t :: texts)).toList ++ ']' :: rest) := by
      simp [writeItems]
    rw [hshape, readItems_encode_comma, ih t (Nat.le_of_succ_le_succ hfuel)]
    rfl

/-- A written item starts with a quote, so there is at least one character for each item. -/
theorem exists_writeItems_eq_cons (s : String) (texts : List String) :
    ∃ rest, (writeItems (s :: texts)).toList = '"' :: rest ∧ texts.length ≤ rest.length := by
  induction texts generalizing s with
  | nil => exact ⟨_, toList_encode s, Nat.zero_le _⟩
  | cons t texts ih =>
    obtain ⟨rest, hrest, hlength⟩ := ih t
    have hshape : (writeItems (s :: t :: texts)).toList =
        '"' :: (s.toList.flatMap (fun c => (escape c).toList) ++ '"' :: ',' :: '"' :: rest) := by
      simp [writeItems, toList_encode, hrest]
    refine ⟨_, hshape, ?_⟩
    simp only [List.length_append, List.length_cons]
    omega

/-- A bracket and a quote start a list that is not empty. -/
theorem readValue_bracket_quote (fuel depth : Nat) (cs : List Char) :
    readValue (fuel + 1) (depth + 1) ('[' :: '"' :: cs) =
      (readItems fuel depth ('"' :: cs)).map fun (items, rest) => (.array items, rest) := by
  have hbracket : skipBlank ('[' :: '"' :: cs) = '[' :: '"' :: cs := skipBlank_cons rfl _
  have hquote : skipBlank ('"' :: cs) = '"' :: cs := skipBlank_cons rfl _
  rw [readValue, hbracket]
  simp only [Nat.succ_ne_zero, if_false, hquote]
  rfl

/-- A written list of texts is a document. -/
theorem parse_writeTexts_some (texts : List (List UInt8)) :
    parse (writeTexts (some texts)) = .ok (.array ((texts.map Text.ofBytes).map .string)) := by
  rw [writeTexts]
  cases texts.map Text.ofBytes with
  | nil => rfl
  | cons s texts =>
    obtain ⟨items, hitems, hlength⟩ := exists_writeItems_eq_cons s texts
    have hshape : ("[" ++ writeItems (s :: texts) ++ "]").toList =
        '[' :: '"' :: (items ++ [']']) := by
      simp [hitems]
    have hread := readItems_writeItems s texts (maxDepth - 1) []
      (by omega : texts.length ≤ 2 * items.length + 5)
    rw [hitems, List.cons_append] at hread
    have hfuel : 2 * ('[' :: '"' :: (items ++ [']'])).length + 2 =
        2 * items.length + 5 + 2 + 1 := by
      simp only [List.length_cons, List.length_append, List.length_nil]
      omega
    have hdepth : maxDepth = maxDepth - 1 + 1 := rfl
    simp only [parse, hshape]
    rw [hfuel, hdepth, readValue_bracket_quote, hread]
    rfl

theorem mapM_asText_string (texts : List String) (start : Nat) :
    ((texts.map string).zipIdx start).mapM (fun (item, i) => asText i item) = .ok texts := by
  induction texts generalizing start with
  | nil => rfl
  | cons t texts ih =>
    rw [List.map_cons, List.zipIdx_cons, List.mapM_cons, ih]
    rfl

/-- Of a list of texts that are given as bytes, their characters are read. -/
theorem parseTexts_writeTexts (texts : Option (List (List UInt8))) :
    parseTexts (writeTexts texts) =
      .ok (texts.map (List.map fun bytes => Text.toBytes (Text.ofBytes bytes))) := by
  cases texts with
  | none => rfl
  | some texts =>
    have htexts : asTexts (.array ((texts.map Text.ofBytes).map .string)) =
        .ok (some (texts.map Text.ofBytes)) := by
      rw [asTexts, mapM_asText_string]
      rfl
    simp only [parseTexts, parse_writeTexts_some, htexts, Except.map, Option.map_some]
    rw [List.map_map]
    rfl

end KernelReach.Json
