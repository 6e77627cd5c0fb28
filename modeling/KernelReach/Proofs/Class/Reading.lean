import KernelReach.Proofs.Binary.Recognition
import KernelReach.Proofs.Class.Grammar
import Mathlib.Data.List.TakeWhile

/-!
# Descriptors that are read

The reader of descriptors accepts exactly the descriptors of the grammar in which no parameter has
the type `Lvoid;`, and returns the types that their trees tell. `parse_eq_ok_iff` says so for texts,
and `parse_hold_exact` for all bytes.
-/

namespace KernelReach

namespace Text

variable (old : Char) {new : Char} {s : String}

theorem toList_replaceChar :
    (replaceChar old new s).toList = s.toList.map fun c => if c == old then new else c :=
  String.toList_ofList

theorem mem_replaceChar {c : Char} :
    c ∈ (replaceChar old new s).toList ↔ c ∈ s.toList ∧ c ≠ old ∨ old ∈ s.toList ∧ c = new := by
  rw [toList_replaceChar, List.mem_map]
  constructor
  · rintro ⟨d, hd, rfl⟩
    by_cases hold : d = old
    · exact .inr ⟨hold ▸ hd, by simp [hold]⟩
    · exact .inl (by simp [hold, hd])
  · rintro (⟨hc, hne⟩ | ⟨hold, rfl⟩)
    · exact ⟨c, hc, by simp [hne]⟩
    · exact ⟨old, hold, by simp⟩

theorem replaceChar_ne_empty (h : s ≠ "") : replaceChar old new s ≠ "" := by
  intro hempty
  have hlist := congrArg String.toList hempty
  rw [toList_replaceChar, String.toList_empty, List.map_eq_nil_iff] at hlist
  exact h (String.toList_inj.1 hlist)

theorem not_mem_replaceChar {c : Char} (h : c ∉ s.toList) (hne : c ≠ new) :
    c ∉ (replaceChar old new s).toList := by
  rw [mem_replaceChar]
  rintro (⟨hmem, -⟩ | ⟨-, heq⟩)
  · exact h hmem
  · exact hne heq

theorem old_not_mem_replaceChar (hne : old ≠ new) : old ∉ (replaceChar old new s).toList := by
  rw [mem_replaceChar]
  rintro (⟨-, hold⟩ | ⟨-, heq⟩)
  · exact hold rfl
  · exact hne heq

theorem replaceChar_of_not_mem (h : old ∉ s.toList) : replaceChar old new s = s := by
  rw [← String.toList_inj, toList_replaceChar]
  refine (List.map_congr_left fun c hc => ?_).trans (List.map_id _)
  have hne : c ≠ old := fun heq => h (heq ▸ hc)
  simp [hne]

/-- A replacement can be undone if the new character was not there before. -/
theorem replaceChar_replaceChar (h : new ∉ s.toList) :
    replaceChar new old (replaceChar old new s) = s := by
  rw [← String.toList_inj, toList_replaceChar, toList_replaceChar, List.map_map]
  refine (List.map_congr_left fun c hc => ?_).trans (List.map_id _)
  have hne : c ≠ new := fun heq => h (heq ▸ hc)
  by_cases hold : c = old <;> simp [hold, hne]

/-- Where the new character does not show, nothing was replaced. -/
theorem eq_of_replaceChar_eq {r : String} (h : replaceChar old new s = r) (hr : new ∉ r.toList) :
    s = r := by
  subst h
  have hold : old ∉ s.toList := fun hmem => hr ((mem_replaceChar old).2 (.inr ⟨hmem, rfl⟩))
  exact (replaceChar_of_not_mem old hold).symm

theorem length_le_utf8ByteSize (s : String) : s.toList.length ≤ s.utf8ByteSize := by
  rw [← Binary.ModifiedUtf8.length_toUTF8, Binary.ModifiedUtf8.toList_toUTF8]
  induction s.toList with
  | nil => exact Nat.le_refl 0
  | cons c cs ih =>
    have hc := c.utf8Size_pos
    rw [List.length_cons, List.flatMap_cons, List.length_append, String.length_utf8EncodeChar]
    omega

end Text

theorem Primitive.keyword_ne_void (p : Primitive) : p.keyword ≠ "void" := by
  cases p <;> decide

theorem Primitive.code_of_ofCode? {c : Char} {p : Primitive} (h : ofCode? c = some p) :
    p.code = c := by
  simpa using List.find?_some h

namespace Descriptor

/-! ### Types of trees -/

/-- The element type that is read. -/
def ElementForm.type : ElementForm chars → ElementType
  | primitive p => .primitive p
  | object name _ => .object (.ofInternal (String.ofList name))

/-- The type that is read. -/
def TypeForm.type (t : TypeForm chars) : TypeName := ⟨t.element.type, t.dims⟩

/-- The type of a result that is read. -/
def resultType : Option (TypeForm chars) → TypeName
  | none => ⟨.void, 0⟩
  | some t => t.type

/-- The types that are read. -/
def MethodForm.types (d : MethodForm chars) : List TypeName × TypeName :=
  (d.params.map TypeForm.type, resultType d.result)

theorem TypeForm.text_type (t : TypeForm chars) : t.type.text = t.text := by
  obtain ⟨dims, element⟩ := t
  cases element <;> rfl

theorem text_resultType (t : Option (TypeForm chars)) : (resultType t).text = resultText t := by
  cases t with
  | none => rfl
  | some t => exact t.text_type

/-! ### Element types -/

theorem readElement_spelling (e : ElementForm chars) (dims : Nat) (rest : List Char) :
    readElement dims (e.spelling ++ rest) = .ok (e.type, rest) := by
  cases e with
  | primitive p => cases p <;> rfl
  | object name h =>
    have hname : ∀ c ∈ name, (c != ';') = true := by
      intro c hc
      rw [bne_iff_ne]
      rintro rfl
      exact h hc
    rw [ElementForm.spelling_object_append]
    change readElement dims ('L' :: (name ++ ';' :: rest)) = _
    rw [readElement, List.dropWhile_append_of_pos hname, List.takeWhile_append_of_pos hname]
    simp [ElementForm.type]

theorem exists_of_readElement {dims : Nat} {cs rest : List Char} {e : ElementType}
    (h : readElement dims cs = .ok (e, rest)) :
    (∃ f : ElementForm chars, cs = f.spelling ++ rest ∧ f.type = e) ∨
      dims = 0 ∧ cs = 'V' :: rest ∧ e = .void := by
  cases cs with
  | nil => cases h
  | cons c cs =>
    rw [readElement] at h
    split at h
    · next hc =>
      obtain rfl := eq_of_beq hc
      split at h
      · cases h
      · next d after hdrop =>
        obtain ⟨rfl, rfl⟩ := Prod.mk.inj (Except.ok.inj h)
        have hd : d = ';' := by
          have hhead := List.head?_dropWhile_not (· != ';') cs
          rw [hdrop] at hhead
          simpa using hhead
        have hname : chars.mark .endName ∉ cs.takeWhile (· != ';') := by
          intro hmem
          have hne := List.mem_takeWhile_imp hmem
          rw [bne_iff_ne] at hne
          exact hne rfl
        refine .inl ⟨.object _ hname, ?_, rfl⟩
        rw [ElementForm.spelling_object_append]
        change 'L' :: cs = 'L' :: (cs.takeWhile (· != ';') ++ ';' :: after)
        rw [hd] at hdrop
        rw [← hdrop, List.takeWhile_append_dropWhile]
    · split at h
      · next hc =>
        obtain rfl := eq_of_beq hc
        split at h
        · next hdims =>
          obtain ⟨rfl, rfl⟩ := Prod.mk.inj (Except.ok.inj h)
          exact .inr ⟨hdims, rfl, rfl⟩
        · cases h
      · split at h
        · next p hp =>
          obtain ⟨rfl, rfl⟩ := Prod.mk.inj (Except.ok.inj h)
          refine .inl ⟨.primitive p, ?_, rfl⟩
          rw [← Primitive.code_of_ofCode? hp]
          rfl
        · cases h

/-! ### Types -/

theorem readType_spelling (t : TypeForm chars) (rest : List Char) :
    readType (t.spelling ++ rest) = .ok (t.type, rest) := by
  obtain ⟨dims, element⟩ := t
  have hbrackets : ∀ c ∈ List.replicate dims '[', (c == '[') = true := by
    intro c hc
    rw [List.eq_of_mem_replicate hc]
    rfl
  obtain ⟨m, tail, hm, hne, -⟩ := element.spelling_eq_cons
  have hmark : chars.mark m ≠ '[' := fun h => hne (chars.mark_injective h)
  have htake : (element.spelling ++ rest).takeWhile (· == '[') = [] := by
    rw [hm]
    exact List.takeWhile_cons_of_neg (by simpa using hmark)
  have hdrop : (element.spelling ++ rest).dropWhile (· == '[') = element.spelling ++ rest := by
    rw [hm]
    exact List.dropWhile_cons_of_neg (by simpa using hmark)
  change readType (List.replicate dims '[' ++ element.spelling ++ rest) = _
  rw [readType, List.append_assoc, List.takeWhile_append_of_pos hbrackets,
    List.dropWhile_append_of_pos hbrackets, htake, hdrop, List.append_nil, List.length_replicate,
    readElement_spelling]
  rfl

theorem exists_of_readType {cs rest : List Char} {type : TypeName}
    (h : readType cs = .ok (type, rest)) :
    (∃ t : TypeForm chars, cs = t.spelling ++ rest ∧ t.type = type) ∨
      cs = 'V' :: rest ∧ type = ⟨.void, 0⟩ := by
  have hbrackets : cs.takeWhile (· == '[') =
      List.replicate (cs.takeWhile (· == '[')).length '[' := by
    rw [List.eq_replicate_iff]
    exact ⟨rfl, fun c hc => by simpa using List.mem_takeWhile_imp hc⟩
  obtain ⟨⟨element, after⟩, helement, hpair⟩ := Binary.map_eq_ok_iff.1 h
  obtain ⟨rfl, rfl⟩ := Prod.mk.inj hpair
  rcases exists_of_readElement helement with ⟨e, hcs, rfl⟩ | ⟨hdims, hcs, rfl⟩
  · refine .inl ⟨⟨_, e⟩, ?_, rfl⟩
    change cs = List.replicate _ '[' ++ e.spelling ++ after
    rw [List.append_assoc, ← hcs, ← hbrackets, List.takeWhile_append_dropWhile]
  · refine .inr ⟨?_, by rw [hdims]⟩
    have hsplit := List.takeWhile_append_dropWhile (p := (· == '[')) (l := cs)
    rw [List.length_eq_zero_iff.1 hdims, hcs, List.nil_append] at hsplit
    exact hsplit.symm

/-! ### Parameters -/

theorem readParams_spelling {ts : List (TypeForm chars)} (h : ∀ t ∈ ts, t.text ≠ "void")
    (rest : List Char) :
    readParams (ts.flatMap TypeForm.spelling ++ ')' :: rest) =
      .ok (ts.map TypeForm.type, rest) := by
  induction ts with
  | nil => rw [List.flatMap_nil, List.nil_append, readParams.eq_def]; rfl
  | cons t ts ih =>
    rw [List.forall_mem_cons] at h
    obtain ⟨m, tail, hm, hne, -⟩ := t.spelling_eq_cons
    have hmark : chars.mark m ≠ ')' := fun h => hne (chars.mark_injective h)
    have hread := readType_spelling t (ts.flatMap TypeForm.spelling ++ ')' :: rest)
    rw [List.flatMap_cons, List.append_assoc]
    rw [hm, List.cons_append] at hread ⊢
    rw [readParams.eq_def]
    simp only [beq_iff_eq, hmark, if_false]
    split
    · next e he => rw [hread] at he; cases he
    · next t' after ht' =>
      rw [hread] at ht'
      obtain ⟨rfl, rfl⟩ := Prod.mk.inj (Except.ok.inj ht')
      rw [t.text_type, if_neg h.1, ih h.2]
      rfl

theorem exists_of_readParams {cs rest : List Char} {types : List TypeName}
    (h : readParams cs = .ok (types, rest)) :
    ∃ ts : List (TypeForm chars), cs = ts.flatMap TypeForm.spelling ++ ')' :: rest ∧
      ts.map TypeForm.type = types ∧ ∀ t ∈ ts, t.text ≠ "void" := by
  fun_induction readParams cs generalizing types with
  | case1 => cases h
  | case2 c after hc =>
    obtain ⟨rfl, rfl⟩ := Prod.mk.inj (Except.ok.inj h)
    obtain rfl := eq_of_beq hc
    exact ⟨[], rfl, rfl, List.forall_mem_nil _⟩
  | case3 => cases h
  | case4 => cases h
  | case5 => cases h
  | case6 c after hc t next hread hvoid types' result hrest ih =>
    obtain ⟨rfl, rfl⟩ := Prod.mk.inj (Except.ok.inj h)
    obtain ⟨ts, rfl, rfl, hts⟩ := ih hrest
    rcases exists_of_readType hread with ⟨t, hcs, rfl⟩ | ⟨-, rfl⟩
    · refine ⟨t :: ts, ?_, rfl, List.forall_mem_cons.2 ⟨?_, hts⟩⟩
      · rw [hcs, List.flatMap_cons, List.append_assoc]
      · rwa [← t.text_type]
    · exact absurd rfl hvoid

/-! ### Descriptors -/

theorem readType_resultSpelling (t : Option (TypeForm chars)) :
    readType (resultSpelling t) = .ok (resultType t, []) := by
  cases t with
  | none => rfl
  | some t =>
    rw [resultSpelling, ← List.append_nil t.spelling]
    exact readType_spelling t []

theorem exists_of_readType_result {cs : List Char} {type : TypeName}
    (h : readType cs = .ok (type, [])) :
    ∃ t : Option (TypeForm chars), cs = resultSpelling t ∧ resultType t = type := by
  rcases exists_of_readType h with ⟨t, hcs, rfl⟩ | ⟨rfl, rfl⟩
  · exact ⟨some t, hcs.trans (List.append_nil t.spelling), rfl⟩
  · exact ⟨none, rfl, rfl⟩

/-- Only the class `void` and the keyword have that text. -/
theorem TypeForm.text_eq_void_iff {α : Type} {A : Alphabet α} {t : TypeForm A} :
    t.text = "void" ↔ t.IsVoidClass := by
  obtain ⟨dims, element⟩ := t
  cases dims with
  | zero =>
    have htext : (⟨0, element⟩ : TypeForm A).text = element.text := String.append_empty
    rw [htext]
    cases element with
    | primitive p =>
      refine iff_of_false p.keyword_ne_void ?_
      rintro ⟨-, name, h, hname, -⟩
      cases hname
    | object name h =>
      constructor
      · exact fun hvoid =>
          ⟨rfl, name, h, rfl, Text.eq_of_replaceChar_eq '/' hvoid (by decide)⟩
      · rintro ⟨-, name', h', hname, hvoid⟩
        obtain ⟨rfl⟩ := hname
        rw [ElementForm.text, hvoid, Text.replaceChar_of_not_mem '/' (by decide)]
  | succ dims =>
    refine iff_of_false (fun hvoid => ?_) fun h => absurd h.1 (Nat.succ_ne_zero dims)
    have hmem : ']' ∈ (⟨dims + 1, element⟩ : TypeForm A).text.toList := by
      simp [TypeForm.text, String.toList_join, List.replicate_succ]
    rw [hvoid] at hmem
    revert hmem
    decide

theorem MethodForm.length_spelling {α : Type} {A : Alphabet α} (d : MethodForm A) :
    3 ≤ d.spelling.length := by
  have hresult : 0 < (resultSpelling d.result).length := by
    cases d.result with
    | none => exact Nat.one_pos
    | some t =>
      obtain ⟨m, rest, hm, -⟩ := t.spelling_eq_cons
      rw [resultSpelling, hm]
      exact Nat.succ_pos _
  simp only [spelling, List.length_cons, List.length_append]
  omega

theorem parse_eq_ok {desc : String} {params : List TypeName} {result : TypeName} :
    parse desc = .ok (params, result) ↔ ∃ cs rest, desc.toList = '(' :: cs ∧
      3 ≤ desc.utf8ByteSize ∧ readParams cs = .ok (params, rest) ∧
      readType rest = .ok (result, []) := by
  have hparse : parse desc = .ok (params, result) ↔ read desc = .ok (params, result) := by
    rw [parse]
    cases read desc with
    | error e => exact iff_of_false nofun nofun
    | ok types => simp only [Except.mapError, Except.ok.injEq]
  rw [hparse]
  constructor
  · intro h
    rw [read] at h
    split at h
    · next cs hcs =>
      split at h
      · cases h
      · next hsize =>
        split at h
        · cases h
        · next params rest hparams =>
          split at h
          · cases h
          · next result hresult =>
            cases h
            exact ⟨cs, rest, hcs, Nat.not_lt.1 hsize, hparams, hresult⟩
          · cases h
    · cases h
  · rintro ⟨cs, rest, hcs, hsize, hparams, hresult⟩
    rw [read, hcs]
    simp only [Nat.not_lt.2 hsize, if_false, hparams, hresult]

/-- The texts that are read are those of the grammar. -/
theorem parse_eq_ok_iff {desc : String} {types : List TypeName × TypeName} :
    parse desc = .ok types ↔
      ∃ d : MethodForm chars, d.spelling = desc.toList ∧ d.IsAdmissible ∧ d.types = types := by
  rw [parse_eq_ok]
  constructor
  · rintro ⟨cs, rest, hcs, -, hparams, hresult⟩
    obtain ⟨ts, rfl, hts, hvoid⟩ := exists_of_readParams hparams
    obtain ⟨t, rfl, ht⟩ := exists_of_readType_result hresult
    refine ⟨⟨ts, t⟩, hcs.symm, fun t ht => ?_, Prod.ext hts ht⟩
    exact mt TypeForm.text_eq_void_iff.2 (hvoid t ht)
  · rintro ⟨d, hdesc, h, rfl⟩
    have hsize := d.length_spelling
    rw [hdesc] at hsize
    refine ⟨_, _, hdesc.symm, hsize.trans (Text.length_le_utf8ByteSize desc), ?_,
      readType_resultSpelling d.result⟩
    exact readParams_spelling (fun t ht => mt TypeForm.text_eq_void_iff.1 (h t ht)) _

/-! ### Bytes -/

/-- The tree of the text that the bytes of a tree hold. -/
def ElementForm.held : ElementForm bytes → ElementForm chars
  | primitive p => .primitive p
  | object name h => .object (Text.hold name).toList
      (mt (Text.mem_toList_hold (Mark.isAscii_char .endName)).1 h)

@[inherit_doc ElementForm.held]
def TypeForm.held (t : TypeForm bytes) : TypeForm chars := ⟨t.dims, t.element.held⟩

@[inherit_doc ElementForm.held]
def MethodForm.held (d : MethodForm bytes) : MethodForm chars :=
  ⟨d.params.map TypeForm.held, d.result.map TypeForm.held⟩

theorem TypeForm.text_held (t : TypeForm bytes) : t.held.text = t.text := by
  obtain ⟨dims, element⟩ := t
  cases element with
  | primitive p => rfl
  | object name h =>
    change Text.replaceChar '/' '.' (String.ofList (Text.hold name).toList) ++ _ = _
    rw [String.ofList_toList]
    rfl

theorem MethodForm.texts_held (d : MethodForm bytes) : d.held.texts = d.texts := by
  obtain ⟨params, result⟩ := d
  refine Prod.ext ?_ ?_
  · simp only [texts, held, List.map_map]
    exact List.map_congr_left fun t _ => t.text_held
  · cases result with
    | none => rfl
    | some t => exact t.text_held

theorem MethodForm.isAdmissible_held (d : MethodForm bytes) :
    d.held.IsAdmissible ↔ d.IsAdmissible := by
  simp only [IsAdmissible, ← TypeForm.text_eq_void_iff, held, List.forall_mem_map,
    TypeForm.text_held]

theorem toList_hold_mark (m : Mark) (bs : List UInt8) :
    (Text.hold (bytes.mark m :: bs)).toList = chars.mark m :: (Text.hold bs).toList :=
  Text.toList_hold_cons m.isAscii_char bs

theorem exists_of_toList_hold_mark {m : Mark} {bs : List UInt8} {r : List Char}
    (h : (Text.hold bs).toList = chars.mark m :: r) :
    ∃ after, bs = bytes.mark m :: after ∧ (Text.hold after).toList = r :=
  Text.exists_of_toList_hold_cons m.isAscii_char h

theorem ElementForm.toList_hold_spelling (e : ElementForm bytes) (bs : List UInt8) :
    (Text.hold (e.spelling ++ bs)).toList = e.held.spelling ++ (Text.hold bs).toList := by
  cases e with
  | primitive p => exact toList_hold_mark (.primitive p) bs
  | object name h =>
    rw [spelling_object_append, toList_hold_mark, held, spelling_object_append]
    exact congrArg _ (Text.toList_hold_append (Mark.isAscii_char .endName) name bs)

theorem ElementForm.exists_of_toList_hold {e : ElementForm chars} {bs : List UInt8} {r : List Char}
    (h : (Text.hold bs).toList = e.spelling ++ r) :
    ∃ (f : ElementForm bytes) (after : List UInt8),
      bs = f.spelling ++ after ∧ f.held = e ∧ (Text.hold after).toList = r := by
  cases e with
  | primitive p =>
    obtain ⟨after, rfl, hafter⟩ := exists_of_toList_hold_mark h
    exact ⟨.primitive p, after, rfl, rfl, hafter⟩
  | object name hname =>
    rw [spelling_object_append] at h
    obtain ⟨rest, rfl, hrest⟩ := exists_of_toList_hold_mark h
    obtain ⟨name', after, rfl, rfl, hafter⟩ :=
      Text.exists_of_toList_hold (Mark.isAscii_char .endName) hrest
    refine ⟨.object name' (mt (Text.mem_toList_hold (Mark.isAscii_char .endName)).2 hname), after,
      ?_, rfl, hafter⟩
    rw [spelling_object_append]
    rfl

theorem TypeForm.toList_hold_spelling (t : TypeForm bytes) (bs : List UInt8) :
    (Text.hold (t.spelling ++ bs)).toList = t.held.spelling ++ (Text.hold bs).toList := by
  obtain ⟨dims, element⟩ := t
  induction dims with
  | zero => exact element.toList_hold_spelling bs
  | succ dims ih => exact (toList_hold_mark .dimension _).trans (congrArg _ ih)

theorem TypeForm.exists_of_toList_hold {t : TypeForm chars} {bs : List UInt8} {r : List Char}
    (h : (Text.hold bs).toList = t.spelling ++ r) :
    ∃ (f : TypeForm bytes) (after : List UInt8),
      bs = f.spelling ++ after ∧ f.held = t ∧ (Text.hold after).toList = r := by
  obtain ⟨dims, element⟩ := t
  induction dims generalizing bs with
  | zero =>
    obtain ⟨f, after, hbs, rfl, hafter⟩ := ElementForm.exists_of_toList_hold h
    exact ⟨⟨0, f⟩, after, hbs, rfl, hafter⟩
  | succ dims ih =>
    obtain ⟨rest, rfl, hrest⟩ := exists_of_toList_hold_mark h
    obtain ⟨f, after, rfl, hf, hafter⟩ := ih hrest
    obtain ⟨rfl, rfl⟩ := TypeForm.mk.inj hf
    exact ⟨⟨f.dims + 1, f.element⟩, after, rfl, rfl, hafter⟩

theorem toList_hold_params (ts : List (TypeForm bytes)) (bs : List UInt8) :
    (Text.hold (ts.flatMap TypeForm.spelling ++ bs)).toList =
      (ts.map TypeForm.held).flatMap TypeForm.spelling ++ (Text.hold bs).toList := by
  induction ts with
  | nil => rfl
  | cons t ts ih =>
    rw [List.flatMap_cons, List.append_assoc, t.toList_hold_spelling, ih, List.map_cons,
      List.flatMap_cons, List.append_assoc]

theorem exists_of_toList_hold_params {ts : List (TypeForm chars)} {bs : List UInt8} {r : List Char}
    (h : (Text.hold bs).toList = ts.flatMap TypeForm.spelling ++ r) :
    ∃ (fs : List (TypeForm bytes)) (after : List UInt8),
      bs = fs.flatMap TypeForm.spelling ++ after ∧ fs.map TypeForm.held = ts ∧
        (Text.hold after).toList = r := by
  induction ts generalizing bs with
  | nil => exact ⟨[], bs, rfl, rfl, h⟩
  | cons t ts ih =>
    rw [List.flatMap_cons, List.append_assoc] at h
    obtain ⟨f, rest, rfl, rfl, hrest⟩ := TypeForm.exists_of_toList_hold h
    obtain ⟨fs, after, rfl, rfl, hafter⟩ := ih hrest
    exact ⟨f :: fs, after, by rw [List.flatMap_cons, List.append_assoc], rfl, hafter⟩

theorem toList_hold_resultSpelling (t : Option (TypeForm bytes)) :
    (Text.hold (resultSpelling t)).toList = resultSpelling (t.map TypeForm.held) := by
  cases t with
  | none =>
    refine (toList_hold_mark .void []).trans ?_
    rw [Text.hold_eq_empty_iff.2 rfl]
    rfl
  | some t =>
    have h := t.toList_hold_spelling []
    rw [Text.hold_eq_empty_iff.2 rfl, List.append_nil] at h
    exact h.trans (List.append_nil _)

theorem exists_of_toList_hold_result {t : Option (TypeForm chars)} {bs : List UInt8}
    (h : (Text.hold bs).toList = resultSpelling t) :
    ∃ f : Option (TypeForm bytes), bs = resultSpelling f ∧ f.map TypeForm.held = t := by
  cases t with
  | none =>
    obtain ⟨after, rfl, hafter⟩ := exists_of_toList_hold_mark h
    obtain rfl := Text.hold_eq_empty_iff.1 (String.toList_inj.1 hafter)
    exact ⟨none, rfl, rfl⟩
  | some t =>
    rw [resultSpelling, ← List.append_nil t.spelling] at h
    obtain ⟨f, after, rfl, rfl, hafter⟩ := TypeForm.exists_of_toList_hold h
    obtain rfl := Text.hold_eq_empty_iff.1 (String.toList_inj.1 hafter)
    exact ⟨some f, List.append_nil _, rfl⟩

theorem MethodForm.toList_hold_spelling (d : MethodForm bytes) :
    (Text.hold d.spelling).toList = d.held.spelling := by
  rw [spelling, toList_hold_mark, toList_hold_params, toList_hold_mark, toList_hold_resultSpelling]
  rfl

theorem MethodForm.exists_of_toList_hold {d : MethodForm chars} {bs : List UInt8}
    (h : (Text.hold bs).toList = d.spelling) :
    ∃ f : MethodForm bytes, f.spelling = bs ∧ f.held = d := by
  obtain ⟨params, result⟩ := d
  obtain ⟨rest, rfl, hrest⟩ := exists_of_toList_hold_mark h
  obtain ⟨fs, last, rfl, rfl, hlast⟩ := exists_of_toList_hold_params hrest
  obtain ⟨after, rfl, hafter⟩ := exists_of_toList_hold_mark hlast
  obtain ⟨f, rfl, rfl⟩ := exists_of_toList_hold_result hafter
  exact ⟨⟨fs, f⟩, rfl, rfl⟩

theorem parse_hold_eq_ok_iff {bs : List UInt8} {types : List TypeName × TypeName} :
    parse (Text.hold bs) = .ok types ↔
      ∃ d : MethodForm bytes, d.spelling = bs ∧ d.IsAdmissible ∧ d.held.types = types := by
  rw [parse_eq_ok_iff]
  constructor
  · rintro ⟨d, hd, hvoid, rfl⟩
    obtain ⟨f, rfl, rfl⟩ := MethodForm.exists_of_toList_hold hd.symm
    exact ⟨f, rfl, f.isAdmissible_held.1 hvoid, rfl⟩
  · rintro ⟨d, rfl, hvoid, rfl⟩
    exact ⟨d.held, d.toList_hold_spelling.symm, d.isAdmissible_held.2 hvoid, rfl⟩

/-- The texts of the types that are read. -/
def typeTexts (types : List TypeName × TypeName) : List String × String :=
  (types.1.map TypeName.text, types.2.text)

theorem MethodForm.typeTexts_types (d : MethodForm chars) : typeTexts d.types = d.texts := by
  refine Prod.ext ?_ (text_resultType d.result)
  simp only [typeTexts, types, texts, List.map_map]
  exact List.map_congr_left fun t _ => t.text_type

/-- Bytes are read exactly if they are written in the grammar and no parameter is of the type
    `Lvoid;`. There is one tree only that is written so, and what is read are its texts. Every text
    is held by its bytes, so this is about all texts, too. -/
theorem parse_hold_exact :
    (∀ desc : String, Text.hold (Text.toBytes desc) = desc) ∧
    Function.Injective (MethodForm.spelling (A := bytes)) ∧
    ∀ bs : List UInt8,
      ((∃ types, parse (Text.hold bs) = .ok types) ↔
        ∃ d : MethodForm bytes, d.spelling = bs ∧ d.IsAdmissible) ∧
      ∀ texts, (parse (Text.hold bs)).map typeTexts = .ok texts ↔
        ∃ d : MethodForm bytes, d.spelling = bs ∧ d.IsAdmissible ∧ d.texts = texts := by
  refine ⟨Text.hold_toBytes, MethodForm.spelling_injective, fun bs => ⟨?_, fun texts => ?_⟩⟩
  · constructor
    · rintro ⟨types, htypes⟩
      obtain ⟨d, hd, hvoid, -⟩ := parse_hold_eq_ok_iff.1 htypes
      exact ⟨d, hd, hvoid⟩
    · rintro ⟨d, hd, hvoid⟩
      exact ⟨_, parse_hold_eq_ok_iff.2 ⟨d, hd, hvoid, rfl⟩⟩
  · rw [Binary.map_eq_ok_iff]
    constructor
    · rintro ⟨types, htypes, rfl⟩
      obtain ⟨d, hd, hvoid, rfl⟩ := parse_hold_eq_ok_iff.1 htypes
      exact ⟨d, hd, hvoid, by rw [MethodForm.typeTexts_types, MethodForm.texts_held]⟩
    · rintro ⟨d, hd, hvoid, rfl⟩
      exact ⟨_, parse_hold_eq_ok_iff.2 ⟨d, hd, hvoid, rfl⟩,
        by rw [MethodForm.typeTexts_types, MethodForm.texts_held]⟩

end Descriptor

end KernelReach
