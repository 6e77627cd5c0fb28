import KernelReach.Class.Signature
import KernelReach.Proofs.Class.Reading

/-!
# Signatures and their descriptors

A signature keeps the types of a method as source code writes them, and its parameter types in one
text. Nothing is lost by that as long as the names of classes are plain: such a descriptor can be
had back from the signature, and such types from the descriptor (`Signature.descriptor_inverse`).

Both directions rest on a tree with plain names: its texts give back its parts
(`paramTypes_ofTypes`), and each of them gives back how the type is written
(`typeDescriptor_text`).
-/

namespace KernelReach

/-! ### Plain names -/

/-- The texts of `void` and of the primitive types. -/
def keywords : List String := "void" :: Primitive.all.map Primitive.keyword

theorem Primitive.mem_all (p : Primitive) : p ∈ all := by
  cases p <;> decide

theorem Primitive.keyword_mem (p : Primitive) : p.keyword ∈ keywords :=
  List.mem_cons_of_mem _ (List.mem_map_of_mem p.mem_all)

theorem Primitive.ofKeyword?_keyword (p : Primitive) : ofKeyword? p.keyword = some p := by
  cases p <;> decide

theorem Primitive.ofKeyword?_eq_none {s : String} (h : s ∉ keywords) : ofKeyword? s = none := by
  refine List.find?_eq_none.2 fun p _ => ?_
  rw [beq_iff_eq]
  rintro rfl
  exact h p.keyword_mem

/-- No keyword holds a character that has a meaning in names or in lists. -/
theorem not_mem_keyword {s : String} (h : s ∈ keywords) :
    s ≠ "" ∧ ∀ c ∈ ['.', '/', '[', ','], c ∉ s.toList := by
  have hall : ∀ s ∈ keywords, s ≠ "" ∧ '.' ∉ s.toList ∧ '/' ∉ s.toList ∧ '[' ∉ s.toList ∧
      ',' ∉ s.toList := by decide
  simpa using hall s h

/-- A name of a class as descriptors have it, with slashes, that source code can tell from
    everything else. -/
structure IsPlainName (s : String) : Prop where
  ne_empty : s ≠ ""
  dot : '.' ∉ s.toList
  comma : ',' ∉ s.toList
  bracket : '[' ∉ s.toList
  not_keyword : s ∉ keywords

/-- A name of a class as source code has it, with dots, that descriptors can tell from everything
    else. -/
structure IsDottedName (s : String) : Prop where
  ne_empty : s ≠ ""
  comma : ',' ∉ s.toList
  semicolon : ';' ∉ s.toList
  slash : '/' ∉ s.toList
  bracket : '[' ∉ s.toList
  not_keyword : s ∉ keywords

/-- A type as source code writes it: a primitive type or a class, and any number of `[]`. -/
def IsTypeText (s : String) : Prop :=
  ∃ (base : String) (dims : Nat), s = base ++ String.join (List.replicate dims "[]") ∧
    ((∃ p : Primitive, base = p.keyword) ∨ IsDottedName base)

theorem replaceChar_not_mem_keywords (old : Char) {new : Char} {s : String} (h : s ∉ keywords)
    (hnew : new ∈ ['.', '/', '[', ',']) :
    Text.replaceChar old new s ∉ keywords := by
  intro hmem
  have heq := Text.eq_of_replaceChar_eq old rfl ((not_mem_keyword hmem).2 new hnew)
  exact h (heq ▸ hmem)

theorem IsDottedName.isPlainName {s : String} (h : IsDottedName s) :
    IsPlainName (Text.replaceChar '.' '/' s) where
  ne_empty := Text.replaceChar_ne_empty '.' h.ne_empty
  dot := Text.old_not_mem_replaceChar '.' (by decide)
  comma := Text.not_mem_replaceChar '.' h.comma (by decide)
  bracket := Text.not_mem_replaceChar '.' h.bracket (by decide)
  not_keyword := replaceChar_not_mem_keywords '.' h.not_keyword (by decide)

namespace Descriptor

/-! ### Plain trees -/

/-- The name of the class is plain, if the type has one. -/
def TypeForm.IsPlain (t : TypeForm chars) : Prop :=
  ∀ name h, t.element = .object name h → IsPlainName (String.ofList name)

/-- The names of all classes are plain. -/
structure MethodForm.IsPlain (d : MethodForm chars) : Prop where
  params : ∀ t ∈ d.params, t.IsPlain
  result : ∀ t ∈ d.result, t.IsPlain

/-- The descriptor is accepted, and its class types have plain names. -/
structure IsPlain (desc : String) : Prop where
  accepted : ∃ types, parse desc = .ok types
  plain : ∀ d : MethodForm chars, d.spelling = desc.toList → d.IsPlain

theorem TypeForm.IsPlain.not_isVoidClass {t : TypeForm chars} (h : t.IsPlain) :
    ¬ t.IsVoidClass := by
  rintro ⟨-, name, hname, helement, hvoid⟩
  refine (h name hname helement).not_keyword ?_
  change String.ofList name = "void" at hvoid
  rw [hvoid]
  exact List.mem_cons_self

theorem MethodForm.IsPlain.isAdmissible {d : MethodForm chars} (h : d.IsPlain) : d.IsAdmissible :=
  fun t ht => (h.params t ht).not_isVoidClass

theorem isPlain_iff {desc : String} :
    IsPlain desc ↔ ∃ d : MethodForm chars, d.spelling = desc.toList ∧ d.IsPlain := by
  constructor
  · rintro ⟨⟨types, htypes⟩, hplain⟩
    obtain ⟨d, hd, -⟩ := parse_eq_ok_iff.1 htypes
    exact ⟨d, hd, hplain d hd⟩
  · rintro ⟨d, hd, hplain⟩
    refine ⟨⟨_, parse_eq_ok_iff.2 ⟨d, hd, hplain.isAdmissible, rfl⟩⟩, fun d' hd' => ?_⟩
    rwa [MethodForm.spelling_injective (hd'.trans hd.symm)]

/-- The text of a plain type can stand in a list. -/
theorem TypeForm.IsPlain.text_listable {t : TypeForm chars} (h : t.IsPlain) :
    t.text ≠ "" ∧ ',' ∉ t.text.toList := by
  obtain ⟨dims, element⟩ := t
  have helement : element.text ≠ "" ∧ ',' ∉ element.text.toList := by
    cases element with
    | primitive p =>
      obtain ⟨hempty, hchars⟩ := not_mem_keyword p.keyword_mem
      exact ⟨hempty, hchars ',' (by decide)⟩
    | object name hname =>
      have hplain := h name hname rfl
      exact ⟨Text.replaceChar_ne_empty '/' hplain.ne_empty,
        Text.not_mem_replaceChar '/' hplain.comma (by decide)⟩
  refine ⟨fun hempty => helement.1 (String.append_eq_empty_iff.1 hempty).1, ?_⟩
  rw [text, String.toList_append, List.mem_append]
  rintro (hmem | hmem)
  · exact helement.2 hmem
  · rw [String.toList_join, List.mem_flatMap] at hmem
    obtain ⟨bracket, hbracket, hmem⟩ := hmem
    rw [List.eq_of_mem_replicate hbracket] at hmem
    exact absurd hmem (by decide)

theorem MethodForm.IsPlain.texts_listable {d : MethodForm chars} (h : d.IsPlain) :
    ∀ s ∈ d.texts.1, s ≠ "" ∧ ',' ∉ s.toList :=
  List.forall_mem_map.2 fun t ht => (h.params t ht).text_listable

theorem exists_of_isTypeText {s : String} (h : IsTypeText s) :
    ∃ t : TypeForm chars, t.IsPlain ∧ t.text = s := by
  obtain ⟨base, dims, rfl, ⟨p, rfl⟩ | hname⟩ := h
  · exact ⟨⟨dims, .primitive p⟩, nofun, rfl⟩
  · have hend : chars.mark .endName ∉ (Text.replaceChar '.' '/' base).toList :=
      Text.not_mem_replaceChar '.' hname.semicolon (by decide)
    refine ⟨⟨dims, .object _ hend⟩, ?_, ?_⟩
    · rintro name h ⟨⟩
      rw [String.ofList_toList]
      exact hname.isPlainName
    · change Text.replaceChar '/' '.' (String.ofList _) ++ _ = _
      rw [String.ofList_toList, Text.replaceChar_replaceChar '.' hname.slash]

theorem exists_of_isTypeText_params {params : List String} (h : ∀ s ∈ params, IsTypeText s) :
    ∃ ts : List (TypeForm chars), (∀ t ∈ ts, t.IsPlain) ∧ ts.map TypeForm.text = params := by
  induction params with
  | nil => exact ⟨[], nofun, rfl⟩
  | cons s params ih =>
    obtain ⟨hs, hparams⟩ := List.forall_mem_cons.1 h
    obtain ⟨t, ht, rfl⟩ := exists_of_isTypeText hs
    obtain ⟨ts, hts, rfl⟩ := ih hparams
    exact ⟨t :: ts, List.forall_mem_cons.2 ⟨ht, hts⟩, rfl⟩

theorem exists_of_isTypeText_result {s : String} (h : s = "void" ∨ IsTypeText s) :
    ∃ r : Option (TypeForm chars), (∀ t ∈ r, t.IsPlain) ∧ resultText r = s := by
  rcases h with rfl | h
  · exact ⟨none, nofun, rfl⟩
  · obtain ⟨t, ht, rfl⟩ := exists_of_isTypeText h
    refine ⟨some t, ?_, rfl⟩
    rintro _ ⟨⟩
    exact ht

/-! ### Types -/

/-- What is left when all `[]` are taken off. -/
theorem typeDescriptor_go_brackets (base : String) (dims n : Nat) :
    typeDescriptor.go dims (base ++ String.join (List.replicate n "[]")).toList.reverse =
      typeDescriptor.go (dims + n) base.toList.reverse := by
  induction n generalizing dims with
  | zero => simp
  | succ n ih =>
    have hreverse : (base ++ String.join (List.replicate (n + 1) "[]")).toList.reverse =
        ']' :: '[' :: (base ++ String.join (List.replicate n "[]")).toList.reverse := by
      rw [List.replicate_succ']
      simp [String.toList_join]
    rw [hreverse, typeDescriptor.go, ih]
    congr 1
    omega

theorem typeDescriptor_go_base {base : String} (h : '[' ∉ base.toList) (dims : Nat) :
    typeDescriptor.go dims base.toList.reverse = String.ofList (List.replicate dims '[') ++
      if base = "void" then "V"
      else match Primitive.ofKeyword? base with
        | some p => String.singleton p.code
        | none => "L" ++ Text.replaceChar '.' '/' base ++ ";" := by
  rw [typeDescriptor.go.eq_def]
  split
  · next cs hcs =>
    refine absurd ?_ h
    rw [← List.mem_reverse, hcs]
    simp
  · rw [List.reverse_reverse, String.ofList_toList]
    rfl

theorem typeDescriptor_text {t : TypeForm chars} (h : t.IsPlain) :
    typeDescriptor t.text = String.ofList t.spelling := by
  obtain ⟨dims, element⟩ := t
  rw [typeDescriptor, TypeForm.text, typeDescriptor_go_brackets, Nat.zero_add]
  change _ = String.ofList (List.replicate dims '[' ++ element.spelling)
  rw [String.ofList_append]
  cases element with
  | primitive p =>
    have hbracket := (not_mem_keyword p.keyword_mem).2 '[' (by decide)
    change typeDescriptor.go dims p.keyword.toList.reverse = _
    rw [typeDescriptor_go_base hbracket, if_neg p.keyword_ne_void, p.ofKeyword?_keyword]
    rfl
  | object name hname =>
    have hplain := h name hname rfl
    have hkeyword : Text.replaceChar '/' '.' (String.ofList name) ∉ keywords :=
      replaceChar_not_mem_keywords '/' hplain.not_keyword (by decide)
    have hvoid : Text.replaceChar '/' '.' (String.ofList name) ≠ "void" :=
      fun heq => hkeyword (heq ▸ List.mem_cons_self)
    change typeDescriptor.go dims
      (Text.replaceChar '/' '.' (String.ofList name)).toList.reverse = _
    rw [typeDescriptor_go_base (Text.not_mem_replaceChar '/' hplain.bracket (by decide)),
      if_neg hvoid, Primitive.ofKeyword?_eq_none hkeyword]
    change _ ++ ("L" ++ Text.replaceChar '.' '/' _ ++ ";") =
      _ ++ String.ofList ('L' :: (name ++ [';']))
    rw [Text.replaceChar_replaceChar '/' hplain.dot]
    simp [← String.toList_inj]

theorem typeDescriptor_resultText {r : Option (TypeForm chars)} (h : ∀ t ∈ r, t.IsPlain) :
    typeDescriptor (resultText r) = String.ofList (resultSpelling r) := by
  cases r with
  | none => decide
  | some t => exact typeDescriptor_text (h t rfl)

end Descriptor

namespace Signature

open Descriptor

variable (owner : ClassName) (name : String)

theorem paramTypes_ofTypes {params : List String} (result : String)
    (h : ∀ s ∈ params, s ≠ "" ∧ ',' ∉ s.toList) :
    (ofTypes owner name params result).paramTypes = params := by
  cases params with
  | nil => rfl
  | cons s params =>
    have hsplit : (String.intercalate "," (s :: params)).toList.splitOn ',' =
        (s :: params).map String.toList := by
      rw [String.toList_intercalate]
      refine List.splitOn_intercalate _ ?_ (List.cons_ne_nil _ _)
      exact List.forall_mem_map.2 fun t ht => (h t ht).2
    have hne : String.intercalate "," (s :: params) ≠ "" := by
      intro hempty
      rw [hempty] at hsplit
      exact (h s List.mem_cons_self).1 (String.toList_inj.1 (List.cons.inj hsplit).1.symm)
    rw [paramTypes, ofTypes, if_neg hne, hsplit, List.map_map]
    exact (List.map_congr_left fun _ _ => String.ofList_toList).trans (List.map_id _)

/-- A plain tree can be had back from the signature with its texts. -/
theorem descriptor_ofTypes {d : MethodForm chars} (h : d.IsPlain) :
    (ofTypes owner name d.texts.1 d.texts.2).descriptor = String.ofList d.spelling := by
  have hparams : d.texts.1.map typeDescriptor = d.params.map (String.ofList ·.spelling) := by
    rw [MethodForm.texts, List.map_map]
    exact List.map_congr_left fun t ht => typeDescriptor_text (h.params t ht)
  have hresult : typeDescriptor d.texts.2 = String.ofList (resultSpelling d.result) :=
    typeDescriptor_resultText h.result
  rw [descriptor, paramTypes_ofTypes owner name _ h.texts_listable, hparams]
  change _ ++ typeDescriptor d.texts.2 = String.ofList ('(' :: (_ ++ ')' :: _))
  rw [hresult, ← String.toList_inj]
  simp [String.toList_join, List.flatMap_map]

theorem ofDescriptor_eq_ok {d : MethodForm chars} {desc : String} (hd : d.spelling = desc.toList)
    (h : d.IsAdmissible) :
    ofDescriptor owner name desc = .ok (ofTypes owner name d.texts.1 d.texts.2) := by
  rw [ofDescriptor, parse_eq_ok_iff.2 ⟨d, hd, h, rfl⟩, ← d.typeTexts_types]
  rfl

theorem descriptor_of_ofDescriptor {desc : String} (h : IsPlain desc) :
    ∃ sig types, ofDescriptor owner name desc = .ok sig ∧ parse desc = .ok types ∧
      sig.descriptor = desc ∧ sig.paramTypes = (typeTexts types).1 := by
  obtain ⟨d, hd, hplain⟩ := isPlain_iff.1 h
  refine ⟨_, _, ofDescriptor_eq_ok owner name hd hplain.isAdmissible,
    parse_eq_ok_iff.2 ⟨d, hd, hplain.isAdmissible, rfl⟩, ?_, ?_⟩
  · rw [descriptor_ofTypes owner name hplain, hd, String.ofList_toList]
  · rw [d.typeTexts_types]
    exact paramTypes_ofTypes owner name _ hplain.texts_listable

theorem parse_descriptor_ofTypes {params : List String} {result : String}
    (hparams : ∀ s ∈ params, IsTypeText s) (hresult : result = "void" ∨ IsTypeText result) :
    (parse (ofTypes owner name params result).descriptor).map typeTexts = .ok (params, result) := by
  obtain ⟨ts, hts, rfl⟩ := exists_of_isTypeText_params hparams
  obtain ⟨r, hr, rfl⟩ := exists_of_isTypeText_result hresult
  have hplain : MethodForm.IsPlain ⟨ts, r⟩ := ⟨hts, hr⟩
  have hdesc := congrArg String.toList (descriptor_ofTypes owner name hplain)
  rw [String.toList_ofList] at hdesc
  exact Binary.map_eq_ok_iff.2 ⟨_, parse_eq_ok_iff.2 ⟨_, hdesc.symm, hplain.isAdmissible, rfl⟩,
    MethodForm.typeTexts_types _⟩

/-- A plain descriptor can be had back from its signature, which keeps the list of its parameter
    types. So two of them have one signature only if they are equal. And types of source code can
    be had back from the descriptor of their signature. -/
theorem descriptor_inverse (owner : ClassName) (name : String) :
    (∀ desc, IsPlain desc → ∃ sig types,
      ofDescriptor owner name desc = .ok sig ∧ parse desc = .ok types ∧
        sig.descriptor = desc ∧ sig.paramTypes = (typeTexts types).1) ∧
    (∀ owner' name' desc desc', IsPlain desc → IsPlain desc' →
      ofDescriptor owner name desc = ofDescriptor owner' name' desc' → desc = desc') ∧
    ∀ params result, (∀ s ∈ params, IsTypeText s) → (result = "void" ∨ IsTypeText result) →
      (parse (ofTypes owner name params result).descriptor).map typeTexts =
        .ok (params, result) := by
  refine ⟨fun desc h => descriptor_of_ofDescriptor owner name h, ?_,
    fun params result => parse_descriptor_ofTypes owner name⟩
  intro owner' name' desc desc' h h' heq
  obtain ⟨sig, -, hsig, -, hdesc, -⟩ := descriptor_of_ofDescriptor owner name h
  obtain ⟨sig', -, hsig', -, hdesc', -⟩ := descriptor_of_ofDescriptor owner' name' h'
  rw [hsig, hsig'] at heq
  rw [← hdesc, ← hdesc', Except.ok.inj heq]

theorem isPlain_sample : IsPlain "(I[Ljava/lang/String;)V" := by
  have hname : IsPlainName "java/lang/String" := by constructor <;> decide
  refine isPlain_iff.2
    ⟨⟨[⟨0, .primitive .int⟩, ⟨1, .object "java/lang/String".toList (by decide)⟩], none⟩, by decide,
      ?_, ?_⟩
  · intro t ht
    rcases List.mem_pair.1 ht with rfl | rfl
    · rintro _ _ ⟨⟩
    · rintro _ _ ⟨⟩
      rwa [String.ofList_toList]
  · rintro _ ⟨⟩

theorem descriptor_inverse_mixed :
    (∃ sig types, ofDescriptor ⟨"app.K"⟩ "run" "(I[Ljava/lang/String;)V" = .ok sig ∧
      parse "(I[Ljava/lang/String;)V" = .ok types ∧
        sig.descriptor = "(I[Ljava/lang/String;)V" ∧ sig.paramTypes = (typeTexts types).1) ∧
    (parse (ofTypes ⟨"app.K"⟩ "run" ["int", "java.lang.String[]"] "void").descriptor).map
        typeTexts =
      .ok (["int", "java.lang.String[]"], "void") := by
  obtain ⟨hdescriptor, -, htypes⟩ := descriptor_inverse ⟨"app.K"⟩ "run"
  refine ⟨hdescriptor _ isPlain_sample, htypes _ _ ?_ (.inl rfl)⟩
  simp only [List.forall_mem_cons]
  refine ⟨⟨"int", 0, by decide, .inl ⟨.int, rfl⟩⟩, ?_, nofun⟩
  exact ⟨"java.lang.String", 1, by decide, .inr (by constructor <;> decide)⟩

end Signature

end KernelReach
