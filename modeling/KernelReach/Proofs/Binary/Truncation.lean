import KernelReach.Proofs.Binary.Tiers

/-!
# Files that end too early

A reader of class files looks at as many bytes as it needs, so bytes that are added to a file change
nothing, and a file that is cut gives no class. There is one exception. A file that ends before the
number of its methods is complete passes for the file of a class without methods.

* `EndsAtMethods`: the files of which this is true;
* `parse_bodies_append`, `exists_append_ne_ok`: to the others bytes can be added, to these they
  cannot;
* `parse_bodies_cut_eq_ok`: at which places a file can be cut so that the rest is still read;
* `parse_cut`: both together, at each level.
-/

namespace KernelReach.Binary.ClassFile

open Reader

variable {i : ClassInfo} {c c' : Class} {d p rest rest' left : Bytes} {l : Level}

/-! ### The part before the methods -/

/-- What comes before the methods is read up to where they begin. -/
theorem recognizes_front :
    Recognizes (readHeader >>= fun h => skipFields >>= fun _ => pure h) ClassInfo.front
      fun i h => i.toHeaderInfo.Denotes h := by
  intro bs h rest
  simp only [Reader.bind_eq_ok, Reader.pure_eq_ok, recognizes_readHeader _ _ _,
    recognizes_skipFields _ _ _, ClassInfo.front]
  constructor
  · rintro ⟨_, _, ⟨i, hi, rfl⟩, _, _, ⟨fields, -, rfl⟩, rfl, rfl⟩
    exact ⟨⟨i, fields, [], by decide⟩, hi, (List.append_assoc _ _ _).symm⟩
  · rintro ⟨i, hi, rfl⟩
    exact ⟨h, _, ⟨i.toHeaderInfo, hi, List.append_assoc _ _ _⟩, (), rest, ⟨i.fields, trivial, rfl⟩,
      rfl, rfl⟩

/-- Where the methods begin is told by the bytes, and so is all of the class but its methods. -/
theorem ClassInfo.Denotes.front_inj {i' : ClassInfo} (hi : i.Denotes c) (hi' : i'.Denotes c')
    (h : i.front ++ rest = i'.front ++ rest') :
    { c with methods := [] } = { c' with methods := [] } ∧ i.front = i'.front ∧ rest = rest' := by
  obtain ⟨hheader, rfl⟩ := recognizes_front.unique hi.header hi'.header h
  obtain ⟨name, _, flags, superclass, interfaces, methods⟩ := c
  obtain ⟨name', _, flags', superclass', interfaces', methods'⟩ := c'
  obtain rfl := hi.level
  obtain rfl := hi'.level
  simp only [Header.mk.injEq] at hheader
  obtain ⟨-, rfl, rfl, rfl, rfl⟩ := hheader
  exact ⟨rfl, List.append_cancel_right h, rfl⟩

/-- The class without its methods is in the file without its methods. -/
theorem ClassInfo.Denotes.parse_front (hi : i.Denotes c) (hleft : left.length < 2) :
    parse (i.front ++ left) .bodies = .ok { c with methods := [] } := by
  refine parse_bodies_eq_ok.2 ⟨⟨i.toHeaderInfo, i.fields, [], by decide⟩, ?_, ?_⟩
  · exact .cut rfl hleft
  · exact ⟨hi.level, hi.header, .nil⟩

/-! ### Bytes that are added -/

/-- The file is a class file that was cut before the number of its methods was complete. -/
def EndsAtMethods (d : Bytes) : Prop :=
  ∃ (i : ClassInfo) (left : Bytes), i.IsReadable ∧ left.length < 2 ∧ d = i.front ++ left

theorem parse_bodies_append (h : parse d .bodies = .ok c) (hd : ¬ EndsAtMethods d) (s : Bytes) :
    parse (d ++ s) .bodies = .ok c := by
  obtain ⟨i, ⟨rest⟩ | ⟨hnil, hlt⟩, hi⟩ := parse_bodies_eq_ok.1 h
  · rw [List.append_assoc]
    exact parse_bodies_eq_ok.2 ⟨i, .whole _, hi⟩
  · exact absurd ⟨i, _, ClassInfo.exists_denotes_iff.1 ⟨c, hi⟩, hlt, rfl⟩ hd

theorem parse_hierarchy_append (h : parse d .hierarchy = .ok c) (s : Bytes) :
    parse (d ++ s) .hierarchy = .ok c := by
  obtain ⟨rest, h⟩ := (parse_eq_ok Level.isValid_hierarchy).1 h
  rw [read_hierarchy, map_eq_ok] at h
  obtain ⟨header, hheader, rfl⟩ := h
  rw [parse_eq_ok Level.isValid_hierarchy, read_hierarchy]
  exact ⟨rest ++ s, map_eq_ok.2 ⟨header, recognizes_readHeader.append hheader s, rfl⟩⟩

theorem MemberInfo.bytes_ne_nil (e : MemberInfo) : e.bytes ≠ [] := by
  intro h
  have hlength := congrArg List.length h
  simp only [bytes, List.length_append, length_putBigEndian, List.length_nil] at hlength
  omega

/-- Two bytes that count methods are no method table, unless they count none. -/
theorem eq_nil_of_bytes_append_eq {t : Table MemberInfo} {a b : UInt8}
    (h : t.bytes MemberInfo.bytes ++ rest = [a, b]) : [a, b] = [0, 0] := by
  have hlength := congrArg List.length h
  simp only [Table.bytes, List.length_append, length_putBigEndian, List.length_cons,
    List.length_nil] at hlength
  have hrest : rest = [] := List.length_eq_zero_iff.1 (by omega)
  have hitems : t.1.flatMap MemberInfo.bytes = [] := List.length_eq_zero_iff.1 (by omega)
  have hnil : t.1 = [] := by
    rw [List.flatMap_eq_nil_iff] at hitems
    exact List.eq_nil_iff_forall_not_mem.2 fun e he => e.bytes_ne_nil (hitems e he)
  rw [← h, Table.bytes, hnil, hrest]
  rfl

/-- If a file ends before the number of its methods is complete, then a number can be added for
    which the methods are missing. -/
theorem exists_append_ne_ok (hd : EndsAtMethods d) :
    ∃ s, ∀ c, parse (d ++ s) .bodies ≠ .ok c := by
  obtain ⟨i, left, hreadable, hlt, rfl⟩ := hd
  obtain ⟨c, hi⟩ := ClassInfo.exists_denotes_iff.2 hreadable
  obtain ⟨s, a, hs⟩ : ∃ (s : Bytes) (a : UInt8), left ++ s = [a, 1] := by
    rcases left with _ | ⟨a, _ | ⟨b, left⟩⟩
    · exact ⟨[0, 1], 0, rfl⟩
    · exact ⟨[1], a, rfl⟩
    · simp only [List.length_cons] at hlt
      omega
  refine ⟨s, fun c' hparse => ?_⟩
  rw [List.append_assoc, hs] at hparse
  obtain ⟨i', hbegins, hi'⟩ := parse_bodies_eq_ok.1 hparse
  generalize hbytes : i.front ++ [a, 1] = bs at hbegins
  rcases hbegins with ⟨rest⟩ | ⟨-, hlt'⟩
  · rw [ClassInfo.bytes, List.append_assoc] at hbytes
    obtain ⟨-, -, htable⟩ := hi.front_inj hi' hbytes
    have := eq_nil_of_bytes_append_eq htable.symm
    simp only [List.cons.injEq] at this
    exact absurd this.2.1 (by decide)
  · obtain ⟨-, -, hleft⟩ := hi.front_inj hi' hbytes
    rw [← hleft] at hlt'
    exact Nat.lt_irrefl 2 hlt'

/-! ### Bytes that are cut off -/

/-- Where the methods end is told by the bytes, and so is the class. -/
theorem ClassInfo.Denotes.bytes_inj {i' : ClassInfo} (hi : i.Denotes c) (hi' : i'.Denotes c')
    (h : i.bytes ++ rest = i'.bytes ++ rest') : c = c' ∧ rest = rest' := by
  have hread : read .bodies (i.bytes ++ rest) = .ok (c, rest) :=
    read_bodies_eq_ok.2 ⟨i, hi, .inl rfl⟩
  rw [read_bodies_eq_ok.2 ⟨i', hi', .inl h⟩] at hread
  cases hread
  exact ⟨rfl, rfl⟩

/-- A class file can be cut only before the number of its methods is complete. -/
theorem parse_bodies_cut_eq_ok (hi : i.Denotes c) (hp : p <+: i.bytes) (hne : p ≠ i.bytes) :
    parse p .bodies = .ok c' ↔
      (i.front.length ≤ p.length ∧ p.length < i.front.length + 2) ∧
        c' = { c with methods := [] } := by
  constructor
  · intro h
    obtain ⟨q, hq⟩ := hp
    obtain ⟨i', ⟨rest⟩ | @⟨left, hnil, hlt⟩, hi'⟩ := parse_bodies_eq_ok.1 h
    · -- A whole file was left over, which then is the file that was cut.
      rw [List.append_assoc, ← List.append_nil i.bytes] at hq
      obtain ⟨-, hrest⟩ := hi'.bytes_inj hi hq
      obtain ⟨rfl, rfl⟩ := List.append_eq_nil_iff.1 hrest
      exact absurd (by simpa using hq) hne
    · rw [List.append_assoc, ClassInfo.bytes] at hq
      obtain ⟨hclass, hfront, -⟩ := hi'.front_inj hi hq
      have hmethods := hi'.methods
      rw [hnil, List.forall₂_nil_left_iff] at hmethods
      rw [← hclass, ← hmethods, List.length_append, hfront]
      exact ⟨⟨Nat.le_add_right _ _, Nat.add_lt_add_left hlt _⟩, rfl⟩
  · rintro ⟨⟨hle, hlt⟩, rfl⟩
    obtain ⟨left, rfl⟩ : i.front <+: p :=
      List.prefix_of_prefix_length_le (List.prefix_append _ _) hp hle
    rw [List.length_append] at hlt
    exact hi.parse_front (by omega)

/-! ### Each level -/

theorem isValid_of_parse (h : parse d l = .ok c) : l.IsValid := by
  by_contra hl
  rw [parse, if_neg hl] at h
  cases h

/-- From the method table on, the levels tell the class with its bodies, as far as they go. -/
theorem parse_eq_map (hl : l = .signatures ∨ l = .bodies) (d : Bytes) :
    parse d l = (parse d .bodies).map (·.atLevel l) := by
  rcases hl with rfl | rfl
  · exact parse_signatures d
  · rcases hparse : parse d .bodies with e | c
    · rfl
    · obtain ⟨i, -, hi⟩ := parse_bodies_eq_ok.1 hparse
      obtain ⟨name, _, flags, superclass, interfaces, methods⟩ := c
      obtain rfl := hi.level
      rfl

theorem parse_append_iff (h : parse d l = .ok c) :
    (∀ s, parse (d ++ s) l = .ok c) ↔ l = .hierarchy ∨ ¬ EndsAtMethods d := by
  by_cases hhierarchy : l = .hierarchy
  · subst hhierarchy
    exact iff_of_true (parse_hierarchy_append h) (.inl rfl)
  have hl := (isValid_of_parse h).eq_signatures_or_eq_bodies hhierarchy
  rw [or_iff_right hhierarchy]
  constructor
  · intro happend hd
    obtain ⟨s, hs⟩ := exists_append_ne_ok hd
    have hok := happend s
    rw [parse_eq_map hl] at hok
    obtain ⟨c', hc', -⟩ := map_eq_ok_iff.1 hok
    exact hs c' hc'
  · intro hd s
    rw [parse_eq_map hl] at h ⊢
    obtain ⟨c', hc', rfl⟩ := map_eq_ok_iff.1 h
    rw [parse_bodies_append hc' hd s]
    rfl

theorem parse_cut_eq_ok (hl : l = .signatures ∨ l = .bodies) (hi : i.Denotes c)
    (hp : p <+: i.bytes) (hne : p ≠ i.bytes) (hle : i.front.length ≤ p.length)
    (hlt : p.length < i.front.length + 2) :
    parse p l = .ok { c.atLevel l with methods := [] } := by
  rw [parse_eq_map hl, (parse_bodies_cut_eq_ok hi hp hne).2 ⟨⟨hle, hlt⟩, rfl⟩]
  rcases hl with rfl | rfl <;> rfl

theorem exists_parse_cut_eq_error (hl : l = .signatures ∨ l = .bodies) (hi : i.Denotes c)
    (hp : p <+: i.bytes) (hne : p ≠ i.bytes)
    (hout : ¬ (i.front.length ≤ p.length ∧ p.length < i.front.length + 2)) :
    ∃ e, parse p l = .error e := by
  rw [parse_eq_map hl]
  rcases hparse : parse p .bodies with e | c'
  · exact ⟨e, rfl⟩
  · exact absurd ((parse_bodies_cut_eq_ok hi hp hne).1 hparse).1 hout

namespace Sample

/-- The bytes that spell the pool of a class `A` with a method `m`. -/
def outlinePoolBytes : Bytes :=
  [0, 5, 1, 0, 1, 0x41, 7, 0, 1, 1, 0, 1, 0x6d, 1, 0, 3, 0x28, 0x29, 0x56]

def outlinePool : ConstantPool := poolOf [.text "A", .class 1, .text "m", .text "()V"]

theorem outlinePool_spelled : ConstantPool.Spelled outlinePoolBytes outlinePool := by
  have hread : ConstantPool.read outlinePoolBytes = .ok (outlinePool, []) := rfl
  obtain ⟨bs, hbs, heq⟩ := (ConstantPool.recognizes_read _ _ _).1 hread
  rw [id, List.append_nil] at heq
  exact heq ▸ hbs

/-- The file of an abstract class `A` with an abstract method `m`. -/
def outline : ClassInfo where
  version := [0, 0, 0, 52]
  version_length := rfl
  poolBytes := outlinePoolBytes
  pool := outlinePool
  pool_spelled := outlinePool_spelled
  flags := ⟨0x401⟩
  name := 2
  superclass := 0
  interfaces := ⟨[], by decide⟩
  fields := ⟨[], by decide⟩
  methods := ⟨[⟨⟨0x401⟩, 3, 4, ⟨[], by decide⟩⟩], by decide⟩

/-- The class in that file. -/
def outlineClass : Class where
  name := ⟨"A"⟩
  level := .bodies
  flags := ⟨0x401⟩
  superclass := none
  interfaces := []
  methods := [⟨⟨⟨"A"⟩, "m", "", "void"⟩, ⟨0x401⟩, none⟩]

theorem denotes_outline : outline.Denotes outlineClass where
  level := rfl
  header := ⟨rfl, rfl, rfl, rfl, .nil⟩
  methods := by
    refine .cons ⟨⟨"m", "()V", rfl, rfl, by decide +kernel⟩, rfl, nofun, ?_, fun _ => rfl⟩ .nil
    exact fun h => absurd h (by decide)

end Sample

/-- A file that is read can be followed by any bytes, unless it ends before the number of its
    methods is complete and its methods were asked for. A class file that is cut before the end of
    its methods is refused, unless it is cut where their number stands: then it is read as the file
    of the class without its methods. -/
theorem parse_cut (l : Level) :
    (∀ d c, parse d l = .ok c →
      ((∀ s, parse (d ++ s) l = .ok c) ↔ l = .hierarchy ∨ ¬ EndsAtMethods d)) ∧
    (l = .signatures ∨ l = .bodies →
      ∀ (i : ClassInfo) (c : Class) (p : Bytes), i.Denotes c → p <+: i.bytes → p ≠ i.bytes →
        (i.front.length ≤ p.length ∧ p.length < i.front.length + 2 →
          parse p l = .ok { c.atLevel l with methods := [] }) ∧
        (¬ (i.front.length ≤ p.length ∧ p.length < i.front.length + 2) →
          ∃ e, parse p l = .error e)) := by
  refine ⟨fun d c h => parse_append_iff h, fun hl i c p hi hp hne => ⟨?_, ?_⟩⟩
  · rintro ⟨hle, hlt⟩
    exact parse_cut_eq_ok hl hi hp hne hle hlt
  · exact exists_parse_cut_eq_error hl hi hp hne

theorem parse_cut_outline : Sample.outline.Denotes Sample.outlineClass ∧
    parse Sample.outline.front .signatures =
      .ok { Sample.outlineClass.atLevel .signatures with methods := [] } ∧
    (¬ ∀ s, parse (Sample.outline.front ++ s) .signatures =
      .ok { Sample.outlineClass.atLevel .signatures with methods := [] }) ∧
    ∃ e, parse Sample.outline.bytes.dropLast .signatures = .error e := by
  obtain ⟨happend, hcut⟩ := parse_cut .signatures
  have hdenotes := Sample.denotes_outline
  have hfront := (hcut (.inl rfl) _ _ Sample.outline.front hdenotes (List.prefix_append _ _)
    (by decide +kernel)).1 (by decide +kernel)
  have hends : EndsAtMethods Sample.outline.front :=
    ⟨Sample.outline, [], ClassInfo.exists_denotes_iff.1 ⟨_, hdenotes⟩, by decide,
      (List.append_nil _).symm⟩
  refine ⟨hdenotes, hfront, fun h => ?_, ?_⟩
  · exact ((happend _ _ hfront).1 h).elim (by decide) (absurd hends)
  · have hshort : Sample.outline.bytes.dropLast <+: Sample.outline.bytes := List.dropLast_prefix _
    exact (hcut (.inl rfl) _ _ _ hdenotes hshort (by decide +kernel)).2 (by decide +kernel)

/-- Added bytes turn a class that was read without methods into the class with its method. -/
theorem parse_append_differs :
    parse Sample.outline.front .signatures =
      .ok { Sample.outlineClass.atLevel .signatures with methods := [] } ∧
    parse (Sample.outline.front ++ Sample.outline.methods.bytes MemberInfo.bytes) .signatures =
      .ok (Sample.outlineClass.atLevel .signatures) ∧
    (Sample.outlineClass.atLevel .signatures).methods ≠ [] := by
  refine ⟨?_, ?_, ?_⟩ <;> decide +kernel

end KernelReach.Binary.ClassFile
