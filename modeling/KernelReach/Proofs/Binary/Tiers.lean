import KernelReach.Proofs.Provider
import KernelReach.Proofs.Binary.Layout

/-!
# The same file at different levels

What a class file says does not depend on the level it is read to; a level only says how much of it
is wanted.

* `read_signatures`: reading the method table is reading all bodies and dropping them, whatever the
  bytes are;
* `read_hierarchy`: reading the header is what both begin with;
* `parse_tiers` puts this together for `parse`, with the parts of the file that the answer at
  `Level.bodies` comes from.
-/

namespace KernelReach

theorem Level.IsValid.eq_signatures_or_eq_bodies {l : Level} (h : l.IsValid)
    (hl : l ≠ .hierarchy) : l = .signatures ∨ l = .bodies := by
  obtain ⟨hlow, hhigh⟩ := h
  obtain ⟨rank⟩ := l
  change 1 ≤ rank at hlow
  change rank ≤ 3 at hhigh
  have hrank : rank ≠ 1 := fun h => hl (congrArg Level.mk h)
  rcases (by omega : rank = 2 ∨ rank = 3) with rfl | rfl
  · exact .inl rfl
  · exact .inr rfl

namespace Binary

theorem exists_forall₂_iff {α β : Type} {rel : α → β → Prop} {as : List α} :
    (∃ bs, List.Forall₂ rel as bs) ↔ ∀ a ∈ as, ∃ b, rel a b := by
  induction as with
  | nil => exact iff_of_true ⟨[], .nil⟩ nofun
  | cons a as ih =>
    rw [List.forall_mem_cons, ← ih]
    constructor
    · rintro ⟨_, h⟩
      obtain ⟨b, bs, hb, hbs, -⟩ := List.forall₂_cons_left_iff.1 h
      exact ⟨⟨b, hb⟩, bs, hbs⟩
    · rintro ⟨⟨b, hb⟩, bs, hbs⟩
      exact ⟨b :: bs, .cons hb hbs⟩

namespace Reader

variable {ε δ α β : Type}

theorem adapt_map (g : δ → ε) (f : α → β) (r : Reader δ α) :
    adapt g (f <$> r) = f <$> adapt g r := by
  funext bs
  change adapt g (fun bs => r bs >>= fun p => .ok (f p.1, p.2)) bs =
    adapt g r bs >>= fun p => .ok (f p.1, p.2)
  rw [adapt, adapt]
  rcases r bs with fault | p <;> rfl

theorem times_map (f : α → β) (r : Nat → Reader ε α) (i n : Nat) :
    times (fun i => f <$> r i) i n = List.map f <$> times r i n := by
  induction n generalizing i with
  | zero => rfl
  | succ n ih => simp only [times, ih, map_bind, map_pure, bind_map_left, List.map_cons]

end Reader

namespace ClassFile

open Reader

variable {d : Bytes} {c : Class} {e : Fault}

/-- Reading an entry of the method table differs between the levels only in the body. -/
theorem readMethod_signatures (pool : ConstantPool) (owner : ClassName) :
    readMethod pool owner .signatures =
      (fun m => { m with body := none }) <$> readMethod pool owner .bodies := by
  have hlevel : Level.signatures ≠ .bodies := by decide
  simp only [readMethod, map_bind, map_pure, hlevel, false_and, if_false]

theorem read_signatures :
    read .signatures = (fun c => c.atLevel .signatures) <$> read .bodies := by
  have hlevel : Level.signatures ≠ .hierarchy := by decide
  have hlevel' : Level.bodies ≠ .hierarchy := by decide
  simp only [read, if_neg hlevel, if_neg hlevel', map_bind, map_pure, readMethod_signatures,
    adapt_map, times_map, bind_map_left]
  rfl

theorem read_hierarchy : read .hierarchy = (fun h =>
    { name := h.name, level := .hierarchy, flags := h.flags, superclass := h.superclass,
      interfaces := h.interfaces, methods := [] }) <$> readHeader := by
  simp only [read, if_true, ← bind_pure_comp]

/-- Without a header there is no class, at any level. -/
theorem parse_of_header_error {level : Level} (hvalid : level.IsValid)
    (h : readHeader d = .error e) : parse d level = .error e := by
  rw [parse_of_isValid hvalid, read]
  change ((readHeader d >>= fun p => _) : Except _ _).map _ = _
  rw [h]
  rfl

theorem header_error_of_parse (h : parse d .hierarchy = .error e) : readHeader d = .error e := by
  rw [parse_of_isValid Level.isValid_hierarchy, read_hierarchy] at h
  change ((readHeader d >>= fun p => .ok _) : Except _ _).map _ = _ at h
  rcases hheader : readHeader d with fault | p
  · rw [hheader] at h
    exact congrArg _ (Except.error.inj h)
  · rw [hheader] at h
    cases h

/-- A class with its methods is, without them, the class that the header tells. -/
theorem parse_hierarchy_of_signatures (h : parse d .signatures = .ok c) :
    parse d .hierarchy = .ok (c.atLevel .hierarchy) := by
  have hlevel : Level.signatures ≠ .hierarchy := by decide
  obtain ⟨rest, h⟩ := (parse_eq_ok Level.isValid_signatures).1 h
  simp only [read, if_neg hlevel, Reader.bind_eq_ok, Reader.pure_eq_ok] at h
  obtain ⟨header, mid, hheader, _, _, -, _, _, -, ms, _, -, rfl, rfl⟩ := h
  rw [parse_eq_ok Level.isValid_hierarchy, read_hierarchy]
  exact ⟨mid, map_eq_ok.2 ⟨header, hheader, rfl⟩⟩

theorem parse_signatures (d : Bytes) :
    parse d .signatures = (parse d .bodies).map (·.atLevel .signatures) := by
  rw [parse_of_isValid Level.isValid_signatures, parse_of_isValid Level.isValid_bodies,
    read_signatures]
  change ((read .bodies d >>= fun p => .ok (p.1.atLevel .signatures, p.2)) : Except _ _).map _ = _
  rcases read .bodies d with fault | p <;> rfl

/-! ### What a file has to give -/

/-- The entry names a method of the class `owner`, and all its attributes have names. -/
structure MemberInfo.IsReadable (pool : ConstantPool) (owner : ClassName) (e : MemberInfo) :
    Prop where
  signature : ∃ name descriptor s, pool.textAt e.name.toNat = .ok name ∧
    pool.textAt e.descriptor.toNat = .ok descriptor ∧
    Signature.ofDescriptor owner name descriptor = .ok s
  named : ∀ a ∈ e.attributes.1, ∃ name, pool.textAt a.name.toNat = .ok name

/-- The header and the method table can be read. What the attributes hold does not matter. -/
def ClassInfo.IsReadable (i : ClassInfo) : Prop :=
  ∃ h, i.toHeaderInfo.Denotes h ∧ ∀ e ∈ i.methods.1, e.IsReadable i.pool h.name

variable {pool : ConstantPool} {owner : ClassName} {entry : MemberInfo} {m : Method}

theorem MemberInfo.IsReadable.exists_denotes (h : entry.IsReadable pool owner) :
    ∃ m, entry.Denotes pool owner m := by
  obtain ⟨name, descriptor, s, hname, hdescriptor, hs⟩ := h.signature
  cases hconcrete : entry.flags.isConcrete with
  | false =>
    exact ⟨⟨s, entry.flags, none⟩, ⟨name, descriptor, hname, hdescriptor, hs⟩, rfl, h.named,
      fun h => absurd (hconcrete.symm.trans h) Bool.false_ne_true, fun _ => rfl⟩
  | true =>
    exact ⟨⟨s, entry.flags, bodyOf pool (entry.attributes.1.map (AttributeInfo.view pool))⟩,
      ⟨name, descriptor, hname, hdescriptor, hs⟩, rfl, h.named, fun _ => bodyIn_iff.2 rfl,
      fun h => absurd (h.symm.trans hconcrete) Bool.false_ne_true⟩

theorem MemberInfo.Denotes.isReadable (h : entry.Denotes pool owner m) :
    entry.IsReadable pool owner := by
  obtain ⟨name, descriptor, hname, hdescriptor, hs⟩ := h.signature
  exact ⟨⟨name, descriptor, m.signature, hname, hdescriptor, hs⟩, h.named⟩

theorem MemberInfo.exists_denotes_iff :
    (∃ m, entry.Denotes pool owner m) ↔ entry.IsReadable pool owner :=
  ⟨fun ⟨_, hm⟩ => hm.isReadable, fun h => h.exists_denotes⟩

/-- Parts that can be read are a class file. -/
theorem ClassInfo.exists_denotes_iff {i : ClassInfo} : (∃ c, i.Denotes c) ↔ i.IsReadable := by
  simp only [IsReadable, ← MemberInfo.exists_denotes_iff, ← exists_forall₂_iff]
  constructor
  · rintro ⟨c, hc⟩
    exact ⟨_, hc.header, c.methods, hc.methods⟩
  · rintro ⟨⟨_, flags, name, superclass, interfaces⟩, hh, ms, hms⟩
    obtain rfl := hh.pool
    exact ⟨⟨name, .bodies, flags, superclass, interfaces, ms⟩, rfl, hh, hms⟩

theorem BodyIn.isSome_iff {attributes : List AttributeInfo} {body : Option Body}
    (h : BodyIn pool attributes body) :
    body.isSome = true ↔ ∃ a ∈ attributes, a.IsCode pool := by
  cases h with
  | none hnone => exact iff_of_false nofun fun ⟨a, ha, hcode⟩ => hnone a ha hcode
  | some hcode =>
    exact iff_of_true rfl ⟨_, List.mem_append_right _ List.mem_cons_self, hcode⟩

/-- A method has a body if it is concrete and an attribute is named `Code`. -/
theorem MemberInfo.Denotes.isSome_body_iff (h : entry.Denotes pool owner m) :
    m.body.isSome = true ↔
      m.isConcrete = true ∧ ∃ a ∈ entry.attributes.1, a.IsCode pool := by
  cases hconcrete : m.isConcrete with
  | false =>
    rw [h.bodiless hconcrete]
    exact ⟨nofun, nofun⟩
  | true => rw [(h.body hconcrete).isSome_iff, and_iff_right rfl]

/-- The answers about one file fit together, whatever its bytes are. A file without a header is
    refused at every level, with the same complaint; a file with a method table has a header, and
    with or without the bodies the class is the same, or the complaint. With the bodies the class is
    what the parts of the file say; a method has a body exactly if it is concrete and an attribute
    is named `Code`. What the attributes hold never decides whether a file can be read: code that
    cannot be found in its attribute is the fault of the body. -/
theorem parse_tiers (d : Bytes) :
    (∀ e, parse d .hierarchy = .error e →
      parse d .signatures = .error e ∧ parse d .bodies = .error e) ∧
    (∀ c, parse d .signatures = .ok c → parse d .hierarchy = .ok (c.atLevel .hierarchy)) ∧
    parse d .signatures = (parse d .bodies).map (·.atLevel .signatures) ∧
    (∀ c, parse d .bodies = .ok c ↔ ∃ i : ClassInfo, i.Begins d ∧ i.Denotes c ∧
      List.Forall₂ (fun e m => m.body.isSome = true ↔
        m.isConcrete = true ∧ ∃ a ∈ e.attributes.1, a.IsCode i.pool) i.methods.1 c.methods) ∧
    ((∃ c, parse d .bodies = .ok c) ↔ ∃ i : ClassInfo, i.Begins d ∧ i.IsReadable) := by
  refine ⟨fun e h => ?_, fun c => parse_hierarchy_of_signatures, parse_signatures d, fun c => ?_,
    ?_⟩
  · have hheader := header_error_of_parse h
    exact ⟨parse_of_header_error Level.isValid_signatures hheader,
      parse_of_header_error Level.isValid_bodies hheader⟩
  · rw [parse_bodies_eq_ok]
    constructor
    · rintro ⟨i, hbegins, hi⟩
      exact ⟨i, hbegins, hi, hi.methods.imp fun _ _ => MemberInfo.Denotes.isSome_body_iff⟩
    · rintro ⟨i, hbegins, hi, -⟩
      exact ⟨i, hbegins, hi⟩
  · simp only [parse_bodies_eq_ok, ← ClassInfo.exists_denotes_iff]
    constructor
    · rintro ⟨c, i, hbegins, hi⟩
      exact ⟨i, hbegins, c, hi⟩
    · rintro ⟨i, hbegins, c, hi⟩
      exact ⟨c, i, hbegins, hi⟩

/-- The file of a class `A` whose method `m` has an attribute named `Code`, but no code in it. -/
def Sample.hollow : Bytes :=
  [0xca, 0xfe, 0xba, 0xbe, 0, 0, 0, 52, 0, 6, 1, 0, 1, 0x41, 7, 0, 1, 1, 0, 1, 0x6d,
    1, 0, 3, 0x28, 0x29, 0x56, 1, 0, 4, 0x43, 0x6f, 0x64, 0x65, 0, 1, 0, 2, 0, 0, 0, 0, 0, 0,
    0, 1, 0, 1, 0, 3, 0, 4, 0, 1, 0, 5, 0, 0, 0, 3, 0, 0, 0]

def Sample.hollowClass : Class where
  name := ⟨"A"⟩
  level := .bodies
  flags := ⟨1⟩
  superclass := none
  interfaces := []
  methods := [⟨⟨⟨"A"⟩, "m", "", "void"⟩, ⟨1⟩, some ⟨[], some Code.attributeFault⟩⟩]

theorem parse_tiers_hollow :
    parse Sample.hollow .bodies = .ok Sample.hollowClass ∧
    parse Sample.hollow .signatures = .ok (Sample.hollowClass.atLevel .signatures) ∧
    parse Sample.hollow .hierarchy = .ok (Sample.hollowClass.atLevel .hierarchy) ∧
    (∃ i : ClassInfo, i.Begins Sample.hollow ∧ i.Denotes Sample.hollowClass) ∧
    parse [] .hierarchy = .error .truncated ∧ parse [] .bodies = .error .truncated := by
  obtain ⟨-, hlower, hmap, hparts, -⟩ := parse_tiers Sample.hollow
  have hbodies : parse Sample.hollow .bodies = .ok Sample.hollowClass := by decide +kernel
  have hsignatures : parse Sample.hollow .signatures =
      .ok (Sample.hollowClass.atLevel .signatures) := by
    rw [hmap, hbodies]
    rfl
  have hhierarchy : parse Sample.hollow .hierarchy = .ok (Sample.hollowClass.atLevel .hierarchy) :=
    hlower (Sample.hollowClass.atLevel .signatures) hsignatures
  obtain ⟨i, hbegins, hi, -⟩ := (hparts _).1 hbodies
  exact ⟨hbodies, hsignatures, hhierarchy, ⟨i, hbegins, hi⟩, rfl,
    ((parse_tiers []).1 _ rfl).2⟩

end ClassFile

end Binary

end KernelReach
