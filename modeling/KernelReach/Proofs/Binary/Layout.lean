import KernelReach.Binary.ClassFile
import KernelReach.Proofs.Binary.RoundTrip
import KernelReach.Proofs.Binary.Recognition

/-!
# The layout of a class file

A class file as the parts that it is put together from, with the bytes of each and with what it
stands for.

* `Constant.Spelled` and `ConstantPool.Spelled`: the bytes of a constant and of a pool;
* `AttributeInfo`, `MemberInfo`, `HeaderInfo`, `ClassInfo`: the parts of a file. `bytes` writes
  them, and `Denotes` looks up in the pool what they refer to. A body is in the last attribute named
  `Code` (`BodyIn`), and whatever that holds is a body, if only a faulty one (`CodeContent`);
* there is a `Recognizes` for the reader of each part, up to `read_bodies_eq_ok`: the files that are
  read are those of parts that denote a class, and those that end where the methods should begin.
-/

namespace KernelReach.Binary

open Reader

variable {bs rest : Bytes}

/-! ### The constant pool -/

namespace Constant

/-- The tags of the constants that are not looked into, each with the number of bytes after it. -/
def otherSizes : List (UInt8 × Nat) :=
  [(3, 4), (4, 4), (5, 8), (6, 8), (8, 2), (9, 4), (15, 3), (16, 2), (17, 4), (18, 4), (19, 2),
    (20, 2)]

/-- The bytes spell the constant. -/
inductive Spelled : Bytes → Constant → Prop
  | text {content : Bytes} {s : String} : content.length < 65536 →
      ModifiedUtf8.decode? content = some s →
      Spelled (1 :: (putBigEndian 2 content.length ++ content)) (.text s)
  | class (name : UInt16) : Spelled (7 :: putBigEndian 2 name.toNat) (.class name.toNat)
  | method (owner nameAndType : UInt16) :
      Spelled (10 :: (putBigEndian 2 owner.toNat ++ putBigEndian 2 nameAndType.toNat))
        (.method owner.toNat nameAndType.toNat)
  | interfaceMethod (owner nameAndType : UInt16) :
      Spelled (11 :: (putBigEndian 2 owner.toNat ++ putBigEndian 2 nameAndType.toNat))
        (.interfaceMethod owner.toNat nameAndType.toNat)
  | nameAndType (name descriptor : UInt16) :
      Spelled (12 :: (putBigEndian 2 name.toNat ++ putBigEndian 2 descriptor.toNat))
        (.nameAndType name.toNat descriptor.toNat)
  | other {tag : UInt8} {content : Bytes} : (tag, content.length) ∈ otherSizes →
      Spelled (tag :: content) (.other tag)

theorem mem_otherSizes {tag : UInt8} {n : Nat} (h : read.otherSize? tag = some n) :
    (tag, n) ∈ otherSizes := by
  simp only [read.otherSize?, Bool.or_eq_true, beq_iff_eq] at h
  split_ifs at h with h₂ h₃ h₄ h₈ <;> cases h
  · rcases h₂ with ((rfl | rfl) | rfl) | rfl <;> decide
  · cases h₃
    decide
  · rcases h₄ with (((rfl | rfl) | rfl) | rfl) | rfl <;> decide
  · rcases h₈ with rfl | rfl <;> decide

theorem reads_other {tag : UInt8} {content : Bytes} (h : (tag, content.length) ∈ otherSizes) :
    Reads read (tag :: content) (.other tag) := by
  simp only [otherSizes, List.mem_cons, Prod.mk.injEq, List.not_mem_nil, or_false] at h
  rcases h with ⟨rfl, h⟩ | ⟨rfl, h⟩ | ⟨rfl, h⟩ | ⟨rfl, h⟩ | ⟨rfl, h⟩ | ⟨rfl, h⟩ | ⟨rfl, h⟩ |
    ⟨rfl, h⟩ | ⟨rfl, h⟩ | ⟨rfl, h⟩ | ⟨rfl, h⟩ | ⟨rfl, h⟩
  all_goals exact (reads_u1 _ _).bind ((reads_skip _ h).nil_bind (reads_pure _))

/-- What spells a constant is read as that constant. -/
theorem Spelled.reads {c : Constant} (h : Spelled bs c) : Reads read bs c := by
  -- The indices of two bytes are read back whole.
  have hlow (n : UInt16) : n.toNat % 65536 = n.toNat := Nat.mod_eq_of_lt n.toNat_lt
  cases h with
  | text hlength hs =>
    refine (reads_u1 _ 1).bind ((reads_u2 _ hlength).bind ((reads_bytes _ rfl).nil_bind ?_))
    rw [hs]
    exact reads_pure _
  | «class» name =>
    have hreads := reads_class name.toNat
    rwa [hlow] at hreads
  | method owner nameAndType =>
    have hreads := reads_method owner.toNat nameAndType.toNat
    rwa [hlow, hlow] at hreads
  | interfaceMethod owner nameAndType =>
    have hreads := reads_interfaceMethod owner.toNat nameAndType.toNat
    rwa [hlow, hlow] at hreads
  | nameAndType name descriptor =>
    have hreads := reads_nameAndType name.toNat descriptor.toNat
    rwa [hlow, hlow] at hreads
  | other h => exact reads_other h

theorem recognizes_read : Recognizes read id Spelled := by
  intro bs c rest
  constructor
  · intro h
    simp only [read, Reader.bind_eq_ok, u1_eq_ok] at h
    obtain ⟨tag, _, rfl, h⟩ := h
    split at h
    · simp only [Reader.bind_eq_ok, u2_eq_ok, bytes_eq_ok] at h
      obtain ⟨_, _, ⟨k, rfl, rfl⟩, content, _, ⟨hlength, rfl⟩, h⟩ := h
      rcases hs : ModifiedUtf8.decode? content with _ | s
      · rw [hs] at h
        exact absurd h Reader.throw_ne_ok
      · rw [hs, Reader.pure_eq_ok] at h
        obtain ⟨rfl, rfl⟩ := h
        refine ⟨_, .text (hlength ▸ k.toNat_lt) hs, ?_⟩
        rw [hlength, id, List.cons_append, List.append_assoc]
    · simp only [Reader.bind_eq_ok, Reader.pure_eq_ok, u2_eq_ok] at h
      obtain ⟨_, _, ⟨name, rfl, rfl⟩, rfl, rfl⟩ := h
      exact ⟨_, .class name, rfl⟩
    · simp only [Reader.bind_eq_ok, Reader.pure_eq_ok, u2_eq_ok] at h
      obtain ⟨_, _, ⟨a, rfl, rfl⟩, _, _, ⟨b, rfl, rfl⟩, rfl, rfl⟩ := h
      exact ⟨_, .method a b, by rw [id, List.cons_append, List.append_assoc]⟩
    · simp only [Reader.bind_eq_ok, Reader.pure_eq_ok, u2_eq_ok] at h
      obtain ⟨_, _, ⟨a, rfl, rfl⟩, _, _, ⟨b, rfl, rfl⟩, rfl, rfl⟩ := h
      exact ⟨_, .interfaceMethod a b, by rw [id, List.cons_append, List.append_assoc]⟩
    · simp only [Reader.bind_eq_ok, Reader.pure_eq_ok, u2_eq_ok] at h
      obtain ⟨_, _, ⟨a, rfl, rfl⟩, _, _, ⟨b, rfl, rfl⟩, rfl, rfl⟩ := h
      exact ⟨_, .nameAndType a b, by rw [id, List.cons_append, List.append_assoc]⟩
    · rcases hn : read.otherSize? tag with _ | n
      · rw [hn] at h
        exact absurd h Reader.throw_ne_ok
      · simp only [hn, Reader.bind_eq_ok, Reader.pure_eq_ok, skip_eq_ok] at h
        obtain ⟨_, _, ⟨content, rfl, rfl⟩, rfl, rfl⟩ := h
        exact ⟨_, .other (mem_otherSizes hn), rfl⟩
  · rintro ⟨_, h, rfl⟩
    exact h.reads rest

end Constant

namespace ConstantPool

/-- The bytes spell the constants of a pool from some slot on. A number of eight bytes takes two
    slots, unless there is only one left. -/
inductive Slots : Bytes → List Constant → Prop
  | nil : Slots [] []
  | narrow {bs bs' : Bytes} {c : Constant} {cs : List Constant} :
      c.Spelled bs → c.isWide = false → Slots bs' cs → Slots (bs ++ bs') (c :: cs)
  | wide {bs bs' : Bytes} {c : Constant} {cs : List Constant} :
      c.Spelled bs → c.isWide = true → Slots bs' cs → Slots (bs ++ bs') (c :: .absent :: cs)
  | last {bs : Bytes} {c : Constant} : c.Spelled bs → c.isWide = true → Slots bs [c]

/-- Slots are read as they are spelled. -/
theorem Slots.reads {cs : List Constant} (h : Slots bs cs) (i : Nat) :
    Reads (readEntries i cs.length) bs cs := by
  induction h generalizing i with
  | nil => exact reads_pure []
  | @narrow bs bs' c cs hc hwide hcs ih =>
    rcases cs with _ | ⟨c', cs⟩
    · cases hcs
      rw [List.append_nil]
      exact (hc.reads.adapt _).nil_bind (reads_pure _)
    · rw [List.length_cons, List.length_cons, readEntries]
      refine (hc.reads.adapt _).bind ?_
      simp only [hwide, Bool.false_eq_true, if_false]
      exact (ih (i + 1)).nil_bind (reads_pure _)
  | wide hc hwide hcs ih =>
    rw [List.length_cons, List.length_cons, readEntries]
    refine (hc.reads.adapt _).bind ?_
    simp only [hwide, if_true]
    exact (ih (i + 2)).nil_bind (reads_pure _)
  | last hc hwide =>
    rw [List.length_singleton, readEntries]
    exact (hc.reads.adapt _).nil_bind (reads_pure _)

/-- What is read for some slots spells them. -/
theorem exists_slots {i n : Nat} {cs : List Constant}
    (h : readEntries i n bs = .ok (cs, rest)) :
    ∃ bs', (cs.length = n ∧ Slots bs' cs) ∧ bs = bs' ++ rest := by
  fun_induction readEntries i n generalizing bs cs rest with
  | case1 i =>
    rw [Reader.pure_eq_ok] at h
    obtain ⟨rfl, rfl⟩ := h
    exact ⟨[], ⟨rfl, .nil⟩, rfl⟩
  | case2 i =>
    simp only [Reader.bind_eq_ok, Reader.pure_eq_ok, adapt_eq_ok,
      Constant.recognizes_read _ _ _] at h
    obtain ⟨c, _, ⟨bs', hc, rfl⟩, rfl, rfl⟩ := h
    refine ⟨bs', ⟨rfl, ?_⟩, rfl⟩
    cases hwide : c.isWide with
    | false =>
      rw [← List.append_nil bs']
      exact .narrow hc hwide .nil
    | true => exact .last hc hwide
  | case3 i n ih ih' =>
    simp only [Reader.bind_eq_ok, adapt_eq_ok, Constant.recognizes_read _ _ _] at h
    obtain ⟨c, _, ⟨bs', hc, rfl⟩, h⟩ := h
    split_ifs at h with hwide
    · simp only [Reader.bind_eq_ok, Reader.pure_eq_ok] at h
      obtain ⟨cs', _, h, rfl, rfl⟩ := h
      obtain ⟨bs'', ⟨rfl, hcs⟩, rfl⟩ := ih h
      exact ⟨bs' ++ bs'', ⟨rfl, .wide hc hwide hcs⟩, by rw [id, List.append_assoc]⟩
    · simp only [Reader.bind_eq_ok, Reader.pure_eq_ok] at h
      obtain ⟨cs', _, h, rfl, rfl⟩ := h
      obtain ⟨bs'', ⟨hlength, hcs⟩, rfl⟩ := ih' h
      rw [Bool.not_eq_true] at hwide
      refine ⟨bs' ++ bs'', ⟨?_, .narrow hc hwide hcs⟩, by rw [id, List.append_assoc]⟩
      rw [List.length_cons, hlength]

/-- The bytes spell the pool. -/
inductive Spelled : Bytes → ConstantPool → Prop
  | intro {bs : Bytes} {cs : List Constant} : cs.length + 1 < 65536 → Slots bs cs →
      Spelled (putBigEndian 2 (cs.length + 1) ++ bs) (poolOf cs)

theorem recognizes_read : Recognizes read id Spelled := by
  intro bs p rest
  constructor
  · intro h
    simp only [read, Reader.bind_eq_ok, u2_eq_ok] at h
    obtain ⟨n, _, ⟨k, hk, rfl⟩, h⟩ := h
    cases n with
    | zero => exact absurd h Reader.throw_ne_ok
    | succ n =>
      simp only [Reader.bind_eq_ok, Reader.pure_eq_ok] at h
      obtain ⟨cs, _, h, rfl, rfl⟩ := h
      obtain ⟨bs', ⟨rfl, hcs⟩, rfl⟩ := exists_slots h
      refine ⟨_, .intro (hk ▸ k.toNat_lt) hcs, ?_⟩
      rw [← hk, id, List.append_assoc]
  · rintro ⟨_, ⟨hlength, hcs⟩, rfl⟩
    have hreads : Reads read _ _ :=
      (reads_u2 _ hlength).bind ((hcs.reads 1).nil_bind (reads_pure _))
    exact hreads rest

end ConstantPool

namespace ClassFile

/-! ### Fields and methods -/

/-- An attribute: the index of its name, and its content. -/
structure AttributeInfo where
  name : UInt16
  content : Bytes
  size_lt : content.length < 2 ^ 32

/-- The bytes of an attribute. -/
def AttributeInfo.bytes (a : AttributeInfo) : Bytes :=
  putBigEndian 2 a.name.toNat ++ (putBigEndian 4 a.content.length ++ a.content)

/-- A field or a method: its flags, the indices of its name and its descriptor, and its attributes.
    -/
structure MemberInfo where
  flags : AccessFlags
  name : UInt16
  descriptor : UInt16
  attributes : Table AttributeInfo

/-- The bytes of a field or a method. -/
def MemberInfo.bytes (m : MemberInfo) : Bytes :=
  putBigEndian 2 m.flags.bits.toNat ++ (putBigEndian 2 m.name.toNat ++
    (putBigEndian 2 m.descriptor.toNat ++ m.attributes.bytes AttributeInfo.bytes))

/-- The attribute with that content says what the body is. It holds two sizes, the code with its
    length, and tables; if it does not, this is the fault of the body. -/
inductive CodeContent (pool : ConstantPool) : Bytes → Body → Prop
  | code {sizes code : Bytes} (tables : Bytes) : sizes.length = 4 → code.length < 2 ^ 32 →
      CodeContent pool (sizes ++ (putBigEndian 4 code.length ++ (code ++ tables)))
        (Code.decode pool code)
  | malformed {content : Bytes} :
      (∀ sizes code tables : Bytes, sizes.length = 4 → code.length < 2 ^ 32 →
        content ≠ sizes ++ (putBigEndian 4 code.length ++ (code ++ tables))) →
      CodeContent pool content ⟨[], some Code.attributeFault⟩

/-- The attribute is named `Code`. -/
def AttributeInfo.IsCode (pool : ConstantPool) (a : AttributeInfo) : Prop :=
  pool.textAt a.name.toNat = .ok "Code"

/-- What the attributes of a concrete method say about its body: there is one if an attribute is
    named `Code`, and the last of these counts. -/
inductive BodyIn (pool : ConstantPool) : List AttributeInfo → Option Body → Prop
  | none {attributes : List AttributeInfo} : (∀ a ∈ attributes, ¬ a.IsCode pool) →
      BodyIn pool attributes none
  | some {before after : List AttributeInfo} {a : AttributeInfo} {b : Body} : a.IsCode pool →
      (∀ a' ∈ after, ¬ a'.IsCode pool) → CodeContent pool a.content b →
      BodyIn pool (before ++ a :: after) (some b)

/-- The entry stands for the method `m` of the class `owner`. -/
structure MemberInfo.Denotes (pool : ConstantPool) (owner : ClassName) (e : MemberInfo)
    (m : Method) : Prop where
  signature : ∃ name descriptor, pool.textAt e.name.toNat = .ok name ∧
    pool.textAt e.descriptor.toNat = .ok descriptor ∧
    Signature.ofDescriptor owner name descriptor = .ok m.signature
  flags : m.flags = e.flags
  named : ∀ a ∈ e.attributes.1, ∃ name, pool.textAt a.name.toNat = .ok name
  body : m.isConcrete = true → BodyIn pool e.attributes.1 m.body
  bodiless : m.isConcrete = false → m.body = none

theorem recognizes_skipAttribute :
    Recognizes skipAttribute AttributeInfo.bytes fun _ _ => True := by
  intro bs u rest
  constructor
  · intro h
    simp only [skipAttribute, Reader.bind_eq_ok, skip_eq_ok, u4_eq_ok] at h
    obtain ⟨_, _, ⟨taken, htaken, rfl⟩, _, _, ⟨hlt, rfl⟩, content, rfl, rfl⟩ := h
    obtain ⟨name, rfl⟩ := exists_uint16 htaken
    exact ⟨⟨name, content, hlt⟩, trivial, by simp only [AttributeInfo.bytes, List.append_assoc]⟩
  · rintro ⟨a, -, rfl⟩
    have hreads : Reads skipAttribute a.bytes () := (reads_skip _ (length_putBigEndian 2 _)).bind
      ((reads_u4 _ a.size_lt).bind (reads_skip _ rfl))
    exact hreads rest

theorem recognizes_skipField : Recognizes skipField MemberInfo.bytes fun _ _ => True := by
  have htable := recognizes_table_discard (e := Fault.fields) fun _ => recognizes_skipAttribute
  intro bs u rest
  rw [skipField, Reader.bind_eq_ok]
  constructor
  · rintro ⟨_, _, hskip, h⟩
    obtain ⟨taken, htaken, rfl⟩ := skip_eq_ok.1 hskip
    obtain ⟨attributes, -, rfl⟩ := (htable _ u rest).1 h
    obtain ⟨indices, hlength, rfl⟩ := exists_flatMap_eq (fun _ => exists_uint16) 3 htaken
    obtain ⟨flags, name, descriptor, rfl⟩ := List.length_eq_three.1 hlength
    refine ⟨⟨⟨flags⟩, name, descriptor, attributes⟩, trivial, ?_⟩
    simp only [MemberInfo.bytes, List.flatMap_cons, List.flatMap_nil, List.append_assoc,
      List.nil_append]
  · rintro ⟨m, -, rfl⟩
    refine ⟨(), m.attributes.bytes AttributeInfo.bytes ++ rest, skip_eq_ok.2 ⟨putBigEndian 2
      m.flags.bits.toNat ++ (putBigEndian 2 m.name.toNat ++ putBigEndian 2 m.descriptor.toNat), ?_,
      ?_⟩, (htable _ u rest).2 ⟨m.attributes, trivial, rfl⟩⟩
    · simp only [List.length_append, length_putBigEndian]
    · simp only [MemberInfo.bytes, List.append_assoc]

theorem recognizes_skipFields :
    Recognizes skipFields (Table.bytes MemberInfo.bytes) fun _ _ => True :=
  recognizes_table_discard fun _ => recognizes_skipField

/-- Reading an attribute gives its name and its content. -/
theorem recognizes_readAttribute (pool : ConstantPool) :
    Recognizes (readAttribute pool) AttributeInfo.bytes fun a r =>
      pool.textAt a.name.toNat = .ok r.1 ∧ a.content = r.2 := by
  intro bs r rest
  constructor
  · intro h
    simp only [readAttribute, Reader.bind_eq_ok, Reader.pure_eq_ok, u2_eq_ok, u4_eq_ok, lift_eq_ok,
      bytes_eq_ok] at h
    obtain ⟨_, _, ⟨index, rfl, rfl⟩, _, _, ⟨hlt, rfl⟩, name, _, ⟨hname, rfl⟩, content, _,
      ⟨rfl, rfl⟩, rfl, rfl⟩ := h
    refine ⟨⟨index, content, hlt⟩, ⟨hname, rfl⟩, ?_⟩
    simp only [AttributeInfo.bytes, List.append_assoc]
  · rintro ⟨a, ⟨hname, hcontent⟩, rfl⟩
    have hreads : Reads (readAttribute pool) a.bytes (r.1, a.content) :=
      (reads_u2 _ a.name.toNat_lt).bind ((reads_u4 _ a.size_lt).bind
        ((reads_lift hname).bind_nil ((reads_bytes _ rfl).nil_bind (reads_pure _))))
    rw [hcontent] at hreads
    exact hreads rest

/-! ### Bodies -/

variable {pool : ConstantPool}

theorem readCode_eq_ok {content code tables : Bytes} :
    Code.ofAttribute.readCode content = .ok (code, tables) ↔
      ∃ sizes : Bytes, sizes.length = 4 ∧ code.length < 2 ^ 32 ∧
        content = sizes ++ (putBigEndian 4 code.length ++ (code ++ tables)) := by
  simp only [Code.ofAttribute.readCode, Reader.bind_eq_ok, skip_eq_ok, u4_eq_ok, bytes_eq_ok]
  constructor
  · rintro ⟨_, _, ⟨sizes, hsizes, rfl⟩, _, _, ⟨hlt, rfl⟩, rfl, rfl⟩
    exact ⟨sizes, hsizes, hlt, rfl⟩
  · rintro ⟨sizes, hsizes, hlt, rfl⟩
    exact ⟨(), _, ⟨sizes, hsizes, rfl⟩, _, _, ⟨hlt, rfl⟩, rfl, rfl⟩

/-- The body in an attribute is what the content says it is. -/
theorem codeContent_iff {content : Bytes} {b : Body} :
    CodeContent pool content b ↔ Code.ofAttribute pool content = b := by
  constructor
  · rintro (⟨tables, hsizes, hlt⟩ | hmalformed)
    · rw [Code.ofAttribute, readCode_eq_ok.2 ⟨_, hsizes, hlt, rfl⟩]
    · rcases hread : Code.ofAttribute.readCode content with ⟨⟩ | ⟨code, tables⟩
      · rw [Code.ofAttribute, hread]
      · obtain ⟨sizes, hsizes, hlt, hcontent⟩ := readCode_eq_ok.1 hread
        exact absurd hcontent (hmalformed sizes code tables hsizes hlt)
  · rintro rfl
    rcases hread : Code.ofAttribute.readCode content with ⟨⟩ | ⟨code, tables⟩
    · rw [Code.ofAttribute, hread]
      refine .malformed fun sizes code tables hsizes hlt hcontent => ?_
      rw [readCode_eq_ok.2 ⟨sizes, hsizes, hlt, hcontent⟩] at hread
      cases hread
    · obtain ⟨sizes, hsizes, hlt, rfl⟩ := readCode_eq_ok.1 hread
      rw [Code.ofAttribute, hread]
      exact .code tables hsizes hlt

/-- The name and the content of an attribute. -/
def AttributeInfo.view (pool : ConstantPool) (a : AttributeInfo) : String × Bytes :=
  ((pool.textAt a.name.toNat).toOption.getD "", a.content)

/-- If the attributes have names, then reading them gives what is seen of them. -/
theorem forall₂_view_iff {attributes : List AttributeInfo} {rs : List (String × Bytes)} :
    List.Forall₂ (fun a r => pool.textAt a.name.toNat = .ok r.1 ∧ a.content = r.2) attributes rs ↔
      (∀ a ∈ attributes, ∃ name, pool.textAt a.name.toNat = .ok name) ∧
        attributes.map (AttributeInfo.view pool) = rs := by
  constructor
  · intro h
    induction h with
    | nil => exact ⟨nofun, rfl⟩
    | @cons a r as rs hr _ ih =>
      refine ⟨List.forall_mem_cons.2 ⟨⟨r.1, hr.1⟩, ih.1⟩, ?_⟩
      rw [List.map_cons, ih.2, AttributeInfo.view, hr.1, hr.2]
      rfl
  · rintro ⟨hnamed, rfl⟩
    rw [List.forall₂_map_right_iff, List.forall₂_same]
    intro a ha
    obtain ⟨name, hname⟩ := hnamed a ha
    rw [AttributeInfo.view, hname]
    exact ⟨rfl, rfl⟩

theorem AttributeInfo.isCode_iff {a : AttributeInfo} :
    a.IsCode pool ↔ ((a.view pool).1 == "Code") = true := by
  rw [IsCode, view, beq_iff_eq]
  rcases pool.textAt a.name.toNat with e | s
  · have hempty : ¬ "" = "Code" := by decide
    exact iff_of_false nofun hempty
  · rw [Except.ok.injEq]
    rfl

/-- The last attribute named `Code` is found. -/
theorem bodyIn_iff {attributes : List AttributeInfo} {body : Option Body} :
    BodyIn pool attributes body ↔
      bodyOf pool (attributes.map (AttributeInfo.view pool)) = body := by
  rw [bodyOf]
  constructor
  · rintro (hnone | @⟨before, after, a, b, ha, hafter, hcontent⟩)
    · rw [List.find?_eq_none.2]
      · rfl
      · intro r hr
        obtain ⟨a, ha, rfl⟩ := List.mem_map.1 (List.mem_reverse.1 hr)
        exact fun hcode => hnone a ha (AttributeInfo.isCode_iff.2 hcode)
    · have hfind : ((before ++ a :: after).map (AttributeInfo.view pool)).reverse.find?
          (·.1 == "Code") = some (a.view pool) := by
        refine List.find?_eq_some_iff_append.2 ⟨AttributeInfo.isCode_iff.1 ha,
          (after.map (AttributeInfo.view pool)).reverse,
          (before.map (AttributeInfo.view pool)).reverse, by simp, fun r hr => ?_⟩
        obtain ⟨a', ha', rfl⟩ := List.mem_map.1 (List.mem_reverse.1 hr)
        rw [Bool.not_eq_true', ← Bool.not_eq_true]
        exact fun hcode => hafter a' ha' (AttributeInfo.isCode_iff.2 hcode)
      rw [hfind, Option.map_some]
      exact congrArg some (codeContent_iff.1 hcontent)
  · rintro rfl
    rcases hfind : (attributes.map (AttributeInfo.view pool)).reverse.find? (·.1 == "Code")
      with _ | r
    · rw [hfind]
      refine .none fun a ha hcode => ?_
      exact List.find?_eq_none.1 hfind _ (List.mem_reverse.2 (List.mem_map_of_mem ha))
        (AttributeInfo.isCode_iff.1 hcode)
    · rw [hfind]
      obtain ⟨hr, l, l', hsplit, hl⟩ := List.find?_eq_some_iff_append.1 hfind
      have hviews : attributes.map (AttributeInfo.view pool) = l'.reverse ++ r :: l.reverse := by
        rw [← List.reverse_reverse (attributes.map _), hsplit]
        simp
      obtain ⟨before, tail, rfl, -, htail⟩ := List.map_eq_append_iff.1 hviews
      obtain ⟨a, after, rfl, rfl, hafter⟩ := List.map_eq_cons_iff.1 htail
      refine .some (AttributeInfo.isCode_iff.2 hr) (fun a' ha' hcode => ?_) (codeContent_iff.2 rfl)
      have hmem : a'.view pool ∈ l := by
        rw [← List.mem_reverse, ← hafter]
        exact List.mem_map_of_mem ha'
      have hnot := hl _ hmem
      rw [AttributeInfo.isCode_iff.1 hcode] at hnot
      cases hnot

/-- Reading an entry of the method table gives the method that it stands for. -/
theorem recognizes_readMethod (pool : ConstantPool) (owner : ClassName) :
    Recognizes (readMethod pool owner .bodies) MemberInfo.bytes
      (MemberInfo.Denotes pool owner) := by
  have htable := recognizes_table (e := MethodFault.truncated)
    fun _ : Nat => recognizes_readAttribute pool
  intro bs m rest
  simp only [readMethod, Reader.bind_eq_ok, Reader.pure_eq_ok, lift_eq_ok]
  constructor
  · rintro ⟨_, _, hflags, _, _, hname, _, _, hdescriptor, name, _, ⟨hn, rfl⟩, descriptor, _,
      ⟨hd, rfl⟩, signature, _, ⟨hs, rfl⟩, _, _, hcount, attributes, _, hattributes, rfl, rfl⟩
    obtain ⟨flags, rfl, rfl⟩ := u2_eq_ok.1 hflags
    obtain ⟨nameIndex, rfl, rfl⟩ := u2_eq_ok.1 hname
    obtain ⟨descriptorIndex, rfl, rfl⟩ := u2_eq_ok.1 hdescriptor
    obtain ⟨t, ht, rfl⟩ := (htable _ _ _).1 (Reader.bind_eq_ok.2 ⟨_, _, hcount, hattributes⟩)
    obtain ⟨hnamed, rfl⟩ := forall₂_view_iff.1 ht
    refine ⟨⟨⟨flags⟩, nameIndex, descriptorIndex, t⟩,
      ⟨⟨name, descriptor, hn, hd, hs⟩, ?_, hnamed, ?_, ?_⟩, ?_⟩
    · rw [UInt16.ofNat_toNat]
    · intro hconcrete
      exact bodyIn_iff.2 (if_pos ⟨trivial, hconcrete⟩).symm
    · intro habstract
      exact if_neg fun h => Bool.false_ne_true (habstract.symm.trans h.2)
    · simp only [MemberInfo.bytes, List.append_assoc]
  · rintro ⟨e, he, rfl⟩
    obtain ⟨signature, _, body⟩ := m
    obtain rfl := he.flags
    obtain ⟨name, descriptor, hn, hd, hs⟩ := he.signature
    obtain ⟨n, mid, hcount, hattributes⟩ := Reader.bind_eq_ok.1
      ((htable _ _ rest).2 ⟨e.attributes, forall₂_view_iff.2 ⟨he.named, rfl⟩, rfl⟩)
    refine ⟨_, _, u2_eq_ok.2 ⟨e.flags.bits, rfl, ?_⟩, _, _, u2_eq_ok.2 ⟨e.name, rfl, rfl⟩, _, _,
      u2_eq_ok.2 ⟨e.descriptor, rfl, rfl⟩, name, _, ⟨hn, rfl⟩, descriptor, _, ⟨hd, rfl⟩,
      signature, _, ⟨hs, rfl⟩, n, mid, hcount, _, rest, hattributes, ?_, rfl⟩
    · simp only [MemberInfo.bytes, List.append_assoc]
    · rw [UInt16.ofNat_toNat]
      refine congrArg (Method.mk signature e.flags) ?_
      cases hconcrete : e.flags.isConcrete with
      | false => exact (if_neg fun h => Bool.false_ne_true h.2).trans (he.bodiless hconcrete).symm
      | true => exact (if_pos ⟨trivial, rfl⟩).trans (bodyIn_iff.1 (he.body hconcrete))

/-! ### The header -/

/-- The parts of a header: the version, the constant pool with the bytes that spell it, the flags,
    and the indices of the class, of its superclass and of its interfaces. -/
structure HeaderInfo where
  version : Bytes
  version_length : version.length = 4
  poolBytes : Bytes
  pool : ConstantPool
  pool_spelled : ConstantPool.Spelled poolBytes pool
  flags : AccessFlags
  name : UInt16
  superclass : UInt16
  interfaces : Table UInt16

/-- The bytes of a header. -/
def HeaderInfo.bytes (i : HeaderInfo) : Bytes :=
  putBigEndian 4 magic ++ (i.version ++ (i.poolBytes ++ (putBigEndian 2 i.flags.bits.toNat ++
    (putBigEndian 2 i.name.toNat ++ (putBigEndian 2 i.superclass.toNat ++
      i.interfaces.bytes fun index => putBigEndian 2 index.toNat)))))

/-- The parts say what the header is. -/
structure HeaderInfo.Denotes (i : HeaderInfo) (h : Header) : Prop where
  pool : h.pool = i.pool
  flags : h.flags = i.flags
  name : i.pool.classAt i.name.toNat = .ok h.name
  superclass : superclassAt i.pool i.superclass.toNat = .ok h.superclass
  interfaces : List.Forall₂ (fun index name => i.pool.classAt index.toNat = .ok name)
    i.interfaces.1 h.interfaces

theorem recognizes_readInterface (pool : ConstantPool) (i : Nat) :
    Recognizes (readHeader.readInterface pool i) (fun index : UInt16 => putBigEndian 2 index.toNat)
      fun index name => pool.classAt index.toNat = .ok name := by
  intro bs name rest
  simp only [readHeader.readInterface, Reader.bind_eq_ok, u2_eq_ok, lift_eq_ok]
  constructor
  · rintro ⟨_, _, ⟨index, rfl, rfl⟩, hname, rfl⟩
    exact ⟨index, hname, rfl⟩
  · rintro ⟨index, hname, rfl⟩
    exact ⟨_, rest, ⟨index, rfl, rfl⟩, hname, rfl⟩

/-- Reading a header gives what its parts say. -/
theorem recognizes_readHeader : Recognizes readHeader HeaderInfo.bytes HeaderInfo.Denotes := by
  intro bs h rest
  have htable (pool : ConstantPool) := recognizes_table (e := Fault.truncated)
    (recognizes_readInterface pool)
  have hmagic : magic < 4294967296 := by decide
  simp only [readHeader, Reader.bind_eq_ok, Reader.pure_eq_ok, lift_eq_ok, adapt_eq_ok, u4_eq_ok,
    check_eq_ok, skip_eq_ok, ConstantPool.recognizes_read _ _ _, not_not]
  constructor
  · rintro ⟨_, _, ⟨-, rfl⟩, rfl, _, _, ⟨version, hversion, rfl⟩, pool, _, ⟨poolBytes, hpool, rfl⟩,
      _, _, hflags, _, _, hthis, _, _, hsuper, name, _, ⟨hname, rfl⟩, superclass, _,
      ⟨hsuperclass, rfl⟩, _, _, hcount, interfaces, _, hinterfaces, rfl, rfl⟩
    obtain ⟨flags, rfl, rfl⟩ := u2_eq_ok.1 hflags
    obtain ⟨this, rfl, rfl⟩ := u2_eq_ok.1 hthis
    obtain ⟨super, rfl, rfl⟩ := u2_eq_ok.1 hsuper
    obtain ⟨t, ht, rfl⟩ := (htable pool _ _ _).1 (Reader.bind_eq_ok.2 ⟨_, _, hcount, hinterfaces⟩)
    refine ⟨⟨version, hversion, poolBytes, pool, hpool, ⟨flags⟩, this, super, t⟩,
      ⟨rfl, ?_, hname, hsuperclass, ht⟩, ?_⟩
    · rw [UInt16.ofNat_toNat]
    · simp only [HeaderInfo.bytes, List.append_assoc, id]
  · rintro ⟨i, hi, rfl⟩
    obtain ⟨_, _, name, superclass, interfaces⟩ := h
    obtain rfl := hi.pool
    obtain rfl := hi.flags
    obtain ⟨n, mid, hcount, hinterfaces⟩ := Reader.bind_eq_ok.1
      ((htable i.pool _ _ rest).2 ⟨i.interfaces, hi.interfaces, rfl⟩)
    refine ⟨magic, _, ⟨hmagic, ?_⟩, rfl, (), _, ⟨i.version, i.version_length, rfl⟩, i.pool, _,
      ⟨i.poolBytes, i.pool_spelled, rfl⟩, _, _, u2_eq_ok.2 ⟨i.flags.bits, rfl, rfl⟩, _, _,
      u2_eq_ok.2 ⟨i.name, rfl, rfl⟩, _, _, u2_eq_ok.2 ⟨i.superclass, rfl, rfl⟩, name, _,
      ⟨hi.name, rfl⟩, superclass, _, ⟨hi.superclass, rfl⟩, n, mid, hcount, interfaces, rest,
      hinterfaces, ?_, rfl⟩
    · simp only [HeaderInfo.bytes, List.append_assoc, id]
    · rw [UInt16.ofNat_toNat]

/-! ### The class -/

/-- The parts of a class file: the header, the fields and the methods. -/
structure ClassInfo extends HeaderInfo where
  fields : Table MemberInfo
  methods : Table MemberInfo

namespace ClassInfo

/-- The bytes of a class file up to its methods. -/
def front (i : ClassInfo) : Bytes := i.toHeaderInfo.bytes ++ i.fields.bytes MemberInfo.bytes

/-- The bytes of a class file up to the end of its methods. -/
def bytes (i : ClassInfo) : Bytes := i.front ++ i.methods.bytes MemberInfo.bytes

/-- The parts say what the class is. -/
structure Denotes (i : ClassInfo) (c : Class) : Prop where
  level : c.level = .bodies
  header : i.toHeaderInfo.Denotes ⟨i.pool, c.flags, c.name, c.superclass, c.interfaces⟩
  methods : List.Forall₂ (MemberInfo.Denotes i.pool c.name) i.methods.1 c.methods

/-- The file begins with these parts. A file that ends before the number of its methods is complete
    has none. -/
inductive Begins (i : ClassInfo) : Bytes → Prop
  | whole (rest : Bytes) : Begins i (i.bytes ++ rest)
  | cut {left : Bytes} : i.methods.1 = [] → left.length < 2 → Begins i (i.front ++ left)

end ClassInfo

/-- The number of methods is missing only where the file ends. -/
theorem readMethodCount_of_length_lt (h : bs.length < 2) : readMethodCount bs = .ok (0, bs) := by
  rcases bs with _ | ⟨a, _ | ⟨b, bs⟩⟩
  · rfl
  · rfl
  · simp only [List.length_cons] at h
    omega

theorem readMethodCount_of_le_length (e : Fault) (h : 2 ≤ bs.length) :
    readMethodCount bs = u2 e bs := by
  rcases bs with _ | ⟨a, _ | ⟨b, bs⟩⟩
  · cases h
  · simp only [List.length_singleton] at h
    omega
  · rfl

/-- Reading the method table gives the methods of its entries. A file that ends before there is a
    table has no methods. -/
theorem readMethods_eq_ok {owner : ClassName} {ms : List Method} :
    (readMethodCount >>= fun n =>
        times (fun i => adapt (.method i) (readMethod pool owner .bodies)) 0 n) bs =
          .ok (ms, rest) ↔
      (∃ t : Table MemberInfo, List.Forall₂ (MemberInfo.Denotes pool owner) t.1 ms ∧
        bs = t.bytes MemberInfo.bytes ++ rest) ∨ (bs.length < 2 ∧ ms = [] ∧ bs = rest) := by
  rcases Nat.lt_or_ge bs.length 2 with hlt | hge
  · have hshort : ∀ t : Table MemberInfo, bs ≠ t.bytes MemberInfo.bytes ++ rest := by
      rintro t rfl
      simp only [Table.bytes, List.length_append, length_putBigEndian] at hlt
      omega
    simp only [Reader.bind_eq_ok, readMethodCount_of_length_lt hlt]
    constructor
    · rintro ⟨_, _, h, h'⟩
      cases h
      cases h'
      exact .inr ⟨hlt, rfl, rfl⟩
    · rintro (⟨t, -, h⟩ | ⟨-, rfl, rfl⟩)
      · exact absurd h (hshort t)
      · exact ⟨0, bs, rfl, rfl⟩
  · have htable := recognizes_table (e := Fault.truncated) fun i =>
      (recognizes_readMethod pool owner).adapt (Fault.method i)
    rw [← htable _ _ _, Reader.bind_eq_ok, Reader.bind_eq_ok,
      readMethodCount_of_le_length Fault.truncated hge]
    exact ⟨.inl, fun h => h.resolve_right fun h => by omega⟩

/-- Reading a class with all its bodies gives what the parts of the file say. Nothing is asked of
    the content of an attribute, nor of what comes after the methods; and the methods may be
    missing, with their number, if the file ends there. -/
theorem read_bodies_eq_ok {c : Class} :
    read .bodies bs = .ok (c, rest) ↔ ∃ i : ClassInfo, i.Denotes c ∧ (bs = i.bytes ++ rest ∨
      (i.methods.1 = [] ∧ rest.length < 2 ∧ bs = i.front ++ rest)) := by
  have hlevel : Level.bodies ≠ .hierarchy := by decide
  simp only [read, if_neg hlevel, Reader.bind_eq_ok, Reader.pure_eq_ok, recognizes_readHeader _ _ _,
    recognizes_skipFields _ _ _]
  constructor
  · rintro ⟨h, _, ⟨i, hi, rfl⟩, _, mid, ⟨fields, -, rfl⟩, _, _, hcount, ms, _, hms, rfl, rfl⟩
    have hdenotes : i.Denotes ⟨i.pool, h.flags, h.name, h.superclass, h.interfaces⟩ := by
      rw [← hi.pool]
      exact hi
    rcases readMethods_eq_ok.1 (Reader.bind_eq_ok.2 ⟨_, _, hcount, hms⟩) with
      ⟨methods, hmethods, rfl⟩ | ⟨hlt, rfl, rfl⟩
    · rw [hi.pool] at hmethods
      refine ⟨⟨i, fields, methods⟩, ⟨rfl, hdenotes, hmethods⟩, .inl ?_⟩
      simp only [ClassInfo.bytes, ClassInfo.front, List.append_assoc]
    · refine ⟨⟨i, fields, [], by decide⟩, ⟨rfl, hdenotes, .nil⟩, .inr ⟨rfl, hlt, ?_⟩⟩
      simp only [ClassInfo.front, List.append_assoc]
  · rintro ⟨i, hi, hbs⟩
    obtain ⟨name, _, flags, superclass, interfaces, ms⟩ := c
    obtain rfl := hi.level
    have hmethods : ∃ mid, bs = i.front ++ mid ∧
        ((∃ t : Table MemberInfo, List.Forall₂ (MemberInfo.Denotes i.pool name) t.1 ms ∧
          mid = t.bytes MemberInfo.bytes ++ rest) ∨ (mid.length < 2 ∧ ms = [] ∧ mid = rest)) := by
      rcases hbs with rfl | ⟨hnil, hlt, rfl⟩
      · exact ⟨_, by rw [ClassInfo.bytes, List.append_assoc], .inl ⟨i.methods, hi.methods, rfl⟩⟩
      · have hms := hi.methods
        rw [hnil, List.forall₂_nil_left_iff] at hms
        exact ⟨rest, rfl, .inr ⟨hlt, hms, rfl⟩⟩
    obtain ⟨mid, rfl, hmid⟩ := hmethods
    obtain ⟨n, mid', hcount, hms⟩ := Reader.bind_eq_ok.1 (readMethods_eq_ok.2 hmid)
    refine ⟨_, _, ⟨i.toHeaderInfo, hi.header, ?_⟩, (), mid, ⟨i.fields, trivial, rfl⟩, n, mid',
      hcount, ms, rest, hms, rfl, rfl⟩
    rw [ClassInfo.front, List.append_assoc]

theorem parse_of_isValid {level : Level} (h : level.IsValid) (data : Bytes) :
    parse data level = (read level data).map Prod.fst := if_pos h

theorem parse_eq_ok {level : Level} (h : level.IsValid) {data : Bytes} {c : Class} :
    parse data level = .ok c ↔ ∃ rest, read level data = .ok (c, rest) := by
  simp only [parse_of_isValid h, map_eq_ok_iff, Prod.exists, exists_and_right, exists_eq_right]

/-- A class file is what its parts say. -/
theorem parse_bodies_eq_ok {data : Bytes} {c : Class} :
    parse data .bodies = .ok c ↔ ∃ i : ClassInfo, i.Begins data ∧ i.Denotes c := by
  rw [parse_eq_ok (by decide)]
  constructor
  · rintro ⟨rest, h⟩
    obtain ⟨i, hi, rfl | ⟨hnil, hlt, rfl⟩⟩ := read_bodies_eq_ok.1 h
    · exact ⟨i, .whole rest, hi⟩
    · exact ⟨i, .cut hnil hlt, hi⟩
  · rintro ⟨i, ⟨rest⟩ | @⟨left, hnil, hlt⟩, hi⟩
    · exact ⟨rest, read_bodies_eq_ok.2 ⟨i, hi, .inl rfl⟩⟩
    · exact ⟨left, read_bodies_eq_ok.2 ⟨i, hi, .inr ⟨hnil, hlt, rfl⟩⟩⟩

end ClassFile

end KernelReach.Binary
