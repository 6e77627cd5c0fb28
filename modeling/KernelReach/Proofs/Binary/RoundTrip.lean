import KernelReach.Proofs.Binary.Pool

/-!
# Assembled classes are read back

The class file of a well-formed description is read as the class that it describes
(`parse_assemble`): with the same header, the same methods in the same order, and in every concrete
method the same instructions at the right offsets, whose calls lead to the methods that they name.
-/

namespace KernelReach.Binary

open Reader

/-! ### Well-formed descriptions -/

/-- The number of bytes that a piece of code takes. -/
def CodeItem.size : CodeItem → Nat
  | .call .interface _ _ _ => 5
  | .call _ _ _ _ => 3
  | .raw bytes => bytes.length

/-- The piece of code is a call, or another instruction, with operands of a fixed size. -/
def CodeItem.IsWellFormed : CodeItem → Prop
  | .call _ owner name descriptor => IsReference owner name descriptor
  | .raw [] => False
  | .raw (op :: args) => operands op = .fixed args.length

instance : DecidablePred CodeItem.IsWellFormed
  | .call _ owner name descriptor => inferInstanceAs (Decidable (IsReference owner name descriptor))
  | .raw [] => inferInstanceAs (Decidable False)
  | .raw (op :: args) => inferInstanceAs (Decidable (operands op = .fixed args.length))

/-- The number of bytes that the code of a method takes. -/
def MethodSpec.codeSize (m : MethodSpec) : Nat := (m.code.map CodeItem.size).sum

/-- The method can be written. What it has for code counts only if it is concrete. -/
@[mk_iff]
structure MethodSpec.IsWellFormed (m : MethodSpec) : Prop where
  name : IsMethodName m.name
  descriptor : IsDescriptor m.descriptor
  code : m.flags.isConcrete = true → ∀ item ∈ m.code, item.IsWellFormed
  codeSize : m.flags.isConcrete = true → 12 + m.codeSize < 4294967296

instance (m : MethodSpec) : Decidable m.IsWellFormed :=
  decidable_of_iff _ (MethodSpec.isWellFormed_iff m).symm

/-- The class can be written: its names are names, and all that is counted in two bytes is less than
    65536. -/
structure ClassSpec.IsWellFormed (c : ClassSpec) : Prop where
  name : IsClassName c.name
  superclass : IsClassName c.superclass
  interfaces : ∀ name ∈ c.interfaces, IsClassName name
  methods : ∀ m ∈ c.methods, m.IsWellFormed
  interfaceCount : c.interfaces.length < 65536
  methodCount : c.methods.length < 65536
  poolCount : (c.assembleBody.run {}).2.count < 65536

/-! ### What is described -/

/-- The piece of code is an instruction with that opcode, which makes that call. -/
inductive CodeItem.Is : CodeItem → UInt8 → Option Invocation → Prop
  | call {kind : InvokeKind} {owner name descriptor : String} {target : Signature} :
      Signature.ofDescriptor (receiver owner) name descriptor = .ok target →
      Is (.call kind owner name descriptor) (callOpcode kind) (some ⟨kind, target⟩)
  | raw {op : UInt8} {args : Bytes} : Is (.raw (op :: args)) op none

/-- The pieces of code are the instructions, the first one at `pc`. -/
inductive Listing : (pc : Nat) → List CodeItem → List Instruction → Prop
  | nil {pc : Nat} : Listing pc [] []
  | cons {pc : Nat} {item : CodeItem} {items : List CodeItem} {op : UInt8}
      {invoke : Option Invocation} {instructions : List Instruction} :
      item.Is op invoke → Listing (pc + item.size) items instructions →
      Listing pc (item :: items) (⟨pc, op, invoke⟩ :: instructions)

/-- The method of the class `owner` is the one that is described. -/
structure MethodSpec.Describes (owner : ClassName) (spec : MethodSpec) (m : Method) : Prop where
  signature : Signature.ofDescriptor owner spec.name spec.descriptor = .ok m.signature
  flags : m.flags = spec.flags
  body : spec.flags.isConcrete = true →
    ∃ instructions, m.body = some ⟨instructions, none⟩ ∧ Listing 0 spec.code instructions
  bodiless : spec.flags.isConcrete = false → m.body = none

/-- The class is the one that is described. -/
structure ClassSpec.Describes (spec : ClassSpec) (c : Class) : Prop where
  name : c.name = ⟨spec.name⟩
  level : c.level = .bodies
  flags : c.flags = spec.flags
  superclass : c.superclass = if spec.superclass = "" then none else some ⟨spec.superclass⟩
  interfaces : c.interfaces = spec.interfaces.map ClassName.mk
  methods : List.Forall₂ (MethodSpec.Describes ⟨spec.name⟩) spec.methods c.methods

/-! ### Code -/

/-- The bytes are an instruction, and it is that of the piece of code. -/
def Spells (p : ConstantPool) (item : CodeItem) (bytes : Bytes) : Prop :=
  ∃ op args invoke, bytes = op :: args ∧ bytes.length = item.size ∧ item.Is op invoke ∧
    ∀ pc, Reads (Code.readOperands p pc op) args (invoke, args.length)

variable {Pre : ConstantPool → Prop} {p : ConstantPool}

theorem spells_call {kind : InvokeKind} {owner name descriptor : String} {sig : Signature} {i : Nat}
    (hi : i < 65536) (hsig : Signature.ofDescriptor (receiver owner) name descriptor = .ok sig)
    (hmethod : p.methodAt i = .ok sig) {arguments : Bytes}
    (hlength : arguments.length = if kind = .interface then 2 else 0) :
    Spells p (.call kind owner name descriptor)
      (callOpcode kind :: putBigEndian 2 i ++ arguments) := by
  have hoperands : operands (callOpcode kind) = .call kind arguments.length := by
    rw [hlength]
    cases kind <;> decide
  refine ⟨callOpcode kind, putBigEndian 2 i ++ arguments, some ⟨kind, sig⟩, rfl, ?_, .call hsig,
    fun pc => ?_⟩
  · rw [List.cons_append, List.length_cons, List.length_append, length_putBigEndian, hlength]
    cases kind <;> rfl
  · rw [Code.readOperands, hoperands, List.length_append, length_putBigEndian]
    exact (reads_u2 _ hi).bind ((reads_lift hmethod).bind_nil
      ((reads_skip _ rfl).nil_bind (reads_pure _)))

theorem writes_item {item : CodeItem} (h : item.IsWellFormed) :
    Writes Pre item.assemble fun bytes p => Spells p item bytes := by
  rcases item with ⟨kind, owner, name, descriptor⟩ | ⟨_ | ⟨op, args⟩⟩
  case call =>
    obtain ⟨sig, hsig⟩ := IsDescriptor.exists_signature h.descriptor (receiver owner) name
    refine (writes_methodRef kind h hsig).bind fun i => writes_pure ?_
    rintro p hp ⟨-, hmethod⟩
    refine spells_call (ConstantPool.lt_of_lookup hp hmethod) hsig hmethod ?_
    cases kind <;> rfl
  case raw.nil => exact h.elim
  case raw.cons =>
    refine writes_pure fun p _ _ => ⟨op, args, none, rfl, rfl, .raw, fun pc => ?_⟩
    have hoperands : operands op = .fixed args.length := h
    rw [Code.readOperands, hoperands]
    exact (reads_skip _ rfl).nil_bind (reads_pure _)

theorem length_of_spells {items : List CodeItem} {pieces : List Bytes}
    (h : List.Forall₂ (Spells p) items pieces) :
    pieces.flatten.length = (items.map CodeItem.size).sum := by
  induction h with
  | nil => rfl
  | cons hitem _ ih =>
    obtain ⟨_, _, _, -, hlength, -⟩ := hitem
    rw [List.flatten_cons, List.length_append, List.map_cons, List.sum_cons, ih, hlength]

/-- One instruction is decoded, and then the rest. -/
theorem decodeFrom_cons {pc size : Nat} {op : UInt8} {bytes after : Bytes}
    {invoke : Option Invocation}
    (h : Code.readOperands p pc op bytes = .ok ((invoke, size), after)) :
    Code.decodeFrom p pc (op :: bytes) =
      ⟨⟨pc, op, invoke⟩ :: (Code.decodeFrom p (pc + 1 + size) after).instructions,
        (Code.decodeFrom p (pc + 1 + size) after).fault⟩ := by
  rw [Code.decodeFrom]
  split
  case h_1 fault hfault =>
    rw [h] at hfault
    cases hfault
  case h_2 invoke' size' after' hok =>
    rw [h] at hok
    cases hok
    rfl

/-- The code of a method is decoded to the pieces that it was put together from. -/
theorem decodeFrom_flatten {items : List CodeItem} {pieces : List Bytes}
    (h : List.Forall₂ (Spells p) items pieces) (pc : Nat) :
    ∃ instructions, Code.decodeFrom p pc pieces.flatten = ⟨instructions, none⟩ ∧
      Listing pc items instructions := by
  -- On the pieces, for every offset: the rest of the code begins where its first piece ends.
  induction h generalizing pc with
  | nil =>
    refine ⟨[], ?_, .nil⟩
    rw [List.flatten_nil, Code.decodeFrom]
  | @cons item bytes items pieces hitem _ ih =>
    obtain ⟨op, args, invoke, rfl, hlength, his, hreads⟩ := hitem
    have hsize : pc + 1 + args.length = pc + item.size := by
      rw [← hlength, List.length_cons]
      omega
    obtain ⟨instructions, hdecode, hlisting⟩ := ih (pc + item.size)
    refine ⟨⟨pc, op, invoke⟩ :: instructions, ?_, .cons his hlisting⟩
    rw [List.flatten_cons, List.cons_append, decodeFrom_cons (hreads pc _), hsize, hdecode]

/-! ### Methods -/

theorem reads_flags {ε : Type} (e : ε) (flags : AccessFlags) :
    Reads (u2 e) (putBigEndian 2 flags.bits.toNat) flags.bits.toNat :=
  reads_u2 e flags.bits.toNat_lt

/-- The content of a code attribute. -/
def codeContent (code : Bytes) : Bytes :=
  putBigEndian 2 8 ++ (putBigEndian 2 8 ++ (putBigEndian 4 code.length ++ (code ++
    (putBigEndian 2 0 ++ putBigEndian 2 0))))

theorem length_codeContent (code : Bytes) : (codeContent code).length = 12 + code.length := by
  simp only [codeContent, List.length_append, length_putBigEndian]
  omega

/-- The code is found in its attribute. -/
theorem ofAttribute_codeContent {code : Bytes} (h : code.length < 4294967296) :
    Code.ofAttribute p (codeContent code) = Code.decode p code := by
  have hread : Reads Code.ofAttribute.readCode
      ((putBigEndian 2 8 ++ putBigEndian 2 8) ++ (putBigEndian 4 code.length ++ code)) code := by
    unfold Code.ofAttribute.readCode
    have hskip : Reads (skip () 4) (putBigEndian 2 8 ++ putBigEndian 2 8) () := reads_skip () rfl
    exact hskip.bind ((reads_u4 _ h).bind (reads_bytes _ rfl))
  have hcontent := hread (putBigEndian 2 0 ++ putBigEndian 2 0)
  simp only [List.append_assoc] at hcontent
  rw [Code.ofAttribute, codeContent, hcontent]

/-- The attribute with the code of a method is read back. -/
theorem reads_codeAttribute {codeName : Nat} {code : Bytes} (hp : p.entries.size < 65536)
    (hname : p.textAt codeName = .ok "Code") (h : 12 + code.length < 4294967296) :
    Reads (ClassFile.readAttribute p)
      (putBigEndian 2 codeName ++ (putBigEndian 4 (12 + code.length) ++ codeContent code))
      ("Code", codeContent code) :=
  (reads_u2 _ (ConstantPool.lt_of_lookup hp hname)).bind ((reads_u4 _ h).bind
    ((reads_lift hname).bind_nil ((reads_bytes _ (length_codeContent code)).nil_bind
      (reads_pure _))))

/-- A method is read back, given its attributes. -/
theorem reads_method_entry {m : MethodSpec} {owner : ClassName} {sig : Signature} {n d : Nat}
    (hp : p.entries.size < 65536) (hn : p.textAt n = .ok m.name)
    (hd : p.textAt d = .ok m.descriptor)
    (hsig : Signature.ofDescriptor owner m.name m.descriptor = .ok sig)
    {pieces : List Bytes} {attributes : List (String × Bytes)} (hcount : attributes.length < 65536)
    (hattributes : List.Forall₂ (fun bytes a => ∀ _ : Nat,
      Reads (ClassFile.readAttribute p) bytes a) pieces attributes) :
    Reads (ClassFile.readMethod p owner .bodies)
      (putBigEndian 2 m.flags.bits.toNat ++ (putBigEndian 2 n ++ (putBigEndian 2 d ++
        (putBigEndian 2 attributes.length ++ pieces.flatten))))
      ⟨sig, m.flags, if m.flags.isConcrete then ClassFile.bodyOf p attributes else none⟩ := by
  have hflags : (⟨UInt16.ofNat m.flags.bits.toNat⟩ : AccessFlags) = m.flags := by
    rw [UInt16.ofNat_toNat]
  refine (reads_flags _ m.flags).bind ((reads_u2 _ (ConstantPool.lt_of_lookup hp hn)).bind
    ((reads_u2 _ (ConstantPool.lt_of_lookup hp hd)).bind ((reads_lift hn).bind_nil
      ((reads_lift hd).bind_nil ((reads_lift hsig).bind_nil
        ((reads_u2 _ hcount).bind ((reads_times hattributes 0).nil_bind ?_)))))))
  simp only [hflags, true_and]
  exact reads_pure _

/-- The bytes are the entry of the method table for the method that is described. -/
def IsEntry (p : ConstantPool) (owner : ClassName) (m : MethodSpec) (bytes : Bytes) : Prop :=
  ∃ m', Reads (ClassFile.readMethod p owner .bodies) bytes m' ∧ m.Describes owner m'

theorem writes_method {m : MethodSpec} (h : m.IsWellFormed) (owner : ClassName) {codeName : Nat}
    (hcode : ∀ p, Pre p → p.textAt codeName = .ok "Code") :
    Writes Pre (m.assemble codeName) fun bytes p => IsEntry p owner m bytes := by
  obtain ⟨sig, hsig⟩ := h.descriptor.exists_signature owner m.name
  refine (writes_text h.name.toIsWritable).bind fun n =>
    (writes_text h.descriptor.toIsWritable).bind fun d => ?_
  by_cases hconcrete : m.flags.isConcrete = true
  · -- The code is the only attribute, so it is the body.
    simp only [hconcrete, if_true]
    refine (writes_mapM fun item hitem => writes_item (h.code hconcrete item hitem)).bind
      fun pieces => writes_pure ?_
    rintro p hp ⟨⟨⟨hpre, hn⟩, hd⟩, hpieces⟩
    have hfits : 12 + pieces.flatten.length < 4294967296 := by
      rw [length_of_spells hpieces]
      exact h.codeSize hconcrete
    obtain ⟨instructions, hdecode, hlisting⟩ := decodeFrom_flatten hpieces 0
    have hbody : ClassFile.bodyOf p [("Code", codeContent pieces.flatten)] =
        some ⟨instructions, none⟩ := by
      rw [← hdecode]
      exact congrArg some (ofAttribute_codeContent (by omega))
    have hreads := reads_method_entry hp hn hd hsig (by simp)
      (.cons (fun _ => reads_codeAttribute hp (hcode p hpre) hfits) .nil)
    rw [List.flatten_singleton, if_pos hconcrete, hbody] at hreads
    simp only [List.append_assoc]
    exact ⟨_, hreads, hsig, rfl, fun _ => ⟨instructions, rfl, hlisting⟩,
      fun hnot => absurd hconcrete (by simp [hnot])⟩
  · simp only [hconcrete]
    refine writes_pure ?_
    rintro p hp ⟨⟨-, hn⟩, hd⟩
    have hreads := reads_method_entry hp hn hd hsig (by simp) .nil
    rw [List.flatten_nil, List.append_nil, if_neg hconcrete] at hreads
    simp only [List.append_assoc]
    exact ⟨_, hreads, hsig, rfl, fun h => absurd h hconcrete, fun _ => rfl⟩

/-! ### The header -/

theorem superclassAt_eq {i : Nat} {name : ClassName} (h : p.classAt i = .ok name) :
    ClassFile.superclassAt p i = .ok (if name.text = "" then none else some name) := by
  have hi : i ≠ 0 := by
    rintro rfl
    cases h
  rw [ClassFile.superclassAt, if_neg hi, h]
  rfl

theorem writes_superclass {name : String} (h : IsClassName name) :
    Writes Pre (if name = "" then pure 0 else PoolDraft.className name) fun i p =>
      i < 65536 ∧
        ClassFile.superclassAt p i = .ok (if name = "" then none else some ⟨name⟩) := by
  split_ifs with hname
  · exact writes_pure fun p _ _ => ⟨by decide, rfl⟩
  · refine (writes_className (.inl h)).imp fun i p hp _ hclass => ?_
    refine ⟨ConstantPool.lt_of_lookup hp hclass, ?_⟩
    rw [superclassAt_eq hclass, h.receiver_eq, if_neg hname]

theorem reads_pool {draft : PoolDraft} {ks : List Constant} (h : Written draft ks)
    (hcount : draft.count < 65536) :
    Reads ConstantPool.read (putBigEndian 2 draft.count ++ draft.entries.reverse.flatten)
      (poolOf ks) := by
  rw [h.count] at hcount ⊢
  exact (reads_u2 _ hcount).bind ((reads_entries h.entries 1).nil_bind (reads_pure _))

theorem reads_interfaces {names : List String} {indices : List Nat}
    (hp : p.entries.size < 65536)
    (h : List.Forall₂ (fun name i => p.classAt i = .ok ⟨name⟩) names indices) :
    Reads (times (ClassFile.readHeader.readInterface p) 0 indices.length)
      (indices.map (putBigEndian 2)).flatten (names.map ClassName.mk) := by
  rw [← h.length_eq, ← List.length_map ClassName.mk]
  refine reads_times ?_ 0
  rw [List.forall₂_map_left_iff, List.forall₂_map_right_iff]
  exact h.flip.imp fun i name hclass _ =>
    (reads_u2 _ (ConstantPool.lt_of_lookup hp hclass)).nil_bind (reads_lift hclass)

/-- The parts of a class file after its constant pool `p`, which lead to what is described. -/
inductive IsBody (p : ConstantPool) (c : ClassSpec) : Bytes → Prop
  | intro {name superclass : Nat} {interfaces : List Nat} {methods : List Bytes} :
      p.classAt name = .ok ⟨c.name⟩ →
      superclass < 65536 ∧ ClassFile.superclassAt p superclass =
        .ok (if c.superclass = "" then none else some ⟨c.superclass⟩) →
      List.Forall₂ (fun name i => p.classAt i = .ok ⟨name⟩) c.interfaces interfaces →
      List.Forall₂ (IsEntry p ⟨c.name⟩) c.methods methods →
      IsBody p c (putBigEndian 2 c.flags.bits.toNat ++ putBigEndian 2 name
        ++ putBigEndian 2 superclass ++ putBigEndian 2 interfaces.length
        ++ (interfaces.map (putBigEndian 2)).flatten ++ putBigEndian 2 0
        ++ putBigEndian 2 methods.length ++ methods.flatten ++ putBigEndian 2 0)

theorem writes_body {c : ClassSpec} (h : c.IsWellFormed) :
    Writes Pre c.assembleBody fun bytes p => IsBody p c bytes := by
  have hclass (name : String) (hname : IsClassName name) {Pre : ConstantPool → Prop} :
      Writes Pre (PoolDraft.className name) fun i p => p.classAt i = .ok ⟨name⟩ := by
    rw [← hname.receiver_eq]
    exact writes_className (.inl hname)
  have hcode : IsWritable "Code" := by decide
  refine (hclass c.name h.name).bind fun name => ?_
  -- What follows the superclass is in both branches of the choice.
  rw [ite_bind]
  refine (writes_superclass h.superclass).bind fun superclass => ?_
  refine (writes_mapM fun i hi => hclass i (h.interfaces i hi)).bind fun interfaces => ?_
  refine (writes_text hcode).bind fun codeName => ?_
  refine (writes_mapM fun m hm => writes_method (h.methods m hm) ⟨c.name⟩ fun p hpre =>
    hpre.2).bind fun methods => writes_pure ?_
  rintro p - ⟨⟨⟨⟨⟨-, hname⟩, hsuperclass⟩, hinterfaces⟩, -⟩, hmethods⟩
  exact .intro hname hsuperclass hinterfaces hmethods

/-! ### Classes -/

theorem reads_header {c : ClassSpec} {draft : PoolDraft} {ks : List Constant}
    {name superclass : Nat} {interfaces : List Nat} (hw : Written draft ks)
    (hcount : draft.count < 65536) (hinterfaceCount : c.interfaces.length < 65536)
    (hname : (poolOf ks).classAt name = .ok ⟨c.name⟩)
    (hsuperclass : superclass < 65536 ∧ ClassFile.superclassAt (poolOf ks) superclass =
      .ok (if c.superclass = "" then none else some ⟨c.superclass⟩))
    (hinterfaces : List.Forall₂ (fun name i => (poolOf ks).classAt i = .ok ⟨name⟩) c.interfaces
      interfaces) :
    Reads ClassFile.readHeader
      (putBigEndian 4 0xcafebabe ++ ((putBigEndian 2 0 ++ putBigEndian 2 52) ++
        ((putBigEndian 2 draft.count ++ draft.entries.reverse.flatten) ++
        (putBigEndian 2 c.flags.bits.toNat ++ (putBigEndian 2 name ++ (putBigEndian 2 superclass ++
        (putBigEndian 2 interfaces.length ++ (interfaces.map (putBigEndian 2)).flatten)))))))
      { pool := poolOf ks, flags := c.flags, name := ⟨c.name⟩,
        superclass := if c.superclass = "" then none else some ⟨c.superclass⟩,
        interfaces := c.interfaces.map ClassName.mk } := by
  have hp : (poolOf ks).entries.size < 65536 := size_poolOf_lt (by rw [hw.count] at hcount; omega)
  have hversion : Reads (skip ClassFile.Fault.truncated 4) (putBigEndian 2 0 ++ putBigEndian 2 52)
    () := reads_skip _ rfl
  have hlength : interfaces.length < 65536 := by
    rw [← hinterfaces.length_eq]
    exact hinterfaceCount
  refine (reads_u4 _ (by decide)).bind (hversion.bind (((reads_pool hw hcount).adapt _).bind
    ((reads_flags _ c.flags).bind ((reads_u2 _ (ConstantPool.lt_of_lookup hp hname)).bind
    ((reads_u2 _ hsuperclass.1).bind ((reads_lift hname).bind_nil
    ((reads_lift hsuperclass.2).bind_nil ((reads_u2 _ hlength).bind
    ((reads_interfaces hp hinterfaces).nil_bind ?_)))))))))
  rw [UInt16.ofNat_toNat]
  exact reads_pure _

theorem reads_skipFields : Reads ClassFile.skipFields (putBigEndian 2 0) () :=
  fun _ => rfl

theorem reads_methodCount {n : Nat} (h : n < 65536) :
    Reads ClassFile.readMethodCount (putBigEndian 2 n) n := by
  intro rest
  rw [ClassFile.readMethodCount, reads_u2 () h rest]

/-- All methods are read back. -/
theorem exists_methods {owner : ClassName} {specs : List MethodSpec} {pieces : List Bytes}
    (h : List.Forall₂ (IsEntry p owner) specs pieces) :
    ∃ ms, List.Forall₂ (Reads (ClassFile.readMethod p owner .bodies)) pieces ms ∧
      List.Forall₂ (MethodSpec.Describes owner) specs ms := by
  induction h with
  | nil => exact ⟨[], .nil, .nil⟩
  | cons hm _ ih =>
    obtain ⟨m', hreads, hdescribes⟩ := hm
    obtain ⟨ms, hms, hspecs⟩ := ih
    exact ⟨m' :: ms, .cons hreads hms, .cons hdescribes hspecs⟩

/-- The header and the methods are read back, and the attributes of the class are left. -/
theorem exists_read {c : ClassSpec} {draft : PoolDraft} {ks : List Constant} {body : Bytes}
    (h : c.IsWellFormed) (hw : Written draft ks) (hcount : draft.count < 65536)
    (hbody : IsBody (poolOf ks) c body) :
    ∃ cls, ClassFile.read .bodies (putBigEndian 4 0xcafebabe ++ putBigEndian 2 0 ++
      putBigEndian 2 52 ++ putBigEndian 2 draft.count ++ draft.entries.reverse.flatten ++ body) =
        .ok (cls, putBigEndian 2 0) ∧ c.Describes cls := by
  obtain ⟨hname, hsuperclass, hinterfaces, hmethods⟩ := hbody
  have hheader := reads_header hw hcount h.interfaceCount hname hsuperclass hinterfaces
  obtain ⟨ms, hms, hdescribes⟩ := exists_methods hmethods
  have hlength : ms.length < 65536 := by
    rw [← hdescribes.length_eq]
    exact h.methodCount
  have htable := reads_times (hms.imp fun _ _ hm i => hm.adapt (ClassFile.Fault.method i)) 0
  have hread : Reads (ClassFile.read .bodies) _ _ := hheader.bind (reads_skipFields.bind
    ((reads_methodCount hlength).bind (htable.nil_bind (reads_pure _))))
  -- The number of attributes of the class comes last and is not read.
  have hbytes := hread (putBigEndian 2 0)
  rw [← hdescribes.length_eq, hmethods.length_eq] at hbytes
  simp only [List.append_assoc] at hbytes ⊢
  exact ⟨_, hbytes, rfl, rfl, rfl, rfl, rfl, hdescribes⟩

/-- The class file of a well-formed description is read as the class that it describes. -/
theorem parse_assemble (c : ClassSpec) (h : c.IsWellFormed) :
    ∃ cls, ClassFile.parse c.assemble .bodies = .ok cls ∧ c.Describes cls := by
  have htrue : Final [] fun _ => True := fun _ _ _ => trivial
  obtain ⟨ks, -, hw, hbody⟩ := writes_body h {} [] written_empty htrue
  -- The pool that the draft ends with is one that it can grow into, as it has room for it.
  have hlength : ks.length < 65535 := by
    have hcount : (c.assembleBody {}).2.count < 65536 := h.poolCount
    rw [hw.count] at hcount
    omega
  obtain ⟨cls, hread, hdescribes⟩ :=
    exists_read h hw h.poolCount (hbody ks List.prefix_rfl hlength)
  refine ⟨cls, ?_, hdescribes⟩
  rw [ClassFile.parse, if_pos (by decide)]
  exact congrArg (Except.map Prod.fst) hread

/-- A class whose name has letters of two and three bytes. One of its methods is only declared, and
    the other one calls a method of an array, an interface method and a constructor. -/
def Sample.greeting : ClassSpec where
  name := "app.Grüße♥"
  superclass := "app.Base"
  interfaces := ["app.Sink", "app.Source"]
  flags := .isPublic ||| .isSuper ||| .isAbstract
  methods := [
    ⟨"accept", "(Ljava/lang/Object;I)V", .isPublic ||| .isAbstract, []⟩,
    ⟨"copy", "([I)V", .isPublic, [
      .raw [loadThisOpcode],
      .call .virtual "[I" "clone" "()Ljava/lang/Object;",
      .raw [0x10, 7],
      .call .interface "app.Sink" "accept" "(Ljava/lang/Object;I)V",
      .call .special "app.Base" "<init>" "()V",
      .ret]⟩]

theorem Sample.greeting_isWellFormed : Sample.greeting.IsWellFormed where
  name := by decide
  superclass := by decide
  interfaces := by decide
  methods := by decide +kernel
  interfaceCount := by decide
  methodCount := by decide
  poolCount := Nat.lt_of_le_of_lt (ClassSpec.count_assembleBody_le greeting) (by decide)

theorem parse_assemble_greeting : Sample.greeting.IsWellFormed ∧
    ∃ cls, ClassFile.parse Sample.greeting.assemble .bodies = .ok cls ∧
      Sample.greeting.Describes cls :=
  ⟨Sample.greeting_isWellFormed, parse_assemble Sample.greeting Sample.greeting_isWellFormed⟩

end KernelReach.Binary
