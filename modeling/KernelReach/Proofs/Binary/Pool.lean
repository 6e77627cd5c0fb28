import KernelReach.Binary.Assembly
import KernelReach.Binary.ClassFile
import KernelReach.Proofs.Binary.Reading
import KernelReach.Proofs.Binary.Text
import KernelReach.Proofs.Collections
import Mathlib.Tactic.MkIffOfInductiveProp

/-!
# The constant pool of an assembled class

While a class is assembled, its constant pool grows. What an index stands for must therefore be said
of the finished pool: `Final` is about every pool into which a draft can grow, and `Writes x M` says
that the step `x` of the assembler adds to the draft and returns something of which `M` holds in
every finished pool.

An entry is found by its key. The keys of references are joined names, and that two references never
share an entry (`joined_inj`) is what the conditions on names are for.
-/

namespace KernelReach.Binary

/-! ### Names -/

/-- The text can be written, and is read back. -/
@[mk_iff]
structure IsWritable (s : String) : Prop where
  basic : ∀ c ∈ s.toList, ModifiedUtf8.IsBasic c
  size : s.utf8ByteSize < 65536

/-- The dotted name of a class. -/
@[mk_iff]
structure IsClassName (s : String) : Prop extends IsWritable s where
  slash : '/' ∉ s.toList
  paren : '(' ∉ s.toList
  bracket : s.toList.head? ≠ some '['

/-- The name of an array type, which a call may have for the class of its receiver. -/
@[mk_iff]
structure IsArrayName (s : String) : Prop extends IsWritable s where
  paren : '(' ∉ s.toList
  bracket : s.toList.head? = some '['

/-- The name of a method. -/
@[mk_iff]
structure IsMethodName (s : String) : Prop extends IsWritable s where
  dot : '.' ∉ s.toList
  colon : ':' ∉ s.toList
  paren : '(' ∉ s.toList

/-- The descriptor of a method. -/
structure IsDescriptor (s : String) : Prop extends IsWritable s where
  accepted : ∃ types, Descriptor.parse s = .ok types

/-- A method as a call names it. -/
@[mk_iff]
structure IsReference (owner name descriptor : String) : Prop where
  owner : IsClassName owner ∨ IsArrayName owner
  name : IsMethodName name
  descriptor : IsDescriptor descriptor

instance (s : String) : Decidable (IsWritable s) :=
  -- Not by trying all characters that there are.
  have : Decidable (∀ c ∈ s.toList, ModifiedUtf8.IsBasic c) := List.decidableBAll _ _
  decidable_of_iff _ (isWritable_iff s).symm

instance (s : String) : Decidable (IsClassName s) := decidable_of_iff _ (isClassName_iff s).symm

instance (s : String) : Decidable (IsArrayName s) := decidable_of_iff _ (isArrayName_iff s).symm

instance (s : String) : Decidable (IsMethodName s) := decidable_of_iff _ (isMethodName_iff s).symm

instance (s : String) : Decidable (IsDescriptor s) :=
  match h : Descriptor.parse s with
  | .ok types =>
    decidable_of_iff (IsWritable s) ⟨fun hw => ⟨hw, types, h⟩, IsDescriptor.toIsWritable⟩
  | .error e => isFalse fun hd => by
    obtain ⟨types, ht⟩ := hd.accepted
    rw [h] at ht
    cases ht

instance (owner name descriptor : String) : Decidable (IsReference owner name descriptor) :=
  decidable_of_iff _ (isReference_iff owner name descriptor).symm

/-- The class in which a call looks for its method. The methods of arrays are those of the root
    class. -/
def receiver (owner : String) : ClassName :=
  if owner.toList.head? = some '[' then .object else ⟨owner⟩

theorem IsClassName.receiver_eq {name : String} (h : IsClassName name) : receiver name = ⟨name⟩ :=
  if_neg h.bracket

theorem IsDescriptor.exists_signature {descriptor : String} (h : IsDescriptor descriptor)
    (owner : ClassName) (name : String) :
    ∃ sig, Signature.ofDescriptor owner name descriptor = .ok sig := by
  obtain ⟨types, ht⟩ := h.accepted
  rw [Signature.ofDescriptor, ht]
  exact ⟨_, rfl⟩

/-- A descriptor begins with its parameter list. -/
theorem IsDescriptor.eq_cons {descriptor : String} (h : IsDescriptor descriptor) :
    ∃ cs, descriptor.toList = '(' :: cs := by
  obtain ⟨types, ht⟩ := h.accepted
  rw [Descriptor.parse, Descriptor.read] at ht
  split at ht
  case h_1 cs hcs => exact ⟨cs, hcs⟩
  case h_2 => cases ht

/-! ### Joined names -/

/-- A name and a descriptor can be told from the joined text. -/
theorem nameAndType_inj {name name' descriptor descriptor' : String} (h : IsMethodName name)
    (h' : IsMethodName name') (heq : name ++ ":" ++ descriptor = name' ++ ":" ++ descriptor') :
    name = name' ∧ descriptor = descriptor' := by
  have hlist := congrArg String.toList heq
  rw [String.toList_append, String.toList_append, String.toList_append, String.toList_append,
    List.append_assoc, List.append_assoc] at hlist
  obtain ⟨hname, hdesc⟩ := append_cons_inj h.colon h'.colon hlist
  exact ⟨String.toList_inj.1 hname, String.toList_inj.1 hdesc⟩

/-- A reference can be told from its joined text: the descriptor begins at the first parenthesis,
    and the name after the last dot before it. -/
theorem joined_inj {owner owner' name name' descriptor descriptor' : String}
    (h : IsReference owner name descriptor) (h' : IsReference owner' name' descriptor')
    (heq : owner ++ "." ++ name ++ descriptor = owner' ++ "." ++ name' ++ descriptor') :
    owner = owner' ∧ name = name' ∧ descriptor = descriptor' := by
  have hfree {owner name descriptor : String} (h : IsReference owner name descriptor) :
      '(' ∉ (owner ++ "." ++ name).toList := by
    have howner : '(' ∉ owner.toList := h.owner.elim IsClassName.paren IsArrayName.paren
    rw [String.toList_append, String.toList_append, List.mem_append, List.mem_append]
    rintro ((hm | hm) | hm)
    · exact howner hm
    · revert hm
      decide
    · exact h.name.paren hm
  obtain ⟨cs, hcs⟩ := h.descriptor.eq_cons
  obtain ⟨cs', hcs'⟩ := h'.descriptor.eq_cons
  have hlist := congrArg String.toList heq
  rw [String.toList_append, String.toList_append (s := owner' ++ "." ++ name'), hcs, hcs'] at hlist
  obtain ⟨hbefore, hdesc⟩ := append_cons_inj (hfree h) (hfree h') hlist
  rw [String.toList_append, String.toList_append, String.toList_append, String.toList_append,
    List.append_assoc, List.append_assoc] at hbefore
  obtain ⟨howner, hname⟩ := append_cons_inj_right h.name.dot h'.name.dot hbefore
  refine ⟨String.toList_inj.1 howner, String.toList_inj.1 hname, String.toList_inj.1 ?_⟩
  rw [hcs, hcs', hdesc]

/-! ### Lookups -/

/-- The pool with the constants `ks` from slot one on. -/
def poolOf (ks : List Constant) : ConstantPool := ⟨(.absent :: ks).toArray⟩

namespace ConstantPool

variable {p : ConstantPool} {i n d : Nat} {s : String}

theorem entry_poolOf {ks : List Constant} {k : Constant} (h : ks[i]? = some k) :
    (poolOf ks).entry (i + 1) = .ok k := by
  have hget : (poolOf ks).entries[i + 1]? = some k := by
    rw [poolOf, List.getElem?_toArray, List.getElem?_cons_succ, h]
  rw [entry, if_neg (Nat.succ_ne_zero i), hget]

theorem lt_of_entry {k : Constant} (h : p.entry i = .ok k) : i < p.entries.size := by
  rw [entry] at h
  split at h
  · cases h
  · split at h
    case h_1 hget => exact (Array.getElem?_eq_some_iff.1 hget).1
    case h_2 => cases h

/-- Only an index of the pool leads to something. -/
theorem lt_of_lookup {α : Type} {f : Constant → Except LookupError α} {a : α}
    (hp : p.entries.size < 65536) (h : (p.entry i >>= f) = .ok a) : i < 65536 := by
  rcases hk : p.entry i with e | k
  · rw [hk] at h
    cases h
  · exact Nat.lt_trans (lt_of_entry hk) hp

theorem textAt_eq_ok : p.textAt i = .ok s ↔ p.entry i = .ok (.text s) := by
  rw [textAt]
  rcases p.entry i with e | k
  · exact ⟨nofun, nofun⟩
  · cases k <;> simp [bind, Except.bind, pure, Except.pure, throw, throwThe, MonadExceptOf.throw]

theorem classAt_eq (h : p.entry i = .ok (.class n)) (ht : p.textAt n = .ok s) :
    p.classAt i = .ok (if s.toList.head? = some '[' then .object else .ofInternal s) := by
  rw [classAt, h]
  change (p.textAt n >>= fun name => pure _) = _
  rw [ht]
  rfl

theorem nameAndTypeAt_eq {desc : String} (h : p.entry i = .ok (.nameAndType n d))
    (hn : p.textAt n = .ok s) (hd : p.textAt d = .ok desc) :
    p.nameAndTypeAt i = .ok (s, desc) := by
  rw [nameAndTypeAt, h]
  change (p.textAt n >>= fun name => p.textAt d >>= fun desc => pure (name, desc)) = _
  rw [hn, hd]
  rfl

theorem methodAt_eq {c nt : Nat} {owner : ClassName} {desc : String} {sig : Signature}
    (h : p.entry i = .ok (.method c nt) ∨ p.entry i = .ok (.interfaceMethod c nt))
    (hc : p.classAt c = .ok owner) (hnt : p.nameAndTypeAt nt = .ok (s, desc))
    (hsig : Signature.ofDescriptor owner s desc = .ok sig) : p.methodAt i = .ok sig := by
  have hlookup : (p.classAt c >>= fun owner => p.nameAndTypeAt nt >>= fun names =>
      (Signature.ofDescriptor owner names.1 names.2).mapError LookupError.badDescriptor) =
      .ok sig := by
    rw [hc, hnt]
    change (Signature.ofDescriptor owner s desc).mapError _ = _
    rw [hsig]
    rfl
  rw [methodAt]
  rcases h with h | h
  · rw [h]
    exact hlookup
  · rw [h]
    exact hlookup

end ConstantPool

/-! ### Entries -/

section

open Reader

theorem reads_text {s : String} (h : IsWritable s) :
    Reads Constant.read (1 :: putBigEndian 2 s.toUTF8.toList.length ++ s.toUTF8.toList)
      (.text s) := by
  have hlength : s.toUTF8.toList.length < 65536 := by
    rw [ModifiedUtf8.length_toUTF8]
    exact h.size
  refine (reads_u1 _ 1).bind ((reads_u2 _ hlength).bind ((reads_bytes _ rfl).nil_bind ?_))
  rw [ModifiedUtf8.decode?_toUTF8 h.basic]
  exact reads_pure _

theorem reads_class (n : Nat) :
    Reads Constant.read (7 :: putBigEndian 2 n) (.class (n % 65536)) :=
  (reads_u1 _ 7).bind ((reads_u2_mod _ n).nil_bind (reads_pure _))

theorem reads_nameAndType (n d : Nat) :
    Reads Constant.read (12 :: putBigEndian 2 n ++ putBigEndian 2 d)
      (.nameAndType (n % 65536) (d % 65536)) :=
  (reads_u1 _ 12).bind ((reads_u2_mod _ n).bind ((reads_u2_mod _ d).nil_bind (reads_pure _)))

theorem reads_method (c nt : Nat) :
    Reads Constant.read (10 :: (putBigEndian 2 c ++ putBigEndian 2 nt))
      (.method (c % 65536) (nt % 65536)) :=
  (reads_u1 _ 10).bind ((reads_u2_mod _ c).bind ((reads_u2_mod _ nt).nil_bind (reads_pure _)))

theorem reads_interfaceMethod (c nt : Nat) :
    Reads Constant.read (11 :: (putBigEndian 2 c ++ putBigEndian 2 nt))
      (.interfaceMethod (c % 65536) (nt % 65536)) :=
  (reads_u1 _ 11).bind ((reads_u2_mod _ c).bind ((reads_u2_mod _ nt).nil_bind (reads_pure _)))

/-- Entries of one slot each are read one after the other. -/
theorem reads_entries {pieces : List Bytes} {ks : List Constant}
    (h : List.Forall₂ (fun bs k => Reads Constant.read bs k ∧ k.isWide = false) pieces ks)
    (i : Nat) : Reads (ConstantPool.readEntries i ks.length) pieces.flatten ks := by
  induction h generalizing i with
  | nil => exact reads_pure []
  | @cons bs k pieces ks hk hrest ih =>
    obtain ⟨hread, hwide⟩ := hk
    cases hrest with
    | nil =>
      rw [List.length_singleton, ConstantPool.readEntries, List.flatten_cons, List.flatten_nil,
        List.append_nil]
      exact (hread.adapt _).nil_bind (reads_pure _)
    | cons =>
      rw [List.length_cons, List.length_cons, ConstantPool.readEntries]
      refine (hread.adapt _).bind ?_
      simp only [hwide, Bool.false_eq_true, if_false]
      exact (ih (i + 1)).nil_bind (reads_pure _)

end

/-! ### Drafts -/

/-- The index leads to the method with that joined name. -/
def RefersTo (p : ConstantPool) (i : Nat) (joined : String) : Prop :=
  ∀ owner name descriptor sig, IsReference owner name descriptor →
    joined = owner ++ "." ++ name ++ descriptor →
    Signature.ofDescriptor (receiver owner) name descriptor = .ok sig → p.methodAt i = .ok sig

/-- What the key stands for is found at the index. -/
def Means (p : ConstantPool) (i : Nat) : PoolKey → Prop
  | .text s => p.textAt i = .ok s
  | .class internal =>
    p.classAt i = .ok (if internal.toList.head? = some '[' then .object else .ofInternal internal)
  | .nameAndType joined => ∀ name descriptor, IsMethodName name →
    joined = name ++ ":" ++ descriptor → p.nameAndTypeAt i = .ok (name, descriptor)
  | .method joined | .interfaceMethod joined => RefersTo p i joined

/-- It holds of every finished pool that begins with `ks`. -/
def Final (ks : List Constant) (Q : ConstantPool → Prop) : Prop :=
  ∀ all, ks <+: all → all.length < 65535 → Q (poolOf all)

theorem Final.mono {ks ks' : List Constant} {Q : ConstantPool → Prop} (h : Final ks Q)
    (hks : ks <+: ks') : Final ks' Q :=
  fun all hall => h all (hks.trans hall)

/-- The draft holds the constants `ks`, and its keys lead to them. -/
structure Written (draft : PoolDraft) (ks : List Constant) : Prop where
  count : draft.count = ks.length + 1
  entries : List.Forall₂ (fun bs k => Reader.Reads Constant.read bs k ∧ k.isWide = false)
    draft.entries.reverse ks
  indices : ∀ (key : PoolKey) (i : Nat), draft.indices[key]? = some i →
    Final ks fun p => Means p i key

theorem written_empty : Written {} [] :=
  ⟨rfl, .nil, fun key i h => by simp at h⟩

variable {α β : Type} {Pre : ConstantPool → Prop} {x : StateM PoolDraft α}
  {M N : α → ConstantPool → Prop}

/-- Two branches that go on in the same way are one choice, and then what follows. -/
theorem ite_bind {P : Prop} [Decidable P] (x y : StateM PoolDraft α) (f : α → StateM PoolDraft β) :
    (if P then x >>= f else y >>= f) = (if P then x else y) >>= f := by
  split_ifs
  · rfl
  · rfl

/-- The step adds to the draft. If `Pre` holds of the finished pool, then so does `M` of what the
    step returns. -/
def Writes (Pre : ConstantPool → Prop) (x : StateM PoolDraft α) (M : α → ConstantPool → Prop) :
    Prop :=
  ∀ draft ks, Written draft ks → Final ks Pre →
    ∃ ks', ks <+: ks' ∧ Written (x draft).2 ks' ∧ Final ks' (M (x draft).1)

/-- A finished pool has less than 65536 slots. -/
theorem size_poolOf_lt {ks : List Constant} (h : ks.length < 65535) :
    (poolOf ks).entries.size < 65536 := by
  rw [poolOf, List.size_toArray, List.length_cons]
  omega

theorem writes_pure {a : α} (h : ∀ p, p.entries.size < 65536 → Pre p → M a p) :
    Writes Pre (pure a) M :=
  fun _ ks hw hpre => ⟨ks, List.prefix_rfl, hw, fun all hall hlt =>
    h _ (size_poolOf_lt hlt) (hpre all hall hlt)⟩

theorem Writes.bind {f : α → StateM PoolDraft β} {N : β → ConstantPool → Prop}
    (hx : Writes Pre x M) (hf : ∀ a, Writes (fun p => Pre p ∧ M a p) (f a) N) :
    Writes Pre (x >>= f) N := by
  intro draft ks hw hpre
  obtain ⟨ks₁, hle, hw₁, hM⟩ := hx draft ks hw hpre
  obtain ⟨ks₂, hle₂, hw₂, hN⟩ := hf (x draft).1 (x draft).2 ks₁ hw₁ fun all hall hlt =>
    ⟨hpre.mono hle all hall hlt, hM all hall hlt⟩
  exact ⟨ks₂, hle.trans hle₂, hw₂, hN⟩

theorem Writes.imp (h : Writes Pre x M)
    (hN : ∀ a p, p.entries.size < 65536 → Pre p → M a p → N a p) : Writes Pre x N := by
  intro draft ks hw hpre
  obtain ⟨ks', hle, hw', hM⟩ := h draft ks hw hpre
  exact ⟨ks', hle, hw', fun all hall hlt => hN _ _ (size_poolOf_lt hlt)
    (hpre.mono hle all hall hlt) (hM all hall hlt)⟩

theorem Writes.weaken {Pre' : ConstantPool → Prop} (h : Writes Pre x M)
    (hpre : ∀ p, Pre' p → Pre p) : Writes Pre' x M :=
  fun draft ks hw hpre' => h draft ks hw fun all hall hlt => hpre _ (hpre' all hall hlt)

theorem writes_mapM {γ : Type} {f : γ → StateM PoolDraft α} {M : γ → α → ConstantPool → Prop}
    {l : List γ} (h : ∀ a ∈ l, Writes Pre (f a) (M a)) :
    Writes Pre (l.mapM f) fun bs p => List.Forall₂ (fun a b => M a b p) l bs := by
  induction l with
  | nil => exact writes_pure fun _ _ _ => .nil
  | cons a l ih =>
    rw [List.mapM_cons]
    refine (h a List.mem_cons_self).bind fun b => ?_
    have hrest := ih fun c hc => h c (List.mem_cons_of_mem a hc)
    refine (hrest.weaken fun _ => And.left).bind fun bs => writes_pure ?_
    rintro p - ⟨⟨-, hb⟩, hbs⟩
    exact .cons hb hbs

/-! ### Interning -/

/-- An entry gets the next index, unless its key has one. -/
theorem writes_intern {key : PoolKey} {bytes : Bytes} {k : Constant}
    (hread : Reader.Reads Constant.read bytes k) (hwide : k.isWide = false)
    (hmeans : ∀ p i, p.entries.size < 65536 → Pre p → p.entry i = .ok k → Means p i key) :
    Writes Pre (PoolDraft.intern key bytes) fun i p => Means p i key := by
  intro draft ks hw hpre
  unfold PoolDraft.intern
  rcases hfind : draft.indices[key]? with _ | i
  · -- The new entry is the last of the draft, and so its index is the number of slots.
    have hnew : Final (ks ++ [k]) fun p => Means p (draft.count % 65536) key := by
      intro all hall hlt
      have hle := hall.length_le
      rw [List.length_append, List.length_singleton] at hle
      rw [hw.count, Nat.mod_eq_of_lt (by omega)]
      refine hmeans _ _ (size_poolOf_lt hlt)
        (hpre all ((List.prefix_append ks [k]).trans hall) hlt) (ConstantPool.entry_poolOf ?_)
      obtain ⟨rest, rfl⟩ := hall
      simp
    refine ⟨ks ++ [k], List.prefix_append ks [k], ⟨?_, ?_, ?_⟩, hnew⟩
    · rw [List.length_append, List.length_singleton, hw.count]
    · rw [List.reverse_cons]
      exact List.rel_append hw.entries (.cons ⟨hread, hwide⟩ .nil)
    · intro key' i hi
      rw [Std.HashMap.getElem?_insert] at hi
      split_ifs at hi with heq
      · cases eq_of_beq heq
        cases hi
        exact hnew
      · exact (hw.indices key' i hi).mono (List.prefix_append ks [k])
  · exact ⟨ks, List.prefix_rfl, hw, hw.indices key i hfind⟩

theorem writes_text {s : String} (h : IsWritable s) :
    Writes Pre (PoolDraft.text s) fun i p => p.textAt i = .ok s := by
  have hintern : Writes Pre (PoolDraft.text s) fun i p => Means p i (.text s) :=
    writes_intern (reads_text h) rfl fun _ _ _ _ => ConstantPool.textAt_eq_ok.2
  exact hintern

/-! ### Classes and methods -/

/-- The internal form is as good a text as the name. -/
theorem isWritable_internal {name : String} (h : IsWritable name) :
    IsWritable (ClassName.mk name).internal := by
  have hslash : ModifiedUtf8.IsBasic '/' := ⟨by decide, by decide⟩
  refine ⟨fun c hc => ?_, ?_⟩
  · rw [ClassName.internal, String.toList_ofList] at hc
    obtain ⟨d, hd, rfl⟩ := List.mem_map.1 hc
    split
    · exact hslash
    · exact h.basic d hd
  · -- A slash takes as many bytes as a dot.
    have hlength : (ClassName.mk name).internal.utf8ByteSize = name.utf8ByteSize := by
      rw [← ModifiedUtf8.length_toUTF8, ← ModifiedUtf8.length_toUTF8, ModifiedUtf8.toList_toUTF8,
        ModifiedUtf8.toList_toUTF8, ClassName.internal, String.toList_ofList, List.length_flatMap,
        List.length_flatMap, List.map_map]
      congr 1
      refine List.map_congr_left fun c _ => ?_
      by_cases hdot : c = '.'
      · subst hdot
        rfl
      · simp [hdot]
    rw [hlength]
    exact h.size

theorem ofInternal_internal {name : String} (h : '/' ∉ name.toList) :
    ClassName.ofInternal (ClassName.mk name).internal = ⟨name⟩ := by
  rw [ClassName.ofInternal, ClassName.internal, String.toList_ofList, List.map_map]
  congr 1
  conv_rhs => rw [← String.ofList_toList (s := name)]
  congr 1
  conv_rhs => rw [← List.map_id name.toList]
  refine List.map_congr_left fun c hc => ?_
  have hne : c ≠ '/' := fun heq => h (heq ▸ hc)
  by_cases hdot : c = '.'
  · subst hdot
    rfl
  · simp [hdot, hne]

theorem head?_internal {name : String} (h : name.toList.head? ≠ some '[') :
    (ClassName.mk name).internal.toList.head? ≠ some '[' := by
  rw [ClassName.internal, String.toList_ofList, List.head?_map]
  intro heq
  obtain ⟨c, hc, heq⟩ := Option.map_eq_some_iff.1 heq
  split at heq
  · cases heq
  · exact h (heq ▸ hc)

/-- A class is found under its name. -/
theorem writes_className {name : String} (h : IsClassName name ∨ IsArrayName name) :
    Writes Pre (PoolDraft.className name) fun i p => p.classAt i = .ok (receiver name) := by
  unfold PoolDraft.className
  -- Whatever the internal form is, it is a text that leads to the class.
  have hintern {internal : String} (hw : IsWritable internal)
      (hreceiver : (if internal.toList.head? = some '[' then ClassName.object
        else .ofInternal internal) = receiver name) :
      Writes Pre (PoolDraft.text internal >>= fun n =>
        PoolDraft.intern (.class internal) (7 :: putBigEndian 2 n))
        fun i p => p.classAt i = .ok (receiver name) := by
    refine (writes_text hw).bind fun n => ?_
    have hclass : Writes (fun p => Pre p ∧ p.textAt n = .ok internal)
        (PoolDraft.intern (.class internal) (7 :: putBigEndian 2 n))
        fun i p => Means p i (.class internal) := by
      refine writes_intern (reads_class n) rfl fun p i hp hpre he => ?_
      rw [Nat.mod_eq_of_lt (ConstantPool.lt_of_lookup hp hpre.2)] at he
      exact ConstantPool.classAt_eq he hpre.2
    rw [← hreceiver]
    exact hclass
  rcases h with h | h
  · rw [if_neg h.bracket]
    refine hintern (isWritable_internal h.toIsWritable) ?_
    rw [if_neg (head?_internal h.bracket), ofInternal_internal h.slash, h.receiver_eq]
  · rw [if_pos h.bracket]
    refine hintern h.toIsWritable ?_
    rw [if_pos h.bracket, receiver, if_pos h.bracket]

theorem writes_nameAndType {name descriptor : String} (hn : IsMethodName name)
    (hd : IsWritable descriptor) :
    Writes Pre (PoolDraft.nameAndType name descriptor)
      fun i p => p.nameAndTypeAt i = .ok (name, descriptor) := by
  refine (writes_text hn.toIsWritable).bind fun n => (writes_text hd).bind fun d => ?_
  have hintern : Writes (fun p => (Pre p ∧ p.textAt n = .ok name) ∧ p.textAt d = .ok descriptor)
      (PoolDraft.intern (.nameAndType (name ++ ":" ++ descriptor))
        (12 :: putBigEndian 2 n ++ putBigEndian 2 d))
      fun i p => Means p i (.nameAndType (name ++ ":" ++ descriptor)) := by
    refine writes_intern (reads_nameAndType n d) rfl ?_
    rintro p i hp ⟨⟨-, hname⟩, hdesc⟩ he name' descriptor' hn' heq
    obtain ⟨rfl, rfl⟩ := nameAndType_inj hn hn' heq
    rw [Nat.mod_eq_of_lt (ConstantPool.lt_of_lookup hp hname),
      Nat.mod_eq_of_lt (ConstantPool.lt_of_lookup hp hdesc)] at he
    exact ConstantPool.nameAndTypeAt_eq he hname hdesc
  exact hintern.imp fun i p _ _ hmeans => hmeans name descriptor hn rfl

/-- A method is found under its class, name and descriptor. -/
theorem writes_methodRef {owner name descriptor : String} {sig : Signature} (kind : InvokeKind)
    (h : IsReference owner name descriptor)
    (hsig : Signature.ofDescriptor (receiver owner) name descriptor = .ok sig) :
    Writes Pre (PoolDraft.methodRef kind owner name descriptor)
      fun i p => p.methodAt i = .ok sig := by
  refine (writes_className h.owner).bind fun c =>
    (writes_nameAndType h.name h.descriptor.toIsWritable).bind fun nt => ?_
  -- Both kinds of entry hold the same two indices.
  have hintern {key : PoolKey} {bytes : Bytes} {k : Constant}
      (hread : Reader.Reads Constant.read bytes k) (hwide : k.isWide = false)
      (hk : k = .method (c % 65536) (nt % 65536) ∨ k = .interfaceMethod (c % 65536) (nt % 65536))
      (hkey : ∀ p i, Means p i key ↔ RefersTo p i (owner ++ "." ++ name ++ descriptor)) :
      Writes (fun p => (Pre p ∧ p.classAt c = .ok (receiver owner)) ∧
        p.nameAndTypeAt nt = .ok (name, descriptor)) (PoolDraft.intern key bytes)
        fun i p => p.methodAt i = .ok sig := by
    refine (writes_intern hread hwide ?_).imp fun i p _ _ hmeans =>
      (hkey p i).1 hmeans owner name descriptor sig h rfl hsig
    rintro p i hp ⟨⟨-, hc⟩, hnt⟩ he
    rw [Nat.mod_eq_of_lt (ConstantPool.lt_of_lookup hp hc),
      Nat.mod_eq_of_lt (ConstantPool.lt_of_lookup hp hnt)] at hk
    refine (hkey p i).2 fun owner' name' descriptor' sig' h' heq hsig' => ?_
    obtain ⟨rfl, rfl, rfl⟩ := joined_inj h h' heq
    refine ConstantPool.methodAt_eq ?_ hc hnt hsig'
    rcases hk with rfl | rfl
    · exact .inl he
    · exact .inr he
  cases kind with
  | interface => exact hintern (reads_interfaceMethod c nt) rfl (.inr rfl) fun _ _ => Iff.rfl
  | virtual | special | static =>
    exact hintern (reads_method c nt) rfl (.inl rfl) fun _ _ => Iff.rfl

/-! ### The number of entries -/

/-- The step adds at most `n` entries to the draft. -/
def Adds (n : Nat) (x : StateM PoolDraft α) : Prop :=
  ∀ draft, (x draft).2.count ≤ draft.count + n

section

variable {f : α → StateM PoolDraft β} {m n : Nat}

theorem adds_pure (a : α) (n : Nat) : Adds n (pure a) := fun _ => Nat.le_add_right _ n

theorem Adds.bind (hx : Adds m x) (hf : ∀ a, Adds n (f a)) : Adds (m + n) (x >>= f) := by
  intro draft
  have hfirst := hx draft
  have hsecond := hf (x draft).1 (x draft).2
  change (f (x draft).1 (x draft).2).2.count ≤ draft.count + (m + n)
  omega

theorem adds_mapM {γ : Type} {f : γ → StateM PoolDraft α} {slots : γ → Nat}
    (h : ∀ c, Adds (slots c) (f c)) (l : List γ) : Adds (l.map slots).sum (l.mapM f) := by
  induction l with
  | nil => exact adds_pure [] 0
  | cons c l ih =>
    rw [List.mapM_cons]
    exact (h c).bind fun _ => ih.bind fun _ => adds_pure _ 0

theorem adds_intern (key : PoolKey) (bytes : Bytes) : Adds 1 (PoolDraft.intern key bytes) := by
  intro draft
  rw [PoolDraft.intern]
  split
  · exact Nat.le_succ _
  · exact Nat.le_refl _

theorem adds_text (s : String) : Adds 1 (PoolDraft.text s) := adds_intern _ _

theorem adds_className (name : String) : Adds 2 (PoolDraft.className name) :=
  (adds_text _).bind fun _ => adds_intern _ _

theorem adds_methodRef (kind : InvokeKind) (owner name descriptor : String) :
    Adds 6 (PoolDraft.methodRef kind owner name descriptor) := by
  have hnames : Adds 3 (PoolDraft.nameAndType name descriptor) :=
    (adds_text _).bind fun _ => (adds_text _).bind fun _ => adds_intern _ _
  refine (adds_className owner).bind (n := 4) fun c => hnames.bind (n := 1) fun nt => ?_
  cases kind <;> exact adds_intern _ _

end

/-- The number of entries that a piece of code needs at most. -/
def CodeItem.slots : CodeItem → Nat
  | .call .. => 6
  | .raw _ => 0

/-- The number of entries that a method needs at most. -/
def MethodSpec.slots (m : MethodSpec) : Nat := 2 + (m.code.map CodeItem.slots).sum

/-- The number of entries that a class needs at most. -/
def ClassSpec.slots (c : ClassSpec) : Nat :=
  5 + (c.interfaces.map fun _ => 2).sum + (c.methods.map MethodSpec.slots).sum

theorem CodeItem.adds_assemble (item : CodeItem) : Adds item.slots item.assemble := by
  cases item with
  | call kind owner name descriptor =>
    exact (adds_methodRef kind owner name descriptor).bind fun _ => adds_pure _ 0
  | raw bytes => exact adds_pure bytes 0

theorem MethodSpec.adds_assemble (codeName : Nat) (m : MethodSpec) :
    Adds m.slots (m.assemble codeName) := by
  rw [MethodSpec.slots, Nat.add_assoc 1 1]
  refine (adds_text _).bind fun _ => (adds_text _).bind fun _ => ?_
  split_ifs
  · exact (adds_mapM CodeItem.adds_assemble m.code).bind fun _ => adds_pure _ 0
  · exact adds_pure _ _

/-- The pool has at most as many entries as all the names need together. -/
theorem ClassSpec.count_assembleBody_le (c : ClassSpec) :
    (c.assembleBody.run {}).2.count ≤ 1 + c.slots := by
  have hsuperclass : Adds 2 (if c.superclass = "" then pure 0
      else PoolDraft.className c.superclass) := by
    split_ifs
    · exact adds_pure 0 2
    · exact adds_className c.superclass
  have hbody : Adds (2 + (2 + ((c.interfaces.map fun _ => 2).sum + (1 +
      ((c.methods.map MethodSpec.slots).sum + 0))))) c.assembleBody := by
    refine (adds_className c.name).bind fun name => ?_
    rw [ite_bind]
    refine hsuperclass.bind fun superclass => ?_
    refine (adds_mapM adds_className c.interfaces).bind fun interfaces => ?_
    refine (adds_text "Code").bind fun codeName => ?_
    exact (adds_mapM (MethodSpec.adds_assemble codeName) c.methods).bind fun _ => adds_pure _ 0
  refine Nat.le_trans (hbody {}) ?_
  rw [ClassSpec.slots]
  change 1 + _ ≤ _
  omega

end KernelReach.Binary
