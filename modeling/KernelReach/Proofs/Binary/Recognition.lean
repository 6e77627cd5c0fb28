import KernelReach.Proofs.Binary.Reading
import Mathlib.Data.List.Induction

/-!
# What a reader accepts

`Reads` follows a reader through bytes that are known. Here the bytes are arbitrary, and what is
told is which of them a reader accepts: `r bs = .ok (a, rest)` holds exactly if `bs` begins with one
of the forms of `a`, and `rest` is what comes after it.

* there is such an equivalence for each reader of the language, and for `>>=`;
* `Recognizes r write Means` is the equivalence for a reader whose forms are written by `write`,
  with `recognizes_times` for a reader that is repeated and `Table` for one that is repeated as
  often as the two bytes before say.
-/

namespace KernelReach.Binary

/-! ### Numbers -/

theorem bigEndian_lt (bs : Bytes) : bigEndian bs < 256 ^ bs.length := by
  induction bs using List.reverseRecOn with
  | nil => decide
  | append_singleton bs b ih =>
    have hb := b.toNat_lt
    rw [bigEndian_concat, List.length_append, List.length_singleton, Nat.pow_succ]
    omega

/-- Bytes are the number that they spell, written back. -/
theorem putBigEndian_bigEndian (bs : Bytes) : putBigEndian bs.length (bigEndian bs) = bs := by
  induction bs using List.reverseRecOn with
  | nil => rfl
  | append_singleton bs b ih =>
    have hb := b.toNat_lt
    have hhigh : (256 * bigEndian bs + b.toNat) / 256 = bigEndian bs := by omega
    have hlow : UInt8.ofNat (256 * bigEndian bs + b.toNat) = b := by
      apply UInt8.toNat_inj.1
      change (256 * bigEndian bs + b.toNat) % 256 = b.toNat
      omega
    rw [List.length_append, List.length_singleton, putBigEndian, bigEndian_concat, hhigh, hlow, ih]

theorem toNat_uint16_ofNat {n : Nat} (h : n < 65536) : (UInt16.ofNat n).toNat = n :=
  Nat.mod_eq_of_lt h

/-- Two bytes are a number of two bytes. -/
theorem exists_uint16 {bs : Bytes} (h : bs.length = 2) :
    ∃ n : UInt16, bs = putBigEndian 2 n.toNat := by
  have hlt : bigEndian bs < 65536 := by
    have := bigEndian_lt bs
    rwa [h] at this
  refine ⟨UInt16.ofNat (bigEndian bs), ?_⟩
  rw [toNat_uint16_ofNat hlt, ← h, putBigEndian_bigEndian]

/-! ### Pieces -/

/-- Bytes can be cut into pieces of the same length. -/
theorem exists_flatMap_eq {ι : Type} {write : ι → Bytes} {k : Nat}
    (h : ∀ piece : Bytes, piece.length = k → ∃ x, piece = write x) (n : Nat)
    {bs : Bytes} (hbs : bs.length = n * k) :
    ∃ xs : List ι, xs.length = n ∧ bs = xs.flatMap write := by
  induction n generalizing bs with
  | zero =>
    rw [Nat.zero_mul] at hbs
    exact ⟨[], rfl, List.length_eq_zero_iff.1 hbs⟩
  | succ n ih =>
    rw [Nat.succ_mul] at hbs
    have hpiece : (bs.take k).length = k := by rw [List.length_take]; omega
    have hdrop : (bs.drop k).length = n * k := by rw [List.length_drop]; omega
    obtain ⟨x, hx⟩ := h _ hpiece
    obtain ⟨xs, hlength, hxs⟩ := ih hdrop
    refine ⟨x :: xs, by rw [List.length_cons, hlength], ?_⟩
    rw [List.flatMap_cons, ← hx, ← hxs, List.take_append_drop]

theorem length_flatMap_of_forall {ι : Type} {write : ι → Bytes} {k : Nat}
    (h : ∀ x, (write x).length = k) (xs : List ι) : (xs.flatMap write).length = xs.length * k := by
  rw [List.length_flatMap, List.map_congr_left fun x _ => h x, List.map_const',
    List.sum_replicate_nat]

theorem map_eq_ok_iff {ε α β : Type} {f : α → β} {x : Except ε α} {b : β} :
    x.map f = .ok b ↔ ∃ a, x = .ok a ∧ f a = b := by
  rcases x with fault | a
  · exact ⟨nofun, nofun⟩
  · change Except.ok (f a) = .ok b ↔ _
    simp only [Except.ok.injEq, exists_eq_left']

namespace Reader

variable {ε δ α β ι : Type} {bs rest : Bytes} {e : ε}

/-! ### Single steps -/

theorem pure_eq_ok {a b : α} :
    (pure a : Reader ε α) bs = .ok (b, rest) ↔ a = b ∧ bs = rest := by
  change Except.ok (a, bs) = .ok (b, rest) ↔ _
  rw [Except.ok.injEq, Prod.mk.injEq]

theorem throw_ne_ok {a : α} : (throw e : Reader ε α) bs ≠ .ok (a, rest) := nofun

theorem bind_eq_ok {r : Reader ε α} {f : α → Reader ε β} {b : β} :
    (r >>= f) bs = .ok (b, rest) ↔ ∃ a mid, r bs = .ok (a, mid) ∧ f a mid = .ok (b, rest) := by
  change (r bs >>= fun p => f p.1 p.2) = _ ↔ _
  rcases r bs with fault | ⟨a, mid⟩
  · exact ⟨nofun, nofun⟩
  · constructor
    · exact fun h => ⟨a, mid, rfl, h⟩
    · rintro ⟨_, _, h, h'⟩
      cases h
      exact h'

/-- A check that throws keeps back what fails it. -/
theorem check_eq_ok {p : Prop} [Decidable p] {r : Reader ε α} {a : α} :
    (if p then (throw e : Reader ε Unit) >>= fun _ => r else r) bs = .ok (a, rest) ↔
      ¬ p ∧ r bs = .ok (a, rest) := by
  by_cases hp : p
  · rw [if_pos hp]
    exact iff_of_false nofun fun h => h.1 hp
  · rw [if_neg hp]
    exact (and_iff_right hp).symm

theorem map_eq_ok {r : Reader ε α} {f : α → β} {b : β} :
    (f <$> r) bs = .ok (b, rest) ↔ ∃ a, r bs = .ok (a, rest) ∧ f a = b := by
  change (r >>= fun a => pure (f a)) bs = _ ↔ _
  simp only [bind_eq_ok, pure_eq_ok]
  constructor
  · rintro ⟨a, _, h, hb, rfl⟩
    exact ⟨a, h, hb⟩
  · rintro ⟨a, h, hb⟩
    exact ⟨a, rest, h, hb, rfl⟩

theorem discard_eq_ok {r : Reader ε α} {u : Unit} :
    (discard r) bs = .ok (u, rest) ↔ ∃ a, r bs = .ok (a, rest) := by
  change ((fun _ => ()) <$> r) bs = _ ↔ _
  simp only [map_eq_ok, and_true]

theorem lift_eq_ok {f : δ → ε} {x : Except δ α} {a : α} :
    lift f x bs = .ok (a, rest) ↔ x = .ok a ∧ bs = rest := by
  rcases x with fault | b
  · exact ⟨nofun, nofun⟩
  · change Except.ok (b, bs) = .ok (a, rest) ↔ _
    rw [Except.ok.injEq, Except.ok.injEq, Prod.mk.injEq]

theorem adapt_eq_ok {f : δ → ε} {r : Reader δ α} {a : α} :
    adapt f r bs = .ok (a, rest) ↔ r bs = .ok (a, rest) := by
  rw [adapt]
  rcases r bs with fault | p
  · constructor <;> intro h <;> cases h
  · change Except.ok p = .ok (a, rest) ↔ _
    rw [Except.ok.injEq, Except.ok.injEq]

theorem u1_eq_ok {b : UInt8} : u1 e bs = .ok (b, rest) ↔ bs = b :: rest := by
  rcases bs with _ | ⟨b', bs⟩
  · exact ⟨nofun, nofun⟩
  · change Except.ok (b', bs) = .ok (b, rest) ↔ _
    rw [Except.ok.injEq, Prod.mk.injEq, List.cons.injEq]

theorem u2_eq_ok {n : Nat} :
    u2 e bs = .ok (n, rest) ↔ ∃ k : UInt16, n = k.toNat ∧ bs = putBigEndian 2 k.toNat ++ rest := by
  constructor
  · intro h
    rcases bs with _ | ⟨a, _ | ⟨b, bs⟩⟩
    · cases h
    · cases h
    · cases h
      obtain ⟨k, hk⟩ := exists_uint16 (show [a, b].length = 2 from rfl)
      refine ⟨k, ?_, by rw [← hk]; rfl⟩
      rw [hk, bigEndian_putBigEndian]
      exact Nat.mod_eq_of_lt k.toNat_lt
  · rintro ⟨k, rfl, rfl⟩
    exact reads_u2 e k.toNat_lt rest

theorem u4_eq_ok {n : Nat} :
    u4 e bs = .ok (n, rest) ↔ n < 4294967296 ∧ bs = putBigEndian 4 n ++ rest := by
  constructor
  · intro h
    rcases bs with _ | ⟨a, _ | ⟨b, _ | ⟨c, _ | ⟨d, bs⟩⟩⟩⟩
    · cases h
    · cases h
    · cases h
    · cases h
    · cases h
      have hlength : [a, b, c, d].length = 4 := rfl
      have hlt := bigEndian_lt [a, b, c, d]
      have hback := putBigEndian_bigEndian [a, b, c, d]
      rw [hlength] at hlt hback
      exact ⟨hlt, by rw [hback]; rfl⟩
  · rintro ⟨h, rfl⟩
    exact reads_u4 e h rest

theorem split?_eq_some {n : Nat} {taken : Bytes} :
    split? n bs = some (taken, rest) ↔ taken.length = n ∧ bs = taken ++ rest := by
  constructor
  · intro h
    induction n generalizing bs taken with
    | zero =>
      cases h
      exact ⟨rfl, rfl⟩
    | succ n ih =>
      rcases bs with _ | ⟨b, bs⟩
      · cases h
      · rw [split?, Option.map_eq_some_iff] at h
        obtain ⟨⟨taken', rest'⟩, h, heq⟩ := h
        cases heq
        obtain ⟨rfl, rfl⟩ := ih h
        exact ⟨rfl, rfl⟩
  · rintro ⟨rfl, rfl⟩
    exact split?_append taken rest

theorem bytes_eq_ok {n : Nat} {taken : Bytes} :
    bytes e n bs = .ok (taken, rest) ↔ taken.length = n ∧ bs = taken ++ rest := by
  rw [← split?_eq_some, bytes]
  rcases split? n bs with _ | p
  · constructor <;> intro h <;> cases h
  · rw [Except.ok.injEq, Option.some.injEq]

theorem drop?_eq (n : Nat) (bs : Bytes) : drop? n bs = (split? n bs).map Prod.snd := by
  induction n generalizing bs with
  | zero => rfl
  | succ n ih =>
    rcases bs with _ | ⟨b, bs⟩
    · rfl
    · rw [drop?, split?, ih, Option.map_map]
      rfl

theorem skip_eq_ok {n : Nat} {u : Unit} :
    skip e n bs = .ok (u, rest) ↔ ∃ taken : Bytes, taken.length = n ∧ bs = taken ++ rest := by
  have hskip : skip e n bs = .ok (u, rest) ↔ drop? n bs = some rest := by
    rw [skip]
    rcases drop? n bs with _ | left
    · constructor <;> intro h <;> cases h
    · rw [Except.ok.injEq, Option.some.injEq, Prod.mk.injEq, and_iff_right rfl]
  simp only [hskip, drop?_eq, Option.map_eq_some_iff, ← split?_eq_some, Prod.exists,
    exists_eq_right]

/-! ### Forms -/

/-- The reader accepts what `write` writes, takes it and nothing else, and makes of it what it
    means. -/
def Recognizes (r : Reader ε α) (write : ι → Bytes) (Means : ι → α → Prop) : Prop :=
  ∀ bs a rest, r bs = .ok (a, rest) ↔ ∃ x, Means x a ∧ bs = write x ++ rest

/-- What the bytes mean is told by the bytes. -/
theorem Recognizes.unique {r : Reader ε α} {write : ι → Bytes} {Means : ι → α → Prop}
    (h : Recognizes r write Means) {x y : ι} {a b : α} {rest' : Bytes} (hx : Means x a)
    (hy : Means y b) (heq : write x ++ rest = write y ++ rest') : a = b ∧ rest = rest' := by
  have hread := (h _ a rest).2 ⟨x, hx, rfl⟩
  rw [(h _ b rest').2 ⟨y, hy, heq⟩] at hread
  cases hread
  exact ⟨rfl, rfl⟩

/-- What comes after the bytes that are taken is not looked at. -/
theorem Recognizes.append {r : Reader ε α} {write : ι → Bytes} {Means : ι → α → Prop}
    (h : Recognizes r write Means) {a : α} (hr : r bs = .ok (a, rest)) (s : Bytes) :
    r (bs ++ s) = .ok (a, rest ++ s) := by
  obtain ⟨x, hx, rfl⟩ := (h bs a rest).1 hr
  exact (h _ a _).2 ⟨x, hx, List.append_assoc _ _ _⟩

theorem Recognizes.adapt {r : Reader δ α} {write : ι → Bytes} {Means : ι → α → Prop}
    (h : Recognizes r write Means) (f : δ → ε) : Recognizes (adapt f r) write Means :=
  fun bs a rest => adapt_eq_ok.trans (h bs a rest)

theorem recognizes_times {r : Nat → Reader ε α} {write : ι → Bytes} {Means : ι → α → Prop}
    (h : ∀ i, Recognizes (r i) write Means) (i n : Nat) :
    Recognizes (times r i n) (List.flatMap write) fun xs as =>
      xs.length = n ∧ List.Forall₂ Means xs as := by
  intro bs as rest
  induction n generalizing i bs as rest with
  | zero =>
    rw [times, pure_eq_ok]
    constructor
    · rintro ⟨rfl, rfl⟩
      exact ⟨[], ⟨rfl, .nil⟩, rfl⟩
    · rintro ⟨xs, ⟨hlength, hmeans⟩, hbs⟩
      cases List.length_eq_zero_iff.1 hlength
      cases hmeans
      exact ⟨rfl, hbs⟩
  | succ n ih =>
    simp only [times, bind_eq_ok, pure_eq_ok, h i _ _ _, ih]
    constructor
    · rintro ⟨a, _, ⟨x, ha, rfl⟩, as', _, ⟨xs, ⟨rfl, has⟩, rfl⟩, rfl, rfl⟩
      exact ⟨x :: xs, ⟨rfl, .cons ha has⟩, by rw [List.flatMap_cons, List.append_assoc]⟩
    · rintro ⟨xs, ⟨hlength, hmeans⟩, rfl⟩
      cases hmeans with
      | nil => cases hlength
      | @cons x a xs as' ha has =>
        refine ⟨a, _, ⟨x, ha, ?_⟩, as', rest, ⟨xs, ⟨Nat.succ.inj hlength, has⟩, rfl⟩, rfl, rfl⟩
        rw [List.flatMap_cons, List.append_assoc]

end Reader

/-- A list that two bytes can count. -/
abbrev Table (ι : Type) := { items : List ι // items.length < 65536 }

/-- Writes a table: the number of its items, and the items. -/
def Table.bytes {ι : Type} (write : ι → Bytes) (t : Table ι) : Bytes :=
  putBigEndian 2 t.1.length ++ t.1.flatMap write

/-- A number, and a reader that is repeated as often as it says. -/
theorem Reader.recognizes_table {ε α ι : Type} {e : ε} {r : Nat → Reader ε α} {write : ι → Bytes}
    {Means : ι → α → Prop} (h : ∀ i, Recognizes (r i) write Means) :
    Recognizes (u2 e >>= fun n => times r 0 n) (Table.bytes write) fun t as =>
      List.Forall₂ Means t.1 as := by
  intro bs as rest
  simp only [bind_eq_ok, u2_eq_ok, recognizes_times h 0 _ _ _ _, Table.bytes]
  constructor
  · rintro ⟨_, _, ⟨k, rfl, rfl⟩, xs, ⟨hlength, hmeans⟩, rfl⟩
    have hlt : xs.length < 65536 := hlength ▸ k.toNat_lt
    refine ⟨⟨xs, hlt⟩, hmeans, ?_⟩
    rw [← hlength, List.append_assoc]
  · rintro ⟨⟨xs, hlt⟩, hmeans, rfl⟩
    have hk : (UInt16.ofNat xs.length).toNat = xs.length := toNat_uint16_ofNat hlt
    refine ⟨xs.length, _, ⟨UInt16.ofNat xs.length, hk.symm, ?_⟩, xs, ⟨rfl, hmeans⟩, rfl⟩
    rw [hk, List.append_assoc]

/-- The same for a reader that only passes over what it takes. -/
theorem Reader.recognizes_table_discard {ε ι : Type} {e : ε} {r : Nat → Reader ε Unit}
    {write : ι → Bytes} (h : ∀ i, Recognizes (r i) write fun _ _ => True) :
    Recognizes (u2 e >>= fun n => discard (times r 0 n)) (Table.bytes write) fun _ _ => True := by
  intro bs u rest
  have htable := recognizes_table (e := e) h bs
  simp only [bind_eq_ok, discard_eq_ok] at htable ⊢
  constructor
  · rintro ⟨n, mid, hn, as, has⟩
    obtain ⟨t, -, rfl⟩ := (htable as rest).1 ⟨n, mid, hn, has⟩
    exact ⟨t, trivial, rfl⟩
  · rintro ⟨t, -, rfl⟩
    have hforall : List.Forall₂ (fun _ _ => True) t.1 (t.1.map fun _ => ()) := by
      rw [List.forall₂_map_right_iff, List.forall₂_same]
      exact fun _ _ => trivial
    obtain ⟨n, mid, hn, hmid⟩ := (htable _ rest).2 ⟨t, hforall, rfl⟩
    exact ⟨n, mid, hn, _, hmid⟩

end KernelReach.Binary
