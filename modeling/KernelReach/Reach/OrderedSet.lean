import Std.Data.HashSet

/-!
# Sets that keep their order

An `OrderedSet` holds each element once and lists its elements in the order in which they came. A
hash set beside the list answers membership.
-/

namespace KernelReach

/-- A set whose elements are listed in the order of their insertion. -/
structure OrderedSet (α : Type) [DecidableEq α] [Hashable α] where
  /-- The elements, the first inserted first. -/
  items : Array α := #[]
  /-- The same elements for a quick answer. -/
  index : Std.HashSet α := ∅
  mem_index : ∀ a, a ∈ index ↔ a ∈ items := by simp
  nodup : items.toList.Nodup := by simp

namespace OrderedSet

variable {α : Type} [DecidableEq α] [Hashable α]

instance : EmptyCollection (OrderedSet α) := ⟨{}⟩
instance : Inhabited (OrderedSet α) := ⟨∅⟩

instance : Membership α (OrderedSet α) := ⟨fun s a => a ∈ s.items⟩

def toList (s : OrderedSet α) : List α := s.items.toList

def size (s : OrderedSet α) : Nat := s.items.size

def contains (s : OrderedSet α) (a : α) : Bool := s.index.contains a

theorem contains_iff {s : OrderedSet α} {a : α} : s.contains a = true ↔ a ∈ s.items :=
  (Std.HashSet.contains_iff_mem).trans (s.mem_index a)

instance (s : OrderedSet α) (a : α) : Decidable (a ∈ s) :=
  decidable_of_iff (s.contains a = true) contains_iff

/-- The set with `a`, at the end of the list if it is new. -/
def insert (s : OrderedSet α) (a : α) : OrderedSet α :=
  if h : s.contains a = true then s
  else {
    items := s.items.push a
    index := s.index.insert a
    mem_index := by
      intro b
      rw [Std.HashSet.mem_insert, Array.mem_push, s.mem_index b, beq_iff_eq]
      exact ⟨fun h => h.elim (fun e => .inr e.symm) .inl,
        fun h => h.elim .inr fun e => .inl e.symm⟩
    nodup := by
      have hn : a ∉ s.items := fun hm => h (contains_iff.2 hm)
      rw [Array.toList_push, List.nodup_append]
      refine ⟨s.nodup, by simp, ?_⟩
      intro b hb c hc hbc
      simp only [List.mem_singleton] at hc
      subst hc
      subst hbc
      exact hn (Array.mem_toList_iff.1 hb) }

def insertAll (s : OrderedSet α) (as : List α) : OrderedSet α := as.foldl insert s

/-- The distinct elements of a list, in the order in which they first appear. -/
def ofList (as : List α) : OrderedSet α := (∅ : OrderedSet α).insertAll as

end OrderedSet

end KernelReach
