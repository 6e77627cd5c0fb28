/-!
# Bounded caches

A cache keeps values under keys and may give up any of them at any time. What it gives up and when
is a matter of its policy; all that is asked of a policy is that it makes up no entries
(`CachePolicy`). The usual one gives up the entry that was not used for the longest time
(`CachePolicy.leastRecentlyUsed`).
-/

namespace KernelReach

/-- How a cache orders its entries, and which of them it gives up. -/
structure CachePolicy (α β : Type) where
  /-- What is kept after the entry under a key was looked up. -/
  touch : α → List (α × β) → List (α × β)
  /-- What is kept after an entry came in, which is the first one. -/
  trim : List (α × β) → List (α × β)
  touch_subset : ∀ key entries, touch key entries ⊆ entries
  trim_subset : ∀ entries, trim entries ⊆ entries

/-- The policy of a cache with room for some entries that gives up the one that was not used for the
    longest time. The entries are in the order of their last use, the latest first. -/
def CachePolicy.leastRecentlyUsed {α β : Type} [DecidableEq α] (capacity : Nat) :
    CachePolicy α β where
  touch key entries := entries.filter (·.1 = key) ++ entries.filter (·.1 ≠ key)
  trim entries := entries.take capacity
  touch_subset key entries := by
    intro e he
    rcases List.mem_append.1 he with he | he <;> exact (List.mem_filter.1 he).1
  trim_subset entries := fun _ he => List.mem_of_mem_take he

/-- A cache of values under keys. -/
structure Cache (α β : Type) where
  policy : CachePolicy α β
  entries : List (α × β) := []

namespace Cache

variable {α β : Type} [DecidableEq α]

/-- The value under a key, and the cache in which it was the last one used. -/
def get? (c : Cache α β) (key : α) : Option (β × Cache α β) :=
  match c.entries.find? (·.1 = key) with
  | some e => some (e.2, { c with entries := c.policy.touch key c.entries })
  | none => none

/-- The cache with a value under a key, in the place of the one that was there. -/
def insert (c : Cache α β) (key : α) (value : β) : Cache α β :=
  { c with entries := c.policy.trim ((key, value) :: c.entries.filter (·.1 ≠ key)) }

end Cache

end KernelReach
