/-!
# Powers, limits and sums

Powers of two and of ten, the limits of whole numbers that are kept in words of 64 bits, and the sum
of a list.
-/

namespace KernelReach.Number

def twoTo (n : Nat) : Nat := Nat.pow 2 n

def tenTo (n : Nat) : Nat := Nat.pow 10 n

def wordCount : Nat := 0x10000000000000000

/-- One more than the greatest number that a word of 64 bits with a sign holds. -/
def signedLimit : Nat := 0x8000000000000000

/-- The sum of numbers. -/
def total (ns : List Nat) : Nat := ns.foldr (· + ·) 0

@[simp] theorem total_nil : total [] = 0 := rfl

@[simp] theorem total_cons (n : Nat) (ns : List Nat) : total (n :: ns) = n + total ns := rfl

theorem wordCount_eq : wordCount = twoTo 64 := by decide

theorem signedLimit_eq : signedLimit = twoTo 63 := by decide

end KernelReach.Number
