/-!
# Queues

A first-in first-out queue. New elements go to the front of a second list, which is turned round
when the first one runs out; `toList` is the order in which the elements leave.
-/

namespace KernelReach

/-- A queue. -/
structure Queue (α : Type) where
  /-- The elements that leave next, in order. -/
  front : List α := []
  /-- The elements behind them, the last one first. -/
  back : List α := []

namespace Queue

variable {α : Type}

instance : EmptyCollection (Queue α) := ⟨{}⟩
instance : Inhabited (Queue α) := ⟨∅⟩

/-- The elements in the order in which they leave. -/
def toList (q : Queue α) : List α := q.front ++ q.back.reverse

def size (q : Queue α) : Nat := q.front.length + q.back.length

def push (q : Queue α) (a : α) : Queue α := { q with back := a :: q.back }

/-- The queue with `as` at its end, in order. -/
def pushAll (q : Queue α) (as : List α) : Queue α := as.foldl push q

/-- The first element and the queue without it. -/
def pop? (q : Queue α) : Option (α × Queue α) :=
  match q.front with
  | a :: front => some (a, { q with front })
  | [] =>
    match q.back.reverse with
    | a :: front => some (a, ⟨front, []⟩)
    | [] => none

@[simp]
theorem toList_push (q : Queue α) (a : α) : (q.push a).toList = q.toList ++ [a] := by
  simp [push, toList]

theorem pop?_eq_none_iff {q : Queue α} : q.pop? = none ↔ q.toList = [] := by
  cases q with
  | mk front back =>
    cases front with
    | cons a front => simp [pop?, toList]
    | nil => cases h : back.reverse <;> simp [pop?, toList, h]

theorem toList_of_pop? {q r : Queue α} {a : α} (h : q.pop? = some (a, r)) :
    q.toList = a :: r.toList := by
  cases q with
  | mk front back =>
    cases front with
    | cons b front =>
      simp only [pop?, Option.some.injEq, Prod.mk.injEq] at h
      obtain ⟨rfl, rfl⟩ := h
      simp [toList]
    | nil =>
      simp only [pop?] at h
      split at h
      · rename_i hb
        simp only [Option.some.injEq, Prod.mk.injEq] at h
        obtain ⟨rfl, rfl⟩ := h
        simp [toList, hb]
      · simp at h

end Queue

end KernelReach
