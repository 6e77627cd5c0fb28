import KernelReach.Web.GraphView
import Mathlib.Data.List.Chain
import Mathlib.Data.Nat.Find
import Mathlib.Order.Bounds.Basic

/-!
# Paths in view

What a filter leaves of a call graph, said without a walk. A path is admissible if all its calls are
shown, the filter stops at none of its methods but perhaps the last, and hides none but perhaps the
first (`GraphFilter.Admissible`). The distance of a method is the length of a shortest admissible
path from the root to it (`GraphFilter.Distance`); a method that is one step further from the root
than another is what the methods at the distance before step to (`distance_succ`).
-/

namespace KernelReach.Web

namespace GraphFilter

variable (f : GraphFilter) (calls : List EdgeRecord)

/-- The calls from one method to another that are not left out, in order. -/
def shown (source target : String) : List EdgeRecord :=
  calls.filter fun e => e.caller = source ∧ e.callee = target ∧ f.hidesCall e = false

/-- A step of a path: the filter does not stop at the method, and shows a call to the next one,
    which it does not hide. -/
structure Steps (source target : String) : Prop where
  goesOn : f.stops (signatureClass source) = false
  calls : f.shown calls source target ≠ []
  unhidden : f.hides (signatureClass target) = false

/-- The paths that may be followed from their first method. -/
structure Admissible (path : List String) : Prop where
  calls : path.IsChain fun source target => f.shown calls source target ≠ []
  unhidden : ∀ sig ∈ path.tail, f.hides (signatureClass sig) = false
  goesOn : ∀ sig ∈ path.dropLast, f.stops (signatureClass sig) = false

/-- There is an admissible path of `n` calls from the root to the method. -/
def Reaches (root sig : String) (n : Nat) : Prop :=
  ∃ path, path.head? = some root ∧ path.getLast? = some sig ∧ path.length = n + 1 ∧
    f.Admissible calls path

/-- The length of a shortest admissible path from the root to the method. -/
def Distance (root sig : String) (n : Nat) : Prop := IsLeast {n | f.Reaches calls root sig n} n

variable {f calls} {path : List String} {root source sig sig' : String} {n m : Nat}

theorem admissible_singleton (sig : String) : f.Admissible calls [sig] :=
  ⟨.singleton sig, by simp, by simp⟩

/-- A path grows at its end. -/
theorem admissible_concat (h : path.getLast? = some source) (sig : String) :
    f.Admissible calls (path ++ [sig]) ↔ f.Admissible calls path ∧ f.Steps calls source sig := by
  obtain ⟨before, rfl⟩ := List.getLast?_eq_some_iff.1 h
  have htail : (before ++ [source] ++ [sig]).tail = (before ++ [source]).tail ++ [sig] :=
    List.tail_append_of_ne_nil (by simp)
  constructor
  · rintro ⟨hcalls, hunhidden, hgoesOn⟩
    rw [htail] at hunhidden
    rw [List.dropLast_concat] at hgoesOn
    have hlast := (List.isChain_append.1 hcalls).2.2 source (by simp) sig (by simp)
    refine ⟨⟨hcalls.left_of_append, fun s hs => hunhidden s (List.mem_append_left _ hs),
      fun s hs => hgoesOn s (List.dropLast_subset _ hs)⟩, ?_⟩
    exact ⟨hgoesOn source (by simp), hlast, hunhidden sig (by simp)⟩
  · rintro ⟨⟨hcalls, hunhidden, hgoesOn⟩, hstep⟩
    refine ⟨List.isChain_append.2 ⟨hcalls, .singleton sig, by simpa using hstep.calls⟩, ?_, ?_⟩
    · rw [htail]
      intro s hs
      rcases List.mem_append.1 hs with hs | hs
      · exact hunhidden s hs
      · exact List.mem_singleton.1 hs ▸ hstep.unhidden
    · rw [List.dropLast_concat]
      rw [List.dropLast_concat] at hgoesOn
      intro s hs
      rcases List.mem_append.1 hs with hs | hs
      · exact hgoesOn s hs
      · exact List.mem_singleton.1 hs ▸ hstep.goesOn

@[simp]
theorem reaches_zero : f.Reaches calls root sig 0 ↔ sig = root := by
  constructor
  · rintro ⟨path, hhead, hlast, hlength, -⟩
    obtain ⟨s, rfl⟩ := List.length_eq_one_iff.1 hlength
    exact (Option.some.inj hlast).symm.trans (Option.some.inj hhead)
  · rintro rfl
    exact ⟨[sig], rfl, rfl, rfl, admissible_singleton sig⟩

theorem reaches_succ : f.Reaches calls root sig (n + 1) ↔
    ∃ source, f.Reaches calls root source n ∧ f.Steps calls source sig := by
  constructor
  · rintro ⟨path, hhead, hlast, hlength, hpath⟩
    obtain ⟨before, rfl⟩ := List.getLast?_eq_some_iff.1 hlast
    have hbefore : before.length = n + 1 := by simpa using hlength
    have hne : before ≠ [] := by rintro rfl; cases hbefore
    have hsource : before.getLast? = some (before.getLast hne) := List.getLast?_eq_some_getLast hne
    obtain ⟨hpath, hstep⟩ := (admissible_concat hsource sig).1 hpath
    rw [List.head?_append_of_ne_nil _ hne] at hhead
    exact ⟨_, ⟨before, hhead, hsource, hbefore, hpath⟩, hstep⟩
  · rintro ⟨source, ⟨path, hhead, hlast, hlength, hpath⟩, hstep⟩
    have hne : path ≠ [] := by rintro rfl; cases hlength
    refine ⟨path ++ [sig], ?_, List.getLast?_concat, by simp [hlength], ?_⟩
    · rwa [List.head?_append_of_ne_nil _ hne]
    · exact (admissible_concat hlast sig).2 ⟨hpath, hstep⟩

/-! ### Distances -/

namespace Distance

theorem reaches (h : f.Distance calls root sig n) : f.Reaches calls root sig n := h.1

theorem le (h : f.Distance calls root sig n) (hm : f.Reaches calls root sig m) : n ≤ m := h.2 hm

theorem unique (h : f.Distance calls root sig n) (h' : f.Distance calls root sig m) : n = m :=
  IsLeast.unique h h'

theorem unhidden (h : f.Distance calls root sig (n + 1)) :
    f.hides (signatureClass sig) = false := by
  obtain ⟨_, -, hstep⟩ := reaches_succ.1 h.reaches
  exact hstep.unhidden

end Distance

theorem Reaches.exists_distance (h : f.Reaches calls root sig n) :
    ∃ m ≤ n, f.Distance calls root sig m := by
  classical
  exact ⟨Nat.find ⟨n, h⟩, Nat.find_min' _ h, Nat.find_spec ⟨n, h⟩, fun _ hm => Nat.find_min' _ hm⟩

@[simp]
theorem distance_zero : f.Distance calls root sig 0 ↔ sig = root :=
  ⟨fun h => reaches_zero.1 h.reaches, fun h => ⟨reaches_zero.2 h, fun _ _ => Nat.zero_le _⟩⟩

/-- The methods at the next distance are those that the methods at this distance step to, other than
    the methods that are as near or nearer. -/
theorem distance_succ : f.Distance calls root sig (n + 1) ↔
    (∃ source, f.Distance calls root source n ∧ f.Steps calls source sig) ∧
      ¬∃ m ≤ n, f.Distance calls root sig m := by
  constructor
  · intro h
    refine ⟨?_, fun ⟨m, hm, h'⟩ => absurd (h.unique h') (by omega)⟩
    obtain ⟨source, hsource, hstep⟩ := reaches_succ.1 h.reaches
    obtain ⟨m, hm, hdist⟩ := hsource.exists_distance
    -- a shorter way to the source would be a shorter way to the method
    have hle : n + 1 ≤ m + 1 := h.le (reaches_succ.2 ⟨source, hdist.reaches, hstep⟩)
    obtain rfl : m = n := by omega
    exact ⟨source, hdist, hstep⟩
  · rintro ⟨⟨source, hsource, hstep⟩, hnear⟩
    have hreach := reaches_succ.2 ⟨source, hsource.reaches, hstep⟩
    obtain ⟨m, hm, hdist⟩ := hreach.exists_distance
    obtain rfl : m = n + 1 := by
      by_contra hne
      exact hnear ⟨m, by omega, hdist⟩
    exact hdist

/-- On the way to a method every smaller distance occurs. -/
theorem Distance.exists_of_le (h : f.Distance calls root sig n) (hm : m ≤ n) :
    ∃ sig', f.Distance calls root sig' m := by
  induction n generalizing sig with
  | zero => exact ⟨sig, Nat.le_zero.1 hm ▸ h⟩
  | succ n ih =>
    rcases Nat.eq_or_lt_of_le hm with rfl | hlt
    · exact ⟨sig, h⟩
    · obtain ⟨⟨source, hsource, -⟩, -⟩ := distance_succ.1 h
      exact ih hsource (Nat.lt_succ_iff.1 hlt)

end GraphFilter

end KernelReach.Web
