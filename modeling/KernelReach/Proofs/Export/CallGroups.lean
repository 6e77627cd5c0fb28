import KernelReach.Export.Statement
import KernelReach.Proofs.Grouping

/-!
# The calls of an export

The calls of a report are exported in groups, one for every caller and callee (`groups_groupCalls`).
A group has the kind, the status and the reason of its first call and the offsets of all of them
(`group_callGroups`).
-/

namespace KernelReach.Export

/-- The calls, grouped by caller and callee. -/
def callGroups : Grouping EdgeRecord CallGroup (String × String) where
  keyOf e := (e.caller, e.callee)
  key g := (g.caller, g.callee)
  start e := ⟨e.caller, e.callee, e.kind, e.status, e.reason, [e.offset]⟩
  grow g e := { g with offsets := g.offsets ++ [e.offset] }
  key_start _ := rfl
  key_grow _ _ := rfl

theorem addCall_eq_add (groups : List CallGroup) (e : EdgeRecord) :
    addCall groups e = callGroups.add groups e := by
  induction groups with
  | nil => rfl
  | cons g gs ih =>
    have hkey : (g.caller = e.caller ∧ g.callee = e.callee) ↔
        callGroups.key g = callGroups.keyOf e := by
      simp [callGroups]
    rw [addCall, Grouping.add, ih]
    exact if_congr hkey rfl rfl

theorem group_callGroups (first : EdgeRecord) (rest : List EdgeRecord) :
    callGroups.group first rest =
      ⟨first.caller, first.callee, first.kind, first.status, first.reason,
        (first :: rest).map EdgeRecord.offset⟩ := by
  rw [Grouping.group]
  induction rest using List.reverseRecOn with
  | nil => rfl
  | append_singleton rest e ih =>
    rw [List.foldl_append, ih, ← List.cons_append, List.map_append]
    rfl

theorem groups_groupCalls (edges : List EdgeRecord) :
    callGroups.Groups edges (groupCalls edges) := by
  have hadd : addCall = callGroups.add := by
    funext groups e
    exact addCall_eq_add groups e
  rw [groupCalls, hadd]
  exact callGroups.groups_foldl_add edges

/-- What a group says is said by its first call. -/
theorem exists_first_of_mem_groupCalls {edges : List EdgeRecord} {g : CallGroup}
    (hg : g ∈ groupCalls edges) : ∃ first ∈ edges, first.caller = g.caller ∧
      first.callee = g.callee ∧ first.status = g.status ∧ first.reason = g.reason := by
  obtain ⟨first, rest, hitems, hgroup⟩ := (groups_groupCalls edges).members g hg
  have hfirst : first ∈ edges := (List.mem_filter.1 (hitems ▸ List.mem_cons_self)).1
  rw [group_callGroups] at hgroup
  subst hgroup
  exact ⟨first, hfirst, rfl, rfl, rfl, rfl⟩

end KernelReach.Export
