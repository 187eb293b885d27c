import InstrumentBus.Json.Basic
import InstrumentBus.Proofs.Except

/-!
Records are read from objects that have each of their members once, in any order.
-/

namespace InstrumentBus.Json

variable {name : String} {members : List (String × Json)}

theorem filter_name_eq_nil (h : name ∉ members.map Prod.fst) :
    members.filter (fun m => m.1 == name) = [] := by
  refine List.filter_eq_nil_iff.2 fun m hm => ?_
  rw [beq_iff_eq]
  rintro rfl
  exact h (List.mem_map_of_mem hm)

theorem lookup_of_not_mem (h : name ∉ members.map Prod.fst) : lookup name members = .absent := by
  rw [lookup, filter_name_eq_nil h]

theorem lookup_of_mem (hnodup : (members.map Prod.fst).Nodup) {m : String × Json}
    (hm : m ∈ members) : lookup m.1 members = .one m.2 := by
  have hone : members.filter (fun n => n.1 == m.1) = [m] := by
    induction members with
    | nil => cases hm
    | cons n members ih =>
      obtain ⟨habsent, hrest⟩ := List.nodup_cons.1 hnodup
      obtain rfl | hm := List.mem_cons.1 hm
      · rw [List.filter_cons_of_pos (by simp), filter_name_eq_nil habsent]
      · have hne : n.1 ≠ m.1 := fun h => habsent (h ▸ List.mem_map_of_mem hm)
        rw [List.filter_cons_of_neg (by simpa using hne), ih hrest hm]
  rw [lookup, hone]

theorem record?_object (members : List (String × Json)) (missing : List String)
    (h : (members.map Prod.fst ++ missing).Nodup) :
    record? (members.map Prod.fst ++ missing) (.object members) =
      some (members.map (fun m => some m.2) ++ missing.map fun _ => none) := by
  obtain ⟨hnodup, -, hdisjoint⟩ := List.nodup_append.1 h
  rw [record?, List.mapM_append, List.mapM_map, mapM_of_forall (m := Option) (g := fun m => some m.2),
    mapM_of_forall (m := Option) (g := fun _ => none)]
  · rfl
  · intro name hname
    rw [lookup_of_not_mem fun hm => hdisjoint name hm name hname rfl]
    rfl
  · intro m hm
    rw [Function.comp, lookup_of_mem hnodup hm]
    rfl

end InstrumentBus.Json
