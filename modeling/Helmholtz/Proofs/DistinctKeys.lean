import Mathlib.Data.List.Nodup

/-! Look-up by key in a list of pairs. It finds the first pair with the key, which is the only one
when the keys are distinct. -/

namespace Helmholtz
universe u
variable {ρ : Type u} {members : List (String × ρ)} {key : String}

theorem mem_of_lookup {v : ρ} (h : members.lookup key = some v) : (key, v) ∈ members := by
  obtain ⟨before, after, rfl, -⟩ := List.lookup_eq_some_iff.mp h
  exact List.mem_append_right before List.mem_cons_self

/-- With distinct keys, a member is found by its key. -/
theorem lookup_eq_some_iff_mem (h : (members.map Prod.fst).Nodup) {v : ρ} :
    members.lookup key = some v ↔ (key, v) ∈ members := by
  constructor
  · exact mem_of_lookup
  · intro hmem
    rw [List.lookup_eq_some_iff]
    obtain ⟨before, after, rfl⟩ := List.append_of_mem hmem
    refine ⟨before, after, rfl, fun p hp => bne_iff_ne.mpr ?_⟩
    rw [List.map_append, List.nodup_append] at h
    obtain ⟨-, -, hdisjoint⟩ := h
    exact (hdisjoint p.1 (List.mem_map_of_mem hp) key List.mem_cons_self).symm

theorem notMem_keys_of_lookup (h : members.lookup key = none) : key ∉ members.map Prod.fst := by
  intro hkey
  obtain ⟨m, hm, rfl⟩ := List.mem_map.mp hkey
  simpa using List.lookup_eq_none_iff.mp h m hm

theorem lookup_of_notMem_keys (h : key ∉ members.map Prod.fst) : members.lookup key = none := by
  rw [List.lookup_eq_none_iff]
  intro m hm
  have hne : key ≠ m.1 := fun heq => h (List.mem_map.mpr ⟨m, hm, heq.symm⟩)
  simpa using hne

end Helmholtz
