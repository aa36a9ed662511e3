import Helmholtz.Json.Fields
import Helmholtz.Proofs.FiniteConstants

/-! Values that are put together to be written.

Putting the keys of objects in order changes nothing the second time. An object is written with the
members that have a value, and its fields are found again by their keys. -/

namespace Helmholtz
namespace Json

section Canonical

/-- Members that are left as they are when the keys of objects are put in order. -/
structure Settled (members : List (String × Json)) : Prop where
  ascending : members.Pairwise (·.1 < ·.1)
  canonical : ∀ m ∈ members, m.2.canonical = m.2

theorem mem_putSorted {key : String} {value : Json} {members : List (String × Json)}
    {m : String × Json} (h : m ∈ putSorted key value members) : m = (key, value) ∨ m ∈ members := by
  fun_induction putSorted key value members with
  | case1 => exact .inl (List.mem_singleton.mp h)
  | case2 k v rest hlt => exact List.mem_cons.mp h
  | case3 v rest hlt =>
    rcases List.mem_cons.mp h with h | h
    · exact .inl h
    · exact .inr (List.mem_cons_of_mem _ h)
  | case4 k v rest hlt hne ih =>
    rcases List.mem_cons.mp h with rfl | h
    · exact .inr List.mem_cons_self
    · exact (ih h).imp_right (List.mem_cons_of_mem _)

theorem ascending_putSorted {key : String} {value : Json} {members : List (String × Json)}
    (h : members.Pairwise (·.1 < ·.1)) : (putSorted key value members).Pairwise (·.1 < ·.1) := by
  fun_induction putSorted key value members with
  | case1 => exact List.pairwise_singleton _ _
  | case2 k v rest hlt =>
    obtain ⟨hk, -⟩ := List.pairwise_cons.mp h
    have hbelow : ∀ m ∈ (k, v) :: rest, key < m.1 :=
      List.forall_mem_cons.mpr ⟨hlt, fun m hm => String.lt_trans hlt (hk m hm)⟩
    exact List.pairwise_cons.mpr ⟨hbelow, h⟩
  | case3 v rest hlt => exact List.pairwise_cons.mpr (List.pairwise_cons.mp h)
  | case4 k v rest hlt hne ih =>
    obtain ⟨hk, hrest⟩ := List.pairwise_cons.mp h
    refine List.pairwise_cons.mpr ⟨fun m hm => ?_, ih hrest⟩
    rcases mem_putSorted hm with rfl | hm
    · exact Std.lt_of_le_of_ne (String.not_lt.mp hlt) (Ne.symm hne)
    · exact hk m hm

/-- A key above all others is put at the end. -/
theorem putSorted_eq_append {key : String} {value : Json} {members : List (String × Json)}
    (h : ∀ m ∈ members, m.1 < key) : putSorted key value members = members ++ [(key, value)] := by
  induction members with
  | nil => rfl
  | cons m rest ih =>
    obtain ⟨hm, hrest⟩ := List.forall_mem_cons.mp h
    have hne : key ≠ m.1 := fun heq => String.lt_irrefl key (heq ▸ hm)
    rw [putSorted, if_neg (String.lt_asymm hm), if_neg hne, ih hrest]
    rfl

theorem Settled.putSorted {key : String} {value : Json} {members : List (String × Json)}
    (h : Settled members) (hvalue : value.canonical = value) :
    Settled (putSorted key value members) where
  ascending := ascending_putSorted h.ascending
  canonical m hm := by
    rcases mem_putSorted hm with rfl | hm
    · exact hvalue
    · exact h.canonical m hm

/-- Members that are settled are put one behind the other. -/
theorem canonicalMembers_eq_append {members sorted : List (String × Json)}
    (h : Settled (sorted ++ members)) : canonicalMembers members sorted = sorted ++ members := by
  induction members generalizing sorted with
  | nil => rw [canonicalMembers, List.append_nil]
  | cons m rest ih =>
    have hm : m.2.canonical = m.2 := h.canonical m (by simp)
    have hbelow : ∀ m' ∈ sorted, m'.1 < m.1 := by
      intro m' hm'
      exact (List.pairwise_append.mp h.ascending).2.2 m' hm' m List.mem_cons_self
    have hput : sorted ++ m :: rest = (sorted ++ [m]) ++ rest := by simp
    rw [hput] at h ⊢
    rw [canonicalMembers, hm, putSorted_eq_append hbelow]
    exact ih h

mutual

theorem canonical_canonical : (v : Json) → v.canonical.canonical = v.canonical
  | array items => congrArg array (canonicalItems_canonicalItems items)
  | object members => congrArg object <|
    canonicalMembers_eq_append (settled_canonicalMembers members ⟨List.Pairwise.nil, nofun⟩)
  | null | bool _ | number _ | string _ | unreadable => rfl

theorem canonicalItems_canonicalItems :
    (items : List Json) → canonicalItems (canonicalItems items) = canonicalItems items
  | [] => rfl
  | v :: rest => congrArg₂ List.cons (canonical_canonical v) (canonicalItems_canonicalItems rest)

theorem settled_canonicalMembers : (members : List (String × Json)) →
    {sorted : List (String × Json)} → Settled sorted → Settled (canonicalMembers members sorted)
  | [], _, h => h
  | (_, v) :: rest, _, h => settled_canonicalMembers rest (h.putSorted (canonical_canonical v))

end

end Canonical

section Given

/-- The members for the fields that have a value. -/
def given (fields : List (String × Option Json)) : List (String × Json) :=
  fields.filterMap fun f => f.2.map (f.1, ·)

theorem keys_given_sublist (fields : List (String × Option Json)) :
    ((given fields).map Prod.fst).Sublist (fields.map Prod.fst) := by
  induction fields with
  | nil => exact .slnil
  | cons f rest ih =>
    obtain ⟨key, v⟩ := f
    cases v with
    | none => exact ih.cons key
    | some v => exact ih.cons_cons key

theorem notMem_keys_given {fields : List (String × Option Json)} {key : String}
    (h : key ∉ fields.map Prod.fst) : key ∉ (given fields).map Prod.fst :=
  fun hkey => h ((keys_given_sublist fields).subset hkey)

/-- The members with the key of a field are its own, if it has a value. -/
theorem filter_given {fields : List (String × Option Json)}
    (hdistinct : (fields.map Prod.fst).Nodup) {key : String} {v : Option Json}
    (h : (key, v) ∈ fields) : (given fields).filter (·.1 == key) = (v.map (key, ·)).toList := by
  induction fields with
  | nil => cases h
  | cons f rest ih =>
    obtain ⟨k, w⟩ := f
    obtain ⟨hk, hrest⟩ := List.nodup_cons.mp hdistinct
    have hsplit : given ((k, w) :: rest) = (w.map (k, ·)).toList ++ given rest := by
      cases w <;> rfl
    rw [hsplit, List.filter_append]
    rcases List.mem_cons.mp h with heq | h
    · cases heq
      have hothers : (given rest).filter (·.1 == key) = [] := by
        rw [List.filter_eq_nil_iff]
        intro m hm heq
        exact notMem_keys_given hk (List.mem_map.mpr ⟨m, hm, eq_of_beq heq⟩)
      rw [hothers]
      cases v <;> simp
    · have hne : k ≠ key := fun heq => hk (List.mem_map.mpr ⟨(key, v), h, heq.symm⟩)
      rw [ih hrest h]
      cases w <;> simp [hne]

theorem single?_given {fields : List (String × Option Json)}
    (hdistinct : (fields.map Prod.fst).Nodup) {key : String} {v : Option Json}
    (h : (key, v) ∈ fields) : single? (given fields) key = some v := by
  rw [single?, filter_given hdistinct h]
  cases v <;> rfl

theorem lookup_eq_head?_filter (members : List (String × Json)) (key : String) :
    members.lookup key = (members.filter (·.1 == key)).head?.map Prod.snd := by
  induction members with
  | nil => rfl
  | cons m rest ih =>
    obtain ⟨k, v⟩ := m
    by_cases h : k = key
    · simp [h]
    · have hkey : (key == k) = false := beq_false_of_ne (Ne.symm h)
      simp [List.lookup_cons, hkey, h, ih]

theorem lookup_given {fields : List (String × Option Json)}
    (hdistinct : (fields.map Prod.fst).Nodup) {key : String} {v : Option Json}
    (h : (key, v) ∈ fields) : (given fields).lookup key = v := by
  rw [lookup_eq_head?_filter, filter_given hdistinct h]
  cases v <;> rfl

theorem mapM_map_eq_some {β γ κ : Type} {read : β → Option γ} {write : κ → β} {value : κ → γ}
    {ks : List κ} (h : ∀ k ∈ ks, read (write k) = some (value k)) :
    (ks.map write).mapM read = some (ks.map value) := by
  induction ks with
  | nil => rfl
  | cons k rest ih =>
    obtain ⟨hk, hrest⟩ := List.forall_mem_cons.mp h
    rw [List.map_cons, List.mapM_cons, hk, ih hrest]
    rfl

/-- The fields of an object are read as they have been written. -/
theorem fields?_given {fields : List (String × Option Json)}
    (hdistinct : (fields.map Prod.fst).Nodup) :
    (object (given fields)).fields? (fields.map Prod.fst) = some (fields.map Prod.snd) :=
  mapM_map_eq_some fun _ h => single?_given hdistinct h

theorem list?_map {β : Type} {read : Json → Option β} {write : β → Json}
    (h : ∀ b, read (write b) = some b) (bs : List β) :
    (array (bs.map write)).list? read = some bs := by
  have hitems : (bs.map write).mapM read = some (bs.map id) := mapM_map_eq_some fun b _ => h b
  rwa [List.map_id] at hitems

theorem optionalString?_map_string (s : Option String) :
    optionalString? (s.map string) = some s := by
  cases s <;> rfl

end Given

section Numbers

theorem membersFinite_putSorted {key : String} {value : Json} {members : List (String × Json)}
    (hvalue : value.NumbersFinite) (h : MembersFinite members) :
    MembersFinite (putSorted key value members) := by
  rw [membersFinite_iff] at h ⊢
  intro m hm
  rcases mem_putSorted hm with rfl | hm
  · exact hvalue
  · exact h m hm

mutual

theorem numbersFinite_canonical : (v : Json) → v.NumbersFinite → v.canonical.NumbersFinite
  | array items, h => itemsFinite_canonicalItems items h
  | object members, h => membersFinite_canonicalMembers members h trivial
  | null, h | bool _, h | number _, h | string _, h | unreadable, h => h

theorem itemsFinite_canonicalItems :
    (items : List Json) → ItemsFinite items → ItemsFinite (canonicalItems items)
  | [], h => h
  | v :: rest, h => ⟨numbersFinite_canonical v h.1, itemsFinite_canonicalItems rest h.2⟩

theorem membersFinite_canonicalMembers : (members : List (String × Json)) →
    {sorted : List (String × Json)} → MembersFinite members → MembersFinite sorted →
      MembersFinite (canonicalMembers members sorted)
  | [], _, _, hsorted => hsorted
  | (_, v) :: rest, _, h, hsorted =>
    membersFinite_canonicalMembers rest h.2
      (membersFinite_putSorted (numbersFinite_canonical v h.1) hsorted)

end

theorem membersFinite_given {fields : List (String × Option Json)}
    (h : ∀ f ∈ fields, ∀ v ∈ f.2, v.NumbersFinite) : MembersFinite (given fields) := by
  rw [membersFinite_iff]
  intro m hm
  obtain ⟨f, hf, hm⟩ := List.mem_filterMap.mp hm
  obtain ⟨v, hv, rfl⟩ := Option.map_eq_some_iff.mp hm
  exact h f hf v hv

theorem numbersFinite_of_single? {members : List (String × Json)} {key : String}
    (hmembers : MembersFinite members) {v : Json} (h : single? members key = some (some v)) :
    v.NumbersFinite := by
  unfold single? at h
  split at h
  · cases h
  · next k w hfilter =>
    cases h
    have hmem : (k, v) ∈ members.filter (·.1 == key) := by simp [hfilter]
    exact membersFinite_iff.mp hmembers (k, v) (List.mem_filter.mp hmem).1
  · cases h

theorem exists_of_mem_of_mapM {β γ : Type} {read : β → Option γ} {bs : List β} {cs : List γ}
    (h : bs.mapM read = some cs) {c : γ} (hc : c ∈ cs) : ∃ b ∈ bs, read b = some c := by
  induction bs generalizing cs with
  | nil =>
    cases h
    cases hc
  | cons b rest ih =>
    rw [List.mapM_cons] at h
    obtain ⟨c', hc', h⟩ := Option.bind_eq_some_iff.mp h
    obtain ⟨cs', hcs', h⟩ := Option.bind_eq_some_iff.mp h
    cases h
    rcases List.mem_cons.mp hc with rfl | hc
    · exact ⟨b, List.mem_cons_self, hc'⟩
    · obtain ⟨b', hb', hread⟩ := ih hcs' hc
      exact ⟨b', List.mem_cons_of_mem _ hb', hread⟩

theorem numbersFinite_of_fields? {keys : List String} {v : Json} (hv : v.NumbersFinite)
    {fields : List (Option Json)} (h : v.fields? keys = some fields) {w : Json}
    (hw : some w ∈ fields) : w.NumbersFinite := by
  unfold fields? at h
  split at h
  · obtain ⟨key, -, hread⟩ := exists_of_mem_of_mapM h hw
    exact numbersFinite_of_single? hv hread
  · next items =>
    split at h
    · cases h
      have hitem : w ∈ items := by simpa using hw
      exact itemsFinite_iff.mp hv w hitem
    · cases h
  · cases h

theorem isFinite_of_float? {v : Json} (hv : v.NumbersFinite) {x : Float} (h : v.float? = some x) :
    x.isFinite = true := by
  cases v with
  | number n =>
    cases h
    exact hv
  | _ => cases h

theorem exists_of_mem_of_list? {β : Type} {read : Json → Option β} {v : Json}
    (hv : v.NumbersFinite) {bs : List β} (h : v.list? read = some bs) {b : β} (hb : b ∈ bs) :
    ∃ w : Json, w.NumbersFinite ∧ read w = some b := by
  obtain ⟨items, hitems, h⟩ := Option.bind_eq_some_iff.mp h
  obtain ⟨w, hw, hread⟩ := exists_of_mem_of_mapM h hb
  cases v with
  | array =>
    cases hitems
    exact ⟨w, itemsFinite_iff.mp hv w hw, hread⟩
  | _ => cases hitems

end Numbers
end Json

end Helmholtz
