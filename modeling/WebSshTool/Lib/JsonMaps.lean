import Mathlib.Data.List.Lex
import Mathlib.Data.List.Nodup
import WebSshTool.Lib.Json

/-!
# Objects as sorted maps

`insertMember` keeps members in the order of their names, so that a name occurs
once. What is in a map is then said by membership: `mem_insertMember` for one
insertion, `mem_object` for an object that is put together member by member,
some of which may be absent.
-/

namespace WebSshTool.Json

/-- In the order of their names, each of which occurs once. -/
def Ordered (ms : List (Text × Value)) : Prop := ms.Pairwise fun a b => a.1 < b.1

theorem mem_insertMember_iff {k k' : Text} {v v' : Value} {ms : List (Text × Value)}
    (h : Ordered ms) :
    (k', v') ∈ insertMember k v ms ↔ k' = k ∧ v' = v ∨ k' ≠ k ∧ (k', v') ∈ ms := by
  induction ms with
  | nil => simp [insertMember]
  | cons m ms ih =>
      obtain ⟨hm, hms⟩ := List.pairwise_cons.mp h
      rw [insertMember]
      split
      · -- The name is there: nothing behind it has it again.
        next heq =>
          have hlater : (k', v') ∈ ms → k' ≠ k := fun hmem hk => by
            have hlt := hm _ hmem
            rw [← heq, ← hk] at hlt
            exact List.lt_irrefl _ hlt
          have hhead : (k', v') = m → k' = k := fun hk => by rw [heq, ← hk]
          simp only [List.mem_cons, Prod.mk.injEq]
          constructor
          · rintro (hnew | hmem)
            · exact .inl hnew
            · exact .inr ⟨hlater hmem, .inr hmem⟩
          · rintro (hnew | ⟨hk, hm | hmem⟩)
            · exact .inl hnew
            · exact absurd (hhead hm) hk
            · exact .inr hmem
      · next hne =>
          have hhead : (k', v') = m → k' ≠ k := fun hk hkey => hne (by rw [← hk, hkey])
          split
          · next hlt =>
              have hlater : (k', v') ∈ ms → k' ≠ k := fun hmem hk => by
                have hlt' := List.lt_trans hlt (hm _ hmem)
                rw [hk] at hlt'
                exact List.lt_irrefl _ hlt'
              simp only [List.mem_cons, Prod.mk.injEq]
              constructor
              · rintro (hnew | hm | hmem)
                · exact .inl hnew
                · exact .inr ⟨hhead hm, .inl hm⟩
                · exact .inr ⟨hlater hmem, .inr hmem⟩
              · rintro (hnew | ⟨-, hmem⟩)
                · exact .inl hnew
                · exact .inr hmem
          · simp only [List.mem_cons, ih hms]
            constructor
            · rintro (hm | hnew | ⟨hk, hmem⟩)
              · exact .inr ⟨hhead hm, .inl hm⟩
              · exact .inl hnew
              · exact .inr ⟨hk, .inr hmem⟩
            · rintro (hnew | ⟨hk, hm | hmem⟩)
              · exact .inr (.inl hnew)
              · exact .inl hm
              · exact .inr (.inr ⟨hk, hmem⟩)

theorem ordered_insertMember {k : Text} {v : Value} {ms : List (Text × Value)}
    (h : Ordered ms) : Ordered (insertMember k v ms) := by
  induction ms with
  | nil => exact List.pairwise_singleton _ _
  | cons m ms ih =>
      obtain ⟨hm, hms⟩ := List.pairwise_cons.mp h
      rw [insertMember]
      split
      · next heq => exact List.pairwise_cons.mpr ⟨by rwa [heq], hms⟩
      · split
        · next hlt =>
            refine List.pairwise_cons.mpr ⟨fun n hn => ?_, h⟩
            rcases List.mem_cons.mp hn with rfl | hn
            · exact hlt
            · exact List.lt_trans hlt (hm n hn)
        · next hne hnlt =>
            refine List.pairwise_cons.mpr ⟨fun n hn => ?_, ih hms⟩
            rcases (mem_insertMember_iff hms).mp hn with ⟨hk, -⟩ | ⟨-, hn⟩
            · rw [hk]
              exact lt_of_le_of_ne (not_lt.mp hnlt) fun heq => hne heq.symm
            · exact hm _ hn

theorem Ordered.nodup {ms : List (Text × Value)} (h : Ordered ms) :
    (ms.map Prod.fst).Nodup := by
  refine List.pairwise_map.mpr (h.imp fun hlt heq => ?_)
  rw [heq] at hlt
  exact List.lt_irrefl _ hlt

/-- The value under a name is the one member of that name. -/
theorem get?_obj_iff {ms : List (Text × Value)} (h : Ordered ms) {k : Text} {v : Value} :
    (Value.obj ms).get? k = some v ↔ (k, v) ∈ ms := by
  simp only [Value.get?, Option.map_eq_some_iff]
  constructor
  · rintro ⟨m, hfind, rfl⟩
    have hkey := List.find?_some hfind
    have hmem := List.mem_reverse.mp (List.mem_of_find?_eq_some hfind)
    rw [beq_iff_eq] at hkey
    rwa [← hkey]
  · intro hmem
    cases hfind : ms.reverse.find? fun m => m.1 == k with
    | none => exact absurd (List.find?_eq_none.mp hfind (k, v) (by simpa using hmem)) (by simp)
    | some m =>
        have hkey := List.find?_some hfind
        rw [beq_iff_eq] at hkey
        have hm := List.mem_reverse.mp (List.mem_of_find?_eq_some hfind)
        exact ⟨m, rfl, by rw [List.inj_on_of_nodup_map h.nodup hm hmem hkey]⟩

/-! ## Member by member -/

/-- `m.insert(..)` for each member that is there. -/
def members (fields : List (Text × Option Value)) : List (Text × Value) :=
  fields.foldl (fun ms f => match f.2 with
    | some v => insertMember f.1 v ms
    | none => ms) []

def object (fields : List (Text × Option Value)) : Value := .obj (members fields)

theorem members_concat (fields : List (Text × Option Value)) (f : Text × Option Value) :
    members (fields ++ [f]) = match f.2 with
      | some v => insertMember f.1 v (members fields)
      | none => members fields := by
  simp [members]

theorem ordered_members (fields : List (Text × Option Value)) : Ordered (members fields) := by
  induction fields using List.reverseRecOn with
  | nil => exact List.Pairwise.nil
  | append_singleton fields f ih =>
      rw [members_concat]
      split
      · exact ordered_insertMember ih
      · exact ih

theorem mem_members_iff {fields : List (Text × Option Value)}
    (h : (fields.map Prod.fst).Nodup) {k : Text} {v : Value} :
    (k, v) ∈ members fields ↔ (k, some v) ∈ fields := by
  induction fields using List.reverseRecOn with
  | nil => simp [members]
  | append_singleton fields f ih =>
      rw [List.map_append, List.nodup_append] at h
      obtain ⟨hnodup, -, hfresh⟩ := h
      have hnew : (k, some v) ∈ fields → k ≠ f.1 := fun hmem =>
        hfresh k (List.mem_map.mpr ⟨_, hmem, rfl⟩) f.1 (by simp)
      obtain ⟨key, value⟩ := f
      rw [members_concat]
      cases value with
      | none => simp [ih hnodup]
      | some w =>
          simp only [mem_insertMember_iff (ordered_members fields), ih hnodup, List.mem_append,
            List.mem_singleton, Prod.mk.injEq, Option.some.injEq]
          constructor
          · rintro (hlast | ⟨-, hmem⟩)
            · exact .inr hlast
            · exact .inl hmem
          · rintro (hmem | hlast)
            · exact .inr ⟨hnew hmem, hmem⟩
            · exact .inl hlast

theorem get?_object_iff {fields : List (Text × Option Value)}
    (h : (fields.map Prod.fst).Nodup) {k : Text} {v : Value} :
    (object fields).get? k = some v ↔ (k, some v) ∈ fields := by
  rw [object, get?_obj_iff (ordered_members fields), mem_members_iff h]

/-- Present or absent, as the field is. -/
theorem get?_object {fields : List (Text × Option Value)} (h : (fields.map Prod.fst).Nodup)
    {f : Text × Option Value} (hf : f ∈ fields) : (object fields).get? f.1 = f.2 := by
  refine Option.ext fun v => ?_
  rw [get?_object_iff h]
  constructor
  · intro hv
    rw [List.inj_on_of_nodup_map h hf hv rfl]
  · intro hv
    rwa [← hv]

theorem get?_object_absent {fields : List (Text × Option Value)} (h : (fields.map Prod.fst).Nodup)
    {k : Text} (hk : k ∉ fields.map Prod.fst) : (object fields).get? k = none := by
  refine Option.eq_none_iff_forall_ne_some.mpr fun v hv => hk ?_
  exact List.mem_map.mpr ⟨_, (get?_object_iff h).mp hv, rfl⟩

end WebSshTool.Json
