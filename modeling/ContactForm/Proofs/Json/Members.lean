import Mathlib.Data.List.Nodup
import Mathlib.Data.String.Basic
import Std.Data.TreeMap.Lemmas
import ContactForm.Json.Value

namespace ContactForm.Members

/-- The keys ascend, so each of them stands once. -/
def Ascending (members : Members) : Prop :=
  members.Pairwise fun a b => a.1 < b.1

theorem Ascending.nodup_keys {members : Members} (h : Ascending members) :
    (members.map (·.1)).Nodup :=
  List.pairwise_map.mpr (h.imp fun hlt => ne_of_lt hlt)

theorem lookup_eq_some_iff_mem {members : Members} (h : (members.map (·.1)).Nodup)
    {key : String} {value : Json} : members.lookup key = some value ↔ (key, value) ∈ members := by
  induction members with
  | nil => simp
  | cons member members ih =>
    obtain ⟨k, v⟩ := member
    simp only [List.map_cons, List.nodup_cons] at h
    by_cases hk : key = k
    · subst hk
      have hnot : (key, value) ∉ members := fun hm => h.1 (List.mem_map.mpr ⟨_, hm, rfl⟩)
      simp [hnot, eq_comm]
    · have hb : (key == k) = false := by simpa using hk
      simp [List.lookup_cons, hb, hk, ih h.2]

theorem lookup_eq_none_of_not_mem {α : Type} {list : List (String × α)} {key : String}
    (h : key ∉ list.map (·.1)) : list.lookup key = none := by
  rw [List.lookup_eq_none_iff]
  intro member hmem
  obtain ⟨k, a⟩ := member
  rw [bne_iff_ne]
  intro heq
  obtain rfl := heq
  exact h (List.mem_map.mpr ⟨_, hmem, rfl⟩)

/-- Objects with ascending keys are told apart by what they hold under their keys. -/
theorem Ascending.ext {xs ys : Members} (hx : Ascending xs) (hy : Ascending ys)
    (h : ∀ key, xs.lookup key = ys.lookup key) : xs = ys := by
  have hmem : ∀ member, member ∈ xs ↔ member ∈ ys := by
    intro member
    obtain ⟨key, value⟩ := member
    rw [← lookup_eq_some_iff_mem hx.nodup_keys, ← lookup_eq_some_iff_mem hy.nodup_keys, h]
  have hperm : xs.Perm ys :=
    (List.perm_ext_iff_of_nodup (List.Nodup.of_map _ hx.nodup_keys)
      (List.Nodup.of_map _ hy.nodup_keys)).mpr hmem
  refine hperm.eq_of_pairwise ?_ hx hy
  intro a b _ _ hab hba
  exact absurd hab (lt_asymm hba)

theorem ofList_ascending (members : List (String × Json)) : Ascending (ofList members) :=
  Std.TreeMap.ordered_keys_toList.imp compare_lt_iff_lt.mp

/-- Where each key stands once, sorting keeps what each key holds. -/
theorem lookup_ofList {members : List (String × Json)} (h : (members.map (·.1)).Nodup)
    (key : String) : (ofList members).lookup key = members.lookup key := by
  have hdistinct : members.Pairwise fun a b => ¬compare a.1 b.1 = .eq :=
    (List.pairwise_map.mp h).imp fun hne heq => hne (Std.LawfulEqOrd.eq_of_compare heq)
  have hsome (value : Json) (hmem : (key, value) ∈ members) :
      (key, value) ∈ ofList members := by
    rw [ofList, Std.TreeMap.mem_toList_iff_getElem?_eq_some]
    exact Std.TreeMap.getElem?_ofList_of_mem Std.ReflOrd.compare_self hdistinct hmem
  cases hl : members.lookup key with
  | some value =>
    rw [lookup_eq_some_iff_mem h] at hl
    exact (lookup_eq_some_iff_mem (ofList_ascending members).nodup_keys).mpr (hsome value hl)
  | none =>
    rw [List.lookup_eq_none_iff] at hl
    rw [List.lookup_eq_none_iff]
    intro member hmem
    obtain ⟨k, v⟩ := member
    rw [ofList, Std.TreeMap.mem_toList_iff_getElem?_eq_some] at hmem
    by_contra heq
    have hk : key = k := by simpa using heq
    subst hk
    rw [Std.TreeMap.getElem?_ofList_of_contains_eq_false] at hmem
    · cases hmem
    · simpa using fun x hx => by simpa using hl (key, x) hx

/-- Whatever stands under a key was given to it. -/
theorem mem_of_mem_ofList {members : List (String × Json)} {member : String × Json}
    (h : member ∈ ofList members) : member ∈ members := by
  obtain ⟨key, value⟩ := member
  suffices hall : ∀ map : Std.TreeMap String Json, (map.insertMany members)[key]? = some value →
      (key, value) ∈ members ∨ map[key]? = some value by
    rw [ofList, Std.TreeMap.mem_toList_iff_getElem?_eq_some] at h
    simpa using hall ∅ h
  clear h
  induction members with
  | nil =>
    intro _ h
    exact Or.inr h
  | cons member members ih =>
    intro map h
    obtain ⟨k, v⟩ := member
    rw [Std.TreeMap.insertMany_cons] at h
    obtain hmem | hmap := ih _ h
    · exact Or.inl (List.mem_cons_of_mem _ hmem)
    · rw [Std.TreeMap.getElem?_insert] at hmap
      split at hmap
      · next heq =>
        obtain rfl := Std.LawfulEqOrd.eq_of_compare heq
        obtain rfl := Option.some.inj hmap
        exact Or.inl List.mem_cons_self
      · exact Or.inr hmap

theorem ofList_of_ascending {members : Members} (h : Ascending members) :
    ofList members = members :=
  (ofList_ascending members).ext h fun key => lookup_ofList h.nodup_keys key

theorem ofList_perm {members : List (String × Json)} (h : (members.map (·.1)).Nodup) :
    (ofList members).Perm members := by
  refine (List.perm_ext_iff_of_nodup
    (List.Nodup.of_map _ (ofList_ascending members).nodup_keys) (List.Nodup.of_map _ h)).mpr ?_
  intro member
  obtain ⟨key, value⟩ := member
  rw [← lookup_eq_some_iff_mem h,
    ← lookup_eq_some_iff_mem (ofList_ascending members).nodup_keys, lookup_ofList h]

/-- Sorting puts members in the one order in which their keys ascend. -/
theorem ofList_eq_of_perm {members sorted : Members} (h : members.Perm sorted) (hs : Ascending sorted) :
    ofList members = sorted := by
  have hkeys : (members.map (·.1)).Nodup := (h.map _).nodup_iff.mpr hs.nodup_keys
  refine ((ofList_perm hkeys).trans h).eq_of_pairwise ?_ (ofList_ascending members) hs
  intro a b _ _ hab hba
  exact absurd hab (lt_asymm hba)

theorem mem_of_mem_set {members : Members} {key : String} {value : Json} {member : String × Json}
    (h : member ∈ set key value members) : member = (key, value) ∨ member ∈ members := by
  rw [set, List.mem_append, List.mem_cons] at h
  obtain hbefore | heq | hafter := h
  · exact Or.inr ((List.takeWhile_sublist _).subset hbefore)
  · exact Or.inl heq
  · exact Or.inr ((List.dropWhile_sublist _).subset (List.mem_filter.mp hafter).1)

/-- What holds of all values of an object holds of them where a key is set to such a value. -/
theorem forall_mem_set {P : Json → Prop} {members : Members} {key : String} {value : Json} (hvalue : P value)
    (h : ∀ member ∈ members, P member.2) : ∀ member ∈ set key value members, P member.2 := by
  intro member hmem
  obtain rfl | hmem := mem_of_mem_set hmem
  · exact hvalue
  · exact h member hmem

theorem lt_of_mem_takeWhile {members : Members} {key : String} {member : String × Json}
    (h : member ∈ members.takeWhile fun member => decide (member.1 < key)) : member.1 < key :=
  of_decide_eq_true (List.all_eq_true.mp List.all_takeWhile member h)

/-- The members before the place of a key do not hold it. -/
theorem lookup_takeWhile (key : String) (members : Members) :
    (members.takeWhile fun member => decide (member.1 < key)).lookup key = none := by
  refine lookup_eq_none_of_not_mem fun hmem => ?_
  obtain ⟨member, hmember, heq⟩ := List.mem_map.mp hmem
  exact (lt_of_mem_takeWhile hmember).ne heq

theorem lookup_filter_ne {key other : String} (h : other ≠ key) (members : Members) :
    (members.filter (·.1 != key)).lookup other = members.lookup other := by
  induction members with
  | nil => rfl
  | cons member members ih =>
    obtain ⟨name, value⟩ := member
    rw [List.filter_cons, List.lookup_cons]
    by_cases hname : name = key
    · have hother : (other == name) = false := by simpa [hname] using h
      simp only [hname, bne_self_eq_false, Bool.false_eq_true, if_false, ih]
      rw [← hname, hother]
    · have hkept : (name != key) = true := by simpa using hname
      rw [if_pos hkept, List.lookup_cons, ih]

theorem lookup_set_self (key : String) (value : Json) (members : Members) :
    (set key value members).lookup key = some value := by
  rw [set, List.lookup_append, lookup_takeWhile, List.lookup_cons_self]
  rfl

/-- Setting a key leaves what an object holds under any other. -/
theorem lookup_set_of_ne {key other : String} (h : other ≠ key) (value : Json) (members : Members) :
    (set key value members).lookup other = members.lookup other := by
  have hne : (other == key) = false := by simpa using h
  rw [set, List.lookup_append, List.lookup_cons, hne, lookup_filter_ne h, ← List.lookup_append,
    List.takeWhile_append_dropWhile]

/-- Of two values given to one key the second counts. -/
theorem set_set (key : String) (value value' : Json) (members : Members) :
    set key value' (set key value members) = set key value' members := by
  have hbefore : ∀ member ∈ members.takeWhile (fun member => decide (member.1 < key)),
      decide (member.1 < key) = true :=
    fun _ hmem => decide_eq_true (lt_of_mem_takeWhile hmem)
  rw [set, set, List.takeWhile_append_of_pos hbefore, List.dropWhile_append_of_pos hbefore,
    List.takeWhile_cons, List.dropWhile_cons, set]
  simp

/-- From the first key on that is not below `key`, none is. -/
theorem Ascending.le_of_mem_dropWhile {members : Members} (h : Ascending members) {key : String}
    {member : String × Json} (hmem : member ∈ members.dropWhile fun member => decide (member.1 < key)) :
    key ≤ member.1 := by
  induction members with
  | nil => exact absurd hmem List.not_mem_nil
  | cons first members ih =>
    obtain ⟨hfirst, hrest⟩ := List.pairwise_cons.mp h
    by_cases hlt : first.1 < key
    · rw [List.dropWhile_cons_of_pos (by simpa using hlt)] at hmem
      exact ih hrest hmem
    · rw [List.dropWhile_cons_of_neg (by simpa using hlt)] at hmem
      obtain rfl | hmem := List.mem_cons.mp hmem
      · exact le_of_not_gt hlt
      · exact (le_of_not_gt hlt).trans (hfirst member hmem).le

/-- Setting a key keeps an object sorted. -/
theorem Ascending.set {members : Members} (h : Ascending members) (key : String) (value : Json) :
    Ascending (set key value members) := by
  have hafter : ∀ member ∈ (members.dropWhile fun member => decide (member.1 < key)).filter (·.1 != key),
      key < member.1 := by
    intro member hmem
    obtain ⟨hmem, hne⟩ := List.mem_filter.mp hmem
    exact lt_of_le_of_ne (h.le_of_mem_dropWhile hmem) (Ne.symm (bne_iff_ne.mp hne))
  have hbefore : ∀ member ∈ members.takeWhile (fun member => decide (member.1 < key)), member.1 < key :=
    fun _ hmem => lt_of_mem_takeWhile hmem
  rw [Ascending, Members.set, List.pairwise_append, List.pairwise_cons]
  refine ⟨h.sublist (List.takeWhile_sublist _), ⟨hafter, ?_⟩, ?_⟩
  · exact h.sublist (List.filter_sublist.trans (List.dropWhile_sublist _))
  · intro first hfirst second hsecond
    obtain rfl | hsecond := List.mem_cons.mp hsecond
    · exact hbefore first hfirst
    · exact (hbefore first hfirst).trans (hafter second hsecond)

end ContactForm.Members
