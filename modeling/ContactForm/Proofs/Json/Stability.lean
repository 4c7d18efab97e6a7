import ContactForm.Config
import ContactForm.Proofs.Json.Canonical
import ContactForm.Proofs.Json.RoundTrip

namespace ContactForm.Json

mutual

/-- The numbers that stand in a value. -/
def numbers : Json → List Number
  | .number n => [n]
  | .array items => numbersItems items
  | .object members => numbersMembers members
  | _ => []

def numbersItems : List Json → List Number
  | [] => []
  | item :: items => numbers item ++ numbersItems items

def numbersMembers : List (String × Json) → List Number
  | [] => []
  | (_, value) :: members => numbers value ++ numbersMembers members

end

/-- Each number in the value is read as it was where it was written. -/
def Stable (value : Json) : Prop :=
  ∀ n ∈ value.numbers, n.reread? = some n

theorem map_fst_rereadMembers? {members found : List (String × Json)}
    (h : rereadMembers? members = some found) : found.map (·.1) = members.map (·.1) := by
  induction members generalizing found with
  | nil =>
    obtain rfl := Option.some.inj h
    rfl
  | cons member members ih =>
    obtain ⟨key, value⟩ := member
    rw [rereadMembers?, Option.bind_eq_some_iff] at h
    obtain ⟨value, -, h⟩ := h
    obtain ⟨rest, hrest, rfl⟩ := Option.map_eq_some_iff.mp h
    rw [List.map_cons, List.map_cons, ih hrest]

/-- A sorted object is sorted as well once its values are read again. -/
theorem ascending_rereadMembers? {members found : Members} (hm : Members.Ascending members)
    (h : rereadMembers? members = some found) : Members.Ascending found := by
  rw [Members.Ascending, ← List.pairwise_map] at hm ⊢
  rw [map_fst_rereadMembers? h]
  exact hm

theorem reread?_object {members : Members} (hm : Members.Ascending members) :
    reread? (.object members) = (rereadMembers? members).map .object := by
  rw [reread?]
  cases h : rereadMembers? members with
  | none => rfl
  | some found =>
    rw [Option.map_some, Option.map_some, ofMembers,
      Members.ofList_of_ascending (ascending_rereadMembers? hm h)]

mutual

/-- A sorted value is read as it was exactly where each of its numbers is. -/
theorem reread?_eq_self_iff : ∀ {value : Json}, value.Canonical →
    (value.reread? = some value ↔ value.Stable)
  | .null, _ => by simp [reread?, Stable, numbers]
  | .bool _, _ => by simp [reread?, Stable, numbers]
  | .string _, _ => by simp [reread?, Stable, numbers]
  | .number n, _ => by simp [reread?, Stable, numbers]
  | .array items, h => by
    rw [Stable, numbers, ← rereadItems?_eq_self_iff h]
    simp [reread?]
  | .object members, h => by
    rw [Stable, numbers, ← rereadMembers?_eq_self_iff h.2, reread?_object h.1]
    simp

theorem rereadItems?_eq_self_iff : ∀ {items : List Json}, CanonicalItems items →
    (rereadItems? items = some items ↔ ∀ n ∈ numbersItems items, n.reread? = some n)
  | [], _ => by simp [rereadItems?, numbersItems]
  | item :: items, h => by
    rw [numbersItems, List.forall_mem_append, ← rereadItems?_eq_self_iff h.2, ← Stable,
      ← reread?_eq_self_iff h.1]
    simp [rereadItems?, Option.bind_eq_some_iff]

theorem rereadMembers?_eq_self_iff : ∀ {members : List (String × Json)}, CanonicalMembers members →
    (rereadMembers? members = some members ↔ ∀ n ∈ numbersMembers members, n.reread? = some n)
  | [], _ => by simp [rereadMembers?, numbersMembers]
  | (key, value) :: members, h => by
    rw [numbersMembers, List.forall_mem_append, ← rereadMembers?_eq_self_iff h.2, ← Stable,
      ← reread?_eq_self_iff h.1]
    simp [rereadMembers?, Option.bind_eq_some_iff]

end

/-- A sorted value whose numbers are read as they were, and that is not too deep, is read from its text. -/
theorem parse_write_of_stable {value : Json} (hcanonical : value.Canonical) (hstable : value.Stable)
    (hdepth : value.depth ≤ Reader.maxDepth) (layout : Layout) : parse (value.write layout "") = .ok value := by
  rw [← Except.toOption_eq_some_iff, parse_write layout hdepth]
  exact (reread?_eq_self_iff hcanonical).mpr hstable

end ContactForm.Json
