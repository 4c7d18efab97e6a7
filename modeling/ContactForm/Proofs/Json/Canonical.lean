import ContactForm.Proofs.Json.Members

namespace ContactForm.Json

mutual

/-- Every object in the value has ascending keys, as objects have that are read or built. -/
def Canonical : Json → Prop
  | .array items => CanonicalItems items
  | .object members => Members.Ascending members ∧ CanonicalMembers members
  | _ => True

def CanonicalItems : List Json → Prop
  | [] => True
  | item :: items => Canonical item ∧ CanonicalItems items

def CanonicalMembers : List (String × Json) → Prop
  | [] => True
  | (_, value) :: members => Canonical value ∧ CanonicalMembers members

end

theorem canonicalItems_iff (items : List Json) :
    CanonicalItems items ↔ ∀ item ∈ items, Canonical item := by
  induction items with
  | nil => simp [CanonicalItems]
  | cons item items ih => simp [CanonicalItems, ih]

theorem canonicalMembers_iff (members : List (String × Json)) :
    CanonicalMembers members ↔ ∀ member ∈ members, Canonical member.2 := by
  induction members with
  | nil => simp [CanonicalMembers]
  | cons member members ih => simp [CanonicalMembers, ih]

@[simp] theorem canonical_array (items : List Json) :
    Canonical (.array items) ↔ ∀ item ∈ items, Canonical item :=
  canonicalItems_iff items

@[simp] theorem canonical_object (members : List (String × Json)) :
    Canonical (.object members) ↔
      Members.Ascending members ∧ ∀ member ∈ members, Canonical member.2 := by
  rw [Canonical, canonicalMembers_iff]

theorem Canonical.of_lookup {members : Members} (h : Canonical (.object members)) {name : String}
    {value : Json} (hl : members.lookup name = some value) : Canonical value := by
  rw [canonical_object] at h
  exact h.2 (name, value) ((Members.lookup_eq_some_iff_mem h.1.nodup_keys).mp hl)

/-- The elements of an array in an object are as sorted as the object. -/
theorem Canonical.of_mem_array {members : Members} (h : Canonical (.object members)) {name : String}
    {items : List Json} (hl : members.lookup name = some (.array items)) {item : Json} (hitem : item ∈ items) :
    Canonical item :=
  (canonical_array items).mp (h.of_lookup hl) item hitem

theorem canonical_ofMembers {members : List (String × Json)}
    (h : ∀ member ∈ members, Canonical member.2) : Canonical (.ofMembers members) := by
  rw [ofMembers, canonical_object]
  exact ⟨Members.ofList_ascending members, fun member hm => h member (Members.mem_of_mem_ofList hm)⟩

end ContactForm.Json
