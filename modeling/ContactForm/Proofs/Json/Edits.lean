import ContactForm.Locator
import ContactForm.Proofs.Json.Canonical

namespace ContactForm.Json

/-- What stands at a place in a value; a step that does not fit finds nothing. -/
def at? : Locator → Json → Option Json
  | [], value => some value
  | .key name :: rest, .object members => (members.lookup name).bind (at? rest)
  | .index i :: rest, .array items => items[i]?.bind (at? rest)
  | _, _ => none

theorem at?_append (p q : Locator) (value : Json) :
    value.at? (p ++ q) = (value.at? p).bind (at? q) := by
  induction p generalizing value with
  | nil => simp [at?]
  | cons step rest ih =>
    cases step with
    | key name =>
      cases value with
      | object members => cases h : members.lookup name <;> simp [at?, h, ih]
      | _ => simp [at?]
    | index i =>
      cases value with
      | array items => cases h : items[i]? <;> simp [at?, h, ih]
      | _ => simp [at?]

theorem at?_key (members : Members) (key : String) :
    (object members).at? [.key key] = members.lookup key := by
  cases h : members.lookup key <;> simp [at?, h]

/-- What becomes of a member of an object. -/
inductive Edit where
  | keep
  | remove
  | replace (value : Json)

mutual

/-- The value after `edit` decided on every member of every object in it, by the place of the object and what it
    holds under which key. Edits go on within a member that is kept. -/
def revise (edit : Locator → String → Json → Edit) (here : Locator) : Json → Json
  | .array items => .array (reviseItems edit here 0 items)
  | .object members => .object (reviseMembers edit here members)
  | value => value

def reviseItems (edit : Locator → String → Json → Edit) (here : Locator) (i : Nat) : List Json → List Json
  | [] => []
  | item :: items => revise edit (here.index i) item :: reviseItems edit here (i + 1) items

def reviseMembers (edit : Locator → String → Json → Edit) (here : Locator) :
    List (String × Json) → List (String × Json)
  | [] => []
  | (key, value) :: members =>
    match edit here key value with
    | .keep => (key, revise edit (here.key key) value) :: reviseMembers edit here members
    | .remove => reviseMembers edit here members
    | .replace value => (key, value) :: reviseMembers edit here members

end

variable (edit : Locator → String → Json → Edit)

theorem revise_array (here : Locator) (items : List Json) :
    revise edit here (.array items) = .array (reviseItems edit here 0 items) := rfl

theorem revise_object (here : Locator) (members : List (String × Json)) :
    revise edit here (.object members) = .object (reviseMembers edit here members) := rfl

/-- What an object holds under a key after the edits, where it held `value` before. -/
def reviseMember (here : Locator) (key : String) (value : Json) : Option Json :=
  match edit here key value with
  | .keep => some (revise edit (here.key key) value)
  | .remove => none
  | .replace value => some value

theorem reviseMembers_eq (here : Locator) (members : List (String × Json)) :
    reviseMembers edit here members =
      members.filterMap fun member => (reviseMember edit here member.1 member.2).map (member.1, ·) := by
  induction members with
  | nil => rfl
  | cons member members ih =>
    obtain ⟨key, value⟩ := member
    rw [reviseMembers, List.filterMap_cons, reviseMember]
    cases edit here key value <;> simp [ih]

theorem reviseItems_eq (here : Locator) (i : Nat) (items : List Json) :
    reviseItems edit here i items =
      (items.zipIdx i).map fun entry => revise edit (here.index entry.2) entry.1 := by
  induction items generalizing i with
  | nil => rfl
  | cons item items ih => rw [reviseItems, List.zipIdx_cons, List.map_cons, ih]

theorem reviseMembers_ascending (here : Locator) {members : Members}
    (h : Members.Ascending members) : Members.Ascending (reviseMembers edit here members) := by
  rw [reviseMembers_eq]
  refine List.Pairwise.filterMap _ ?_ h
  intro a b hab x hx y hy
  obtain ⟨_, _, rfl⟩ := Option.map_eq_some_iff.mp hx
  obtain ⟨_, _, rfl⟩ := Option.map_eq_some_iff.mp hy
  exact hab

theorem lookup_reviseMembers (here : Locator) {members : Members}
    (h : Members.Ascending members) (key : String) :
    (reviseMembers edit here members).lookup key =
      (members.lookup key).bind (reviseMember edit here key) := by
  apply Option.ext
  intro value
  rw [Members.lookup_eq_some_iff_mem (reviseMembers_ascending edit here h).nodup_keys,
    reviseMembers_eq, List.mem_filterMap, Option.bind_eq_some_iff]
  simp only [Members.lookup_eq_some_iff_mem h.nodup_keys]
  constructor
  · intro hfound
    obtain ⟨⟨k, v⟩, hmem, hv⟩ := hfound
    obtain ⟨w, hw, heq⟩ := Option.map_eq_some_iff.mp hv
    obtain ⟨rfl, rfl⟩ := Prod.mk.inj heq
    exact ⟨v, hmem, hw⟩
  · intro hfound
    obtain ⟨v, hmem, hv⟩ := hfound
    exact ⟨(key, v), hmem, by rw [hv]; rfl⟩

variable {edit}

mutual

/-- Where nothing is edited from a place on, what stands there stays. -/
theorem revise_eq_self {here : Locator} (h : ∀ rest key value, edit (here ++ rest) key value = .keep) :
    (value : Json) → revise edit here value = value
  | .null => rfl
  | .bool _ => rfl
  | .number _ => rfl
  | .string _ => rfl
  | .array items => by rw [revise_array, reviseItems_eq_self h 0 items]
  | .object members => by rw [revise_object, reviseMembers_eq_self h members]

theorem reviseItems_eq_self {here : Locator} (h : ∀ rest key value, edit (here ++ rest) key value = .keep)
    (i : Nat) : (items : List Json) → reviseItems edit here i items = items
  | [] => rfl
  | item :: items => by
    have hitem : ∀ rest key value, edit (here.index i ++ rest) key value = .keep := fun rest => by
      simpa [Locator.index] using h (.index i :: rest)
    rw [reviseItems, revise_eq_self hitem item, reviseItems_eq_self h (i + 1) items]

theorem reviseMembers_eq_self {here : Locator} (h : ∀ rest key value, edit (here ++ rest) key value = .keep) :
    (members : List (String × Json)) → reviseMembers edit here members = members
  | [] => rfl
  | (key, value) :: members => by
    have hmember : ∀ rest name value, edit (here.key key ++ rest) name value = .keep := fun rest => by
      simpa [Locator.key] using h (.key key :: rest)
    have hkeep : edit here key value = .keep := by simpa using h [] key value
    rw [reviseMembers, hkeep, revise_eq_self hmember value, reviseMembers_eq_self h members]

end

end ContactForm.Json
