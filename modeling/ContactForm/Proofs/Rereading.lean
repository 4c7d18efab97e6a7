import ContactForm.Config
import ContactForm.Proofs.Json.Rereading

namespace ContactForm

section MapM

variable {α β : Type}

theorem mapM_cons (f : α → Option β) (a : α) (rest : List α) :
    (a :: rest).mapM f = (f a).bind fun b => (rest.mapM f).map (b :: ·) := by
  rw [List.mapM_cons]
  cases f a with
  | none => rfl
  | some b => cases rest.mapM f <;> rfl

theorem mapM_eq_self_iff (f : α → Option α) (list : List α) :
    list.mapM f = some list ↔ ∀ a ∈ list, f a = some a := by
  induction list with
  | nil => simp
  | cons a rest ih =>
    rw [mapM_cons, List.forall_mem_cons, ← ih]
    simp [Option.bind_eq_some_iff]

theorem exists_of_mem_mapM {f : α → Option β} {list : List α} {found : List β}
    (h : list.mapM f = some found) {b : β} (hb : b ∈ found) : ∃ a ∈ list, f a = some b := by
  induction list generalizing found with
  | nil =>
    obtain rfl := Option.some.inj h
    exact absurd hb List.not_mem_nil
  | cons a rest ih =>
    rw [mapM_cons, Option.bind_eq_some_iff] at h
    obtain ⟨first, hfirst, h⟩ := h
    obtain ⟨others, hothers, rfl⟩ := Option.map_eq_some_iff.mp h
    obtain rfl | hb := List.mem_cons.mp hb
    · exact ⟨a, List.mem_cons_self, hfirst⟩
    · obtain ⟨source, hsource, hread⟩ := ih hothers hb
      exact ⟨source, List.mem_cons_of_mem a hsource, hread⟩

end MapM

namespace Json

theorem rereadItems?_map {α β : Type} {write : α → Json} {next : α → Option β} {back : β → Json}
    (list : List α) (h : ∀ a ∈ list, (write a).reread? = (next a).map back) :
    rereadItems? (list.map write) = (list.mapM next).map (List.map back) := by
  induction list with
  | nil => rfl
  | cons a rest ih =>
    rw [List.forall_mem_cons] at h
    rw [List.map_cons, rereadItems?, h.1, ih h.2, mapM_cons]
    cases next a with
    | none => rfl
    | some b => cases rest.mapM next <;> rfl

theorem rereadMembers?_append (xs ys : Members) :
    rereadMembers? (xs ++ ys) =
      (rereadMembers? xs).bind fun found => (rereadMembers? ys).map (found ++ ·) := by
  induction xs with
  | nil =>
    rw [List.nil_append, rereadMembers?]
    cases rereadMembers? ys <;> rfl
  | cons member xs ih =>
    obtain ⟨key, value⟩ := member
    rw [List.cons_append, rereadMembers?, rereadMembers?, ih]
    cases value.reread? with
    | none => rfl
    | some value =>
      cases rereadMembers? xs with
      | none => rfl
      | some found => cases rereadMembers? ys <;> rfl

theorem rereadMembers?_optional {α : Type} {write back : α → Json} (name : String)
    (o : Option α) (h : ∀ a, (write a).reread? = some (back a)) :
    rereadMembers? (optionalMember name (o.map write)) = some (optionalMember name (o.map back)) := by
  cases o with
  | none => rfl
  | some a =>
    change rereadMembers? [(name, write a)] = some [(name, back a)]
    rw [rereadMembers?, h]
    rfl

end Json

theorem Choice.reread?_encode (c : Choice) : (c.encode Json.object).reread? = some c.toJson := by
  rw [toJson, encode, encode, Json.reread?, Json.rereadMembers?_append, Json.rereadMembers?_append,
    Json.rereadMembers?_optional _ _ fun _ => rfl, Json.rereadMembers?_optional _ _ fun _ => rfl]
  rfl

namespace Question

/-- The question that is read where one was written: its hints are read again. -/
def reread? (q : Question) : Option Question :=
  match q.custom with
  | none => some q
  | some members =>
    (Json.rereadMembers? members).map fun found => { q with custom := some (Members.ofList found) }

theorem reread?_encode (q : Question) :
    (q.encode Json.object).reread? = q.reread?.map toJson := by
  have hchoices (choices : List Choice) :
      (Json.array (choices.map (Choice.encode Json.object))).reread? =
        some (.array (choices.map Choice.toJson)) := by
    have heach (c : Choice) (_ : c ∈ choices) :
        (c.encode Json.object).reread? = (some c).map Choice.toJson := c.reread?_encode
    rw [Json.reread?, Json.rereadItems?_map choices heach,
      (mapM_eq_self_iff some choices).mpr fun _ _ => rfl]
    rfl
  obtain ⟨label, name, type, required, choices, custom⟩ := q
  rw [encode, Json.reread?, Json.rereadMembers?_append, Json.rereadMembers?_append,
    Json.rereadMembers?_optional _ _ hchoices, reread?]
  cases custom with
  | none => rfl
  | some members =>
    have hcustom : Json.rereadMembers? (optionalMember "custom" (some (.object members))) =
        (Json.rereadMembers? members).map fun found => [("custom", .ofMembers found)] := by
      rw [optionalMember, Option.toList_some, List.map_singleton, Json.rereadMembers?, Json.reread?]
      cases Json.rereadMembers? members <;> rfl
    simp only [Option.map_some, hcustom]
    cases Json.rereadMembers? members <;> rfl

end Question

namespace Config

/-- The configuration that is read where one was written. -/
def reread? (c : Config) : Option Config :=
  (c.questions.mapM Question.reread?).map fun questions => { c with questions }

theorem reread?_encode (c : Config) :
    (c.encode Json.object).reread? = c.reread?.map toJson := by
  rw [encode, Json.reread?, Json.rereadMembers?_append, Json.rereadMembers?_append,
    Json.rereadMembers?_append, Json.rereadMembers?_optional _ _ fun _ => rfl,
    Json.rereadMembers?_optional _ _ fun _ => rfl, Json.rereadMembers?_optional _ _ fun _ => rfl,
    reread?]
  simp only [Json.rereadMembers?, Json.reread?, Option.bind_some, Option.map_some,
    Json.rereadItems?_map c.questions fun q _ => q.reread?_encode]
  cases c.questions.mapM Question.reread? <;> rfl

end Config

end ContactForm
