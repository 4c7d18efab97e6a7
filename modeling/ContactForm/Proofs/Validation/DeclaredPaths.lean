import ContactForm.Proofs.Validation.Located

namespace ContactForm

namespace Locator

/-- A place whose keys are all among those that objects declare. -/
def Declared (path : Locator) : Prop :=
  ∀ key, .key key ∈ path → ∃ level : Level, key ∈ level.declared

variable {path : Locator}

theorem Declared.key (h : path.Declared) {name : String} {level : Level} (hname : name ∈ level.declared) :
    (path.key name).Declared := by
  intro key hkey
  rw [Locator.key, List.mem_append, List.mem_singleton] at hkey
  obtain hpath | heq := hkey
  · exact h key hpath
  · obtain rfl := Segment.key.inj heq
    exact ⟨level, hname⟩

theorem Declared.index (h : path.Declared) (i : Nat) : (path.index i).Declared := by
  intro key hkey
  rw [Locator.index, List.mem_append, List.mem_singleton] at hkey
  obtain hpath | heq := hkey
  · exact h key hpath
  · cases heq

end Locator

namespace Level

variable {here path : Locator} {level : Level}

theorem declared_of_mem_rows {row : Row} (h : row ∈ level.rows) : row.name ∈ level.declared := by
  rw [declared_eq]
  exact List.mem_map_of_mem h

theorem declared_root : Locator.root.Declared :=
  fun _ h => absurd h List.not_mem_nil

theorem declared_question (i : Nat) : Locator.Declared [.key "questions", .index i] := by
  have hquestions : "questions" ∈ document.declared := by decide
  exact (declared_root.key hquestions).index i

theorem declared_of_at? (h : at? here = some level) : here.Declared := by
  rw [at?_eq_some_iff] at h
  cases level with
  | document =>
    obtain rfl := h
    exact declared_root
  | question =>
    obtain ⟨i, rfl⟩ := h
    exact declared_question i
  | choice =>
    obtain ⟨i, j, rfl⟩ := h
    have hoptions : "options" ∈ question.declared := by decide
    exact ((declared_question i).key hoptions).index j

theorem Expects.declared {shape : Shape} (h : Expects path shape) : path.Declared := by
  cases h with
  | object hlevel => exact declared_of_at? hlevel
  | field hlevel hrow => exact (declared_of_at? hlevel).key (declared_of_mem_rows hrow)
  | line k hlevel hrow _ => exact ((declared_of_at? hlevel).key (declared_of_mem_rows hrow)).index k

end Level

/-- The way to a broken rule goes through declared keys only. -/
theorem Json.Breaks.declared {document : Json} {path : Locator} {rule expected actual : String}
    (h : document.Breaks path rule expected actual) : path.Declared := by
  have hoptions : "options" ∈ Level.question.declared := by decide
  cases h with
  | missing hlevel hrow _ _ _ => exact (Level.declared_of_at? hlevel).key (Level.declared_of_mem_rows hrow)
  | mismatch hshape _ _ => exact hshape.declared
  | noOptions _ _ _ => exact (Level.declared_question _).key hoptions
  | emptyOptions _ _ _ => exact (Level.declared_question _).key hoptions
  | unexpectedOptions _ _ _ _ _ => exact (Level.declared_question _).key hoptions

end ContactForm
