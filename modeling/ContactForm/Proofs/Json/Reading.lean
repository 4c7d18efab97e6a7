import Mathlib.Data.List.TakeWhile
import ContactForm.Proofs.Json.Canonical
import ContactForm.Proofs.Json.Remainder
import ContactForm.Proofs.Json.Rereading

namespace ContactForm.Reader

variable {readValue : List Char → Except Fault (Read Json)} {P : Json → Prop}

/-- What holds of each value that is read holds of each element of a list that is read. -/
theorem readItems_forall (hvalue : ∀ text value rest, readValue text = .ok (value, rest) → P value)
    {fuel : Nat} {done items : List Json} {text rest : List Char} (hdone : ∀ item ∈ done, P item)
    (h : readItems readValue fuel done text = .ok (items, rest)) : ∀ item ∈ items, P item := by
  induction fuel generalizing done text with
  | zero => cases h
  | succ fuel ih =>
    rw [readItems] at h
    split at h
    · cases h
    · obtain ⟨rfl, -⟩ := Prod.mk.inj (Except.ok.inj h)
      intro item hitem
      exact hdone item (List.mem_reverse.mp hitem)
    · obtain ⟨text, -, h⟩ := bind_eq_ok h
      obtain ⟨⟨item, next⟩, hitem, h⟩ := bind_eq_ok h
      exact ih (List.forall_mem_cons.mpr ⟨hvalue _ _ _ hitem, hdone⟩) h

/-- What holds of each value that is read holds of each value in an object that is read. -/
theorem readMembers_forall (hvalue : ∀ text value rest, readValue text = .ok (value, rest) → P value)
    {fuel : Nat} {done members : List (String × Json)} {text rest : List Char}
    (hdone : ∀ member ∈ done, P member.2)
    (h : readMembers readValue fuel done text = .ok (members, rest)) :
    ∀ member ∈ members, P member.2 := by
  induction fuel generalizing done text with
  | zero => cases h
  | succ fuel ih =>
    rw [readMembers] at h
    split at h
    · cases h
    · obtain ⟨rfl, -⟩ := Prod.mk.inj (Except.ok.inj h)
      intro member hmember
      exact hdone member (List.mem_reverse.mp hmember)
    · obtain ⟨text, -, h⟩ := bind_eq_ok h
      obtain ⟨⟨key, next⟩, -, h⟩ := bind_eq_ok h
      obtain ⟨⟨value, next⟩, hmember, h⟩ := bind_eq_ok h
      exact ih (List.forall_mem_cons.mpr ⟨hvalue _ _ _ hmember, hdone⟩) h

/-- What a value can be that was read: no container, or one whose parts were read one level further in. -/
theorem readValue_cases {fuel depth : Nat} {text rest : List Char} {value : Json}
    (h : Reader.readValue fuel depth text = .ok (value, rest)) :
    ((∀ items, value ≠ .array items) ∧ (∀ members, value ≠ .object members) ∧ rest <:+ text) ∨
    (∃ inner items start, depth = inner + 1 ∧ value = .array items ∧ '[' :: start <:+ text ∧
      readItems (Reader.readValue fuel inner) fuel [] start = .ok (items, rest)) ∨
    ∃ inner members start, depth = inner + 1 ∧ value = .ofMembers members ∧ '\x7b' :: start <:+ text ∧
      readMembers (Reader.readValue fuel inner) fuel [] start = .ok (members, rest) := by
  unfold Reader.readValue at h
  split at h
  case h_1 => cases h
  case h_5 hskip =>
    obtain ⟨⟨s, after⟩, hread, h⟩ := bind_eq_ok h
    cases h
    have hafter := (Quoted.suffix_of_read hread).trans (List.suffix_cons '"' _)
    exact .inl ⟨by simp, by simp, hafter.trans (suffix_of_skipBlank_eq hskip)⟩
  case h_6 hskip =>
    split at h
    · cases h
    · next inner =>
      obtain ⟨⟨items, next⟩, hitems, h⟩ := bind_eq_ok h
      cases h
      exact .inr (.inl ⟨inner, items, _, rfl, rfl, suffix_of_skipBlank_eq hskip, hitems⟩)
  case h_7 hskip =>
    split at h
    · cases h
    · next inner =>
      obtain ⟨⟨members, next⟩, hmembers, h⟩ := bind_eq_ok h
      cases h
      exact .inr (.inr ⟨inner, members, _, rfl, rfl, suffix_of_skipBlank_eq hskip, hmembers⟩)
  case h_8 hskip =>
    obtain ⟨⟨number, after⟩, hread, h⟩ := bind_eq_ok h
    cases h
    have hafter := (Numeral.suffix_of_read hread).trans (List.suffix_cons '-' _)
    exact .inl ⟨by simp, by simp, hafter.trans (suffix_of_skipBlank_eq hskip)⟩
  case h_9 hskip =>
    split at h
    · obtain ⟨⟨number, after⟩, hread, h⟩ := bind_eq_ok h
      cases h
      exact .inl ⟨by simp, by simp, (Numeral.suffix_of_read hread).trans (suffix_of_skipBlank_eq hskip)⟩
    · cases h
  all_goals
    next hskip =>
      obtain ⟨after, hread, h⟩ := bind_eq_ok h
      cases h
      have hafter := (List.suffix_cons _ _).trans (suffix_of_skipBlank_eq hskip)
      exact .inl ⟨by simp, by simp, (suffix_of_readWord hread).trans hafter⟩

/-- A value that is read has sorted objects and no more containers around each other than allowed. -/
theorem readValue_wellFormed (fuel depth : Nat) (text : List Char) (value : Json) (rest : List Char)
    (h : Reader.readValue fuel depth text = .ok (value, rest)) :
    value.Canonical ∧ value.depth ≤ depth := by
  induction depth using Nat.strongRecOn generalizing text value rest with
  | ind depth ih =>
    obtain ⟨harray, hobject, -⟩ | ⟨inner, items, start, rfl, rfl, -, hread⟩ |
      ⟨inner, members, start, rfl, rfl, -, hread⟩ := readValue_cases h
    · cases value with
      | array items => exact absurd rfl (harray items)
      | object members => exact absurd rfl (hobject members)
      | _ => exact ⟨trivial, Nat.zero_le _⟩
    · have hitems := readItems_forall (ih inner (Nat.lt_succ_self inner))
        (fun _ hmem => absurd hmem List.not_mem_nil) hread
      refine ⟨(Json.canonical_array items).mpr fun item hmem => (hitems item hmem).1, ?_⟩
      exact Json.depth_array_le_iff.mpr fun item hmem => (hitems item hmem).2
    · have hmembers := readMembers_forall (ih inner (Nat.lt_succ_self inner))
        (fun _ hmem => absurd hmem List.not_mem_nil) hread
      refine ⟨Json.canonical_ofMembers fun member hmem => (hmembers member hmem).1, ?_⟩
      exact Json.depth_object_le_iff.mpr fun member hmem =>
        (hmembers member (Members.mem_of_mem_ofList hmem)).2

/-- What is left after a value is the end of its text, and an object ends with its brace. -/
theorem suffix_of_readValue (fuel depth : Nat) (text : List Char) (value : Json) (rest : List Char)
    (h : Reader.readValue fuel depth text = .ok (value, rest)) :
    rest <:+ text ∧ ∀ members, value = .object members → '\x7d' :: rest <:+ text := by
  induction depth using Nat.strongRecOn generalizing text value rest with
  | ind depth ih =>
    have hinner {inner : Nat} (hlt : inner < depth) (text : List Char) (value : Json) (rest : List Char)
        (hvalue : Reader.readValue fuel inner text = .ok (value, rest)) : rest <:+ text :=
      (ih inner hlt text value rest hvalue).1
    obtain ⟨-, hobject, hrest⟩ | ⟨inner, items, start, rfl, rfl, hstart, hread⟩ |
      ⟨inner, members, start, rfl, rfl, hstart, hread⟩ := readValue_cases h
    · exact ⟨hrest, fun members hmembers => absurd hmembers (hobject members)⟩
    · have hclose := (suffix_of_readItems (hinner (Nat.lt_succ_self inner)) hread).trans ((List.suffix_cons '[' start).trans hstart)
      exact ⟨(List.suffix_cons ']' rest).trans hclose, by simp⟩
    · have hclose := (suffix_of_readMembers (hinner (Nat.lt_succ_self inner)) hread).trans ((List.suffix_cons '\x7b' start).trans hstart)
      exact ⟨(List.suffix_cons '\x7d' rest).trans hclose, fun _ _ => hclose⟩

end ContactForm.Reader

namespace ContactForm.Json

/-- A document is a value that is read from the start of a text, with blanks after it. -/
theorem readValue_of_parse {text : String} {value : Json} (h : parse text = .ok value) :
    ∃ blanks, Reader.Blanks blanks ∧
      Reader.readValue (text.toList.length + 1) Reader.maxDepth text.toList = .ok (value, blanks) := by
  obtain ⟨⟨found, rest⟩, hread, h⟩ := Reader.bind_eq_ok h
  simp only at h
  split at h
  · next hskip =>
    obtain rfl := Except.ok.inj h
    exact ⟨rest, List.dropWhile_eq_nil_iff.mp hskip, hread⟩
  · cases h

/-- A document that is read has sorted objects and is not too deep. -/
theorem parse_wellFormed {text : String} {value : Json}
    (h : parse text = .ok value) : value.Canonical ∧ value.depth ≤ Reader.maxDepth := by
  obtain ⟨blanks, -, hread⟩ := readValue_of_parse h
  exact Reader.readValue_wellFormed _ _ _ _ _ hread

/-- Where an object is read from a text, a brace is the last of its characters that is not blank. -/
theorem suffix_of_parse_object {text : String} {members : Members} (h : parse text = .ok (.object members)) :
    ∃ blanks, Reader.Blanks blanks ∧ '\x7d' :: blanks <:+ text.toList := by
  obtain ⟨blanks, hblanks, hread⟩ := readValue_of_parse h
  exact ⟨blanks, hblanks, (Reader.suffix_of_readValue _ _ _ _ _ hread).2 members rfl⟩

/-- No object is read from a text that ends with some other character. -/
theorem parse_ne_object {start : String} {c : Char} (hblank : Reader.isBlank c = false) (hbrace : c ≠ '\x7d')
    (members : Members) : parse (start.push c) ≠ .ok (.object members) := by
  intro h
  obtain ⟨blanks, hblanks, before, hsuffix⟩ := suffix_of_parse_object h
  rw [String.toList_push] at hsuffix
  obtain rfl | ⟨others, last, rfl⟩ := List.eq_nil_or_concat blanks
  · have hlast := (List.append_inj' hsuffix rfl).2
    simp only [List.cons.injEq, and_true] at hlast
    exact hbrace hlast.symm
  · rw [List.concat_eq_append, ← List.cons_append, ← List.append_assoc] at hsuffix
    have hlast := (List.append_inj' hsuffix rfl).2
    simp only [List.cons.injEq, and_true] at hlast
    have hmem := hblanks last (by simp)
    rw [hlast, hblank] at hmem
    cases hmem

end ContactForm.Json
