import ContactForm.Loading
import ContactForm.Proofs.LossyText

namespace ContactForm

theorem byteCount_eq_utf8Len (text : List Char) : byteCount text = String.utf8Len text := by
  have hfrom (count : Nat) :
      text.foldl (fun count c => count + c.utf8Size) count = count + String.utf8Len text := by
    induction text generalizing count with
    | nil => rfl
    | cons c text ih =>
      rw [List.foldl_cons, ih, String.utf8Len_cons]
      omega
  rw [byteCount, hfrom, Nat.zero_add]

namespace Path

theorem shownLength_eq (bytes : List UInt8) : shownLength bytes = String.utf8Len (LossyText.decode bytes) :=
  byteCount_eq_utf8Len _

/-- Bytes are not longer than the form that they are shown in. -/
theorem length_le_shownLength (bytes : List UInt8) : bytes.length ≤ shownLength bytes := by
  rw [shownLength_eq]
  exact (LossyText.shows_iff.mpr rfl).length_le

theorem shownLength_encode (text : List Char) :
    shownLength (text.flatMap String.utf8EncodeChar) = (text.flatMap String.utf8EncodeChar).length := by
  rw [shownLength_eq, LossyText.decode_of_shows (LossyText.shows_encode text), LossyText.length_encode]

/-- Bytes that are a text are shown as they are. -/
theorem shownLength_of_valid {bytes : List UInt8} (h : bytes.toByteArray.IsValidUTF8) :
    shownLength bytes = bytes.length := by
  obtain ⟨text, htext⟩ := h
  obtain rfl := List.toByteArray_inj.mp htext
  exact shownLength_encode text

/-- The pieces that are not components are short ones. -/
theorem shownLength_of_not_mem_components {path : Path} {piece : List UInt8} (hmem : piece ∈ path.pieces)
    (h : piece ∉ path.components) : shownLength piece ≤ 1 := by
  have hdropped : piece = [] ∨ piece = dot := by
    by_contra hkept
    rw [not_or] at hkept
    exact h (List.mem_filter.mpr ⟨hmem, by simp [hkept.1, hkept.2]⟩)
  obtain rfl | rfl := hdropped <;> decide

end Path

namespace Loading

variable {path : Path}

theorem any_components_iff :
    (path.components.any fun component => maxComponentLength < Path.shownLength component) = true ↔
      ∃ piece ∈ path.pieces, 255 < Path.shownLength piece := by
  rw [List.any_eq_true]
  constructor
  · rintro ⟨piece, hmem, hlong⟩
    exact ⟨piece, List.mem_of_mem_filter hmem, of_decide_eq_true hlong⟩
  · rintro ⟨piece, hmem, hlong⟩
    refine ⟨piece, ?_, decide_eq_true hlong⟩
    by_contra hdropped
    have hshort := Path.shownLength_of_not_mem_components hmem hdropped
    omega

theorem checkPath_cases (path : Path) :
    (4096 < Path.shownLength path.bytes ∧ checkPath path = .error Limit.pathLength.error) ∨
    (Path.shownLength path.bytes ≤ 4096 ∧ (∃ piece ∈ path.pieces, 255 < Path.shownLength piece) ∧
      checkPath path = .error Limit.componentLength.error) ∨
    (Path.shownLength path.bytes ≤ 4096 ∧ (∀ piece ∈ path.pieces, Path.shownLength piece ≤ 255) ∧
      checkPath path = .ok ()) := by
  by_cases hpath : maxPathLength < Path.shownLength path.bytes
  · exact .inl ⟨hpath, by rw [checkPath, if_pos hpath]⟩
  · right
    rw [checkPath, if_neg hpath]
    have hle : Path.shownLength path.bytes ≤ 4096 := Nat.le_of_not_lt hpath
    by_cases hpiece : ∃ piece ∈ path.pieces, 255 < Path.shownLength piece
    · exact .inl ⟨hle, hpiece, if_pos (any_components_iff.mpr hpiece)⟩
    · refine .inr ⟨hle, fun piece hmem => ?_, if_neg fun hany => hpiece (any_components_iff.mp hany)⟩
      exact Nat.le_of_not_lt fun hlong => hpiece ⟨piece, hmem, hlong⟩

theorem checkPath_eq_ok_iff :
    checkPath path = .ok () ↔
      Path.shownLength path.bytes ≤ 4096 ∧ ∀ piece ∈ path.pieces, Path.shownLength piece ≤ 255 := by
  obtain ⟨hlong, h⟩ | ⟨-, ⟨piece, hmem, hlong⟩, h⟩ | ⟨hpath, hpieces, h⟩ := checkPath_cases path
  · exact iff_of_false (by simp [h]) fun hfits => Nat.not_le.mpr hlong hfits.1
  · exact iff_of_false (by simp [h]) fun hfits => Nat.not_le.mpr hlong (hfits.2 piece hmem)
  · exact iff_of_true h ⟨hpath, hpieces⟩

theorem checkPath_eq_pathLength_iff :
    checkPath path = .error Limit.pathLength.error ↔ 4096 < Path.shownLength path.bytes := by
  have hother : Limit.componentLength.error ≠ Limit.pathLength.error := by decide
  obtain ⟨hlong, h⟩ | ⟨hpath, -, h⟩ | ⟨hpath, -, h⟩ := checkPath_cases path
  · exact iff_of_true h hlong
  · exact iff_of_false (by simp [h, hother]) (Nat.not_lt.mpr hpath)
  · exact iff_of_false (by simp [h]) (Nat.not_lt.mpr hpath)

theorem checkPath_eq_componentLength_iff :
    checkPath path = .error Limit.componentLength.error ↔
      Path.shownLength path.bytes ≤ 4096 ∧ ∃ piece ∈ path.pieces, 255 < Path.shownLength piece := by
  have hother : Limit.pathLength.error ≠ Limit.componentLength.error := by decide
  obtain ⟨hlong, h⟩ | ⟨hpath, hpiece, h⟩ | ⟨-, hpieces, h⟩ := checkPath_cases path
  · exact iff_of_false (by simp [h, hother]) fun hfits => Nat.not_le.mpr hlong hfits.1
  · exact iff_of_true h ⟨hpath, hpiece⟩
  · refine iff_of_false (by simp [h]) ?_
    rintro ⟨-, piece, hmem, hlong⟩
    exact Nat.not_le.mpr hlong (hpieces piece hmem)

/-- A path is accepted if and only if its shown form and those of its pieces, dropped ones included, are within their
    limits; the limit of the whole counts first. What is shown is the text of the bytes with one replacement for each
    malformed run, which is never shorter than the bytes, so that accepted paths are within the limits as bytes. -/
theorem checkPath_limits_lengths (path : Path) :
    (checkPath path = .ok () ↔
      Path.shownLength path.bytes ≤ 4096 ∧ ∀ piece ∈ path.pieces, Path.shownLength piece ≤ 255) ∧
    (checkPath path = .error Limit.pathLength.error ↔ 4096 < Path.shownLength path.bytes) ∧
    (checkPath path = .error Limit.componentLength.error ↔
      Path.shownLength path.bytes ≤ 4096 ∧ ∃ piece ∈ path.pieces, 255 < Path.shownLength piece) ∧
    (checkPath path = .ok () → path.bytes.length ≤ 4096 ∧ ∀ piece ∈ path.pieces, piece.length ≤ 255) ∧
    ∀ bytes : List UInt8,
      (∀ text, LossyText.Shows bytes text ↔ LossyText.decode bytes = text) ∧
      bytes.length ≤ Path.shownLength bytes ∧
      (bytes.toByteArray.IsValidUTF8 → Path.shownLength bytes = bytes.length) := by
  refine ⟨checkPath_eq_ok_iff, checkPath_eq_pathLength_iff, checkPath_eq_componentLength_iff, ?_, ?_⟩
  · intro h
    obtain ⟨hpath, hpieces⟩ := checkPath_eq_ok_iff.mp h
    have hlength := Path.length_le_shownLength path.bytes
    refine ⟨hlength.trans hpath, fun piece hmem => ?_⟩
    exact (Path.length_le_shownLength piece).trans (hpieces piece hmem)
  · intro bytes
    exact ⟨fun _ => LossyText.shows_iff, Path.length_le_shownLength bytes, Path.shownLength_of_valid⟩

/-- A path with a run of bytes that begin no character, then a character that is cut off, one that is written with more
    bytes than it takes and half of a surrogate pair, then pieces that are dropped. -/
def malformedPath (strays : Nat) : Path :=
  ⟨List.replicate strays 0xff ++ [0x2f, 0xe2, 0x82, 0xc0, 0x80, 0xed, 0xa0, 0x80, 0x2f, 0x2f, 0x2e]⟩

theorem checkPath_limits_lengths_of_malformedPath :
    (checkPath (malformedPath 85) = .ok () ∧ (malformedPath 85).bytes.length ≤ 4096 ∧
      ∀ piece ∈ (malformedPath 85).pieces, piece.length ≤ 255) ∧
    checkPath (malformedPath 86) = .error Limit.componentLength.error ∧
    checkPath (malformedPath 1400) = .error Limit.pathLength.error ∧
    Path.shownLength [0xc3, 0xa9, 0xf0, 0x9f, 0x98, 0x80] = 6 := by
  have hfits : Path.shownLength (malformedPath 85).bytes ≤ 4096 ∧
      ∀ piece ∈ (malformedPath 85).pieces, Path.shownLength piece ≤ 255 := by decide +kernel
  have hpiece : Path.shownLength (malformedPath 86).bytes ≤ 4096 ∧
      ∃ piece ∈ (malformedPath 86).pieces, 255 < Path.shownLength piece := by decide +kernel
  have hlong : 4096 < Path.shownLength (malformedPath 1400).bytes := by decide +kernel
  have hvalid : ([0xc3, 0xa9, 0xf0, 0x9f, 0x98, 0x80] : List UInt8).toByteArray.IsValidUTF8 := ⟨['é', '😀'], rfl⟩
  obtain ⟨hok, -, -, hlengths, hbytes⟩ := checkPath_limits_lengths (malformedPath 85)
  have haccepted := hok.mpr hfits
  refine ⟨⟨haccepted, hlengths haccepted⟩, ?_, ?_, (hbytes _).2.2 hvalid⟩
  · exact (checkPath_limits_lengths (malformedPath 86)).2.2.1.mpr hpiece
  · exact (checkPath_limits_lengths (malformedPath 1400)).2.1.mpr hlong

end Loading

end ContactForm
