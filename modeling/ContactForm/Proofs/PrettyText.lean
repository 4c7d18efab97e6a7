import ContactForm.Proofs.FixedPoint
import ContactForm.Proofs.Image

namespace ContactForm

/-- An integer of 64 bits, which is written without a point and an exponent. -/
def Number.IsInteger : Number → Prop
  | .binary _ => False
  | _ => True

theorem Number.IsInteger.reread? {n : Number} (h : n.IsInteger) : n.reread? = some n := by
  cases n with
  | binary x => exact absurd h id
  | _ => rfl

namespace Config

/-- All numbers in the hints of questions are integers. -/
def Integral (c : Config) : Prop :=
  ∀ q ∈ c.questions, ∀ n ∈ q.numbers, n.IsInteger

theorem Integral.stable {c : Config} (h : c.Integral) : c.Stable :=
  fun q hq n hn => (h q hq n hn).reread?

/-- A text is read as the document that it holds is checked. -/
theorem ofText_of_parse {text : String} {document : Json} {warnings : List Warning} {c : Config}
    (hparse : Json.parse text = .ok document) (hcheck : check document = ⟨warnings, .ok c⟩) :
    ofText text = ⟨warnings, .ok c⟩ := by
  rw [ofText, Loading.parseText, hparse, Except.mapError, Loading.reviewDocument,
    Review.lift_ok_bind, hcheck]
  rfl

theorem parse_pretty_of_reread {c d : Config} (hdepth : (c.encode Json.object).depth ≤ Reader.maxDepth)
    (h : c.reread? = some d) : Json.parse c.pretty = .ok d.toJson := by
  rw [← Except.toOption_eq_some_iff, pretty, Json.parse_pretty hdepth, reread?_encode, h]
  rfl

/-- The text of a configuration is read with the numbers in its hints as they are read again. -/
theorem ofText_pretty_of_reread {c d : Config} (hlawful : c.Lawful)
    (hdepth : (c.encode Json.object).depth ≤ Reader.maxDepth) (h : c.reread? = some d) :
    ofText c.pretty = ⟨nameWarnings (Locator.root.key "questions") (d.questions.map (·.name)), .ok d⟩ :=
  ofText_of_parse (parse_pretty_of_reread hdepth h) (check_toJson_eq (lawful_reread? hlawful h))

/-- The text of a configuration with integers in its hints, which has no more containers around each other than may be
    read, is read as its JSON value, and as the configuration itself, with no warning of an unknown field. The hints
    are sorted by key, as those of any object that was read or built. -/
theorem parse_pretty_of_integral {c : Config} (hlawful : c.Lawful) (hcanonical : c.Canonical)
    (hintegral : c.Integral) (hdepth : (c.encode Json.object).depth ≤ Reader.maxDepth) :
    Json.parse c.pretty = .ok c.toJson ∧
    ofText c.pretty =
      ⟨nameWarnings (Locator.root.key "questions") (c.questions.map (·.name)), .ok c⟩ ∧
    ∀ place, .unknownField place ∉ (ofText c.pretty).warnings := by
  have hself : c.reread? = some c := (reread?_eq_self_iff hcanonical).mpr hintegral.stable
  have hread := ofText_pretty_of_reread hlawful hdepth hself
  refine ⟨parse_pretty_of_reread hdepth hself, hread, fun place => ?_⟩
  rw [hread]
  exact unknownField_not_mem_nameWarnings _ place _

/-- Texts and keys with characters that are escaped and beyond them, keys that look alike, and the greatest and the
    least integer. -/
def escapedConfig : Config where
  email := "\"a\\b\"@example"
  title := "line\nbreak\ttab\x00\x1f\x7f"
  subject := "𝒳 😀 \u2028"
  questions := [
    { label := "\\u0041", name := "/", type := "text", required := true, choices := none
      custom := some [
        ("A", .number (.natural ⟨18446744073709551615, by decide⟩)),
        ("\\u0041", .array [.number (.negative ⟨9223372036854775807, by decide⟩), .array [], .object []]),
        ("a", .object [("", .null), ("\"", .bool false)])] }]
  backendUrl := some ""
  ignoreFileUpload := none
  instructions := none

theorem parse_pretty_of_escaped :
    escapedConfig.Lawful ∧ escapedConfig.Canonical ∧ escapedConfig.Integral ∧
    (escapedConfig.encode Json.object).depth = 6 ∧
    Json.parse escapedConfig.pretty = .ok escapedConfig.toJson ∧
    ofText escapedConfig.pretty = ⟨[], .ok escapedConfig⟩ := by
  have hlawful : escapedConfig.Lawful := by
    simp [Lawful, escapedConfig, Question.Lawful, Question.selectboxType]
  have hcanonical : escapedConfig.Canonical := by
    simp only [Canonical, escapedConfig, List.forall_mem_singleton, Question.Canonical, Option.some.injEq,
      forall_eq', Json.Canonical, Json.CanonicalMembers, Json.CanonicalItems, Members.Ascending, and_true,
      true_and]
    decide
  have hintegral : escapedConfig.Integral := by
    simp [Integral, escapedConfig, Question.numbers, Json.numbers, Json.numbersMembers, Json.numbersItems,
      Number.IsInteger]
  have hdepth : (escapedConfig.encode Json.object).depth = 6 := by decide
  obtain ⟨hparse, hread, -⟩ :=
    parse_pretty_of_integral hlawful hcanonical hintegral (hdepth.trans_le (by decide))
  exact ⟨hlawful, hcanonical, hintegral, hdepth, hparse, hread⟩

end Config

end ContactForm
