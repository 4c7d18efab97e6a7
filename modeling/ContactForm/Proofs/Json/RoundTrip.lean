import ContactForm.Proofs.Json.Rereading

namespace ContactForm

open Numeral (Ends)

theorem Layout.blanks_lineBreak (layout : Layout) : Reader.Blanks layout.lineBreak.toList := by
  intro c hc
  cases layout with
  | compact => simp [lineBreak] at hc
  | indented depth =>
    simp only [lineBreak, String.toList_ofList, List.mem_cons, List.mem_replicate] at hc
    obtain rfl | ⟨-, rfl⟩ := hc <;> decide

theorem Layout.colon_eq (layout : Layout) :
    ∃ blanks, Reader.Blanks blanks ∧ layout.colon.toList = ':' :: blanks := by
  cases layout with
  | compact => exact ⟨[], Reader.blanks_nil, rfl⟩
  | indented depth =>
    have hcolon : ": ".toList = [':', ' '] := by decide
    exact ⟨[' '], by simp [Reader.Blanks, Reader.isBlank], hcolon⟩

namespace Json

/-- A written value starts with a character that neither is blank nor closes a container. -/
theorem chars_starts (layout : Layout) (value : Json) :
    ∃ c tail, chars layout value = c :: tail ∧ Reader.Starts c := by
  cases value with
  | null => exact ⟨'n', _, rfl, by decide, by decide, by decide⟩
  | bool b => cases b <;> exact ⟨_, _, rfl, by decide, by decide, by decide⟩
  | string s => exact ⟨'"', _, rfl, by decide, by decide, by decide⟩
  | array items => cases items <;> exact ⟨'[', _, rfl, by decide, by decide, by decide⟩
  | object members => cases members <;> exact ⟨'\x7b', _, rfl, by decide, by decide, by decide⟩
  | number n =>
    cases n with
    | natural n =>
      have hdigits := Numeral.isDigit_toDigits n
      cases hd : Nat.toDigits 10 n with
      | nil => exact absurd hd Nat.toDigits_ne_nil
      | cons c digits =>
        exact ⟨c, digits, hd, Reader.starts_of_isDigit (hdigits c (hd ▸ List.mem_cons_self))⟩
    | negative n => exact ⟨'-', _, rfl, Reader.starts_minus⟩
    | binary x =>
      rw [chars, Numeral.text, Numeral.binary_eq]
      split
      · exact ⟨'-', _, rfl, Reader.starts_minus⟩
      · obtain ⟨c, tail, hlayout, hc⟩ := Numeral.layout_starts x.decimal
        exact ⟨c, tail, hlayout, Reader.starts_of_isDigit hc⟩

theorem startsValue_chars (layout : Layout) (value : Json) (rest : List Char) :
    Reader.StartsValue (chars layout value ++ rest) := by
  obtain ⟨c, tail, hc, hs⟩ := chars_starts layout value
  exact ⟨c, tail ++ rest, by rw [hc, List.cons_append], hs⟩

theorem length_le_charsItems (layout : Layout) (items : List Json) :
    items.length ≤ (charsItems layout items).length := by
  induction items with
  | nil => exact Nat.zero_le _
  | cons item items ih =>
    simp only [charsItems, List.length_cons, List.length_append]
    omega

theorem length_le_charsMembers (layout : Layout) (members : List (String × Json)) :
    members.length ≤ (charsMembers layout members).length := by
  induction members with
  | nil => exact Nat.zero_le _
  | cons member members ih =>
    obtain ⟨key, value⟩ := member
    simp only [charsMembers, List.length_cons, List.length_append]
    omega

end Json

namespace Reader

theorem ends_cons {c : Char} {rest : List Char} (hd : c.isDigit = false) (hp : c ≠ '.')
    (he : c ≠ 'e') (hE : c ≠ 'E') : Ends (c :: rest) := by
  intro d tail heq
  obtain ⟨rfl, -⟩ := List.cons.inj heq
  exact ⟨hd, hp, he, hE⟩

theorem ends_bracket (rest : List Char) : Ends (']' :: rest) :=
  ends_cons (by decide) (by decide) (by decide) (by decide)

theorem ends_brace (rest : List Char) : Ends ('\x7d' :: rest) :=
  ends_cons (by decide) (by decide) (by decide) (by decide)

/-- After a value come blanks and a closing character. -/
theorem ends_blanks {blanks : List Char} (hb : Blanks blanks) {c : Char} {rest : List Char}
    (h : Ends (c :: rest)) : Ends (blanks ++ c :: rest) := by
  cases blanks with
  | nil => exact h
  | cons d blanks =>
    have hd : isBlank d = true := hb d List.mem_cons_self
    simp only [isBlank, Bool.or_eq_true, beq_iff_eq] at hd
    obtain ((rfl | rfl) | rfl) | rfl := hd <;>
      exact ends_cons (by decide) (by decide) (by decide) (by decide)

theorem ends_charsItems (layout : Layout) (items : List Json) {text : List Char} (h : Ends text) :
    Ends (Json.charsItems layout items ++ text) := by
  cases items with
  | nil => exact h
  | cons item items => exact ends_cons (by decide) (by decide) (by decide) (by decide)

theorem ends_charsMembers (layout : Layout) (members : List (String × Json)) {text : List Char}
    (h : Ends text) : Ends (Json.charsMembers layout members ++ text) := by
  cases members with
  | nil => exact h
  | cons member members => exact ends_cons (by decide) (by decide) (by decide) (by decide)

-- The recursion is on the value. `fuel` is one number throughout, large enough for the text of the whole value;
-- the loops over elements and members count down another one, `n`.
open Json in
mutual

/-- Reading a written value gives the value that it reads as, and goes no further. -/
theorem readValue_chars (fuel : Nat) : (value : Json) → ∀ layout depth rest, value.depth ≤ depth →
    (chars layout value).length < fuel → Ends rest →
    (readValue fuel depth (chars layout value ++ rest)).toOption =
      value.reread?.map fun w => (w, rest)
  | .null, layout, depth, rest, _, _, _ => by cases depth <;> rfl
  | .bool true, layout, depth, rest, _, _, _ => by cases depth <;> rfl
  | .bool false, layout, depth, rest, _, _, _ => by cases depth <;> rfl
  | .number n, layout, depth, rest, _, _, hr => by
    rw [chars, readValue_number fuel depth n hr, reread?, Option.map_map]
    rfl
  | .string s, layout, depth, rest, _, _, _ => by
    rw [chars, Quoted.chars_append, readValue_quote, Quoted.read_chars]
    rfl
  | .array _, layout, 0, rest, hdepth, _, _ => by simp [Json.depth] at hdepth
  | .object _, layout, 0, rest, hdepth, _, _ => by simp [Json.depth] at hdepth
  | .array [], layout, depth + 1, rest, _, hfuel, _ => by
    obtain ⟨n, rfl⟩ : ∃ n, fuel = n + 1 := ⟨fuel - 1, by omega⟩
    have hclose := readItems_close n (readValue (n + 1) depth) [] blanks_nil rest
    rw [chars, List.cons_append, readValue_bracket]
    change (Except.map _ (readItems _ (n + 1) [] ([] ++ ']' :: rest))).toOption = _
    rw [hclose]
    rfl
  | .object [], layout, depth + 1, rest, _, hfuel, _ => by
    obtain ⟨n, rfl⟩ : ∃ n, fuel = n + 1 := ⟨fuel - 1, by omega⟩
    have hclose := readMembers_close n (readValue (n + 1) depth) [] blanks_nil rest
    rw [chars, List.cons_append, readValue_brace]
    change (Except.map _ (readMembers _ (n + 1) [] ([] ++ '\x7d' :: rest))).toOption = _
    rw [hclose]
    rfl
  | .array (item :: items), layout, depth + 1, rest, hdepth, hfuel, _ => by
    obtain ⟨n, rfl⟩ : ∃ n, fuel = n + 1 := ⟨fuel - 1, by omega⟩
    simp only [Json.depth, depthItems] at hdepth
    simp only [chars, List.length_cons, List.length_append] at hfuel
    have hlength := length_le_charsItems layout.deeper items
    have hitem := readValue_chars (n + 1) item layout.deeper depth _ (by omega) (by omega)
      (ends_charsItems layout.deeper items (ends_blanks layout.blanks_lineBreak (ends_bracket rest)))
    have hitems (w : Json) := readItems_chars (n + 1) items layout.deeper depth n [w] _ rest (by omega)
      (by omega) (by omega) (List.cons_ne_nil w []) layout.blanks_lineBreak
    simp only [chars, List.cons_append, List.append_assoc, List.nil_append]
    rw [readValue_bracket, Except.toOption_map,
      readItems_first n _ _ layout.deeper.blanks_lineBreak (startsValue_chars _ item _),
      Except.toOption_bind, hitem, reread?, rereadItems?]
    cases item.reread? with
    | none => rfl
    | some w =>
      simp only [Option.map_some, Option.bind_some, hitems]
      cases rereadItems? items <;> rfl
  | .object ((key, value) :: members), layout, depth + 1, rest, hdepth, hfuel, _ => by
    obtain ⟨n, rfl⟩ : ∃ n, fuel = n + 1 := ⟨fuel - 1, by omega⟩
    obtain ⟨blanks, hblanks, hcolon⟩ := layout.deeper.colon_eq
    simp only [Json.depth, depthMembers] at hdepth
    simp only [chars, List.length_cons, List.length_append] at hfuel
    have hlength := length_le_charsMembers layout.deeper members
    have hvalue := readValue_chars (n + 1) value layout.deeper depth _ (by omega) (by omega)
      (ends_charsMembers layout.deeper members (ends_blanks layout.blanks_lineBreak (ends_brace rest)))
    have hmembers (w : Json) := readMembers_chars (n + 1) members layout.deeper depth n [(key, w)] _
      rest (by omega) (by omega) (by omega) (List.cons_ne_nil _ []) layout.blanks_lineBreak
    simp only [chars, hcolon, List.cons_append, List.append_assoc, List.nil_append]
    rw [readValue_brace, Except.toOption_map,
      readMembers_first n _ _ layout.deeper.blanks_lineBreak key, readValue_skipBlank _ _ hblanks,
      Except.toOption_bind, hvalue, reread?, rereadMembers?]
    cases value.reread? with
    | none => rfl
    | some w =>
      simp only [Option.map_some, Option.bind_some, hmembers]
      cases rereadMembers? members <;> rfl

theorem readItems_chars (fuel : Nat) : (items : List Json) → ∀ layout depth n done blanks rest,
    depthItems items ≤ depth → (charsItems layout items).length < fuel → items.length < n →
    done ≠ [] → Blanks blanks →
    (readItems (readValue fuel depth) n done
        (charsItems layout items ++ (blanks ++ ']' :: rest))).toOption =
      (rereadItems? items).map fun ws => (done.reverse ++ ws, rest)
  | [], layout, depth, n, done, blanks, rest, _, _, hn, _, hb => by
    obtain ⟨n, rfl⟩ : ∃ k, n = k + 1 := ⟨n - 1, by omega⟩
    rw [charsItems, List.nil_append, readItems_close n _ done hb]
    simp [rereadItems?, Except.toOption]
  | item :: items, layout, depth, n, done, blanks, rest, hdepth, hfuel, hn, hdone, hb => by
    obtain ⟨n, rfl⟩ : ∃ k, n = k + 1 := ⟨n - 1, by omega⟩
    simp only [depthItems] at hdepth
    simp only [charsItems, List.length_cons, List.length_append] at hfuel hn
    have hitem := readValue_chars fuel item layout depth _ (by omega) (by omega)
      (ends_charsItems layout items (ends_blanks hb (ends_bracket rest)))
    have hitems (w : Json) := readItems_chars fuel items layout depth n (w :: done) blanks rest
      (by omega) (by omega) (by omega) (List.cons_ne_nil w done) hb
    simp only [charsItems, List.cons_append, List.append_assoc]
    rw [readItems_next n _ _ hdone layout.blanks_lineBreak (startsValue_chars _ item _),
      Except.toOption_bind, hitem, rereadItems?]
    cases item.reread? with
    | none => rfl
    | some w =>
      simp only [Option.map_some, Option.bind_some, hitems]
      cases rereadItems? items <;> simp

theorem readMembers_chars (fuel : Nat) : (members : List (String × Json)) →
    ∀ layout depth n done blanks rest,
    depthMembers members ≤ depth → (charsMembers layout members).length < fuel →
    members.length < n → done ≠ [] → Blanks blanks →
    (readMembers (readValue fuel depth) n done
        (charsMembers layout members ++ (blanks ++ '\x7d' :: rest))).toOption =
      (rereadMembers? members).map fun ws => (done.reverse ++ ws, rest)
  | [], layout, depth, n, done, blanks, rest, _, _, hn, _, hb => by
    obtain ⟨n, rfl⟩ : ∃ k, n = k + 1 := ⟨n - 1, by omega⟩
    rw [charsMembers, List.nil_append, readMembers_close n _ done hb]
    simp [rereadMembers?, Except.toOption]
  | (key, value) :: members, layout, depth, n, done, blanks, rest, hdepth, hfuel, hn, hdone, hb => by
    obtain ⟨n, rfl⟩ : ∃ k, n = k + 1 := ⟨n - 1, by omega⟩
    obtain ⟨gap, hgap, hcolon⟩ := layout.colon_eq
    simp only [depthMembers] at hdepth
    simp only [charsMembers, List.length_cons, List.length_append] at hfuel hn
    have hvalue := readValue_chars fuel value layout depth _ (by omega) (by omega)
      (ends_charsMembers layout members (ends_blanks hb (ends_brace rest)))
    have hmembers (w : Json) := readMembers_chars fuel members layout depth n ((key, w) :: done)
      blanks rest (by omega) (by omega) (by omega) (List.cons_ne_nil _ done) hb
    simp only [charsMembers, hcolon, List.cons_append, List.append_assoc]
    rw [readMembers_next n _ _ hdone layout.blanks_lineBreak key, readValue_skipBlank _ _ hgap,
      Except.toOption_bind, hvalue, rereadMembers?]
    cases value.reread? with
    | none => rfl
    | some w =>
      simp only [Option.map_some, Option.bind_some, hmembers]
      cases rereadMembers? members <;> simp

end

end Reader

/-- Reading the text of a value that is not too deep gives what the value reads as, in any layout. -/
theorem Json.parse_write (layout : Layout) {value : Json} (h : value.depth ≤ Reader.maxDepth) :
    (parse (value.write layout "")).toOption = value.reread? := by
  have hchars : (value.write layout "").toList = chars layout value := by simp [toList_write]
  have hends : Ends [] := fun c rest heq => nomatch heq
  have hread := Reader.readValue_chars ((value.write layout "").toList.length + 1) value layout
    Reader.maxDepth [] h (by rw [hchars]; exact Nat.lt_succ_self _) hends
  rw [List.append_nil, ← hchars] at hread
  rw [parse]
  change (Except.bind (Reader.readValue _ _ (value.write layout "").toList) _).toOption = _
  rw [Except.toOption_bind, hread]
  cases value.reread? <;> rfl

theorem Json.parse_pretty {value : Json} (h : value.depth ≤ Reader.maxDepth) :
    (parse value.pretty).toOption = value.reread? :=
  parse_write (.indented 0) h

theorem Json.parse_compact {value : Json} (h : value.depth ≤ Reader.maxDepth) :
    (parse value.compact).toOption = value.reread? :=
  parse_write .compact h

end ContactForm
