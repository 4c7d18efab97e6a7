import ContactForm.Backend

namespace ContactForm

theorem fromUTF8?_toUTF8 (text : String) : String.fromUTF8? text.toUTF8 = some text :=
  dif_pos text.isValidUTF8

namespace Loading

theorem parseContent_toUTF8 (text : String) :
    parseContent text.toUTF8 =
      if maxFileSize < text.utf8ByteSize then .error Limit.fileSize.error else parseText text := by
  have hsize : text.toUTF8.size = text.utf8ByteSize := rfl
  rw [parseContent, fromUTF8?_toUTF8, hsize]

/-- Content that is read as a document is the bytes of a text that is. -/
theorem text_of_parseContent {content : ByteArray} {document : Json} (h : parseContent content = .ok document) :
    ∃ text, content = text.toUTF8 ∧ text.utf8ByteSize ≤ maxFileSize ∧ parseText text = .ok document := by
  unfold parseContent at h
  split at h
  · cases h
  · next hsize =>
    split at h
    · cases h
    · next text htext =>
      obtain ⟨hvalid, htext⟩ := Option.dite_none_right_eq_some.mp htext
      obtain rfl := Option.some.inj htext
      exact ⟨String.fromUTF8 content hvalid, rfl, Nat.le_of_not_lt hsize, h⟩

variable {σ : Type} [FileStore σ]

/-- The document in the file that a state holds at a path. -/
def documentAt (store : σ) (path : Path) : Except ConfigError Json :=
  match checkPath path with
  | .error e => .error e
  | .ok () =>
    match FileStore.read store path with
    | .error failure => .error (.io failure.message)
    | .ok content => parseContent content

theorem documentAt_of_read {store : σ} {path : Path} {content : ByteArray} (hpath : checkPath path = .ok ())
    (hread : FileStore.read store path = .ok content) : documentAt store path = parseContent content := by
  rw [documentAt, hpath, hread]

/-- Reading a document leaves the files as they are. -/
theorem readDocument_run (path : Path) (store : σ) :
    (readDocument path : StateM σ _).run store = (documentAt store path, store) := by
  unfold readDocument documentAt
  cases checkPath path with
  | error e => rfl
  | ok =>
    change (match FileStore.read store path with
      | .error failure => pure (.error (.io failure.message))
      | .ok content => pure (parseContent content) : StateM σ _).run store = _
    cases FileStore.read store path <;> rfl

theorem text_of_documentAt {store : σ} {path : Path} {document : Json} (h : documentAt store path = .ok document) :
    ∃ text, FileStore.read store path = .ok text.toUTF8 ∧ parseText text = .ok document := by
  unfold documentAt at h
  split at h
  · cases h
  · split at h
    · cases h
    · next content hread =>
      obtain ⟨text, rfl, -, hparse⟩ := text_of_parseContent h
      exact ⟨text, hread, hparse⟩

end Loading

namespace Config

variable {σ : Type} [FileStore σ]

/-- A path that is given is the one that is loaded, and loading leaves the files as they are. -/
theorem load_run (override : Option (List UInt8)) (path : Path) (store : σ) :
    (load override (some path) : StateM σ _).run store =
      (Loading.reviewDocument (Loading.documentAt store path), store) := by
  have hread := Loading.readDocument_run path store
  change (Loading.reviewDocument ((Loading.readDocument path : StateM σ _).run store).1,
    ((Loading.readDocument path : StateM σ _).run store).2) = _
  rw [hread]

/-- A configuration that is loaded was read from a text. -/
theorem ofText_of_load {override : Option (List UInt8)} {path : Path} {store : σ} {c : Config}
    (h : ((load override (some path) : StateM σ _).run store).1.outcome = .ok c) :
    ∃ text, FileStore.read store path = .ok text.toUTF8 ∧ (ofText text).outcome = .ok c := by
  rw [load_run] at h
  cases hdocument : Loading.documentAt store path with
  | error e =>
    rw [hdocument] at h
    cases h
  | ok document =>
    obtain ⟨text, hread, hparse⟩ := Loading.text_of_documentAt hdocument
    refine ⟨text, hread, ?_⟩
    rw [ofText, hparse, ← hdocument]
    exact h

theorem writeTo_run (folder : Path) (c : Config) (store : σ) :
    (c.writeTo folder : StateM σ _).run store =
      match Loading.checkPath (folder.join Loading.defaultName) with
      | .error e => (.error e, store)
      | .ok () =>
        match FileStore.write store (folder.join Loading.defaultName) c.pretty.toUTF8 with
        | .error failure => (.error (.io failure.message), store)
        | .ok store => (.ok (folder.join Loading.defaultName), store) := by
  unfold writeTo
  generalize folder.join Loading.defaultName = path
  simp only
  cases Loading.checkPath path with
  | error e => rfl
  | ok =>
    simp only [StateT.run, bind, StateT.bind, FileAccess.write]
    cases FileStore.write store path c.pretty.toUTF8 <;> rfl

/-- A write that succeeds keeps the limits of paths. -/
theorem write_of_writeTo {folder target : Path} {c : Config} {store store' : σ}
    (h : (c.writeTo folder : StateM σ _).run store = (.ok target, store')) :
    target = folder.join Loading.defaultName ∧ Loading.checkPath target = .ok () ∧
      FileStore.write store target c.pretty.toUTF8 = .ok store' := by
  rw [writeTo_run] at h
  split at h
  · cases h
  · next hpath =>
    split at h
    · cases h
    · next hwrite =>
      cases h
      exact ⟨rfl, hpath, hwrite⟩

end Config

end ContactForm
