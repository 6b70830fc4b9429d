import FormEdits.Command.Run
import FormEdits.Proofs.Form.Encoded
import FormEdits.Proofs.Json.Written
import FormEdits.Proofs.Session.Changes

/-! # The two inputs of the command

A form reaches the command as an encoded text among its arguments or as a JSON document. Both are
read as the same fields in the same order, so the runs end in the same way
(`Command.perform_encoded`). In a document a field with one value may have it without a list around
it. -/

namespace FormEdits

namespace Command

variable {a : Arguments} {w : Surroundings} {form₁ form₂ : Submission} {fields : List Field}

theorem form_of_document {ms : List (Text × Value)} {document : Text} (ha : a.form = none)
    (hw : inputText a w = .ok document) (hd : Json.WritesDocument ms document)
    (hn : (Assoc.keys ms).Nodup) :
    form a w = .ok (.value (.mapping (ms.map fun m => (.text m.1, m.2)))) := by
  rw [form, ha]
  show (inputText a w >>= formOfDocument) = _
  rw [hw]
  show formOfDocument document = _
  rw [formOfDocument, Json.read_of_writesDocument hd hn]

/-- Runs make the same edits if their forms have the same fields, where they differ in nothing else
than how these are given. -/
theorem edits_of_fields {f₁ f₂ : Option Text} {input : Text}
    (h₁ : form { a with form := f₁ } { w with standardInput := input } = .ok form₁)
    (h₂ : form { a with form := f₂ } w = .ok form₂) (hf₁ : form₁.fields = .ok fields)
    (hf₂ : form₂.fields = .ok fields) (supply : Supply) :
    edits { a with form := f₁ } { w with standardInput := input } supply =
      edits { a with form := f₂ } w supply := by
  -- the session does not depend on what the form is
  have hsession : session { a with form := f₁ } { w with standardInput := input } =
      session { a with form := f₂ } w := rfl
  rw [edits, edits, h₁, h₂, hsession]
  rcases session { a with form := f₂ } w with e | s
  · rfl
  · show (s.submit form₁ supply).edits = (s.submit form₂ supply).edits
    rw [Session.submit_of_fields hf₁, Session.submit_of_fields hf₂]

/-- The encoding of a form, and a document that is an object with its keys and their values, are
read as the same form, whatever the blanks and escapes of the document are: its fields are the same
even where the document has a value without a list, and a document with lists alone is the same
mapping. A run then has the same edits and ends in the same way for both, whatever stands in the
standard input beside the encoded form. Every form has such a document, which the writer of this
library writes. -/
theorem perform_encoded {ms : List (Text × Value)} {document : Text}
    (hn : (Assoc.keys fields).Nodup) (hv : ∀ f ∈ fields, f.2 ≠ []) (hm : MembersOf ms fields)
    (hd : Json.WritesDocument ms document) (hw : inputText a w = .ok document) :
    (∃ form₁ form₂, form { a with form := some (Encoded.write fields) } w = .ok form₁ ∧
      form { a with form := none } w = .ok form₂ ∧ form₁.fields = .ok fields ∧
      form₂.fields = .ok fields ∧
      ((ms = fields.map fun f => (f.1, .list (f.2.map .text))) → form₂ = form₁)) ∧
    (∀ input supply,
      edits { a with form := some (Encoded.write fields) } { w with standardInput := input } supply =
        edits { a with form := none } w supply ∧
      perform { a with form := some (Encoded.write fields) } { w with standardInput := input }
        supply = perform { a with form := none } w supply) ∧
    Json.WritesDocument (fields.map fun f => (f.1, .list (f.2.map .text)))
      (Json.object 0 (fields.map fun f => (f.1, Json.array 1 (f.2.map Json.quoted)))) := by
  have hencoded : ∀ input, form { a with form := some (Encoded.write fields) }
      { w with standardInput := input } = .ok (.ofFields fields) := fun input => by
    show Except.ok (Submission.ofFields (Encoded.read (Encoded.write fields))) = _
    rw [Encoded.read_write hn hv]
  have hdocument := form_of_document (a := { a with form := none }) rfl hw hd (hm.keys_eq ▸ hn)
  have hfields := Submission.fields_ofFields fields
  refine ⟨⟨_, _, hencoded w.standardInput, hdocument, hfields, hm.fields_eq, ?_⟩,
    fun input supply => ?_, Json.writesDocument_object fun f _ => Json.writesValue_array 1 f.2⟩
  · rintro rfl
    rw [List.map_map]
    rfl
  · have hedits := edits_of_fields (hencoded input) hdocument hfields hm.fields_eq supply
    exact ⟨hedits, by rw [perform, perform, hedits]⟩

/-- A form with delimiters of both notations in its keys and values. -/
def delimiters : List Field := [("= p:ü", ["a&b", ""]), ("$ x", ["1+1=2"])]

/-- A document of that form, with an escape in a key and a value without a list. -/
def delimitersDocument : Text :=
  "\x7b\"= p:\\u00fc\": [\"a&b\", \"\"],\n\"$ x\" : \"1+1=2\" \x7d"

theorem perform_encoded_delimiters : ∃ (a : Arguments) (w : Surroundings),
    a.form = none ∧ inputText a w = .ok delimitersDocument ∧
    ∀ supply,
      perform { a with form := some "%3D+p%3A%C3%BC=a%26b&%3D+p%3A%C3%BC=&%24+x=1%2B1%3D2" } w
        supply = perform a w supply := by
  let a : Arguments := { Arguments.default with subject := some "urn:s" }
  let w : Surroundings := ⟨fun p => .error (.missing p), ⟨none, none, none⟩, delimitersDocument⟩
  let ms : List (Text × Value) := [("= p:ü", .list [.text "a&b", .text ""]), ("$ x", .text "1+1=2")]
  have hms : MembersOf ms delimiters :=
    .cons ⟨rfl, .list ["a&b", ""]⟩ (.cons ⟨rfl, .text "1+1=2"⟩ .nil)
  have hplain : ∀ {t : Text}, t.flatMap Json.escape = t → Json.Quotes t ('"' :: (t ++ ['"'])) :=
    fun {t} h => ⟨t, by have := Json.spellsAll_flatMap_escape t; rwa [h] at this, rfl⟩
  have hnone : Json.IsBlanks [] := nofun
  have hspace : Json.IsBlanks [' '] := by simp [Json.IsBlanks]
  have hline : Json.IsBlanks ['\n'] := by simp [Json.IsBlanks]
  have hkey : Json.Quotes "= p:ü" "\"= p:\\u00fc\"" :=
    ⟨['=', ' ', 'p', ':', '\\', 'u', '0', '0', 'f', 'c'],
      .cons (.plain (by decide) (by decide) (by decide)) <|
        .cons (.plain (by decide) (by decide) (by decide)) <|
        .cons (.plain (by decide) (by decide) (by decide)) <|
        .cons (.plain (by decide) (by decide) (by decide)) <|
        .cons (.number (by decide)) .nil, by decide⟩
  have hlist : Json.WritesValue (.list [.text "a&b", .text ""]) "[\"a&b\", \"\"]" :=
    @Json.WritesValue.list ["a&b", ""] _ (.items (.cons hnone (hplain (by decide)) hnone
      (.last hspace (hplain (by decide)) hnone)))
  have hfirst : Json.WritesMember ("= p:ü", .list [.text "a&b", .text ""])
      "\"= p:\\u00fc\": [\"a&b\", \"\"]" :=
    ⟨_, [], [' '], _, hkey, hnone, hspace, hlist, by decide⟩
  have hsecond : Json.WritesMember ("$ x", .text "1+1=2") "\"$ x\" : \"1+1=2\"" :=
    ⟨_, [' '], [' '], _, hplain (by decide), hspace, hspace, .text (hplain (by decide)), by decide⟩
  have hd : Json.WritesDocument ms delimitersDocument :=
    ⟨[], [], _, hnone, hnone,
      .items (.cons hnone hfirst hnone (.last hline hsecond hspace)), by decide⟩
  have hwrite : Encoded.write delimiters =
      "%3D+p%3A%C3%BC=a%26b&%3D+p%3A%C3%BC=&%24+x=1%2B1%3D2" := by decide +kernel
  have hn : (Assoc.keys delimiters).Nodup := by decide +kernel
  obtain ⟨-, hruns, -⟩ := perform_encoded (a := a) (w := w) hn (by decide +kernel) hms hd rfl
  refine ⟨a, w, rfl, rfl, fun supply => ?_⟩
  have hrun := (hruns w.standardInput supply).2
  rw [hwrite] at hrun
  exact hrun

end Command

end FormEdits
