import Dxl.Documents
import Mathlib.Data.Finset.Card
import Mathlib.Data.List.Induction
import Mathlib.Logic.Function.Basic

/-! Documents over many requests: they always are what a map from names to documents would be. -/

namespace Dxl

namespace Documents

/-- No documents means none under any name. -/
@[simp] theorem get?_empty (name : String) : empty.get? name = none := rfl

/-- Entries without those of one name say of every other name what they said before. -/
theorem lookup_filter (entries : List (String × Document)) (name other : String) :
    (entries.filter fun (key, _) => key != name).lookup other
      = if other = name then none else entries.lookup other := by
  induction entries with
  | nil => simp
  | cons entry entries ih =>
    obtain ⟨key, document⟩ := entry
    rw [List.filter_cons, List.lookup_cons]
    -- The first entry is dropped, or the one asked for, or neither.
    by_cases dropped : key = name
    · subst dropped
      by_cases asked : other = key
      · simpa [asked] using ih
      · simpa [asked, beq_false_of_ne asked] using ih
    · by_cases asked : other = key
      · simp [asked, dropped]
      · simpa [asked, dropped, List.lookup_cons, beq_false_of_ne asked] using ih

/-- Erasing a name forgets its document and no other. -/
theorem get?_erase (documents : Documents) (name other : String) :
    (documents.erase name).get? other = if other = name then none else documents.get? other :=
  lookup_filter documents.entries name other

/-- Inserting under a name changes the document of that name and no other. -/
theorem get?_insert (documents : Documents) (name other : String) (document : Document) :
    (documents.insert name document).get? other
      = if other = name then some document else documents.get? other := by
  by_cases same : other = name
  · simp [get?, insert, same]
  · -- Behind the new entry there are the ones without its name.
    have erased := documents.get?_erase name other
    rw [if_neg same] at erased ⊢
    rw [← erased]
    simp [get?, insert, List.lookup_cons, beq_false_of_ne same]

/-- There are no documents just if there is none under any name. -/
theorem isEmpty_iff (documents : Documents) :
    documents.isEmpty = true ↔ ∀ name, documents.get? name = none := by
  unfold isEmpty get?
  cases documents.entries with
  | nil => simp
  | cons entry entries =>
    -- The name of the first entry has a document.
    simp only [List.isEmpty_cons, Bool.false_eq_true, false_iff]
    intro absent
    simpa using absent entry.1

end Documents

/-- A document with the number of the request that brought it in. -/
structure Filed where
  since : Nat
  document : Document

/-- Documents by their names, as a map. -/
abbrev Catalog := String → Option Filed

/-- What a request with the given number gets if it asks to update a document and this one is there after it: the document was there before if an earlier request brought it in. -/
def Filed.shown (filed : Filed) (now : Nat) : Documents.Answer :=
  .updated filed.document (decide (filed.since < now))

namespace Catalog

/-- The catalogue after a text is filed under a name, and what that gives; a text that cannot be parsed leaves it as it is. -/
def file (catalog : Catalog) (now : Nat) (name : String) (version : Int32) (text : String) :
    Catalog × Documents.Answer :=
  match Document.ofText version text with
  | .ok document =>
    (Function.update catalog name (some ⟨now, document⟩), (Filed.mk now document).shown now)
  | .error failure => (catalog, .failed failure)

/-- The catalogue after the request of the given number, and what that gives. -/
def handle (catalog : Catalog) (now : Nat) : Documents.Request → Catalog × Documents.Answer
  | .update name version text =>
    match catalog name with
    | some filed =>
      -- The version that is there stays, whatever its text is said to be.
      if filed.document.version = version then (catalog, filed.shown now)
      else catalog.file now name version text
    | none => catalog.file now name version text
  | .get name => (catalog, .found ((catalog name).map Filed.document))
  | .remove name =>
    (Function.update catalog name none, .removed ((catalog name).map Filed.document))

/-- The catalogue after requests on an empty one, numbered from zero. -/
def after (requests : List Documents.Request) : Catalog :=
  requests.zipIdx.foldl (fun earlier (request, now) => (earlier.handle now request).1) fun _ => none

/-- The last request acts on what the ones before it left. -/
theorem after_concat (requests : List Documents.Request) (request : Documents.Request) :
    after (requests ++ [request]) = ((after requests).handle requests.length request).1 := by
  simp [after, List.zipIdx_append]

end Catalog

/-- The last request acts on what the ones before it left. -/
theorem Documents.after_concat (documents : Documents) (requests : List Documents.Request)
    (request : Documents.Request) :
    documents.after (requests ++ [request]) = ((documents.after requests).handle request).1 := by
  simp [after]

/-- A document is what its own text parses to. -/
def Document.Faithful (document : Document) : Prop :=
  parse (tokenize document.text) = .ok document.parsed ∧ document.lines = .ofText document.text

/-- A document that is made of a text is what that text parses to. -/
theorem Document.faithful_ofText {version : Int32} {text : String} {document : Document}
    (made : Document.ofText version text = .ok document) : document.Faithful := by
  unfold Document.ofText at made
  split at made
  · rename_i parsed parses
    cases made
    exact ⟨parses, rfl⟩
  · cases made

/-- The documents are those of a catalogue that requests before the given number have filled. -/
structure Catalog.Describes (catalog : Catalog) (now : Nat) (documents : Documents) : Prop where
  get? : ∀ name, documents.get? name = (catalog name).map Filed.document
  sound : ∀ name, ∀ filed ∈ catalog name, filed.since < now ∧ filed.document.Faithful

namespace Catalog.Describes

variable {catalog : Catalog} {now : Nat} {documents : Documents}

/-- An empty catalogue describes that there are no documents. -/
theorem empty : Describes (fun _ => none) 0 Documents.empty where
  get? _ := rfl
  sound _ _ member := nomatch member

/-- A request that changes nothing leaves the description as it is. -/
theorem unchanged (describes : catalog.Describes now documents) :
    catalog.Describes (now + 1) documents where
  get? := describes.get?
  sound name filed member :=
    (describes.sound name filed member).imp_left Nat.lt_succ_of_lt

/-- A request that changes the document of one name is described by a change of that name. -/
theorem changed (describes : catalog.Describes now documents) (name : String)
    {entry : Option Filed} {later : Documents}
    (get? : ∀ other, later.get? other
      = if other = name then entry.map Filed.document else documents.get? other)
    (sound : ∀ filed ∈ entry, filed.since < now + 1 ∧ filed.document.Faithful) :
    Describes (Function.update catalog name entry) (now + 1) later where
  get? other := by
    rw [get?, Function.update_apply, describes.get?]
    split <;> rfl
  sound other filed member := by
    -- What is filed under the name is new, and under any other it was there before.
    rw [Function.update_apply] at member
    split at member
    · exact sound filed member
    · exact describes.unchanged.sound other filed member

/-- A text is parsed and kept as it is filed in the catalogue. -/
theorem file (describes : catalog.Describes now documents) (name : String) (version : Int32)
    (text : String) :
    (documents.settle (documents.replace name version text)).2
        = (catalog.file now name version text).2
      ∧ (catalog.file now name version text).1.Describes (now + 1)
        (documents.settle (documents.replace name version text)).1 := by
  unfold Documents.replace Catalog.file
  cases made : Document.ofText version text with
  | error failure => exact ⟨rfl, describes.unchanged⟩
  | ok document =>
    constructor
    · -- No earlier request brought this document in.
      have fresh : decide (now < now) = false := decide_eq_false (Nat.lt_irrefl now)
      simp only [Documents.settle, Filed.shown, fresh]
    · refine describes.changed name (documents.get?_insert name · document) ?_
      rintro filed ⟨⟩
      exact ⟨Nat.lt_succ_self now, Document.faithful_ofText made⟩

/-- The documents answer a request as the catalogue does, which describes them after it as well. -/
theorem handle (describes : catalog.Describes now documents) (request : Documents.Request) :
    (documents.handle request).2 = (catalog.handle now request).2
      ∧ (catalog.handle now request).1.Describes (now + 1) (documents.handle request).1 := by
  cases request with
  | get name =>
    exact ⟨congrArg Documents.Answer.found (describes.get? name), describes.unchanged⟩
  | remove name =>
    refine ⟨congrArg Documents.Answer.removed (describes.get? name), ?_⟩
    exact describes.changed name (documents.get?_erase name) nofun
  | update name version text =>
    simp only [Documents.handle, Documents.update, Catalog.handle, describes.get? name]
    cases stored : catalog name with
    | none => exact describes.file name version text
    | some filed =>
      simp only [Option.map_some, beq_iff_eq]
      -- The version that is there is either the requested one or not.
      split
      · have earlier := (describes.sound name filed stored).1
        refine ⟨?_, describes.unchanged⟩
        simp only [Documents.settle, Filed.shown, decide_eq_true earlier]
      · exact describes.file name version text

/-- Requests on no documents are described by the same requests on an empty catalogue. -/
theorem after (requests : List Documents.Request) :
    (Catalog.after requests).Describes requests.length (Documents.empty.after requests) := by
  -- The requests are dealt with from the first to the last, so the induction takes the last one off.
  induction requests using List.reverseRecOn with
  | nil => exact empty
  | append_singleton requests request ih =>
    rw [Catalog.after_concat, Documents.after_concat, List.length_append, List.length_singleton]
    exact (ih.handle request).2

end Catalog.Describes

end Dxl
