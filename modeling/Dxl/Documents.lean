import Dxl.Lines
import Dxl.Parse
import Dxl.Place.Basic

/-! Documents: the latest parsed version of every source text, by name. -/

namespace Dxl

/-- A source text with its version, its parse and its line layout. -/
structure Document where
  version : Int32
  text : String
  parsed : Parsed
  lines : LineIndex

namespace Document

/-- Parses a text as one version of a document. -/
def ofText (version : Int32) (text : String) : Except Failure Document :=
  match parseText text with
  | .ok parsed => .ok ⟨version, text, parsed, .ofText text⟩
  | .error failure => .error failure

/-- The top of the tree of a document. -/
def root (document : Document) : Place :=
  .root document.parsed.tree 0

end Document

/-- Documents by name, no name more than once. -/
structure Documents where
  entries : List (String × Document)
  distinct : (entries.map Prod.fst).Nodup

/-- What an update gives: the documents after it, the one updated, and whether that was there before. -/
structure Documents.Update where
  documents : Documents
  document : Document
  reused : Bool

/-- A request about the document of one name. -/
inductive Documents.Request where
  /-- To bring it to a version, which has the given text. -/
  | update (name : String) (version : Int32) (text : String)
  | get (name : String)
  | remove (name : String)

/-- What a request gives. -/
inductive Documents.Answer where
  /-- The document at the requested version, and whether that was there before. -/
  | updated (document : Document) (reused : Bool)
  /-- The text could not be parsed at all. -/
  | failed (failure : Failure)
  | found (document : Option Document)
  | removed (document : Option Document)

namespace Documents

/-- No documents. -/
def empty : Documents := ⟨[], List.nodup_nil⟩

/-- The document of the given name. -/
def get? (documents : Documents) (name : String) : Option Document :=
  documents.entries.lookup name

/-- The documents without the one of the given name. -/
def erase (documents : Documents) (name : String) : Documents where
  entries := documents.entries.filter fun (other, _) => other != name
  distinct := documents.distinct.sublist (List.filter_sublist.map Prod.fst)

/-- The documents with one under the given name, whatever was there before. -/
def insert (documents : Documents) (name : String) (document : Document) : Documents where
  entries := (name, document) :: (documents.erase name).entries
  distinct := by
    rw [List.map_cons, List.nodup_cons]
    refine ⟨fun member => ?_, (documents.erase name).distinct⟩
    obtain ⟨entry, kept, same⟩ := List.mem_map.mp member
    simp [erase, same] at kept

/-- The number of documents. -/
def size (documents : Documents) : Nat := documents.entries.length

/-- Whether there are no documents. -/
def isEmpty (documents : Documents) : Bool := documents.entries.isEmpty

/-- Parses a text and keeps it under a name. -/
def replace (documents : Documents) (name : String) (version : Int32) (text : String) :
    Except Failure Update :=
  match Document.ofText version text with
  | .ok document => .ok ⟨documents.insert name document, document, false⟩
  | .error failure => .error failure

/-- Brings a document to a version; a version that is already there is not parsed again. -/
def update (documents : Documents) (name : String) (version : Int32) (text : String) :
    Except Failure Update :=
  match documents.get? name with
  | some document =>
    if document.version == version then .ok ⟨documents, document, true⟩
    else documents.replace name version text
  | none => documents.replace name version text

/-- The documents after an update, and what it gives; one that fails leaves them as they are. -/
def settle (documents : Documents) : Except Failure Update → Documents × Answer
  | .ok done => (done.documents, .updated done.document done.reused)
  | .error failure => (documents, .failed failure)

/-- The documents after a request, and what it gives. -/
def handle (documents : Documents) : Request → Documents × Answer
  | .update name version text => documents.settle (documents.update name version text)
  | .get name => (documents, .found (documents.get? name))
  | .remove name => (documents.erase name, .removed (documents.get? name))

/-- The documents after one request after the other. -/
def after (documents : Documents) (requests : List Request) : Documents :=
  requests.foldl (fun earlier request => (earlier.handle request).1) documents

end Documents

end Dxl
