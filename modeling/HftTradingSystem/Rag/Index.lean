import HftTradingSystem.Rag.Chunk
import Mathlib.Data.List.Dedup

/-!
# Reindexing the knowledge base

`index_documents` builds the chunks of the knowledge files and of the key C++ headers, deletes
every entry of the Chroma collection, then embeds the chunks and adds them as `chunk_0`,
`chunk_1`, and so on. Each call to the collection or to the embedder either does all its work
or raises having changed nothing. A call of `index_documents` that returns leaves exactly the
fresh chunks. One that raises while the chunks are built, or while the old entries are counted,
listed or deleted, leaves the collection as it was; one that raises in `embedder.encode` or
`collection.add` does so after the delete, and leaves the collection empty, so that `query`
answers 503 until a reindex succeeds.
-/

namespace HftTradingSystem

namespace Rag

open Text

/-- An entry of the Chroma collection: its id, document, metadata and embedding. -/
structure Entry where
  id : String
  document : List Char
  source : String
  type : String
  embedding : List ℚ
  deriving DecidableEq, Repr

/-- A markdown file under `knowledge/`: its path from the project root, and what `read_text`
gives, the text or the error it raises. -/
structure MarkdownFile where
  path : String
  content : Except String (List Char)

/-- The sentence transformer: the vector of a text, and the error `encode` raises on this
call, if any. -/
structure Embedder where
  embed : List Char → List ℚ
  failure : Option String

/-- The errors the collection's calls raise on this call of `index_documents`, if any. -/
structure CollectionFailures where
  count : Option String
  get : Option String
  delete : Option String
  add : Option String

/-- `IndexResponse`. -/
structure IndexResponse where
  status : String
  documentsIndexed : ℕ
  chunksCreated : ℕ
  deriving DecidableEq, Repr

/-- A call that raises its failure, if it has one. -/
def raising (failure : Option String) : Except String Unit :=
  match failure with
  | some e => .error e
  | none => .ok ()

/-- The chunks of the markdown files, in glob order; a file that cannot be read raises. -/
def markdownChunks : List MarkdownFile → Except String (List Chunk)
  | [] => .ok []
  | f :: fs => do
    let content ← f.content
    let rest ← markdownChunks fs
    return chunkText content f.path defaultChunkSize ++ rest

/-- `collection.delete(ids=ids)`. -/
def deleteIds (ids : List String) (collection : List Entry) : List Entry :=
  collection.filter fun e => e.id ∉ ids

/-- `collection.add(...)`: Chroma skips an entry whose id it already holds. -/
def addEntries (entries collection : List Entry) : List Entry :=
  collection ++ entries.filter fun e => e.id ∉ collection.map Entry.id

/-- The entries of the chunks: `chunk_i` for the `i`-th, with its text, metadata and vector. -/
def freshEntries (embedder : Embedder) (chunks : List Chunk) : List Entry :=
  chunks.enum.map fun (i, c) =>
    ⟨"chunk_" ++ toString i, c.text, c.source, c.type, embedder.embed c.text⟩

/-- "Clear existing collection": when it holds entries, list their ids and delete them. -/
def clearCollection (failures : CollectionFailures) (collection : List Entry) :
    Except String (List Entry) := do
  raising failures.count
  if 0 < collection.length then
    raising failures.get
    let allIds := collection.map Entry.id
    if allIds.isEmpty then return collection
    else
      raising failures.delete
      return deleteIds allIds collection
  else return collection

/-- "Add chunks to collection": when there are chunks, embed their texts and add them. -/
def addChunks (embedder : Embedder) (failures : CollectionFailures) (chunks : List Chunk)
    (collection : List Entry) : Except String (List Entry) := do
  if chunks.isEmpty then return collection
  else
    raising embedder.failure
    raising failures.add
    return addEntries (freshEntries embedder chunks) collection

/-- `index_documents`, called by the `/index` endpoint: the response or the exception, and
the collection afterwards. The key headers' chunks, which `extract_code_docs` finds by regular
expressions, are given. -/
def indexDocuments (files : List MarkdownFile) (headerChunks : List Chunk) (embedder : Embedder)
    (failures : CollectionFailures) (collection : List Entry) :
    Except String IndexResponse × List Entry :=
  match markdownChunks files with
  | .error e => (.error e, collection)
  | .ok chunks =>
    let allChunks := chunks ++ headerChunks
    match clearCollection failures collection with
    | .error e => (.error e, collection)
    | .ok cleared =>
      match addChunks embedder failures allChunks cleared with
      | .error e => (.error e, cleared)
      | .ok added =>
        (.ok ⟨"success", (allChunks.map Chunk.source).dedup.length, allChunks.length⟩, added)

/-- The check `query` makes first: an empty collection answers 503. -/
def queryPrecheck (collection : List Entry) : Except (ℕ × String) Unit :=
  if collection.length = 0 then .error (503, "Knowledge base not indexed") else .ok ()

/-! ## What a call leaves -/

section Outcome

variable {embedder : Embedder} {failures : CollectionFailures}

theorem raising_eq_error {failure : Option String} {e : String} :
    raising failure = .error e ↔ failure = some e := by
  cases failure <;> simp [raising]

theorem deleteIds_map_id (collection : List Entry) :
    deleteIds (collection.map Entry.id) collection = [] :=
  List.filter_eq_nil_iff.2 fun e he => by simpa using List.mem_map_of_mem Entry.id he

/-- Clearing, when it returns, leaves the collection empty. -/
theorem clearCollection_eq_ok {collection cleared : List Entry}
    (hclear : clearCollection failures collection = .ok cleared) : cleared = [] := by
  obtain ⟨⟨⟩, -, hclear⟩ := bind_eq_ok.1 hclear
  split_ifs at hclear with hpos
  · obtain ⟨⟨⟩, -, hclear⟩ := bind_eq_ok.1 hclear
    dsimp only at hclear
    split_ifs at hclear with hempty
    · cases Except.ok.inj hclear
      simpa using hempty
    · obtain ⟨⟨⟩, -, hclear⟩ := bind_eq_ok.1 hclear
      rw [← Except.ok.inj hclear, deleteIds_map_id]
  · cases Except.ok.inj hclear
    simpa using hpos

/-- Adding to an empty collection, when it returns, leaves exactly the fresh entries. -/
theorem addChunks_nil_eq_ok {chunks : List Chunk} {added : List Entry}
    (hadd : addChunks embedder failures chunks [] = .ok added) :
    added = freshEntries embedder chunks := by
  unfold addChunks at hadd
  split_ifs at hadd with hempty
  · cases Except.ok.inj hadd
    simp [List.isEmpty_iff.1 hempty, freshEntries]
  · obtain ⟨⟨⟩, -, ⟨⟩, -, hadd⟩ := by simpa only [bind_eq_ok] using hadd
    simp [← Except.ok.inj hadd, addEntries]

/-- Adding raises only in `encode` or in `add`. -/
theorem addChunks_eq_error {chunks : List Chunk} {collection : List Entry} {e : String}
    (hadd : addChunks embedder failures chunks collection = .error e) :
    embedder.failure = some e ∨ failures.add = some e := by
  unfold addChunks at hadd
  split_ifs at hadd
  · cases hadd
  · rcases bind_eq_error.1 hadd with hencode | ⟨⟨⟩, -, hadd⟩
    · exact .inl (raising_eq_error.1 hencode)
    · rcases bind_eq_error.1 hadd with hadd | ⟨⟨⟩, -, hadd⟩
      · exact .inr (raising_eq_error.1 hadd)
      · cases hadd

/-- A clear raises the exception of the first of `count`, `get` and `delete` that raises,
`get` and `delete` being called only on a collection that holds entries. -/
theorem clearCollection_eq_error {collection : List Entry} {e : String}
    (hfail : failures.count = some e ∨ failures.count = none ∧ collection ≠ [] ∧
      (failures.get = some e ∨ failures.get = none ∧ failures.delete = some e)) :
    clearCollection failures collection = .error e := by
  unfold clearCollection
  rcases hfail with hcount | ⟨hcount, hne, hget | ⟨hget, hdelete⟩⟩
  · simp [raising, hcount, bind, Except.bind]
  · simp [raising, hcount, hget, bind, Except.bind, List.length_pos.2 hne]
  · simp [raising, hcount, hget, hdelete, bind, Except.bind, List.length_pos.2 hne, hne]

/-- A clear whose calls all return empties the collection. -/
theorem clearCollection_eq_ok_nil {collection : List Entry} (hcount : failures.count = none)
    (hcalls : collection ≠ [] → failures.get = none ∧ failures.delete = none) :
    clearCollection failures collection = .ok [] := by
  unfold clearCollection
  rcases eq_or_ne collection [] with rfl | hne
  · simp [raising, hcount, bind, Except.bind, pure, Except.pure]
  · obtain ⟨hget, hdelete⟩ := hcalls hne
    simp [raising, hcount, hget, hdelete, bind, Except.bind, pure, Except.pure,
      List.length_pos.2 hne, hne, deleteIds_map_id]

/-- Adding chunks raises the exception of `encode`, or else that of `add`. -/
theorem addChunks_eq_error_of {chunks : List Chunk} {collection : List Entry} {e : String}
    (hchunks : chunks ≠ [])
    (hfail : embedder.failure = some e ∨ embedder.failure = none ∧ failures.add = some e) :
    addChunks embedder failures chunks collection = .error e := by
  unfold addChunks
  rcases hfail with hencode | ⟨hencode, hadd⟩
  · simp [raising, hencode, bind, Except.bind, hchunks, List.isEmpty_iff]
  · simp [raising, hencode, hadd, bind, Except.bind, hchunks, List.isEmpty_iff]

/-- A reindex that returns leaves exactly the fresh chunks, `chunk_0` onwards, and nothing
from before. One that raises while reading a knowledge file, or in `count`, `get` or `delete`,
leaves the collection as it was; one that raises in `encode` or `add`, which run after the
delete, leaves it empty. -/
theorem indexDocuments_outcome (files : List MarkdownFile) (headerChunks : List Chunk)
    (collection : List Entry) :
    (∀ r after, indexDocuments files headerChunks embedder failures collection = (.ok r, after) →
      ∃ chunks, markdownChunks files = .ok chunks ∧
        after = freshEntries embedder (chunks ++ headerChunks) ∧
        r = ⟨"success", ((chunks ++ headerChunks).map Chunk.source).dedup.length,
          (chunks ++ headerChunks).length⟩) ∧
    (∀ e, markdownChunks files = .error e →
      indexDocuments files headerChunks embedder failures collection = (.error e, collection)) ∧
    (∀ chunks e, markdownChunks files = .ok chunks →
      (failures.count = some e ∨ failures.count = none ∧ collection ≠ [] ∧
        (failures.get = some e ∨ failures.get = none ∧ failures.delete = some e)) →
      indexDocuments files headerChunks embedder failures collection = (.error e, collection)) ∧
    (∀ chunks e, markdownChunks files = .ok chunks → chunks ++ headerChunks ≠ [] →
      failures.count = none → (collection ≠ [] → failures.get = none ∧ failures.delete = none) →
      (embedder.failure = some e ∨ embedder.failure = none ∧ failures.add = some e) →
      indexDocuments files headerChunks embedder failures collection = (.error e, [])) := by
  refine ⟨fun r after hindex => ?_, fun e hread => by rw [indexDocuments, hread],
    fun chunks e hread hclear => ?_, fun chunks e hread hchunks hcount hcalls hadd => ?_⟩
  · unfold indexDocuments at hindex
    split at hindex
    · cases hindex
    rename_i chunks hchunks
    dsimp only at hindex
    split at hindex
    · cases hindex
    rename_i cleared hcleared
    split at hindex
    · cases hindex
    rename_i added hadded
    obtain ⟨hr, rfl⟩ := Prod.mk.inj hindex
    rw [clearCollection_eq_ok hcleared] at hadded
    exact ⟨chunks, hchunks, addChunks_nil_eq_ok hadded, (Except.ok.inj hr).symm⟩
  · rw [indexDocuments, hread]
    dsimp only
    rw [clearCollection_eq_error hclear]
  · rw [indexDocuments, hread]
    dsimp only
    rw [clearCollection_eq_ok_nil hcount hcalls]
    dsimp only
    rw [addChunks_eq_error_of hchunks hadd]

end Outcome

/-! ## A failed reindex -/

/-- A knowledge base indexed from one guide. -/
def indexedGuide : List Entry :=
  [⟨"chunk_0", "Quote both sides.".toList, "knowledge/guide.md", "documentation", [1, 0]⟩]

/-- The guide, since edited. -/
def guide : MarkdownFile :=
  ⟨"knowledge/guide.md", .ok "# Market making\n\nQuote both sides of the book.\n".toList⟩

/-- An embedder whose `encode` runs out of memory. -/
def exhaustedEmbedder : Embedder := ⟨fun _ => [1, 0], some "out of memory"⟩

/-- A reindex whose `encode` raises leaves the collection empty, not as it was, and `query`
then answers 503. -/
theorem indexDocuments_encode_failure_empties :
    indexDocuments [guide] [] exhaustedEmbedder ⟨none, none, none, none⟩ indexedGuide =
        (.error "out of memory", []) ∧
      queryPrecheck [] = .error (503, "Knowledge base not indexed") :=
  ⟨by decide, rfl⟩

end Rag

end HftTradingSystem
