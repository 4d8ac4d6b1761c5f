import HftTradingSystem.Rag.Index
import HftTradingSystem.Rag.CodeDocs

/-!
# The RAG service

The FastAPI app keeps the sentence transformer and the Chroma collection in globals. Its
`startup` hook opens the persistent collection with `init_components`, and indexes the
knowledge base only when the collection is empty; `/health`, `/query` and `/stats` then read
the collection, and `/index` rebuilds it. A request meets the disk and the libraries through
what it is given: the knowledge files and key headers, the embedder, and the errors the
collection's calls raise on it.

Only `/index` changes the service (`serveAll_snd_eq_filter`). From a successful startup the
collection stays open and holds exactly the fresh entries of the last reindex that returned,
or nothing when a later one raised past its delete, or, until a reindex returns, what the disk
held (`startup_serveAll_holds`); between a reindex that succeeds and the next one, every reply
reads the chunks that reindex built (`serveAll_answersFrom_after_index`).
-/

namespace HftTradingSystem

namespace Rag

open Text

/-- `EMBEDDING_MODEL`. -/
def embeddingModel : String := "all-MiniLM-L6-v2"

/-- `COLLECTION_NAME`. -/
def collectionName : String := "hft_knowledge"

/-- The globals between requests: the collection, `None` until `init_components` has run. -/
structure Service where
  collection : Option (List Entry)
  deriving DecidableEq, Repr

/-- `QueryRequest`, with its defaults. -/
structure QueryRequest where
  query : String
  regime : Option String := none
  symbol : Option String := none
  nResults : ℤ := 5
  deriving DecidableEq, Repr

/-- `QueryResponse`. -/
structure QueryResponse where
  context : List Char
  sources : List String
  nChunks : ℕ
  deriving DecidableEq, Repr

/-- The body of `/health`. -/
structure Health where
  status : String
  collectionSize : ℕ
  model : String
  deriving DecidableEq, Repr

/-- The body of `/stats`, without the knowledge directory and the clock time it reports. -/
structure Stats where
  collectionName : String
  totalChunks : ℕ
  embeddingModel : String
  deriving DecidableEq, Repr

/-- What an endpoint answers: its body, an `HTTPException`, or an exception, which FastAPI
answers with 500. -/
inductive Reply
  | health (body : Health)
  | query (body : QueryResponse)
  | index (body : IndexResponse)
  | stats (body : Stats)
  | httpError (statusCode : ℕ) (detail : String)
  | raised (error : String)
  deriving DecidableEq, Repr

/-- The reply of an endpoint whose work gives `result`: its body, or the exception raised. -/
def Reply.of {α : Type} (body : α → Reply) : Except String α → Reply
  | .ok b => body b
  | .error e => .raised e

/-- What `index_documents` reads on one call: the markdown files, what `read_text` gives for
each key header (`none` when it does not exist), the characters `re`'s `\w` matches, the
embedder, and the errors of the collection's calls. -/
structure Reindex where
  files : List MarkdownFile
  read : String → Option (List Char)
  word : WordClass
  embedder : Embedder
  failures : CollectionFailures

/-- `list(set(xs))` on strings: the distinct elements of `xs`, in the order the set iterates
them, which depends on the interpreter's hash seed. -/
structure SetOrder where
  toList : List String → List String
  perm_dedup : ∀ xs, List.Perm (toList xs) xs.dedup

/-- The distinct elements in the order `List.dedup` keeps them: one order a set may give. -/
def SetOrder.ofDedup : SetOrder := ⟨List.dedup, fun _ => .refl _⟩

/-- A request to one of the endpoints. `count` is the error `collection.count()` raises on it,
if any; a query's `search` is `collection.query`: the entries Chroma finds for a vector and
`n_results`, or the error it raises; and `order` is how `list(set(...))` orders its sources. -/
inductive Endpoint
  | health (count : Option String)
  | query (request : QueryRequest) (count : Option String) (embedder : Embedder)
      (search : List ℚ → ℤ → List Entry → Except String (List Entry)) (order : SetOrder)
  | index (reindex : Reindex)
  | stats (count : Option String)

/-- `/index`, the one endpoint that writes. -/
def Endpoint.isIndex : Endpoint → Bool
  | .index _ => true
  | _ => false

/-! ## The endpoints -/

/-- `collection.count() if collection else 0`. -/
def collectionSize (collection : Option (List Entry)) (count : Option String) :
    Except String ℕ :=
  match collection with
  | some entries => do
    raising count
    return entries.length
  | none => .ok 0

/-- `/health`. -/
def health (collection : Option (List Entry)) (count : Option String) : Reply :=
  Reply.of (fun size => .health ⟨"healthy", size, embeddingModel⟩)
    (collectionSize collection count)

/-- `/stats`. -/
def stats (collection : Option (List Entry)) (count : Option String) : Reply :=
  Reply.of (fun size => .stats ⟨collectionName, size, embeddingModel⟩)
    (collectionSize collection count)

/-- `query_text += f"{label}{value}"` when the optional field is truthy: set and not empty. -/
def appendField (text label : String) : Option String → String
  | some value => if value.isEmpty then text else text ++ label ++ value
  | none => text

/-- The text `query` embeds: the question, then the regime and the symbol when given. -/
def queryText (request : QueryRequest) : String :=
  appendField (appendField request.query " market regime: " request.regime) " symbol: "
    request.symbol

/-- The separator `query` joins the documents found with. -/
def contextSeparator : List Char := "\n\n---\n\n".toList

/-- The search of `query` after its 503 check: embed the query text, search the collection,
and join the documents found; the sources are `list(set(...))` of theirs. -/
def searchContext (entries : List Entry) (request : QueryRequest) (embedder : Embedder)
    (search : List ℚ → ℤ → List Entry → Except String (List Entry)) (order : SetOrder) :
    Except String QueryResponse := do
  raising embedder.failure
  let found ← search (embedder.embed (queryText request).toList) request.nResults entries
  return ⟨contextSeparator.intercalate (found.map Entry.document),
    order.toList (found.map Entry.source), found.length⟩

/-- `/query`: 503 when the collection is missing or empty, else the context found. -/
def query (collection : Option (List Entry)) (count : Option String) (request : QueryRequest)
    (embedder : Embedder) (search : List ℚ → ℤ → List Entry → Except String (List Entry))
    (order : SetOrder) : Reply :=
  match collection with
  | none => .httpError 503 "Knowledge base not indexed"
  | some entries =>
    match raising count with
    | .error e => .raised e
    | .ok () =>
      match queryPrecheck entries with
      | .error (code, detail) => .httpError code detail
      | .ok () => Reply.of .query (searchContext entries request embedder search order)

/-- `index_documents` on the global collection, as `/index` calls it; with no collection open
it raises at `collection.count()`, once the chunks are built. -/
def reindex (collection : Option (List Entry)) (r : Reindex) :
    Except String IndexResponse × Option (List Entry) :=
  match collection with
  | some entries =>
    let result := indexDocuments r.files (headerChunks r.word r.read) r.embedder r.failures entries
    (result.1, some result.2)
  | none =>
    (do
      let _ ← markdownChunks r.files
      .error "\x27NoneType\x27 object has no attribute \x27count\x27", none)

/-- One request: the reply, and the service after it. -/
def serve (s : Service) : Endpoint → Reply × Service
  | .health count => (health s.collection count, s)
  | .query request count embedder search order =>
    (query s.collection count request embedder search order, s)
  | .index r => (Reply.of .index (reindex s.collection r).1, ⟨(reindex s.collection r).2⟩)
  | .stats count => (stats s.collection count, s)

/-- Requests served one after another: the replies, and the service at the end. -/
def serveAll (s : Service) : List Endpoint → List Reply × Service
  | [] => ([], s)
  | e :: es => ((serve s e).1 :: (serveAll (serve s e).2 es).1, (serveAll (serve s e).2 es).2)

/-- `startup`: open the collection, and index the knowledge base when it is empty. `opened` is
the collection `init_components` opens, with what the disk holds, or the error it or the count
after it raises; an exception stops the app before it serves. -/
def startup (opened : Except String (List Entry)) (r : Reindex) : Except String Service := do
  let entries ← opened
  if entries.length = 0 then
    let result := indexDocuments r.files (headerChunks r.word r.read) r.embedder r.failures entries
    let _ ← result.1
    return ⟨some result.2⟩
  else return ⟨some entries⟩

/-- An endpoint that only reads the collection: any but `/index`, with a search that finds
entries of the collection it searches. -/
def Endpoint.Reads : Endpoint → Prop
  | .query _ _ _ search _ => ∀ v n entries found, search v n entries = .ok found → found ⊆ entries
  | .index _ => False
  | _ => True

/-- A reply read from a collection that holds the entries of `chunks` and nothing else:
`/health` and `/stats` count the chunks, `/query` answers from some of them, with their
distinct sources in some order, and 503 comes only when there are none. -/
def AnswersFrom (chunks : List Chunk) : Reply → Prop
  | .health body => body.collectionSize = chunks.length
  | .stats body => body.totalChunks = chunks.length
  | .query body => ∃ found : List Chunk, found ⊆ chunks ∧
      body.context = contextSeparator.intercalate (found.map Chunk.text) ∧
      List.Perm body.sources (found.map Chunk.source).dedup ∧ body.nChunks = found.length
  | .httpError _ _ => chunks = []
  | .index _ => False
  | .raised _ => True

section Frame

variable {s : Service}

theorem serve_of_isIndex_eq_false {e : Endpoint} (h : e.isIndex = false) : (serve s e).2 = s := by
  cases e <;> first | rfl | cases h

/-- Only `/index` changes the service: a run ends where its `/index` requests alone lead. -/
theorem serveAll_snd_eq_filter (s : Service) (es : List Endpoint) :
    (serveAll s es).2 = (serveAll s (es.filter Endpoint.isIndex)).2 := by
  induction es generalizing s with
  | nil => rfl
  | cons e es ih =>
    cases h : e.isIndex
    · rw [List.filter_cons_of_neg (by simp [h])]
      simp only [serveAll, serve_of_isIndex_eq_false h, ih]
    · rw [List.filter_cons_of_pos h]
      simp only [serveAll, ih]

theorem serveAll_of_forall_isIndex_eq_false {es : List Endpoint}
    (h : ∀ e ∈ es, e.isIndex = false) : serveAll s es = (es.map fun e => (serve s e).1, s) := by
  induction es with
  | nil => rfl
  | cons e es ih =>
    simp only [List.mem_cons, forall_eq_or_imp] at h
    simp only [serveAll, serve_of_isIndex_eq_false h.1, ih h.2, List.map_cons]

theorem Endpoint.Reads.isIndex_eq_false {e : Endpoint} (h : e.Reads) : e.isIndex = false := by
  cases e <;> first | rfl | exact h.elim

end Frame

/-! ## What a reindex leaves -/

section Reindex

variable {files : List MarkdownFile} {headers : List Chunk} {embedder : Embedder}
  {failures : CollectionFailures} {collection : List Entry}

@[simp]
theorem length_freshEntries (embedder : Embedder) (chunks : List Chunk) :
    (freshEntries embedder chunks).length = chunks.length := by
  simp [freshEntries]

theorem mem_freshEntries {chunks : List Chunk} {x : Entry} (h : x ∈ freshEntries embedder chunks) :
    (⟨x.document, x.source, x.type⟩ : Chunk) ∈ chunks := by
  obtain ⟨⟨i, c⟩, hc, rfl⟩ := List.mem_map.1 h
  exact List.snd_mem_of_mem_enum hc

theorem raising_eq_ok {failure : Option String} : raising failure = .ok () ↔ failure = none := by
  cases failure <;> simp [raising]

theorem clearCollection_nil :
    clearCollection failures [] = (raising failures.count).map fun _ => [] := by
  unfold clearCollection
  cases failures.count <;> rfl

/-- Adding to an empty collection returns exactly when there is nothing to add or neither
`encode` nor `add` raises, and then leaves the fresh entries. -/
theorem addChunks_nil_eq_ok_iff {chunks : List Chunk} {added : List Entry} :
    addChunks embedder failures chunks [] = .ok added ↔
      (chunks = [] ∨ embedder.failure = none ∧ failures.add = none) ∧
        added = freshEntries embedder chunks := by
  refine ⟨fun h => ⟨?_, addChunks_nil_eq_ok h⟩, ?_⟩
  · unfold addChunks at h
    split_ifs at h with hempty
    · exact .inl (List.isEmpty_iff.1 hempty)
    · obtain ⟨⟨⟩, hencode, ⟨⟩, hadd, -⟩ := by simpa only [bind_eq_ok] using h
      exact .inr ⟨raising_eq_ok.1 hencode, raising_eq_ok.1 hadd⟩
  · rintro ⟨hcond, rfl⟩
    unfold addChunks
    split_ifs with hempty
    · rw [List.isEmpty_iff.1 hempty]
      rfl
    · obtain ⟨hencode, hadd⟩ := hcond.resolve_left (by simpa using hempty)
      simp [hencode, hadd, raising, addEntries]

/-- A reindex that returns leaves the fresh entries of its chunks, and counts them. -/
theorem reindex_fst_eq_ok {collection : Option (List Entry)} {r : Reindex} {b : IndexResponse}
    (h : (reindex collection r).1 = .ok b) :
    ∃ chunks, markdownChunks r.files = .ok chunks ∧
      (reindex collection r).2 =
        some (freshEntries r.embedder (chunks ++ headerChunks r.word r.read)) ∧
      b.chunksCreated = (chunks ++ headerChunks r.word r.read).length := by
  cases collection with
  | none =>
    obtain ⟨_, -, h⟩ := bind_eq_ok.1 h
    cases h
  | some entries =>
    revert h
    simp only [reindex, indexDocuments]
    split
    · rintro ⟨⟩
    rename_i chunks hchunks
    split
    · rintro ⟨⟩
    rename_i cleared hcleared
    split
    · rintro ⟨⟩
    rename_i added hadded
    rintro ⟨⟩
    rw [clearCollection_eq_ok hcleared] at hadded
    exact ⟨chunks, hchunks, by rw [addChunks_nil_eq_ok hadded], rfl⟩

end Reindex

/-! ## What the replies read -/

section Answers

theorem Reply.of_index_eq_index {result : Except String IndexResponse} {b : IndexResponse} :
    Reply.of .index result = .index b ↔ result = .ok b := by
  cases result <;> simp [Reply.of]

/-- A request that only reads, on a collection holding the fresh entries of `chunks`, answers
from those chunks. -/
theorem answersFrom_serve {s : Service} {e : Endpoint} {embedder : Embedder}
    {chunks : List Chunk} (hs : s.collection = some (freshEntries embedder chunks))
    (he : e.Reads) : AnswersFrom chunks (serve s e).1 := by
  cases e with
  | health count =>
    cases count <;> simp [serve, health, collectionSize, hs, raising, Reply.of, AnswersFrom]
  | stats count =>
    cases count <;> simp [serve, stats, collectionSize, hs, raising, Reply.of, AnswersFrom]
  | index => exact he.elim
  | query request count embedder' search order =>
    simp only [serve, query, hs]
    cases count with
    | some => trivial
    | none =>
      simp only [raising, queryPrecheck, length_freshEntries, List.length_eq_zero]
      split_ifs with hnil
      · exact hnil
      simp only [searchContext]
      cases embedder'.failure with
      | some => trivial
      | none =>
        simp only [raising]
        cases hfound : search (embedder'.embed (queryText request).toList) request.nResults
            (freshEntries embedder chunks) with
        | error => trivial
        | ok found =>
          -- the entries found are fresh, so each is a chunk with an id and a vector
          refine ⟨found.map fun x => ⟨x.document, x.source, x.type⟩, fun c hc => ?_,
            by simp [Function.comp_def], by simpa [Function.comp_def] using order.perm_dedup _,
            by simp⟩
          obtain ⟨x, hx, rfl⟩ := List.mem_map.1 hc
          exact mem_freshEntries (he _ _ _ _ hfound hx)

/-- Between a reindex that succeeds and the next one, the service answers from the chunks that
reindex built: `/health` and `/stats` count its `chunks_created`, `/query` returns only their
texts and sources, and 503 comes only when it built none. -/
theorem serveAll_answersFrom_after_index {s : Service} {r : Reindex} {b : IndexResponse}
    (hindex : (serve s (.index r)).1 = .index b) (es : List Endpoint)
    (hreads : ∀ e ∈ es, e.Reads) :
    ∃ chunks, markdownChunks r.files = .ok chunks ∧
      b.chunksCreated = (chunks ++ headerChunks r.word r.read).length ∧
      ∀ reply ∈ (serveAll (serve s (.index r)).2 es).1,
        AnswersFrom (chunks ++ headerChunks r.word r.read) reply := by
  obtain ⟨chunks, hchunks, hafter, hcount⟩ :=
    reindex_fst_eq_ok (Reply.of_index_eq_index.1 hindex)
  refine ⟨chunks, hchunks, hcount, fun reply hreply => ?_⟩
  rw [serveAll_of_forall_isIndex_eq_false fun e he => (hreads e he).isIndex_eq_false] at hreply
  obtain ⟨e, he, rfl⟩ := List.mem_map.1 hreply
  exact answersFrom_serve hafter (hreads e he)

end Answers

/-! ## From startup on -/

section Startup

variable {stored : List Entry} {r : Reindex} {s : Service}

theorem startup_nil_eq_ok_iff :
    startup (.ok []) r = .ok s ↔
      ∃ chunks, markdownChunks r.files = .ok chunks ∧ r.failures.count = none ∧
        (chunks ++ headerChunks r.word r.read = [] ∨
          r.embedder.failure = none ∧ r.failures.add = none) ∧
        s = ⟨some (freshEntries r.embedder (chunks ++ headerChunks r.word r.read))⟩ := by
  dsimp only [startup, bind, Except.bind, List.length_nil]
  simp only [if_true, indexDocuments, clearCollection_nil]
  cases hfiles : markdownChunks r.files with
  | error e => simp [bind, Except.bind]
  | ok chunks =>
    cases hcount : r.failures.count with
    | some e => simp [bind, Except.bind, raising, Except.map]
    | none =>
      simp only [raising, Except.map]
      cases hadd : addChunks r.embedder r.failures (chunks ++ headerChunks r.word r.read) [] with
      | error e =>
        have hnot : ¬(chunks ++ headerChunks r.word r.read = [] ∨
            r.embedder.failure = none ∧ r.failures.add = none) := fun hcond =>
          nomatch hadd.symm.trans (addChunks_nil_eq_ok_iff.2 ⟨hcond, rfl⟩)
        simp only [List.append_eq_nil] at hnot
        simp [bind, Except.bind, hnot]
      | ok added =>
        obtain ⟨hcond, rfl⟩ := addChunks_nil_eq_ok_iff.1 hadd
        simp only [Except.ok.injEq, exists_eq_left', true_and, hcond]
        exact ⟨fun h => (Except.ok.inj h).symm, fun h => h ▸ rfl⟩

theorem startup_of_ne_nil (hstored : stored ≠ []) : startup (.ok stored) r = .ok ⟨some stored⟩ := by
  dsimp only [startup, bind, Except.bind]
  rw [if_neg (by simpa using hstored)]
  rfl

/-- Startup on an open collection starts the app exactly in two ways. A collection that is not
empty is served as the disk holds it, with no reindex, whatever the knowledge files now say. An
empty one is indexed, and the app starts only when that reindex returns: the files can be read,
the count does not raise, and there is nothing to add or neither `encode` nor `add` raises; the
collection then holds the fresh entries. -/
theorem startup_eq_ok_iff :
    startup (.ok stored) r = .ok s ↔
      stored ≠ [] ∧ s = ⟨some stored⟩ ∨
      stored = [] ∧ ∃ chunks, markdownChunks r.files = .ok chunks ∧ r.failures.count = none ∧
        (chunks ++ headerChunks r.word r.read = [] ∨
          r.embedder.failure = none ∧ r.failures.add = none) ∧
        s = ⟨some (freshEntries r.embedder (chunks ++ headerChunks r.word r.read))⟩ := by
  by_cases hstored : stored = []
  · subst hstored
    simpa using startup_nil_eq_ok_iff
  · rw [startup_of_ne_nil hstored]
    simp only [hstored, Except.ok.injEq, ne_eq, not_false_eq_true, true_and, false_and, or_false]
    exact eq_comm

end Startup

/-! ## A reindex of the guide -/

/-- A reindex of the edited guide, with an embedder and a collection that work. -/
def guideReindex : Reindex :=
  ⟨[guide], fun _ => none, WordClass.asciiOnly, ⟨fun _ => [1, 0], none⟩, ⟨none, none, none, none⟩⟩

/-- A health check, then a query on a regime whose search returns every entry. -/
def guideRequests : List Endpoint :=
  [.health none,
    .query ⟨"spread", some "trending", none, 5⟩ none ⟨fun _ => [1, 0], none⟩
      (fun _ _ entries => .ok entries) SetOrder.ofDedup]

theorem guideRequests_reads : ∀ e ∈ guideRequests, e.Reads := by
  simp [guideRequests, Endpoint.Reads]

/-- After the reindex of the guide, the health check and the query read its one chunk. -/
theorem serveAll_answersFrom_after_index_guide :
    (serve ⟨some indexedGuide⟩ (.index guideReindex)).1 = .index ⟨"success", 1, 1⟩ ∧
      (∀ e ∈ guideRequests, e.Reads) ∧
      ∃ chunks, markdownChunks guideReindex.files = .ok chunks ∧
        (⟨"success", 1, 1⟩ : IndexResponse).chunksCreated =
          (chunks ++ headerChunks guideReindex.word guideReindex.read).length ∧
        ∀ reply ∈ (serveAll (serve ⟨some indexedGuide⟩ (.index guideReindex)).2 guideRequests).1,
          AnswersFrom (chunks ++ headerChunks guideReindex.word guideReindex.read) reply :=
  have hindex : (serve ⟨some indexedGuide⟩ (.index guideReindex)).1 = .index ⟨"success", 1, 1⟩ :=
    by decide
  ⟨hindex, guideRequests_reads,
    serveAll_answersFrom_after_index hindex guideRequests guideRequests_reads⟩

end Rag

end HftTradingSystem
