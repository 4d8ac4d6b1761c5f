import HftTradingSystem.Text
import Mathlib.Data.List.Chain

/-!
# Chunking documents

`chunk_text` of the RAG service splits a document into paragraphs at runs of blank lines and
packs consecutive paragraphs greedily into chunks: a paragraph joins the open chunk while the
open chunk's length, separators included, plus the paragraph's stays below `chunk_size`, and
starts a new chunk otherwise. The chunks are the stripped `\n\n`-joins of consecutive groups
that partition the paragraphs; a chunk of two or more paragraphs is shorter than `chunk_size`,
so only a paragraph alone can make a chunk that long. The `overlap` argument is never read.
The paragraphs of `re.split(r'\n\n+', text)` are the pieces of the text between its maximal runs
of two or more newlines.
-/

namespace HftTradingSystem

namespace Rag

open Text

/-! ## Paragraphs -/

/-- `re.split(r'\n\n+', text)`, from inside a run of newlines (`inRun`) or not: the pieces
between maximal runs of two or more newlines. -/
def splitParagraphsFrom : Bool → List Char → List (List Char)
  | _, [] => [[]]
  | true, '\n' :: s => splitParagraphsFrom true s
  | false, '\n' :: '\n' :: s => [] :: splitParagraphsFrom true s
  | _, c :: s => (splitParagraphsFrom false s).modifyHead (c :: ·)

/-- `re.split(r'\n\n+', text)`. -/
def splitParagraphs (text : List Char) : List (List Char) := splitParagraphsFrom false text

example :
    splitParagraphs "\n\na\n\n\nb\nc\n\n".toList = ["", "a", "b\nc", ""].map String.toList := by
  decide

/-- Paragraphs put back together with the runs of newlines between them: `runs[i]` newlines
after the `i`-th paragraph. -/
def rejoin : List (List Char) → List ℕ → List Char
  | [], _ => []
  | p :: ps, runs => p ++ ((ps.zip runs).map fun (q, n) => List.replicate n '\n' ++ q).flatten

/-- What `re.split(r'\n\n+', text)` returns, said of the paragraphs `paras`: rejoined with runs
of two or more newlines they give back the text; none holds two newlines in a row; and a
paragraph before a run does not end with a newline, nor does one after a run start with one. -/
def SplitsAtRuns (text : List Char) (paras : List (List Char)) : Prop :=
  ∃ runs : List ℕ, (∀ n ∈ runs, 2 ≤ n) ∧ paras.length = runs.length + 1 ∧
    rejoin paras runs = text ∧ (∀ p ∈ paras, ¬ ['\n', '\n'] <:+: p) ∧
    paras.Chain' fun p q => p.getLast? ≠ some '\n' ∧ q.head? ≠ some '\n'

/-- A run of newlines ends the empty paragraph before it. -/
theorem SplitsAtRuns.run {rest : List Char} {p : List Char} {ps : List (List Char)}
    (hsplit : SplitsAtRuns (rest.dropWhile (· == '\n')) (p :: ps))
    (hstart : p.head? ≠ some '\n') : SplitsAtRuns ('\n' :: '\n' :: rest) ([] :: p :: ps) := by
  obtain ⟨runs, hruns, hlen, hrejoin, hblank, hchain⟩ := hsplit
  have htake : rest.takeWhile (· == '\n') =
      List.replicate (rest.takeWhile (· == '\n')).length '\n' :=
    List.eq_replicate_iff.2 ⟨rfl, fun b hb => by simpa using List.mem_takeWhile_imp hb⟩
  refine ⟨((rest.takeWhile (· == '\n')).length + 2) :: runs,
    List.forall_mem_cons.2 ⟨by omega, hruns⟩, by simpa using hlen, ?_,
    List.forall_mem_cons.2 ⟨fun h => by simpa using h.length_le, hblank⟩,
    List.chain'_cons.2 ⟨⟨by simp, hstart⟩, hchain⟩⟩
  simp only [rejoin, List.zip_cons_cons, List.map_cons, List.flatten_cons, List.nil_append,
    List.append_assoc] at hrejoin ⊢
  rw [hrejoin]
  conv_rhs => rw [← List.takeWhile_append_dropWhile (· == '\n') rest, htake]
  rfl

/-- A character other than the start of a run joins the first paragraph. -/
theorem SplitsAtRuns.cons {c : Char} {s p : List Char} {ps : List (List Char)}
    (hsplit : SplitsAtRuns s (p :: ps)) (hblank : c = '\n' → p.head? ≠ some '\n')
    (hlast : ps ≠ [] → p = [] → c ≠ '\n') : SplitsAtRuns (c :: s) ((c :: p) :: ps) := by
  obtain ⟨runs, hruns, hlen, hrejoin, hblanks, hchain⟩ := hsplit
  refine ⟨runs, hruns, by simpa using hlen, congrArg (c :: ·) hrejoin,
    List.forall_mem_cons.2 ⟨fun h => ?_, fun q hq => hblanks q (List.mem_cons_of_mem _ hq)⟩, ?_⟩
  · rcases List.infix_cons_iff.1 h with hpre | hinf
    · obtain ⟨rfl, hnl⟩ := List.cons_prefix_cons.1 hpre
      cases p with
      | nil => simp at hnl
      | cons d p => exact hblank rfl (by rw [← (List.cons_prefix_cons.1 hnl).1]; rfl)
    · exact hblanks p (List.mem_cons_self p ps) hinf
  · cases ps with
    | nil => exact List.chain'_singleton _
    | cons q qs =>
      obtain ⟨⟨hend, hnext⟩, hrest⟩ := List.chain'_cons.1 hchain
      refine List.chain'_cons.2 ⟨⟨?_, hnext⟩, hrest⟩
      cases p with
      | nil => simpa using hlast (List.cons_ne_nil q qs) rfl
      | cons d p => simpa using hend

/-- A chunk of a document, the dictionary `chunk_text` appends. -/
structure Chunk where
  text : List Char
  source : String
  type : String
  deriving DecidableEq, Repr

/-- `CHUNK_SIZE`, the characters per chunk `chunk_text` is called with. -/
def defaultChunkSize : ℤ := 1000

/-- What separates two paragraphs, in the text and in the join. -/
def paragraphSep : List Char := "\n\n".toList

/-- The chunk appended for the accumulated text `current_chunk`. -/
def chunkOf (source : String) (current : List Char) : Chunk :=
  ⟨strip current, source, "documentation"⟩

/-- One pass of the loop over the paragraphs, on the chunks so far and `current_chunk`. -/
def chunkStep (source : String) (chunkSize : ℤ) :
    List Chunk × List Char → List Char → List Chunk × List Char
  | (chunks, current), para =>
    if (current.length + para.length : ℤ) < chunkSize then (chunks, current ++ para ++ paragraphSep)
    else (if current.isEmpty then chunks else chunks ++ [chunkOf source current],
      para ++ paragraphSep)

/-- `chunk_text(text, source, chunk_size)`. -/
def chunkText (text : List Char) (source : String) (chunkSize : ℤ) : List Chunk :=
  let (chunks, current) := (splitParagraphs text).foldl (chunkStep source chunkSize) ([], [])
  if current.isEmpty then chunks else chunks ++ [chunkOf source current]

/-! ## Groups of paragraphs -/

/-- The text a group of paragraphs accumulates in `current_chunk`: each paragraph followed by
the separator. -/
def accumulated (group : List (List Char)) : List Char :=
  (group.map (· ++ paragraphSep)).flatten

/-- A group of two or more paragraphs has a join shorter than `chunk_size`. -/
def Fits (chunkSize : ℤ) (group : List (List Char)) : Prop :=
  2 ≤ group.length → ((paragraphSep.intercalate group).length : ℤ) < chunkSize

theorem intercalate_cons_cons (p q : List Char) (group : List (List Char)) :
    paragraphSep.intercalate (p :: q :: group) =
      p ++ paragraphSep ++ paragraphSep.intercalate (q :: group) := by
  simp [List.intercalate]

theorem accumulated_eq : ∀ {group : List (List Char)}, group ≠ [] →
    accumulated group = paragraphSep.intercalate group ++ paragraphSep
  | [p], _ => by simp [accumulated, List.intercalate]
  | p :: q :: group, _ => by
    have ih := accumulated_eq (List.cons_ne_nil q group)
    simp only [accumulated, List.map_cons, List.flatten_cons] at ih ⊢
    rw [ih, intercalate_cons_cons]
    simp

theorem accumulated_eq_nil {group : List (List Char)} : accumulated group = [] ↔ group = [] := by
  refine ⟨fun h => ?_, fun h => h ▸ rfl⟩
  by_contra hne
  simp [accumulated_eq hne, paragraphSep] at h

theorem strip_accumulated {group : List (List Char)} (hne : group ≠ []) :
    strip (accumulated group) = strip (paragraphSep.intercalate group) := by
  rw [accumulated_eq hne, strip_append_of_isSpace (by decide)]

theorem intercalate_concat (group : List (List Char)) (p : List Char) :
    paragraphSep.intercalate (group ++ [p]) = accumulated group ++ p := by
  refine List.append_cancel_right (?_ : _ ++ paragraphSep = _ ++ paragraphSep)
  rw [← accumulated_eq (by simp)]
  simp [accumulated]

/-! ## The loop -/

section Loop

variable {source : String} {chunkSize : ℤ}

/-- One pass either adds the paragraph to the open group, or closes the open group (when it has
a paragraph) and opens a new one with the paragraph. -/
theorem chunkStep_groups {groups : List (List (List Char))} {cur : List (List Char)}
    (para : List Char) (hgroups : ∀ g ∈ groups, g ≠ [] ∧ Fits chunkSize g)
    (hcur : Fits chunkSize cur) :
    ∃ (groups' : List (List (List Char))) (cur' : List (List Char)), chunkStep source chunkSize
        (groups.map (chunkOf source ∘ accumulated), accumulated cur) para =
        (groups'.map (chunkOf source ∘ accumulated), accumulated cur') ∧
      groups'.flatten ++ cur' = groups.flatten ++ cur ++ [para] ∧
      (∀ g ∈ groups', g ≠ [] ∧ Fits chunkSize g) ∧ Fits chunkSize cur' := by
  have hsingle : Fits chunkSize [para] := fun h => absurd h (by simp)
  simp only [chunkStep]
  split_ifs with hfit hempty
  · refine ⟨groups, cur ++ [para], by simp [accumulated], by simp, hgroups, fun _ => ?_⟩
    rw [intercalate_concat]
    simpa using hfit
  · obtain rfl := accumulated_eq_nil.1 (List.isEmpty_iff.1 hempty)
    exact ⟨groups, [para], by simp [accumulated], by simp, hgroups, hsingle⟩
  · have hne : cur ≠ [] := fun h => hempty (by simp [h, accumulated])
    refine ⟨groups ++ [cur], [para], by simp [accumulated], by simp, ?_, hsingle⟩
    simp only [List.mem_append, List.mem_singleton]
    rintro g (hg | rfl)
    exacts [hgroups g hg, ⟨hne, hcur⟩]

theorem foldl_chunkStep (paras : List (List Char)) {groups : List (List (List Char))}
    {cur : List (List Char)} (hgroups : ∀ g ∈ groups, g ≠ [] ∧ Fits chunkSize g)
    (hcur : Fits chunkSize cur) :
    ∃ (groups' : List (List (List Char))) (cur' : List (List Char)),
      paras.foldl (chunkStep source chunkSize)
        (groups.map (chunkOf source ∘ accumulated), accumulated cur) =
        (groups'.map (chunkOf source ∘ accumulated), accumulated cur') ∧
      groups'.flatten ++ cur' = groups.flatten ++ cur ++ paras ∧
      (∀ g ∈ groups', g ≠ [] ∧ Fits chunkSize g) ∧ Fits chunkSize cur' := by
  induction paras generalizing groups cur with
  | nil => exact ⟨groups, cur, rfl, by simp, hgroups, hcur⟩
  | cons para paras ih =>
    obtain ⟨groups₁, cur₁, hstep, hflat₁, hgroups₁, hcur₁⟩ := chunkStep_groups para hgroups hcur
    obtain ⟨groups₂, cur₂, hfold, hflat₂, hgroups₂, hcur₂⟩ := ih hgroups₁ hcur₁
    exact ⟨groups₂, cur₂, by rw [List.foldl_cons, hstep, hfold], by simp [hflat₂, hflat₁],
      hgroups₂, hcur₂⟩

/-- `chunk_text` closes the groups of a partition of the paragraphs, each of which fits. -/
theorem chunkText_eq_groups (text : List Char) (source : String) (chunkSize : ℤ) :
    ∃ groups : List (List (List Char)), (∀ g ∈ groups, g ≠ [] ∧ Fits chunkSize g) ∧
      groups.flatten = splitParagraphs text ∧
      chunkText text source chunkSize = groups.map (chunkOf source ∘ accumulated) := by
  obtain ⟨groups, cur, hfold, hflat, hgroups, hcur⟩ :=
    @foldl_chunkStep source chunkSize (splitParagraphs text) [] [] (by simp)
      (fun h => absurd h (by simp))
  have hfold' : (splitParagraphs text).foldl (chunkStep source chunkSize) ([], []) =
      (groups.map (chunkOf source ∘ accumulated), accumulated cur) := hfold
  by_cases hcur₀ : cur = []
  · subst hcur₀
    exact ⟨groups, hgroups, by simpa using hflat, by simp [chunkText, hfold', accumulated]⟩
  · have hopen : (accumulated cur).isEmpty = false := by
      simpa using mt accumulated_eq_nil.1 hcur₀
    refine ⟨groups ++ [cur], ?_, by simpa using hflat, by simp [chunkText, hfold', hopen]⟩
    simp only [List.mem_append, List.mem_singleton]
    rintro g (hg | rfl)
    exacts [hgroups g hg, ⟨hcur₀, hcur⟩]

end Loop

/-- `chunk_text` returns, in order, the stripped `\n\n`-joins of consecutive nonempty groups
that partition the paragraphs; a chunk of two or more paragraphs is shorter than `chunk_size`,
and a chunk that long is a paragraph that long, alone. -/
theorem chunkText_partition (text : List Char) (source : String) (chunkSize : ℤ) :
    ∃ groups : List (List (List Char)),
      (∀ g ∈ groups, g ≠ []) ∧ groups.flatten = splitParagraphs text ∧
      chunkText text source chunkSize =
        groups.map (fun g => ⟨strip (paragraphSep.intercalate g), source, "documentation"⟩) ∧
      (∀ g ∈ groups, 2 ≤ g.length →
        ((strip (paragraphSep.intercalate g)).length : ℤ) < chunkSize) ∧
      (∀ g ∈ groups, chunkSize ≤ (strip (paragraphSep.intercalate g)).length →
        ∃ para, g = [para] ∧ chunkSize ≤ para.length) := by
  obtain ⟨groups, hgroups, hflat, hchunks⟩ := chunkText_eq_groups text source chunkSize
  have hshort : ∀ g ∈ groups, 2 ≤ g.length →
      ((strip (paragraphSep.intercalate g)).length : ℤ) < chunkSize := fun g hg h2 =>
    lt_of_le_of_lt (by exact_mod_cast length_strip_le _) ((hgroups g hg).2 h2)
  refine ⟨groups, fun g hg => (hgroups g hg).1, hflat, ?_, hshort, fun g hg hlong => ?_⟩
  · rw [hchunks]
    exact List.map_congr_left fun g hg => by simp [chunkOf, strip_accumulated (hgroups g hg).1]
  · match g, (hgroups g hg).1 with
    | [para], _ =>
      have : (strip para).length ≤ para.length := length_strip_le para
      exact ⟨para, rfl, hlong.trans (by simpa [List.intercalate] using this)⟩
    | _ :: _ :: _, _ => exact absurd (hshort _ hg (by simp)) (not_lt.2 hlong)

end Rag

end HftTradingSystem
