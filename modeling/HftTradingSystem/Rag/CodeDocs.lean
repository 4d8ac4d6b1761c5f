import HftTradingSystem.Rag.Regex
import HftTradingSystem.Rag.Chunk

/-!
# The code documentation of the key headers

`extract_code_docs` reads a C++ header and builds a chunk for every match of three patterns: a
`/** … */` comment followed by a `class` or `struct` and its name, an `enum` with its body, and a
`struct` whose name contains `Config`, with its body. Each pattern is characterised here by the
declarations it matches, as decompositions of the text, and the chunks are those of the
left-to-right scan of `re.finditer` for each pattern in turn.

What the patterns match is not always what their names suggest. The lazy `[\s\S]*?` runs on to
the first `*/` that a `class` or `struct` follows, so a doc block takes in every earlier comment
and all the code between that no declaration follows. A body is everything up to the first `}`,
so a body with braces inside is cut there. And the name must be followed by blanks and `{`, so an
enum with a fixed underlying type, `enum class E : T { … }`, never matches where it starts.
-/

namespace HftTradingSystem

namespace Rag

open Text

/-! ## The patterns -/

/-- `\w` of `re` on a `str` pattern: the characters Unicode counts as letters or digits, and the
underscore. Which non-ASCII characters those are is the Unicode database's, so the class is a
parameter, with what the proofs use of it. -/
structure WordClass where
  /-- Whether `\w` matches the character. -/
  isWord : Char → Bool
  /-- On ASCII, `\w` is `[A-Za-z0-9_]`. -/
  isWord_ascii : ∀ c : Char, c.toNat < 128 → isWord c = (c.isAlphanum || c = '_')
  /-- No blank (`\s`) is a word character. -/
  isWord_of_isSpace : ∀ c : Char, isSpace c → isWord c = false

variable (word : WordClass)

/-- `[^}]`. -/
def notClose (c : Char) : Bool := c != '\x7d'

/-- `[\s\S]`: any character. -/
def anyChar (_ : Char) : Bool := true

/-- `\s*\{([^}]+)\}`, the end `enum_pattern` and `config_pattern` share: blanks, a brace, the
body, captured, and the closing brace. -/
def braceBody : Pattern := cat [star isSpace, lit ['\x7b'], group (plus notClose), lit ['\x7d']]

/-- `doc_pattern`, `/\*\*[\s\S]*?\*/\s*(class|struct)\s+(\w+)`. -/
def docPattern : Pattern :=
  cat [lit "/**".toList, lazyStar anyChar, lit "*/".toList, star isSpace,
    group (alt (lit "class".toList) (lit "struct".toList)), plus isSpace, group (plus word.isWord)]

/-- `enum_pattern`, `enum\s+(?:class\s+)?(\w+)\s*\{([^}]+)\}`. -/
def enumPattern : Pattern :=
  cat [lit "enum".toList, plus isSpace, opt (cat [lit "class".toList, plus isSpace]),
    group (plus word.isWord), braceBody]

/-- `config_pattern`, `struct\s+(\w*Config\w*)\s*\{([^}]+)\}`. -/
def configPattern : Pattern :=
  cat [lit "struct".toList, plus isSpace,
    group (cat [star word.isWord, lit "Config".toList, star word.isWord]), braceBody]

/-- The chunk of a documented class or struct: `## {class_name}`, then the whole match. -/
def docChunk (source : String) (m : Match) : Chunk :=
  ⟨"## ".toList ++ m.group 2 ++ "\n\n".toList ++ m.group 0, source, "code_doc"⟩

/-- The chunk of an enum: its name, then the enum again in a C++ code block. -/
def enumChunk (source : String) (m : Match) : Chunk :=
  ⟨"## Enum: ".toList ++ m.group 1 ++ "\n\n```cpp\nenum ".toList ++ m.group 1 ++
    " \x7b\n".toList ++ m.group 2 ++ "\n\x7d\n```".toList, source, "code_enum"⟩

/-- The chunk of a config struct: its name, then the struct again in a C++ code block. -/
def configChunk (source : String) (m : Match) : Chunk :=
  ⟨"## Config: ".toList ++ m.group 1 ++ "\n\n```cpp\nstruct ".toList ++ m.group 1 ++
    " \x7b\n".toList ++ m.group 2 ++ "\n\x7d\n```".toList, source, "code_config"⟩

/-- `extract_code_docs`, for the header at `source` whose text `read_text` gives as `content`:
the documented classes and structs, then the enums, then the config structs. -/
def extractCodeDocs (source : String) (content : List Char) : List Chunk :=
  (finditer (docPattern word) content).map (docChunk source) ++
    (finditer (enumPattern word) content).map (enumChunk source) ++
    (finditer (configPattern word) content).map (configChunk source)

/-- `key_headers` of `index_documents`. -/
def keyHeaders : List String :=
  ["include/strategy/regime_detector.hpp", "include/strategy/technical_indicators.hpp",
    "include/strategy/technical_indicators_strategy.hpp", "include/ipc/shared_config.hpp",
    "include/ipc/symbol_config.hpp", "include/risk/enhanced_risk_manager.hpp"]

/-- The header loop of `index_documents`: the chunks of each key header that exists, in order.
`read header` is what `read_text` gives for the header, `none` when it does not exist. -/
def headerChunks (read : String → Option (List Char)) : List Chunk :=
  keyHeaders.flatMap fun header =>
    match read header with
    | some content => extractCodeDocs word header content
    | none => []

variable {word}

/-! ## The classes -/

section Classes

theorem isSpace_toNat {c : Char} (h : isSpace c) : c.toNat ≤ 32 ∨ 133 ≤ c.toNat := by
  have hval : c.toNat = c.val.toBitVec.toNat := rfl
  simp only [isSpace, Bool.or_eq_true, Bool.and_eq_true, decide_eq_true_eq, Char.le_def,
    UInt32.le_def, BitVec.le_def] at h
  rcases h with ((((((((((rfl | h) | h) | rfl) | rfl) | rfl) | h) | rfl) | rfl) | rfl) | rfl) | rfl
  all_goals first | decide | (simp [Char.ofNat, Char.ofNatAux] at h; omega)

/-- `[A-Za-z0-9_]`: `\w` on ASCII. -/
def asciiWord (c : Char) : Bool := c.isAlphanum || c = '_'

theorem asciiWord_toNat {c : Char} (h : asciiWord c) : 48 ≤ c.toNat ∧ c.toNat ≤ 122 := by
  have hval : c.toNat = c.val.toBitVec.toNat := rfl
  simp only [asciiWord, Char.isAlphanum, Char.isAlpha, Char.isUpper, Char.isLower, Char.isDigit,
    Bool.or_eq_true, Bool.and_eq_true, decide_eq_true_eq, ge_iff_le, UInt32.le_def,
    BitVec.le_def] at h
  rcases h with ((h | h) | h) | rfl
  all_goals first | decide | (simp at h; omega)

/-- No blank is an ASCII word character. -/
theorem asciiWord_of_isSpace {c : Char} (h : isSpace c) : asciiWord c = false := by
  by_contra hw
  have := isSpace_toNat h
  have := asciiWord_toNat (by simpa using hw)
  omega

/-- `\w` under `re.ASCII`: `[A-Za-z0-9_]` and no other character. -/
def WordClass.asciiOnly : WordClass :=
  ⟨asciiWord, fun _ _ => rfl, fun _ h => asciiWord_of_isSpace h⟩

theorem isSpace_of_isWord {c : Char} (h : word.isWord c) : isSpace c = false := by
  by_contra hs
  simp [word.isWord_of_isSpace c (by simpa using hs)] at h

/-- The brace is no word character. -/
theorem WordClass.isWord_brace : word.isWord '\x7b' = false := by
  rw [word.isWord_ascii _ (by decide)]
  rfl

/-- An ASCII text of letters, digits and underscores is a word. -/
theorem WordClass.forall_isWord {w : List Char}
    (h : ∀ c ∈ w, c.toNat < 128 ∧ asciiWord c) : ∀ c ∈ w, word.isWord c := fun c hc => by
  rw [word.isWord_ascii c (h c hc).1]
  exact (h c hc).2

end Classes

/-! ## The body between braces -/

section Body

variable {groups : List (List Char)} {s : List Char} {k : Cont} {r : List (List Char) × List Char}

/-- The first character of a text made of a run and what follows it. -/
theorem forall_mem_head?_append {P : Char → Prop} {w t : List Char} (hw : ∀ c ∈ w, P c)
    (ht : ∀ c ∈ t.head?, P c) : ∀ c ∈ (w ++ t).head?, P c := by
  cases w with
  | nil => exact ht
  | cons d w => simpa using hw d (List.mem_cons_self d w)

theorem lit_singleton_eq_some {c : Char} :
    lit [c] groups s k = some r ↔ ∃ s', s = c :: s' ∧ k groups s' = some r :=
  lit_eq_some

theorem braceBody_eq_some :
    braceBody groups s k = some r ↔
      ∃ ws body s', s = ws ++ '\x7b' :: (body ++ '\x7d' :: s') ∧ (∀ c ∈ ws, isSpace c) ∧
        body ≠ [] ∧ '\x7d' ∉ body ∧ k (groups ++ [body]) s' = some r := by
  have hclose : Rejects notClose fun groups s => lit ['\x7d'] groups s k := by
    intro groups c s hc
    have : c ≠ '\x7d' := by simpa [notClose] using hc
    simp [lit, Ne.symm this]
  have hopen : Rejects isSpace fun groups s =>
      lit ['\x7b'] groups s fun groups s => group (plus notClose) groups s
        fun groups s => lit ['\x7d'] groups s k := by
    intro groups c s hc
    have : c ≠ '\x7b' := fun h => absurd (h ▸ hc) (by decide)
    simp [lit, Ne.symm this]
  have hnot : ∀ body : List Char, (∀ c ∈ body, notClose c) ↔ '\x7d' ∉ body := fun body => by
    simpa [notClose] using List.forall_mem_ne'
  simp only [braceBody, cat, star_eq_some hopen, lit_singleton_eq_some, group_plus_eq_some hclose]
  constructor
  · rintro ⟨ws, _, rfl, hws, _, rfl, body, _, rfl, hne, hbody, s', rfl, hr⟩
    exact ⟨ws, body, s', rfl, hws, hne, (hnot body).1 hbody, hr⟩
  · rintro ⟨ws, body, s', rfl, hws, hne, hbody, hr⟩
    exact ⟨ws, _, rfl, hws, _, rfl, body, _, rfl, hne, (hnot body).2 hbody, s', rfl, hr⟩

/-- A body between braces does not start with a word character. -/
theorem braceBody_rejects_word : Rejects word.isWord fun groups s => braceBody groups s k := by
  intro groups c s hc
  by_contra hsome
  obtain ⟨r, hr⟩ := Option.ne_none_iff_exists'.1 hsome
  obtain ⟨ws, body, s', hs, hws, -⟩ := braceBody_eq_some.1 hr
  have hhead := forall_mem_head?_append (P := fun c => word.isWord c = false)
    (fun c hc => word.isWord_of_isSpace c (hws c hc)) (t := '\x7b' :: (body ++ '\x7d' :: s'))
    (by simp [WordClass.isWord_brace])
  rw [← hs] at hhead
  simp [hc] at hhead

/-- `(\w+)\s*\{([^}]+)\}`: a name, blanks and a body between braces. -/
theorem nameBody_eq_some :
    group (plus word.isWord) groups s (fun groups s => braceBody groups s k) = some r ↔
      ∃ name ws body s', s = name ++ ws ++ '\x7b' :: (body ++ '\x7d' :: s') ∧ name ≠ [] ∧
        (∀ c ∈ name, word.isWord c) ∧ (∀ c ∈ ws, isSpace c) ∧ body ≠ [] ∧
        '\x7d' ∉ body ∧ k (groups ++ [name] ++ [body]) s' = some r := by
  rw [group_plus_eq_some braceBody_rejects_word]
  simp only [braceBody_eq_some, List.append_assoc]
  constructor
  · rintro ⟨name, _, rfl, hne, hname, ws, body, s', rfl, hws, hbody, hclose, hr⟩
    exact ⟨name, ws, body, s', rfl, hne, hname, hws, hbody, hclose, hr⟩
  · rintro ⟨name, ws, body, s', rfl, hne, hname, hws, hbody, hclose, hr⟩
    exact ⟨name, _, rfl, hne, hname, ws, body, s', rfl, hws, hbody, hclose, hr⟩

/-- A name does not start with a blank. -/
theorem nameBody_rejects_space :
    Rejects isSpace fun groups s =>
      group (plus word.isWord) groups s (fun groups s => braceBody groups s k) := by
  intro groups c s hc
  by_contra hsome
  obtain ⟨r, hr⟩ := Option.ne_none_iff_exists'.1 hsome
  obtain ⟨_ | ⟨d, name⟩, ws, body, s', hs, hne, hname, -⟩ := nameBody_eq_some.1 hr
  · exact hne rfl
  · have hcd : c = d := by simpa using congrArg List.head? hs
    subst hcd
    simp [isSpace_of_isWord (hname c (List.mem_cons_self _ _))] at hc

end Body

/-! ## `enum_pattern` -/

/-- What `enum_pattern` matches at the start of `t`, leaving `rest`: `enum`, blanks, optionally
`class` and blanks, the name, blanks, and a body between braces with no closing brace in it. The
groups are the name and the body. -/
def EnumDecl (word : WordClass) (t : List Char) (groups : List (List Char)) (rest : List Char) :
    Prop :=
  ∃ ws cls name ws' body,
    t = "enum".toList ++ ws ++ cls ++ name ++ ws' ++ '\x7b' :: (body ++ '\x7d' :: rest) ∧
    ws ≠ [] ∧ (∀ c ∈ ws, isSpace c) ∧
    (cls = [] ∨ ∃ ws'', cls = "class".toList ++ ws'' ∧ ws'' ≠ [] ∧ ∀ c ∈ ws'', isSpace c) ∧
    name ≠ [] ∧ (∀ c ∈ name, word.isWord c) ∧ (∀ c ∈ ws', isSpace c) ∧
    body ≠ [] ∧ '\x7d' ∉ body ∧ groups = [name, body]

section Enum

variable {groups : List (List Char)} {s : List Char} {r : List (List Char) × List Char}

/-- The rest of `enum_pattern` after the optional `class`. -/
def enumRest (word : WordClass) : Cont := fun groups s =>
  group (plus word.isWord) groups s fun groups s => braceBody groups s done

theorem enumRest_eq_some :
    enumRest word groups s = some r ↔ ∃ name ws body s', s = name ++ ws ++
      '\x7b' :: (body ++ '\x7d' :: s') ∧ name ≠ [] ∧ (∀ c ∈ name, word.isWord c) ∧
      (∀ c ∈ ws, isSpace c) ∧ body ≠ [] ∧ '\x7d' ∉ body ∧
      (groups ++ [name, body], s') = r := by
  rw [enumRest, nameBody_eq_some]
  simp only [done, Option.some.injEq, List.append_assoc, List.singleton_append]

theorem enumRest_rejects_space : Rejects isSpace (enumRest word) := nameBody_rejects_space

/-- `class\s+`, before the name. -/
theorem classBlanks_eq_some :
    cat [lit "class".toList, plus isSpace] groups s (enumRest word) = some r ↔
      ∃ ws s', s = "class".toList ++ ws ++ s' ∧ ws ≠ [] ∧ (∀ c ∈ ws, isSpace c) ∧
        enumRest word groups s' = some r := by
  simp only [cat, lit_eq_some, plus_eq_some enumRest_rejects_space, List.append_assoc]
  constructor
  · rintro ⟨_, rfl, ws, s', rfl, hne, hws, hr⟩
    exact ⟨ws, s', rfl, hne, hws, hr⟩
  · rintro ⟨ws, s', rfl, hne, hws, hr⟩
    exact ⟨_, rfl, ws, s', rfl, hne, hws, hr⟩

/-- Where the name is `class` itself, `class\s+` followed by a name cannot match: after `class`
and its blanks comes the brace. -/
theorem classBlanks_of_name {name ws body rest : List Char} (hname : ∀ c ∈ name, word.isWord c)
    (hws : ∀ c ∈ ws, isSpace c) :
    cat [lit "class".toList, plus isSpace] groups
      (name ++ ws ++ '\x7b' :: (body ++ '\x7d' :: rest)) (enumRest word) = none := by
  by_contra hsome
  obtain ⟨r, hr⟩ := Option.ne_none_iff_exists'.1 hsome
  obtain ⟨ws'', s', hs, hne, hws'', hr⟩ := classBlanks_eq_some.1 hr
  obtain ⟨name', ws', body', s'', rfl, hne', hname', hws', -⟩ := enumRest_eq_some.1 hr
  have hword : ∀ c ∈ ("class".toList : List Char), word.isWord c :=
    WordClass.forall_isWord (by decide)
  have hstop : ∀ c ∈ (ws ++ '\x7b' :: (body ++ '\x7d' :: rest)).head?, word.isWord c = false :=
    forall_mem_head?_append (fun c hc => word.isWord_of_isSpace c (hws c hc))
      (by simp [WordClass.isWord_brace])
  have hstop'' : ∀ c ∈ (ws'' ++ (name' ++ ws' ++ '\x7b' :: (body' ++ '\x7d' :: s''))).head?,
      word.isWord c = false := by
    cases ws'' with
    | nil => exact absurd rfl hne
    | cons d w => simpa using word.isWord_of_isSpace d (hws'' d (List.mem_cons_self _ _))
  obtain ⟨-, hafter⟩ := eq_of_append_eq_append_of_stop
    (by simpa only [List.append_assoc] using hs) hname hword hstop hstop''
  have hstart : ∀ c ∈ (name' ++ ws' ++ '\x7b' :: (body' ++ '\x7d' :: s'')).head?,
      isSpace c = false := by
    cases name' with
    | nil => exact absurd rfl hne'
    | cons d w => simpa using isSpace_of_isWord (hname' d (List.mem_cons_self _ _))
  obtain ⟨-, hbrace⟩ := eq_of_append_eq_append_of_stop hafter hws hws'' (by simp; decide) hstart
  cases name' with
  | nil => exact hne' rfl
  | cons d w =>
    have hd : '\x7b' = d := by simpa using congrArg List.head? hbrace
    subst hd
    exact absurd (hname' _ (List.mem_cons_self _ _)) (by simp [WordClass.isWord_brace])

/-- The optional `class\s+` does not start with a blank. -/
theorem optClass_rejects_space :
    Rejects isSpace fun groups s =>
      opt (cat [lit "class".toList, plus isSpace]) groups s (enumRest word) := by
  intro groups c s hc
  have hclass : cat [lit "class".toList, plus isSpace] groups (c :: s) (enumRest word) = none := by
    have : c ≠ 'c' := fun h => absurd (h ▸ hc) (by decide)
    simp [cat, lit, Ne.symm this]
  simp only [opt, hclass, Option.none_or]
  exact enumRest_rejects_space groups c s hc

/-- `enum_pattern` matches exactly the enum declarations `EnumDecl` describes. -/
theorem matchAt_enumPattern (t : List Char) (groups : List (List Char)) (rest : List Char) :
    matchAt (enumPattern word) t = some (groups, rest) ↔ EnumDecl word t groups rest := by
  show lit "enum".toList [] t (fun groups s => plus isSpace groups s fun groups s =>
    opt (cat [lit "class".toList, plus isSpace]) groups s (enumRest word)) =
      some (groups, rest) ↔ _
  simp only [lit_eq_some, plus_eq_some optClass_rejects_space]
  simp only [opt, Option.or_eq_some, classBlanks_eq_some, enumRest_eq_some, List.nil_append,
    Prod.mk.injEq, EnumDecl, List.append_assoc]
  constructor
  · rintro ⟨_, rfl, ws, _, rfl, hne, hws, ⟨ws'', _, rfl, hne'', hws'', name, ws', body, s', rfl,
        hname, hword, hws', hbody, hclose, rfl, rfl⟩ |
      ⟨-, name, ws', body, s', rfl, hname, hword, hws', hbody, hclose, rfl, rfl⟩⟩
    · exact ⟨ws, "class".toList ++ ws'', name, ws', body, by simp, hne, hws,
        .inr ⟨ws'', rfl, hne'', hws''⟩, hname, hword, hws', hbody, hclose, rfl⟩
    · exact ⟨ws, [], name, ws', body, by simp, hne, hws, .inl rfl, hname, hword, hws', hbody,
        hclose, rfl⟩
  · rintro ⟨ws, cls, name, ws', body, rfl, hne, hws, hcls, hname, hword, hws', hbody, hclose, rfl⟩
    refine ⟨_, rfl, ws, _, rfl, hne, hws, ?_⟩
    rcases hcls with rfl | ⟨ws'', rfl, hne'', hws''⟩
    · exact .inr ⟨by simpa using classBlanks_of_name hword hws',
        name, ws', body, rest, by simp, hname, hword, hws', hbody, hclose, rfl, rfl⟩
    · exact .inl ⟨ws'', _, by simp, hne'', hws'', name, ws', body, rest, rfl, hname, hword, hws',
        hbody, hclose, rfl, rfl⟩

end Enum

/-! ## `config_pattern` -/

/-- What `config_pattern` matches at the start of `t`, leaving `rest`: `struct`, blanks, a name
that contains `Config`, blanks, and a body between braces with no closing brace in it. The
groups are the name and the body. -/
def ConfigDecl (word : WordClass) (t : List Char) (groups : List (List Char)) (rest : List Char) :
    Prop :=
  ∃ ws name ws' body,
    t = "struct".toList ++ ws ++ name ++ ws' ++ '\x7b' :: (body ++ '\x7d' :: rest) ∧
    ws ≠ [] ∧ (∀ c ∈ ws, isSpace c) ∧ (∀ c ∈ name, word.isWord c) ∧
    "Config".toList <:+: name ∧ (∀ c ∈ ws', isSpace c) ∧ body ≠ [] ∧ '\x7d' ∉ body ∧
    groups = [name, body]

section Config

variable {groups : List (List Char)} {s : List Char} {r : List (List Char) × List Char}

/-- The rest of `config_pattern` after `struct` and its blanks. -/
def configRest (word : WordClass) : Cont := fun groups s =>
  group (cat [star word.isWord, lit "Config".toList, star word.isWord]) groups s fun groups s =>
    braceBody groups s done

/-- `(\w*Config\w*)` backtracks to the last `Config` of the word, and captures the whole word. -/
theorem configRest_eq_some :
    configRest word groups s = some r ↔ ∃ name ws body s',
      s = name ++ ws ++ '\x7b' :: (body ++ '\x7d' :: s') ∧ (∀ c ∈ name, word.isWord c) ∧
      "Config".toList <:+: name ∧ (∀ c ∈ ws, isSpace c) ∧ body ≠ [] ∧ '\x7d' ∉ body ∧
      (groups ++ [name, body], s') = r := by
  -- the rest of the pattern after the group, with what the group captures
  let after : Cont := fun groups' rest =>
    braceBody (groups' ++ [s.take (s.length - rest.length)]) rest done
  have hafter : Rejects word.isWord after := fun groups' c t hc =>
    braceBody_rejects_word (groups' ++ [s.take (s.length - (c :: t).length)]) c t hc
  have hword : ∀ c ∈ ("Config".toList : List Char), word.isWord c :=
    WordClass.forall_isWord (by decide)
  have hbody : ∀ X r, after groups X = some r ↔ ∃ ws body s', X = ws ++ '\x7b' ::
      (body ++ '\x7d' :: s') ∧ (∀ c ∈ ws, isSpace c) ∧ body ≠ [] ∧ '\x7d' ∉ body ∧
      (groups ++ [s.take (s.length - X.length)] ++ [body], s') = r := fun X r => by
    simp only [after, braceBody_eq_some, done, Option.some.injEq]
  show star word.isWord groups s (fun groups s => lit "Config".toList groups s fun groups s =>
    star word.isWord groups s after) = some r ↔ _
  constructor
  · intro h
    obtain ⟨w₁, _, rfl, hw₁, h⟩ := star_sound h
    obtain ⟨_, rfl, h⟩ := lit_eq_some.1 h
    obtain ⟨w₂, X, rfl, hw₂, h⟩ := (star_eq_some hafter).1 h
    obtain ⟨ws, body, s', rfl, hws, hne, hclose, rfl⟩ := (hbody _ _).1 h
    refine ⟨w₁ ++ "Config".toList ++ w₂, ws, body, s', by simp, ?_, List.infix_append _ _ _,
      hws, hne, hclose, ?_⟩
    · simp only [List.mem_append]
      rintro c ((hc | hc) | hc)
      exacts [hw₁ c hc, hword c hc, hw₂ c hc]
    · have : w₁ ++ ("Config".toList ++ (w₂ ++ (ws ++ '\x7b' :: (body ++ '\x7d' :: s')))) =
          w₁ ++ "Config".toList ++ w₂ ++ (ws ++ '\x7b' :: (body ++ '\x7d' :: s')) := by simp
      rw [this, take_length_sub_length]
      simp
  · rintro ⟨name, ws, body, s', rfl, hname, ⟨a, b, rfl⟩, hws, hne, hclose, rfl⟩
    have hX : ∀ c ∈ (ws ++ '\x7b' :: (body ++ '\x7d' :: s')).head?, word.isWord c = false :=
      forall_mem_head?_append (fun c hc => word.isWord_of_isSpace c (hws c hc))
        (by simp [WordClass.isWord_brace])
    have hb : ∀ c ∈ b, word.isWord c := fun c hc => hname c (by simp [hc])
    have hdone : after groups (ws ++ '\x7b' :: (body ++ '\x7d' :: s')) =
        some (groups ++ [a ++ "Config".toList ++ b, body], s') := by
      refine (hbody _ _).2 ⟨ws, body, s', rfl, hws, hne, hclose, ?_⟩
      rw [List.append_assoc (a ++ "Config".toList ++ b) ws, take_length_sub_length]
      simp
    apply star_eq_some_of_unique
    · refine ⟨a, "Config".toList ++ b ++ (ws ++ '\x7b' :: (body ++ '\x7d' :: s')), by simp,
        fun c hc => hname c (by simp [hc]), ?_⟩
      rw [List.append_assoc, lit_eq_some]
      exact ⟨_, rfl, by rw [star_of_rejects hafter, dropWhile_append_of_stop hb hX, hdone]⟩
    · intro w t r' hs hw hr'
      obtain ⟨t', rfl, htail⟩ := lit_eq_some.1 hr'
      rw [star_of_rejects hafter] at htail
      have hdrop : t'.dropWhile word.isWord = ws ++ '\x7b' :: (body ++ '\x7d' :: s') := by
        have hfront : ∀ c ∈ w ++ "Config".toList, word.isWord c := by
          simp only [List.mem_append]
          rintro c (hc | hc)
          exacts [hw c hc, hword c hc]
        rw [← List.dropWhile_append_of_pos hfront, List.append_assoc, ← hs,
          ← dropWhile_append_of_stop hname hX]
        simp only [List.append_assoc]
      rw [hdrop, hdone] at htail
      exact (Option.some.inj htail).symm

/-- A name with `Config` in it does not start with a blank. -/
theorem configRest_rejects_space : Rejects isSpace (configRest word) := by
  intro groups c s hc
  by_contra hsome
  obtain ⟨r, hr⟩ := Option.ne_none_iff_exists'.1 hsome
  obtain ⟨name, ws, body, s', hs, hname, hinfix, -⟩ := configRest_eq_some.1 hr
  cases name with
  | nil => simp at hinfix
  | cons d name =>
    have hcd : c = d := by simpa using congrArg List.head? hs
    subst hcd
    simp [isSpace_of_isWord (hname c (List.mem_cons_self _ _))] at hc

/-- `config_pattern` matches exactly the config structs `ConfigDecl` describes. -/
theorem matchAt_configPattern (t : List Char) (groups : List (List Char)) (rest : List Char) :
    matchAt (configPattern word) t = some (groups, rest) ↔ ConfigDecl word t groups rest := by
  show lit "struct".toList [] t (fun groups s => plus isSpace groups s (configRest word)) =
    some (groups, rest) ↔ _
  simp only [lit_eq_some, plus_eq_some configRest_rejects_space, configRest_eq_some,
    List.nil_append, Prod.mk.injEq, ConfigDecl, List.append_assoc]
  constructor
  · rintro ⟨_, rfl, ws, _, rfl, hne, hws, name, ws', body, s', rfl, hname, hinfix, hws', hbody,
      hclose, rfl, rfl⟩
    exact ⟨ws, name, ws', body, rfl, hne, hws, hname, hinfix, hws', hbody, hclose, rfl⟩
  · rintro ⟨ws, name, ws', body, rfl, hne, hws, hname, hinfix, hws', hbody, hclose, rfl⟩
    exact ⟨_, rfl, ws, _, rfl, hne, hws, name, ws', body, rest, rfl, hname, hinfix, hws', hbody,
      hclose, rfl, rfl⟩

end Config

/-! ## `doc_pattern` -/

/-- What `\*/\s*(class|struct)\s+(\w+)` matches at the start of `t`, leaving `rest`: the end of a
comment, blanks, `class` or `struct`, blanks, and a name that runs to the end of its word. The
groups are the keyword and the name. -/
def DocTail (word : WordClass) (t : List Char) (groups : List (List Char)) (rest : List Char) :
    Prop :=
  ∃ ws keyword ws' name, t = "*/".toList ++ ws ++ keyword ++ ws' ++ name ++ rest ∧
    (∀ c ∈ ws, isSpace c) ∧ (keyword = "class".toList ∨ keyword = "struct".toList) ∧
    ws' ≠ [] ∧ (∀ c ∈ ws', isSpace c) ∧ name ≠ [] ∧ (∀ c ∈ name, word.isWord c) ∧
    (∀ c ∈ rest.head?, word.isWord c = false) ∧ groups = [keyword, name]

/-- What `doc_pattern` matches at the start of `t`, leaving `rest`: `/**`, then the shortest text
after which a `DocTail` follows. -/
def DocDecl (word : WordClass) (t : List Char) (groups : List (List Char)) (rest : List Char) :
    Prop :=
  ∃ inner tail, t = "/**".toList ++ inner ++ tail ∧ DocTail word tail groups rest ∧
    ∀ w₁ w₂, inner = w₁ ++ w₂ → w₂ ≠ [] → ∀ groups' rest',
      ¬ DocTail word (w₂ ++ tail) groups' rest'

section Doc

variable {groups : List (List Char)} {s : List Char} {k : Cont} {r : List (List Char) × List Char}

/-- `(class|struct)`. -/
theorem keyword_eq_some :
    group (alt (lit "class".toList) (lit "struct".toList)) groups s k = some r ↔
      ∃ keyword s', s = keyword ++ s' ∧
        (keyword = "class".toList ∨ keyword = "struct".toList) ∧
        k (groups ++ [keyword]) s' = some r := by
  simp only [group, alt, Option.or_eq_some, lit_eq_some]
  constructor
  · rintro (⟨s', rfl, hr⟩ | ⟨-, s', rfl, hr⟩)
    · exact ⟨_, s', rfl, .inl rfl, by rwa [take_length_sub_length] at hr⟩
    · exact ⟨_, s', rfl, .inr rfl, by rwa [take_length_sub_length] at hr⟩
  · rintro ⟨keyword, s', rfl, rfl | rfl, hr⟩
    · exact .inl ⟨s', rfl, by rwa [take_length_sub_length]⟩
    · refine .inr ⟨?_, s', rfl, by rwa [take_length_sub_length]⟩
      by_contra hsome
      obtain ⟨r', hr'⟩ := Option.ne_none_iff_exists'.1 hsome
      obtain ⟨s'', hs, -⟩ := lit_eq_some.1 hr'
      simpa using congrArg List.head? hs

/-- The rest of `doc_pattern` after the lazy `[\s\S]*?`. -/
def docRest (word : WordClass) : Cont := fun groups s =>
  cat [lit "*/".toList, star isSpace, group (alt (lit "class".toList) (lit "struct".toList)),
    plus isSpace, group (plus word.isWord)] groups s done

theorem docRest_eq_some :
    docRest word groups s = some r ↔
      ∃ groups' rest, DocTail word s groups' rest ∧ (groups ++ groups', rest) = r := by
  have hname : Rejects isSpace fun groups s => group (plus word.isWord) groups s done := by
    intro groups c s hc
    simp [group, plus, word.isWord_of_isSpace c hc]
  have hkeyword : Rejects isSpace fun groups s =>
      group (alt (lit "class".toList) (lit "struct".toList)) groups s fun groups s =>
        plus isSpace groups s fun groups s => group (plus word.isWord) groups s done := by
    intro groups c s hc
    have hc' : c ≠ 'c' := fun h => absurd (h ▸ hc) (by decide)
    have hs' : c ≠ 's' := fun h => absurd (h ▸ hc) (by decide)
    simp [group, alt, lit, Ne.symm hc', Ne.symm hs']
  simp only [docRest, cat, lit_eq_some, star_eq_some hkeyword]
  simp only [keyword_eq_some, plus_eq_some hname, group_plus_done, DocTail, List.append_assoc]
  constructor
  · rintro ⟨_, rfl, ws, _, rfl, hws, keyword, _, rfl, hkw, ws', _, rfl, hne, hws', name, rest,
      rfl, hname, hword, hstop, rfl⟩
    exact ⟨[keyword, name], rest, ⟨ws, keyword, ws', name, rfl, hws, hkw, hne, hws', hname,
      hword, hstop, rfl⟩, by simp⟩
  · rintro ⟨_, rest, ⟨ws, keyword, ws', name, rfl, hws, hkw, hne, hws', hname, hword, hstop,
      rfl⟩, rfl⟩
    exact ⟨_, rfl, ws, _, rfl, hws, keyword, _, rfl, hkw, ws', _, rfl, hne, hws', name, rest,
      rfl, hname, hword, hstop, by simp⟩

/-- `doc_pattern` matches exactly the documented declarations `DocDecl` describes. -/
theorem matchAt_docPattern (t : List Char) (groups : List (List Char)) (rest : List Char) :
    matchAt (docPattern word) t = some (groups, rest) ↔ DocDecl word t groups rest := by
  have hnone : ∀ t, docRest word [] t = none ↔ ∀ groups' rest', ¬ DocTail word t groups' rest' := by
    intro t
    rw [← not_iff_not, ← ne_eq, Option.ne_none_iff_exists']
    simp only [docRest_eq_some, not_forall, not_not]
    constructor
    · rintro ⟨_, groups', rest', h, -⟩
      exact ⟨groups', rest', h⟩
    · rintro ⟨groups', rest', h⟩
      exact ⟨_, groups', rest', h, rfl⟩
  show lit "/**".toList [] t (fun groups s => lazyStar anyChar groups s (docRest word)) =
    some (groups, rest) ↔ _
  simp only [lit_eq_some, lazyStar_eq_some, docRest_eq_some, hnone, List.nil_append,
    Prod.mk.injEq, DocDecl, List.append_assoc]
  constructor
  · rintro ⟨_, rfl, inner, tail, rfl, -, ⟨groups', rest', h, rfl, rfl⟩, hfirst⟩
    exact ⟨inner, tail, rfl, h, hfirst⟩
  · rintro ⟨inner, tail, rfl, h, hfirst⟩
    exact ⟨_, rfl, inner, tail, rfl, fun _ _ => rfl, ⟨groups, rest, h, rfl, rfl⟩, hfirst⟩

end Doc

/-! ## The chunks of a header -/

theorem docPattern_consumes : Consumes (docPattern word) := by
  intro t groups rest h
  obtain ⟨inner, _, rfl, ⟨ws, keyword, ws', name, rfl, -⟩, -⟩ :=
    (matchAt_docPattern t groups rest).1 h
  exact ⟨"/**".toList ++ inner ++ ("*/".toList ++ ws ++ keyword ++ ws' ++ name), by simp,
    by simp⟩

theorem enumPattern_consumes : Consumes (enumPattern word) := by
  intro t groups rest h
  obtain ⟨ws, cls, name, ws', body, rfl, -⟩ := (matchAt_enumPattern t groups rest).1 h
  exact ⟨"enum".toList ++ ws ++ cls ++ name ++ ws' ++ '\x7b' :: (body ++ ['\x7d']), by simp,
    by simp⟩

theorem configPattern_consumes : Consumes (configPattern word) := by
  intro t groups rest h
  obtain ⟨ws, name, ws', body, rfl, -⟩ := (matchAt_configPattern t groups rest).1 h
  exact ⟨"struct".toList ++ ws ++ name ++ ws' ++ '\x7b' :: (body ++ ['\x7d']), by simp,
    by simp⟩

/-- The chunks `extract_code_docs` builds from a header are, in this order, those of the
documented classes and structs, of the enums and of the config structs that a left-to-right
scan finds, each scan going on after the end of each declaration it finds. -/
theorem extractCodeDocs_scan (source : String) (content : List Char) :
    ∃ docs enums configs,
      LeftmostScan (DocDecl word) content docs ∧ LeftmostScan (EnumDecl word) content enums ∧
      LeftmostScan (ConfigDecl word) content configs ∧
      extractCodeDocs word source content =
        docs.map (docChunk source) ++ enums.map (enumChunk source) ++
          configs.map (configChunk source) :=
  ⟨_, _, _, finditer_scan docPattern_consumes matchAt_docPattern content,
    finditer_scan enumPattern_consumes matchAt_enumPattern content,
    finditer_scan configPattern_consumes matchAt_configPattern content, rfl⟩

/-- A doc block runs on to the first `*/` that a `class` or `struct` follows. -/
example : extractCodeDocs WordClass.asciiOnly "h.hpp" "/** a */ int x; /** b */ class Foo;".toList =
    [⟨"## Foo\n\n/** a */ int x; /** b */ class Foo".toList, "h.hpp", "code_doc"⟩] := by
  decide

/-! ## Declarations the patterns do not match -/

section Missed

/-- A blank or a word character: what may stand between the keyword and the brace. -/
def isSpaceOrWord (word : WordClass) (c : Char) : Bool := isSpace c || word.isWord c

theorem isSpaceOrWord_brace : isSpaceOrWord word '\x7b' = false := by
  rw [isSpaceOrWord, WordClass.isWord_brace, Bool.or_false]
  decide

/-- Where the keyword of `EnumDecl` or `ConfigDecl` is followed by blanks and word characters
and then by another character, that character is the opening brace. -/
theorem eq_brace_of_decl {front front' tail tail' : List Char} {c : Char}
    (h : front ++ c :: tail = front' ++ '\x7b' :: tail')
    (hfront : ∀ d ∈ front, isSpaceOrWord word d) (hfront' : ∀ d ∈ front', isSpaceOrWord word d)
    (hc : isSpaceOrWord word c = false) : c = '\x7b' := by
  obtain ⟨-, hafter⟩ := eq_of_append_eq_append_of_stop h hfront hfront' (by simpa using hc)
    (by simp [isSpaceOrWord_brace])
  exact (List.cons_eq_cons.1 hafter).1

theorem isSpaceOrWord_of_mem_class {c : Char} (hc : c ∈ ("class".toList : List Char)) :
    isSpaceOrWord word c := by
  simp only [isSpaceOrWord, WordClass.forall_isWord (by decide) c hc, Bool.or_true]

/-- `enum_pattern` and `config_pattern` match no declaration whose keyword is followed by blanks
and word characters and then by a character other than the opening brace: not an enum with a
fixed underlying type, `enum class E : T {`, nor a config struct with a base,
`struct C : B {`. -/
theorem matchAt_eq_none_of_not_brace {front rest : List Char} {c : Char}
    (hfront : ∀ d ∈ front, isSpaceOrWord word d) (hc : isSpaceOrWord word c = false)
    (hbrace : c ≠ '\x7b') :
    matchAt (enumPattern word) ("enum".toList ++ front ++ c :: rest) = none ∧
      matchAt (configPattern word) ("struct".toList ++ front ++ c :: rest) = none := by
  have hspace : ∀ {w : List Char}, (∀ d ∈ w, isSpace d) → ∀ d ∈ w, isSpaceOrWord word d :=
    fun hw d hd => by simp [isSpaceOrWord, hw d hd]
  have hword : ∀ {w : List Char}, (∀ d ∈ w, word.isWord d) → ∀ d ∈ w, isSpaceOrWord word d :=
    fun hw d hd => by simp [isSpaceOrWord, hw d hd]
  have hall : ∀ {a b : List Char}, (∀ d ∈ a, isSpaceOrWord word d) →
      (∀ d ∈ b, isSpaceOrWord word d) →
      ∀ d ∈ a ++ b, isSpaceOrWord word d := fun ha hb d hd => by
    rcases List.mem_append.1 hd with hd | hd
    exacts [ha d hd, hb d hd]
  constructor
  · rw [← Option.not_isSome_iff_eq_none, Option.isSome_iff_exists]
    rintro ⟨⟨groups, rest'⟩, h⟩
    obtain ⟨ws, cls, name, ws', body, ht, -, hws, hcls, -, hname, hws', -⟩ :=
      (matchAt_enumPattern _ _ _).1 h
    have hcls' : ∀ d ∈ cls, isSpaceOrWord word d := by
      rcases hcls with rfl | ⟨ws'', rfl, -, hws''⟩
      · simp
      · exact hall (fun d hd => isSpaceOrWord_of_mem_class hd) (hspace hws'')
    have ht' : front ++ c :: rest =
        ws ++ cls ++ name ++ ws' ++ '\x7b' :: (body ++ '\x7d' :: rest') := by
      simpa only [List.append_assoc, List.append_cancel_left_eq] using ht
    exact hbrace (eq_brace_of_decl ht' hfront
      (hall (hall (hall (hspace hws) hcls') (hword hname)) (hspace hws')) hc)
  · rw [← Option.not_isSome_iff_eq_none, Option.isSome_iff_exists]
    rintro ⟨⟨groups, rest'⟩, h⟩
    obtain ⟨ws, name, ws', body, ht, -, hws, hname, -, hws', -⟩ :=
      (matchAt_configPattern _ _ _).1 h
    have ht' : front ++ c :: rest = ws ++ name ++ ws' ++ '\x7b' :: (body ++ '\x7d' :: rest') := by
      simpa only [List.append_assoc, List.append_cancel_left_eq] using ht
    exact hbrace (eq_brace_of_decl ht' hfront (hall (hall (hspace hws) (hword hname)) (hspace hws'))
      hc)

/-- `enum RegimeConfig : uint8_t { … }` and `struct RegimeConfig : uint8_t { … }` start no match. -/
theorem matchAt_eq_none_of_not_brace_fixed_type :
    (∀ d ∈ " RegimeConfig ".toList, isSpaceOrWord WordClass.asciiOnly d) ∧
      isSpaceOrWord WordClass.asciiOnly ':' = false ∧ ':' ≠ '\x7b' ∧
      matchAt (enumPattern WordClass.asciiOnly)
        ("enum".toList ++ " RegimeConfig ".toList ++ ':' :: " uint8_t \x7b A, B \x7d;".toList) =
          none ∧
      matchAt (configPattern WordClass.asciiOnly)
        ("struct".toList ++ " RegimeConfig ".toList ++ ':' :: " uint8_t \x7b A, B \x7d;".toList) =
          none :=
  ⟨by decide, by decide, by decide,
    matchAt_eq_none_of_not_brace (by decide) (by decide) (by decide)⟩

end Missed

end Rag

end HftTradingSystem
