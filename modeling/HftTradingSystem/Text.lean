import Mathlib.Data.List.DropRight
import Mathlib.Algebra.Order.Field.Rat
import Mathlib.Data.Rat.Floor

/-!
# Python text

What the scripts use of Python's `str` and of text files, on a text modelled as its list of
code points: iterating a file opened in text mode (universal newlines; every line keeps its
`\n`), `strip()`, indexing a list, and the conversions `int(s)`, `float(s)` and `int(x)` of a
float; `str.split(',')` is `List.splitOn`. Floats are exact rationals, as elsewhere in the
model: `float(s)` is the exact value of the decimal literal `s`. An exception is an `Except`
error carrying its message. `int()` reads back every integer `toString` writes.
-/

namespace HftTradingSystem

namespace Text

/-- Results can be compared, so that a run on a concrete input is checked by evaluation. -/
instance decidableEqExcept {ε α : Type} [DecidableEq ε] [DecidableEq α] :
    DecidableEq (Except ε α)
  | .error a, .error b => decidable_of_iff (a = b) ⟨congrArg _, Except.error.inj⟩
  | .ok a, .ok b => decidable_of_iff (a = b) ⟨congrArg _, Except.ok.inj⟩
  | .error _, .ok _ => isFalse Except.noConfusion
  | .ok _, .error _ => isFalse Except.noConfusion

/-! ## Lines -/

/-- Reading in text mode: universal newlines turn `\r\n` and a lone `\r` into `\n`. -/
def readText : List Char → List Char
  | [] => []
  | '\r' :: '\n' :: s => '\n' :: readText s
  | '\r' :: s => '\n' :: readText s
  | c :: s => c :: readText s

/-- The lines `for line in file` yields, each with its `\n`; the last one may lack it. -/
def lines : List Char → List (List Char)
  | [] => []
  | c :: s =>
    if c = '\n' then [c] :: lines s
    else
      match lines s with
      | [] => [[c]]
      | l :: ls => (c :: l) :: ls

/-- A text that is empty or ends with `\n`: what follows it starts a new line. -/
def EndsLine (s : List Char) : Prop := s = [] ∨ s.getLast? = some '\n'

instance (s : List Char) : Decidable (EndsLine s) := inferInstanceAs (Decidable (_ ∨ _))

theorem readText_cons_of_ne {c : Char} (hc : c ≠ '\r') (s : List Char) :
    readText (c :: s) = c :: readText s :=
  readText.eq_4 c s (fun _ h => absurd h hc) hc

theorem not_mem_readText (s : List Char) : '\r' ∉ readText s := by
  induction s using readText.induct with
  | case1 => simp [readText]
  | case2 s ih => simpa [readText] using ih
  | case3 s hs ih => simpa [readText.eq_3 s hs] using ih
  | case4 c s _ hc ih => simpa [readText_cons_of_ne hc, Ne.symm hc] using ih

theorem readText_of_not_mem : ∀ {s : List Char}, '\r' ∉ s → readText s = s
  | [], _ => rfl
  | c :: s, hs => by
    rw [List.mem_cons, not_or] at hs
    rw [readText_cons_of_ne (Ne.symm hs.1), readText_of_not_mem hs.2]

@[simp]
theorem flatten_lines : ∀ s : List Char, (lines s).flatten = s
  | [] => rfl
  | c :: s => by
    have ih := flatten_lines s
    unfold lines
    split_ifs with hc
    · simp [hc, ih]
    · split <;> simp_all

theorem lines_eq_nil {s : List Char} : lines s = [] ↔ s = [] :=
  ⟨fun h => by simpa [h] using (flatten_lines s).symm, fun h => h ▸ rfl⟩

theorem EndsLine.of_cons {c : Char} : ∀ {s : List Char}, EndsLine (c :: s) → EndsLine s
  | [], _ => .inl rfl
  | _ :: _, hs => .inr (by simpa [EndsLine] using hs)

/-- After a text that ends a line, the lines of what follows are read on their own. -/
theorem lines_append : ∀ {s : List Char}, EndsLine s → ∀ t, lines (s ++ t) = lines s ++ lines t
  | [], _, _ => rfl
  | c :: s, hs, t => by
    have ih := lines_append hs.of_cons t
    by_cases hc : c = '\n'
    · simp [lines, hc, ih]
    · have hne : s ≠ [] := by rintro rfl; simp [EndsLine, hc] at hs
      obtain ⟨l, ls, hl⟩ := List.exists_cons_of_ne_nil (mt lines_eq_nil.1 hne)
      simp [lines, hc, ih, hl]

/-- Texts that each end a line but the last are read line by line, one text after another. -/
theorem lines_flatten : ∀ {ts : List (List Char)}, (∀ t ∈ ts.dropLast, EndsLine t) →
    lines ts.flatten = ts.flatMap lines
  | [], _ => rfl
  | [t], _ => by simp
  | t :: t' :: ts, hts => by
    have ih := lines_flatten fun u hu => hts u (List.mem_cons_of_mem t hu)
    rw [List.flatten_cons, lines_append (hts t (List.mem_cons_self t _)), List.flatMap_cons, ih]

theorem lines_line {l : List Char} (hl : '\n' ∉ l) : lines (l ++ ['\n']) = [l ++ ['\n']] := by
  induction l with
  | nil => rfl
  | cons c l ih =>
    rw [List.mem_cons, not_or] at hl
    simp [lines, Ne.symm hl.1, ih hl.2]

/-! ## Strip -/

/-- `str.isspace` of one character: the characters `strip()` removes. -/
def isSpace (c : Char) : Bool :=
  c = ' ' || ('\t' ≤ c && c ≤ '\r') || ('\x1c' ≤ c && c ≤ '\x1f') || c = '\x85' ||
    c = '\xa0' || c = '\u1680' || ('\u2000' ≤ c && c ≤ '\u200a') || c = '\u2028' ||
    c = '\u2029' || c = '\u202f' || c = '\u205f' || c = '\u3000'

/-- `s.strip()`. -/
def strip (s : List Char) : List Char := (s.dropWhile isSpace).rdropWhile isSpace

theorem length_strip_le (s : List Char) : (strip s).length ≤ s.length :=
  (List.rdropWhile_prefix _ _).sublist.length_le.trans (List.dropWhile_sublist _).length_le

theorem rdropWhile_append_of_all {p : Char → Bool} {w : List Char} (hw : ∀ c ∈ w, p c)
    (s : List Char) : (s ++ w).rdropWhile p = s.rdropWhile p := by
  simp only [List.rdropWhile, List.reverse_append]
  rw [List.dropWhile_append_of_pos (by simpa using hw)]

/-- Blanks at the end change nothing that `strip()` returns. -/
theorem strip_append_of_isSpace {w : List Char} (hw : ∀ c ∈ w, isSpace c) (s : List Char) :
    strip (s ++ w) = strip s := by
  unfold strip
  rw [List.dropWhile_append]
  split_ifs with hs
  · rw [List.isEmpty_iff.1 hs, List.dropWhile_eq_nil_iff.2 hw]
  · exact rdropWhile_append_of_all hw _

/-! ## Indexing and numbers -/

/-- A chain of steps that can raise returns only when each step returns. -/
@[simp]
theorem bind_eq_ok {ε α β : Type} {x : Except ε α} {f : α → Except ε β} {b : β} :
    x >>= f = .ok b ↔ ∃ a, x = .ok a ∧ f a = .ok b := by
  cases x <;> simp [bind, Except.bind]

@[simp]
theorem bind_eq_error {ε α β : Type} {x : Except ε α} {f : α → Except ε β} {e : ε} :
    x >>= f = .error e ↔ x = .error e ∨ ∃ a, x = .ok a ∧ f a = .error e := by
  cases x <;> simp [bind, Except.bind]

/-- `parts[i]`, with the `IndexError` past the end. -/
def getPart (parts : List (List Char)) (i : ℕ) : Except String (List Char) :=
  match parts[i]? with
  | some part => .ok part
  | none => .error ("list index out of range")

/-- The value of a string of decimal digits. -/
def digitsValue (ds : List Char) : ℕ :=
  ds.foldl (fun n c => 10 * n + (c.toNat - '0'.toNat)) 0

/-- A nonempty run of decimal digits. -/
def isDigits (ds : List Char) : Bool := !ds.isEmpty && ds.all Char.isDigit

/-- An optional leading sign: whether it is `-`, and the rest. -/
def splitSign : List Char → Bool × List Char
  | '-' :: s => (true, s)
  | '+' :: s => (false, s)
  | s => (false, s)

/-- A magnitude with its sign. -/
def signed (negative : Bool) (n : ℕ) : ℤ := if negative then -n else n

/-- `repr(s)` in an error message, for a text with no quote or backslash in it. -/
def quoted (s : List Char) : String := "'" ++ String.mk s ++ "'"

/-- `int(s)`: decimal digits after an optional sign, blanks around them allowed. -/
def parseInt (s : List Char) : Except String ℤ :=
  let (negative, ds) := splitSign (strip s)
  if isDigits ds then .ok (signed negative (digitsValue ds))
  else .error ("invalid literal for int() with base 10: " ++ quoted s)

/-- A float literal's sign, its digits read as one number, and the power of ten that scales
them: `-1.25e1` is `⟨true, 125, -1⟩`. -/
structure Decimal where
  negative : Bool
  digits : ℕ
  exponent : ℤ
  deriving DecidableEq, Repr

/-- The exact value of a float literal. -/
def Decimal.value (d : Decimal) : ℚ := (signed d.negative d.digits : ℚ) * (10 : ℚ) ^ d.exponent

/-- The exponent of a float literal, `e` or `E` and a signed integer, or none at all. -/
def parseExponent : List Char → Option ℤ
  | [] => some 0
  | e :: s =>
    if e = 'e' ∨ e = 'E' then
      let (negative, ds) := splitSign s
      if isDigits ds then some (signed negative (digitsValue ds)) else none
    else none

/-- A float literal: a sign, digits with an optional fraction (one digit at least), and an
optional exponent. -/
def decimalLiteral (s : List Char) : Option Decimal :=
  let (negative, s) := splitSign s
  let (intDigits, s) := s.span Char.isDigit
  let (fracDigits, s) := match s with
    | '.' :: s => s.span Char.isDigit
    | s => ([], s)
  if intDigits.isEmpty && fracDigits.isEmpty then none
  else (parseExponent s).map fun exponent =>
    ⟨negative, digitsValue (intDigits ++ fracDigits), exponent - fracDigits.length⟩

/-- `float(s)`: a float literal, blanks around it allowed. -/
def parseFloat (s : List Char) : Except String ℚ :=
  match decimalLiteral (strip s) with
  | some d => .ok d.value
  | none => .error ("could not convert string to float: " ++ quoted s)

theorem parseFloat_of_decimalLiteral {s : List Char} {d : Decimal}
    (hs : decimalLiteral (strip s) = some d) : parseFloat s = .ok d.value := by
  rw [parseFloat, hs]

example : decimalLiteral (strip "-1.5e-3\n".toList) = some ⟨true, 15, -4⟩ := by decide

example : decimalLiteral (strip "1.5.3".toList) = none := by decide

/-- `int(x)` of a float: the integer part, rounded toward zero. -/
def truncate (x : ℚ) : ℤ := if 0 ≤ x then ⌊x⌋ else ⌈x⌉

/-- A positive integer is at most `int(x)` exactly when it is at most `x`. -/
theorem le_truncate_iff {z : ℤ} (hz : 0 < z) {x : ℚ} : z ≤ truncate x ↔ (z : ℚ) ≤ x := by
  unfold truncate
  split_ifs with hx
  · exact Int.le_floor
  · have hceil : ⌈x⌉ ≤ 0 := Int.ceil_le.2 (by push_cast; linarith)
    constructor <;> intro h
    · omega
    · have : (0 : ℚ) < z := by exact_mod_cast hz
      linarith

/-! ## Reading back what `toString` writes -/

theorem foldl_digitsValue (k : ℕ) (ds : List Char) :
    ds.foldl (fun n c => 10 * n + (c.toNat - '0'.toNat)) k =
      k * 10 ^ ds.length + digitsValue ds := by
  induction ds generalizing k with
  | nil => simp [digitsValue]
  | cons c ds ih =>
    have hc : digitsValue (c :: ds) =
        (c.toNat - '0'.toNat) * 10 ^ ds.length + digitsValue ds := by
      rw [digitsValue, List.foldl_cons, ih]
      simp
    rw [List.foldl_cons, ih, hc, List.length_cons, pow_succ]
    ring

theorem digitsValue_append (a b : List Char) :
    digitsValue (a ++ b) = digitsValue a * 10 ^ b.length + digitsValue b := by
  rw [digitsValue, List.foldl_append, foldl_digitsValue]
  rfl

/-- What the ten digits `toString` writes are: decimal digits, read as their values, and none of
a blank, a sign, a comma or a newline. -/
theorem digitChar_facts : ∀ k < 10, let c := Nat.digitChar k
    c.isDigit ∧ digitsValue [c] = k ∧ ¬isSpace c ∧ c ≠ '-' ∧ c ≠ '+' ∧ c ≠ ',' ∧ c ≠ '\n' := by
  decide

/-- The digits `toString` writes for a natural number. -/
theorem toDigitsCore_eq : ∀ (fuel n : ℕ) (ds : List Char), n < fuel →
    ∃ front, Nat.toDigitsCore 10 fuel n ds = front ++ ds ∧ front ≠ [] ∧
      (∀ c ∈ front, ∃ k < 10, c = Nat.digitChar k) ∧ digitsValue front = n
  | 0, _, _, h => absurd h (Nat.not_lt_zero _)
  | fuel + 1, n, ds, h => by
    have hk : n % 10 < 10 := Nat.mod_lt _ (by norm_num)
    have hvalue := (digitChar_facts (n % 10) hk).2.1
    have hstep : Nat.toDigitsCore 10 (fuel + 1) n ds =
        if n / 10 = 0 then Nat.digitChar (n % 10) :: ds
        else Nat.toDigitsCore 10 fuel (n / 10) (Nat.digitChar (n % 10) :: ds) := rfl
    rw [hstep]
    split_ifs with hn
    · refine ⟨[Nat.digitChar (n % 10)], rfl, by simp, by simpa using ⟨n % 10, hk, rfl⟩, ?_⟩
      rw [hvalue]; omega
    · obtain ⟨front, hfront, hne, hdigits, hval⟩ :=
        toDigitsCore_eq fuel (n / 10) (Nat.digitChar (n % 10) :: ds) (by omega)
      refine ⟨front ++ [Nat.digitChar (n % 10)], by simp [hfront], by simp, ?_, ?_⟩
      · rintro c hc
        rcases List.mem_append.1 hc with hc | hc
        exacts [hdigits c hc, ⟨n % 10, hk, List.eq_of_mem_singleton hc⟩]
      · rw [digitsValue_append, hval, hvalue]; simp; omega

theorem toString_digits (n : ℕ) : ∃ front, (toString n).toList = front ∧ front ≠ [] ∧
    (∀ c ∈ front, ∃ k < 10, c = Nat.digitChar k) ∧ digitsValue front = n := by
  obtain ⟨front, h, hne, hdigits, hval⟩ := toDigitsCore_eq (n + 1) n [] (Nat.lt_succ_self n)
  exact ⟨front, by rw [← List.append_nil front, ← h]; rfl, hne, hdigits, hval⟩

theorem strip_of_not_isSpace {l : List Char} (hl : ∀ c ∈ l, ¬isSpace c) : strip l = l := by
  have hdrop : l.dropWhile isSpace = l := by
    cases l with
    | nil => rfl
    | cons c l => simp [List.dropWhile_cons, hl c (List.mem_cons_self c l)]
  rw [strip, hdrop, List.rdropWhile_eq_self_iff]
  exact fun hne => hl _ (List.getLast_mem hne)

theorem splitSign_of_ne {c : Char} (hminus : c ≠ '-') (hplus : c ≠ '+') (s : List Char) :
    splitSign (c :: s) = (false, c :: s) :=
  splitSign.eq_3 (c :: s) (fun _ h => hminus (List.cons.inj h).1)
    (fun _ h => hplus (List.cons.inj h).1)

theorem parseInt_digits {front : List Char} (hne : front ≠ [])
    (hdigits : ∀ c ∈ front, ∃ k < 10, c = Nat.digitChar k) (negative : Bool) :
    parseInt ((if negative then ['-'] else []) ++ front) =
      .ok (signed negative (digitsValue front)) := by
  have hspace : ∀ c ∈ front, ¬isSpace c := fun c hc => by
    obtain ⟨k, hk, rfl⟩ := hdigits c hc
    exact (digitChar_facts k hk).2.2.1
  have hisDigits : isDigits front := by
    rw [isDigits, Bool.and_eq_true]
    refine ⟨by simpa [List.isEmpty_iff] using hne, List.all_eq_true.2 fun c hc => ?_⟩
    obtain ⟨k, hk, rfl⟩ := hdigits c hc
    exact (digitChar_facts k hk).1
  obtain ⟨c, rest, rfl⟩ := List.exists_cons_of_ne_nil hne
  obtain ⟨k, hk, rfl⟩ := hdigits _ (List.mem_cons_self _ _)
  obtain ⟨-, -, -, hminus, hplus, -⟩ := digitChar_facts k hk
  cases negative
  · simp only [parseInt, Bool.false_eq_true, if_false, List.nil_append,
      strip_of_not_isSpace hspace, splitSign_of_ne hminus hplus, hisDigits]
    rfl
  · have hspace' : ∀ c ∈ '-' :: Nat.digitChar k :: rest, ¬isSpace c :=
      List.forall_mem_cons.2 ⟨by decide, hspace⟩
    simp only [parseInt, if_true, List.singleton_append, strip_of_not_isSpace hspace', splitSign,
      hisDigits]

/-- `int()` reads back what `toString` writes. -/
theorem parseInt_toString (i : ℤ) : parseInt (toString i).toList = .ok i := by
  cases i with
  | ofNat m =>
    obtain ⟨front, hfront, hne, hdigits, hval⟩ := toString_digits m
    have := parseInt_digits hne hdigits false
    simp only [Bool.false_eq_true, if_false, List.nil_append, hval, signed] at this
    rw [show (toString (Int.ofNat m)).toList = front from hfront, this]
    rfl
  | negSucc m =>
    obtain ⟨front, hfront, hne, hdigits, hval⟩ := toString_digits (m + 1)
    have := parseInt_digits hne hdigits true
    simp only [if_true, List.singleton_append, hval, signed] at this
    rw [show (toString (Int.negSucc m)).toList = '-' :: front from congrArg (List.cons '-') hfront,
      this]
    rfl

example : parseInt " -17".toList = .ok (-17) := by decide

end Text

end HftTradingSystem
