import HiddenText.Proofs.Codepoint.Label
import HiddenText.Proofs.Json.Write
import HiddenText.Proofs.Toml.Reader
import HiddenText.Proofs.Toml.Sound
import Mathlib.Tactic.FinCases
import Mathlib.Tactic.IntervalCases

/-! # Documents written to be read

A plain document gives each of its keys, one on a line, a list of strings, a count or a truth
value.  It is read as what it was written from, whatever the strings hold (`parse_write`). -/
set_option autoImplicit false

namespace HiddenText.Toml

/-! ## Writing -/

inductive Plain
  | strings (texts : List String)
  | count (n : Nat)
  | truth (b : Bool)
  deriving DecidableEq, Repr

namespace Plain

def value : Plain → Value
  | .strings texts => .array (texts.map .string)
  | .count n => .integer n
  | .truth b => .boolean b

/-- A character of a string; what cannot stand for itself is given by its number. -/
def escape (c : Char) : List Char :=
  if Reader.isUnescaped c then [c] else '\\' :: 'U' :: Hex.fixed .upper 8 c.toNat

def quote (text : String) : List Char := '"' :: text.toList.flatMap escape ++ ['"']

def quoteAll : List String → List Char
  | [] => []
  | text :: texts => quote text ++ texts.flatMap fun text => ',' :: quote text

def write : Plain → List Char
  | .strings texts => '[' :: quoteAll texts ++ [']']
  | .count n => Nat.toDigits 10 n
  | .truth b => (if b then "true" else "false").toList

def Fits : Plain → Prop
  | .count n => n < 0x8000000000000000
  | _ => True

end Plain

def write (fields : List (String × Plain)) : List Char :=
  fields.flatMap fun (key, plain) => key.toList ++ " = ".toList ++ plain.write ++ ['\n']

def IsBareKey (key : String) : Prop :=
  key.toList ≠ [] ∧ ∀ c ∈ key.toList, Reader.isBare c = true

namespace Reader

variable {rest : List Char}

/-! ## Strings -/

theorem hex_of_mem_fixed {width n : Nat} {c : Char} (mem : c ∈ Hex.fixed .upper width n) :
    isHex c = true := by
  obtain ⟨d, low, rfl⟩ := Hex.exists_digit_of_mem_fixed mem
  rw [isHex, Hex.digitValue?_digit .upper low]
  rfl

theorem length_fixed (case : Hex.Case) : ∀ width n : Nat,
    (Hex.fixed case width n).length = width := by
  intro width
  induction width with
  | zero => intro n; rfl
  | succ width ih => intro n; rw [Hex.fixed, List.length_append, ih]; rfl

theorem reads_numbered (c : Char) (rest : List Char) :
    Reads (numbered 8) (Hex.fixed .upper 8 c.toNat ++ rest) c rest := by
  have digits : Reads (exactly 8 isHex) (Hex.fixed .upper 8 c.toNat ++ rest)
      (Hex.fixed .upper 8 c.toNat) rest := by
    have hex : ∀ d ∈ Hex.fixed .upper 8 c.toNat, isHex d = true :=
      fun _ mem => hex_of_mem_fixed mem
    have read := reads_exactly (Hex.fixed .upper 8 c.toNat) hex rest
    rwa [length_fixed] at read
  refine digits.bind ?_
  have fits : c.toNat < 16 ^ 8 := Codepoint.toNat_lt c
  have valid : c.toNat.isValidChar := c.valid
  rw [Hex.value?_fixed .upper fits]
  show Reads (if c.toNat.isValidChar then pure (Char.ofNat c.toNat) else failure) rest c rest
  rw [if_pos valid, Char.ofNat_toNat]
  exact reads_pure c rest

theorem reads_escape (c : Char) (rest : List Char) :
    Reads (satisfying isUnescaped <|> escaped) (Plain.escape c ++ rest) c rest := by
  rw [Plain.escape]
  split
  case isTrue plain => exact (reads_satisfying plain rest).orElse
  case isFalse =>
    have backslash : Refuses (satisfying isUnescaped)
        ('\\' :: 'U' :: (Hex.fixed .upper 8 c.toNat ++ rest)) := rfl
    refine backslash.reads_orElse ((reads_char '\\' _).bind ?_)
    exact (reads_satisfying rfl _).bind (reads_numbered c rest)

theorem escape_ne_nil (c : Char) : Plain.escape c ≠ [] := by
  rw [Plain.escape]
  split <;> exact List.cons_ne_nil _ _

theorem reads_escapes (rest : List Char) : ∀ text : List Char,
    Reads (repeated (satisfying isUnescaped <|> escaped)) (text.flatMap Plain.escape ++ '"' :: rest)
      text ('"' :: rest) := by
  intro text
  induction text with
  | nil =>
      refine Refuses.repeated ?_
      rfl
  | cons c text ih =>
      rw [List.flatMap_cons, List.append_assoc]
      refine (reads_escape c _).repeated ?_ ih
      have some := List.length_pos_iff.mpr (escape_ne_nil c)
      simp only [List.length_append]
      omega

theorem reads_basicString (text : String) (rest : List Char) :
    Reads basicString (Plain.quote text ++ rest) text.toList rest := by
  have whole : Plain.quote text ++ rest =
      '"' :: (text.toList.flatMap Plain.escape ++ '"' :: rest) := by
    simp [Plain.quote]
  rw [whole]
  exact (reads_char '"' _).bind ((reads_escapes rest text.toList).bind
    ((reads_char '"' rest).bind (reads_pure _ rest)))

/-- A string that is written between single quotes begins no block. -/
theorem refuses_block (text : String) (h : Ends (· = '"') rest) :
    Refuses blockBasicString (Plain.quote text ++ rest) := by
  have three : Refuses (exactly 3 (· = '"')) (Plain.quote text ++ rest) := by
    rw [Plain.quote]
    cases characters : text.toList with
    | nil =>
        cases rest with
        | nil => rfl
        | cons c rest =>
            have other := ends_cons_iff.mp h
            simp [Refuses, exactly, other]
    | cons c more =>
        have first : ∃ d tail, Plain.escape c = d :: tail ∧ d ≠ '"' := by
          rw [Plain.escape]
          split
          case isTrue plain =>
            refine ⟨c, [], rfl, ?_⟩
            rintro rfl
            cases plain
          case isFalse => exact ⟨'\\', _, rfl, by decide⟩
        obtain ⟨d, tail, escaped, other⟩ := first
        simp [Refuses, exactly, escaped, other]
  exact three.bind

theorem reads_string (text : String) (h : Ends (· = '"') rest) :
    Reads scalar (Plain.quote text ++ rest) (.string text) rest := by
  have read : Reads string (Plain.quote text ++ rest) (String.ofList text.toList) rest :=
    ((refuses_block text h).reads_orElse (reads_basicString text rest).orElse).map String.ofList
  rw [String.ofList_toList] at read
  exact (read.map Value.string).orElse

theorem reads_value_of_scalar {text : List Char} {v : Value} (h : Reads scalar text v rest) :
    ∀ depth, Reads (value depth) text v rest
  | 0 => h
  | _ + 1 => h.orElse

/-! ## Lists -/

theorem reads_gap
    (h : Refuses ((fun _ => ()) <$> satisfying isSpace <|> newline <|> comment) rest) :
    Reads gap rest () rest := h.repeated.bind (reads_pure () rest)

theorem reads_gap_of_quote (text : String) (rest : List Char) :
    Reads gap (Plain.quote text ++ rest) () (Plain.quote text ++ rest) := reads_gap rfl

theorem reads_item (depth : Nat) (text : String) {c : Char} (other : c ≠ '"')
    (h : Reads gap (c :: rest) () (c :: rest)) :
    Reads (gap *> value depth <* gap) (Plain.quote text ++ c :: rest) (.string text) (c :: rest) :=
  ((reads_gap_of_quote text _).seqRight (reads_value_of_scalar
    (reads_string text (ends_cons_iff.mpr (decide_eq_false other))) depth)).seqLeft h

theorem reads_nextItem (depth : Nat) (text : String) (texts : List String) (rest : List Char) :
    Reads (gap *> value depth <* gap)
      (Plain.quote text ++ (texts.flatMap (fun text => ',' :: Plain.quote text) ++ ']' :: rest))
      (.string text) (texts.flatMap (fun text => ',' :: Plain.quote text) ++ ']' :: rest) := by
  cases texts with
  | nil => exact reads_item depth text (by decide) (reads_gap rfl)
  | cons next texts =>
      rw [List.flatMap_cons, List.append_assoc, List.cons_append]
      exact reads_item depth text (by decide) (reads_gap rfl)

/-- The items after the first one, each behind a comma. -/
theorem reads_furtherItems (depth : Nat) (rest : List Char) : ∀ texts : List String,
    Reads (repeated (char ',' *> (gap *> value depth <* gap)))
      (texts.flatMap (fun text => ',' :: Plain.quote text) ++ ']' :: rest)
      (texts.map Value.string) (']' :: rest) := by
  intro texts
  induction texts with
  | nil =>
      refine Refuses.repeated ?_
      rfl
  | cons text texts ih =>
      rw [List.flatMap_cons, List.append_assoc, List.cons_append]
      have item := (reads_char ',' _).seqRight (reads_nextItem depth text texts rest)
      refine item.repeated ?_ ih
      simp only [List.length_cons, List.length_append]
      omega

theorem reads_items (depth : Nat) (rest : List Char) (texts : List String) :
    Reads (separated (gap *> value depth <* gap) (char ','))
      (Plain.quoteAll texts ++ ']' :: rest) (texts.map Value.string) (']' :: rest) := by
  cases texts with
  | nil =>
      have none : Refuses (value depth) (']' :: rest) := by cases depth <;> rfl
      have item : Refuses (gap *> value depth) (']' :: rest) :=
        Reads.refuses_bind (reads_gap rfl) none
      exact Refuses.separated item.seqLeft
  | cons text texts =>
      rw [Plain.quoteAll, List.append_assoc]
      exact (reads_nextItem depth text texts rest).separated (reads_furtherItems depth rest texts)

theorem reads_array (depth : Nat) (texts : List String) (rest : List Char) :
    Reads (array (value depth)) ((Plain.strings texts).write ++ rest)
      (Plain.strings texts).value rest := by
  have whole : (Plain.strings texts).write ++ rest =
      '[' :: (Plain.quoteAll texts ++ ']' :: rest) := by
    simp [Plain.write]
  have blanks : Reads gap (']' :: rest) () (']' :: rest) := reads_gap rfl
  have close : Reads (do gap; char ']'; pure (.array (texts.map Value.string)))
      (']' :: rest) (Plain.strings texts).value rest :=
    blanks.bind ((reads_char ']' rest).bind (reads_pure _ rest))
  rw [whole]
  refine (reads_char '[' _).bind ((reads_items depth rest texts).bind ?_)
  by_cases none : texts.map Value.string = []
  · show Reads (if texts.map Value.string ≠ [] then _ else _) _ _ _
    rw [if_neg (not_not.mpr none)]
    exact close
  · show Reads (if texts.map Value.string ≠ [] then _ else _) _ _ _
    rw [if_pos none]
    exact Reads.bind (Refuses.optional rfl) close

/-! ## Counts -/

theorem exists_digitChar {c : Char} (h : c.isDigit = true) : ∃ d < 10, c = Nat.digitChar d := by
  obtain ⟨low, high⟩ : '0'.toNat ≤ c.toNat ∧ c.toNat ≤ '9'.toNat := by
    simpa [Char.isDigit, Char.le_def, UInt32.le_iff_toNat_le] using h
  have table : ∀ n < 58, 48 ≤ n → ∃ d < 10, Char.ofNat n = Nat.digitChar d := by decide
  have entry := table c.toNat (Nat.lt_succ_of_le high) low
  rwa [Char.ofNat_toNat] at entry

/-- A line that goes on with digits begins with a digit or ends here. -/
theorem ends_of_digits {p : Char → Bool} (digits : ∀ d < 10, p (Nat.digitChar d) = false)
    (line : p '\n' = false) {ds : List Char} (all : ∀ c ∈ ds, c.isDigit = true)
    (rest : List Char) : Ends p (ds ++ '\n' :: rest) := by
  cases ds with
  | nil => exact ends_cons_iff.mpr line
  | cons c ds =>
      obtain ⟨d, low, rfl⟩ := exists_digitChar (all c (List.mem_cons_self ..))
      exact ends_cons_iff.mpr (digits d low)

/-- Taking a number of digits leaves a line that goes on with digits. -/
theorem exactly_digits {ds : List Char} (all : ∀ c ∈ ds, c.isDigit = true) (rest : List Char)
    (width : Nat) : Refuses (exactly width Char.isDigit) (ds ++ '\n' :: rest) ∨
      ∃ taken ds', (∀ c ∈ ds', c.isDigit = true) ∧
        Reads (exactly width Char.isDigit) (ds ++ '\n' :: rest) taken (ds' ++ '\n' :: rest) := by
  by_cases enough : width ≤ ds.length
  · right
    refine ⟨ds.take width, ds.drop width, fun c mem => all c (List.mem_of_mem_drop mem), ?_⟩
    have taken := reads_exactly (ds.take width) (fun c mem => all c (List.mem_of_mem_take mem))
      (ds.drop width ++ '\n' :: rest)
    rwa [List.length_take, Nat.min_eq_left enough, ← List.append_assoc,
      List.take_append_drop] at taken
  · left
    have short : (ds ++ '\n' :: rest).take width =
        ds ++ ('\n' :: rest).take (width - ds.length) := by
      rw [List.take_append, List.take_of_length_le (by omega)]
    have stop : (('\n' :: rest).take (width - ds.length)).takeWhile Char.isDigit = [] := by
      obtain ⟨more, positive⟩ := Nat.exists_eq_add_of_lt (Nat.sub_pos_of_lt (Nat.not_le.mp enough))
      rw [positive, Nat.zero_add, List.take_succ_cons]
      exact List.takeWhile_cons_of_neg (by decide)
    rw [Refuses, exactly, short, List.takeWhile_append_of_pos all, stop, List.append_nil]
    simp only [if_neg (show ¬ ds.length = width by omega)]

/-- A line that is all digits has no mark after any of them. -/
theorem refuses_marked {β : Type} {ds : List Char} (all : ∀ c ∈ ds, c.isDigit = true)
    (rest : List Char) (width least greatest : Nat) {mark : Char} (next : Nat → Reader β)
    (other : ∀ d < 10, Nat.digitChar d ≠ mark) (line : '\n' ≠ mark) :
    Refuses (bounded width least greatest >>= fun n => char mark >>= fun _ => next n)
      (ds ++ '\n' :: rest) := by
  rcases exactly_digits all rest width with refused | ⟨taken, ds', all', read⟩
  · exact refused.bind.bind
  · have unmarked : Refuses (char mark) (ds' ++ '\n' :: rest) := refuses_char <|
      ends_of_digits (fun d low => decide_eq_false (other d low)) (decide_eq_false line) all' rest
    by_cases within : least ≤ decimalValue taken ∧ decimalValue taken ≤ greatest
    · have number : Reads (bounded width least greatest) (ds ++ '\n' :: rest)
          (decimalValue taken) (ds' ++ '\n' :: rest) := by
        refine read.bind ?_
        show Reads (if least ≤ decimalValue taken ∧ decimalValue taken ≤ greatest then _ else _)
          _ _ _
        rw [if_pos within]
        exact reads_pure _ _
      exact number.refuses_bind unmarked.bind
    · refine Refuses.bind (read.refuses_bind ?_)
      show Refuses (if least ≤ decimalValue taken ∧ decimalValue taken ≤ greatest then _ else _) _
      rw [if_neg within]
      rfl

theorem refuses_moment {ds : List Char} (all : ∀ c ∈ ds, c.isDigit = true) (rest : List Char) :
    Refuses moment (ds ++ '\n' :: rest) := by
  have date : Refuses date (ds ++ '\n' :: rest) :=
    refuses_marked all rest 4 0 9999 _ (by decide) (by decide)
  have time : Refuses time (ds ++ '\n' :: rest) :=
    refuses_marked all rest 2 0 23 _ (by decide) (by decide)
  exact date.bind.orElse (time.map _)

theorem reads_furtherDigits (rest : List Char) : ∀ ds : List Char,
    (∀ c ∈ ds, c.isDigit = true) →
    Reads (repeated (satisfying Char.isDigit <|> char '_' *> satisfying Char.isDigit))
      (ds ++ '\n' :: rest) ds ('\n' :: rest) := by
  intro ds
  induction ds with
  | nil =>
      intro _
      refine Refuses.repeated ?_
      rfl
  | cons c ds ih =>
      intro all
      obtain ⟨digit, all⟩ := List.forall_mem_cons.mp all
      refine Reads.repeated (reads_satisfying digit _).orElse ?_ (ih all)
      exact Nat.lt_succ_self _

theorem exists_toDigits {n : Nat} (positive : n ≠ 0) : ∃ d ds, d < 10 ∧ d ≠ 0 ∧
    Nat.toDigits 10 n = Nat.digitChar d :: ds ∧ ∀ c ∈ ds, c.isDigit = true := by
  have all : ∀ c ∈ Nat.toDigits 10 n, c.isDigit = true :=
    fun c mem => Nat.isDigit_of_mem_toDigits (by decide) (by decide) mem
  have first := Json.head_toDigits n positive
  cases digits : Nat.toDigits 10 n with
  | nil => exact absurd digits Nat.toDigits_ne_nil
  | cons c ds =>
      rw [digits] at all first
      obtain ⟨digit, further⟩ := List.forall_mem_cons.mp all
      obtain ⟨d, low, rfl⟩ := exists_digitChar digit
      refine ⟨d, ds, low, ?_, rfl, further⟩
      rintro rfl
      exact first rfl

theorem reads_inRange {n : Nat} (fits : n < 0x8000000000000000) (text : List Char) :
    Reads (inRange n) text (.integer n) text := by
  have within : -0x8000000000000000 ≤ (n : Int) ∧ (n : Int) < 0x8000000000000000 := by omega
  rw [inRange, if_pos within]
  exact reads_pure _ _

/-- Readers of other values refuse a number on a line of its own. -/
theorem reads_digits {d n : Nat} {ds rest : List Char} (low : d < 10)
    (all : ∀ c ∈ ds, c.isDigit = true) (number : decimalValue (Nat.digitChar d :: ds) = n)
    (fits : n < 0x8000000000000000)
    (unbased : ∀ marker ∈ ["0x", "0o", "0b"],
      Refuses (literal marker) (Nat.digitChar d :: (ds ++ '\n' :: rest)))
    (whole : Reads wholeDigits (Nat.digitChar d :: (ds ++ '\n' :: rest)) (Nat.digitChar d :: ds)
      ('\n' :: rest)) :
    Reads scalar (Nat.digitChar d :: (ds ++ '\n' :: rest)) (.integer n) ('\n' :: rest) := by
  have digit : (Nat.digitChar d).isDigit = true := by interval_cases d <;> rfl
  have moments := refuses_moment (List.forall_mem_cons.mpr ⟨digit, all⟩) rest
  rw [List.cons_append] at moments
  generalize ds ++ '\n' :: rest = text at moments unbased whole ⊢
  have unsigned : Reads sign (Nat.digitChar d :: text) false (Nat.digitChar d :: text) := by
    interval_cases d <;> rfl
  have strings : Refuses string (Nat.digitChar d :: text) := by interval_cases d <;> rfl
  have booleans : Refuses boolean (Nat.digitChar d :: text) := by interval_cases d <;> rfl
  have specials : Refuses specialFloat (Nat.digitChar d :: text) := by
    interval_cases d <;> rfl
  have decimals : Refuses decimalFloat (Nat.digitChar d :: text) := by
    have plain : Reads (Reader.optional fraction) ('\n' :: rest) none ('\n' :: rest) :=
      Refuses.optional rfl
    refine unsigned.refuses_bind (whole.refuses_bind (plain.refuses_bind ?_))
    rfl
  have bases : ∀ marker ∈ ["0x", "0o", "0b"], ∀ base,
      Refuses (based marker base) (Nat.digitChar d :: text) :=
    fun marker known _ => (unbased marker known).bind
  have integers : Reads integer (Nat.digitChar d :: text) (.integer n) ('\n' :: rest) := by
    refine (bases "0x" (by decide) 16).reads_orElse ((bases "0o" (by decide) 8).reads_orElse
      ((bases "0b" (by decide) 2).reads_orElse (unsigned.bind (whole.bind ?_))))
    rw [number]
    exact reads_inRange fits _
  exact (strings.map _).reads_orElse (booleans.reads_orElse (moments.reads_orElse
    ((decimals.orElse specials).reads_orElse integers)))

theorem reads_count {n : Nat} (fits : n < 0x8000000000000000) (rest : List Char) :
    Reads scalar (Nat.toDigits 10 n ++ '\n' :: rest) (.integer n) ('\n' :: rest) := by
  by_cases zero : n = 0
  · subst zero
    refine @reads_digits 0 0 [] rest (by decide) (List.forall_mem_nil _) rfl fits ?_ rfl
    intro marker known
    fin_cases known <;> rfl
  · obtain ⟨d, ds, low, nonzero, digits, all⟩ := exists_toDigits zero
    rw [digits]
    refine reads_digits low all ?_ fits ?_ ?_
    · rw [← digits]
      exact Nat.ofDigitChars_toDigits (by decide) (by decide)
    · intro marker known
      fin_cases known <;> interval_cases d <;> first | rfl | exact absurd rfl nonzero
    · have first : Reads (satisfying fun c => c.isDigit && c ≠ '0')
          (Nat.digitChar d :: (ds ++ '\n' :: rest)) (Nat.digitChar d) (ds ++ '\n' :: rest) := by
        interval_cases d <;> first | rfl | exact absurd rfl nonzero
      exact (first.bind ((reads_furtherDigits rest ds all).bind
        (reads_pure (Nat.digitChar d :: ds) _))).orElse

/-! ## Lines -/

theorem reads_plain {plain : Plain} (fits : plain.Fits) (depth : Nat) (rest : List Char) :
    Reads (value (depth + 1)) (plain.write ++ '\n' :: rest) plain.value ('\n' :: rest) := by
  cases plain with
  | strings texts =>
      have refused : Refuses scalar ((Plain.strings texts).write ++ '\n' :: rest) := rfl
      exact refused.reads_orElse (reads_array depth texts _).orElse
  | count n => exact reads_value_of_scalar (reads_count fits rest) (depth + 1)
  | truth b => cases b <;> rfl

theorem ends_isSpace_write (plain : Plain) (rest : List Char) :
    Ends isSpace (plain.write ++ rest) := by
  cases plain with
  | strings texts => exact ends_cons_iff.mpr (by decide)
  | count n =>
      have all : ∀ c ∈ Nat.toDigits 10 n, c.isDigit = true :=
        fun c mem => Nat.isDigit_of_mem_toDigits (by decide) (by decide) mem
      obtain ⟨c, ds, digits⟩ := List.exists_cons_of_ne_nil
        (Nat.toDigits_ne_nil (n := n) (b := 10))
      obtain ⟨d, low, rfl⟩ := exists_digitChar (all c (digits ▸ List.mem_cons_self ..))
      have table : ∀ d < 10, isSpace (Nat.digitChar d) = false := by decide
      rw [Plain.write, digits]
      exact ends_cons_iff.mpr (table d low)
  | truth b => cases b <;> exact ends_cons_iff.mpr (by decide)

theorem other_of_isBare {c d : Char} (bare : isBare c = true) (other : isBare d = false) :
    c ≠ d := by
  rintro rfl
  rw [bare] at other
  cases other

theorem not_isSpace_of_isBare {c : Char} (bare : isBare c = true) : isSpace c = false := by
  have space := other_of_isBare bare (d := ' ') (by decide)
  have tab := other_of_isBare bare (d := '\t') (by decide)
  simp [isSpace, space, tab]

variable {name : String}

/-- A key begins with no character but those of which it is made. -/
theorem ends_of_isBareKey {p : Char → Bool} (bare : IsBareKey name)
    (other : ∀ c, isBare c = true → p c = false) (rest : List Char) :
    Ends p (name.toList ++ rest) := by
  obtain ⟨c, more, characters⟩ := List.exists_cons_of_ne_nil bare.1
  rw [characters, List.cons_append, ends_cons_iff]
  exact other c (bare.2 c (characters ▸ List.mem_cons_self ..))

theorem ends_eq_of_isBareKey (bare : IsBareKey name) {d : Char} (other : isBare d = false)
    (rest : List Char) : Ends (· = d) (name.toList ++ rest) :=
  ends_of_isBareKey bare (fun _ known => decide_eq_false (other_of_isBare known other)) rest

theorem reads_bareWord (bare : IsBareKey name) (h : Ends isBare rest) :
    Reads simpleKey (name.toList ++ rest) name rest := by
  have basic : Refuses basicString (name.toList ++ rest) :=
    (refuses_char (ends_eq_of_isBareKey bare (by decide) rest)).bind
  have literal : Refuses literalString (name.toList ++ rest) :=
    (refuses_char (ends_eq_of_isBareKey bare (by decide) rest)).bind
  have word : Reads bareWord (name.toList ++ rest) name.toList rest := by
    refine (reads_takeWhile name.toList bare.2 h).bind ?_
    show Reads (if name.toList = [] then failure else pure name.toList) rest name.toList rest
    rw [if_neg bare.1]
    exact reads_pure _ rest
  have read := (basic.reads_orElse (literal.reads_orElse word)).map String.ofList
  rwa [String.ofList_toList] at read

theorem reads_key (bare : IsBareKey name) (rest : List Char) :
    Reads key (name.toList ++ ' ' :: '=' :: rest) ([], name) ('=' :: rest) := by
  have none : Reads spaces (name.toList ++ ' ' :: '=' :: rest) ()
      (name.toList ++ ' ' :: '=' :: rest) :=
    reads_spaces (ends_of_isBareKey bare (fun _ => not_isSpace_of_isBare) _)
  have one : Reads spaces (' ' :: '=' :: rest) () ('=' :: rest) :=
    reads_blank (ends_cons_iff.mpr (by decide))
  have part : Reads (spaces *> simpleKey <* spaces) (name.toList ++ ' ' :: '=' :: rest) name
      ('=' :: rest) :=
    (none.seqRight (reads_bareWord bare (ends_cons_iff.mpr (by decide)))).seqLeft one
  have last : Reads (repeated (char '.' *> (spaces *> simpleKey <* spaces))) ('=' :: rest) []
      ('=' :: rest) := Refuses.repeated rfl
  exact (part.separated last).bind rfl

theorem reads_pair (bare : IsBareKey name) {plain : Plain} (fits : plain.Fits)
    (rest : List Char) :
    Reads (pair (value nestingLimit))
      (name.toList ++ ' ' :: '=' :: ' ' :: (plain.write ++ '\n' :: rest))
      (([], name), plain.value) ('\n' :: rest) := by
  have blank : Reads spaces (' ' :: (plain.write ++ '\n' :: rest)) ()
      (plain.write ++ '\n' :: rest) := reads_blank (ends_isSpace_write plain _)
  have content : Reads (value nestingLimit) (plain.write ++ '\n' :: rest) plain.value
      ('\n' :: rest) := reads_plain fits 78 rest
  exact (reads_key bare _).bind ((reads_char '=' _).bind (blank.bind
    (content.bind (reads_pure (([], name), plain.value) _))))

theorem reads_lineRest (rest : List Char) : Reads lineRest ('\n' :: rest) () rest := by
  have blank : Reads spaces ('\n' :: rest) () ('\n' :: rest) :=
    reads_spaces (ends_cons_iff.mpr (by decide))
  have plain : Reads (Reader.optional comment) ('\n' :: rest) none ('\n' :: rest) :=
    Refuses.optional rfl
  have ends : Reads lineEnd ('\n' :: rest) () rest := (reads_char '\n' rest).orElse.orElse
  exact blank.bind (plain.bind ends)

theorem refuses_literal {word : String} {c : Char} (first : word.toList.head? = some c)
    {text : List Char} (h : Ends (· = c) text) : Refuses (literal word) text := by
  obtain ⟨more, spelled⟩ := List.head?_eq_some_iff.mp first
  cases text with
  | nil => simp [Refuses, literal, spelled]
  | cons d text =>
      have other : d ≠ c := by simpa using ends_cons_iff.mp h
      simp [Refuses, literal, spelled, other.symm]

/-- The line of a key is read as its entry. -/
theorem reads_line (bare : IsBareKey name) {plain : Plain} (fits : plain.Fits)
    (rest : List Char) :
    Reads line (name.toList ++ ' ' :: '=' :: ' ' :: (plain.write ++ '\n' :: rest))
      (.entry [] name plain.value) rest := by
  have starts : ∀ d, isBare d = false →
      Ends (· = d) (name.toList ++ ' ' :: '=' :: ' ' :: (plain.write ++ '\n' :: rest)) :=
    fun d other => ends_eq_of_isBareKey bare other _
  have newlines : Refuses newline _ := (refuses_char (starts '\n' (by decide))).orElse
    (refuses_literal (by decide) (starts '\r' (by decide)))
  have comments : Refuses comment _ := (refuses_char (starts '#' (by decide))).bind
  have elements : Refuses (literal "[[") _ :=
    refuses_literal (by decide) (starts '[' (by decide))
  have headers : Refuses (char '[') _ := refuses_char (starts '[' (by decide))
  refine (newlines.map _).reads_orElse ((comments.seqLeft.map _).reads_orElse
    (elements.bind.reads_orElse (headers.bind.reads_orElse ?_)))
  exact (reads_pair bare fits rest).bind ((reads_lineRest rest).bind (reads_pure _ rest))

/-! ## Documents -/

/-- A document that is written begins with a key, or it is empty. -/
theorem ends_write {p : Char → Bool} (other : ∀ c, isBare c = true → p c = false)
    {fields : List (String × Plain)} (bare : ∀ f ∈ fields, IsBareKey f.1) :
    Ends p (write fields) := by
  cases fields with
  | nil => exact ends_nil p
  | cons f fields =>
      have start : Ends p (f.1.toList ++ (" = ".toList ++ f.2.write ++ ['\n'] ++ write fields)) :=
        ends_of_isBareKey (bare f (List.mem_cons_self ..)) other _
      simpa only [write, List.flatMap_cons, List.append_assoc] using start

theorem reads_entries : ∀ {fields : List (String × Plain)}, (∀ f ∈ fields, IsBareKey f.1) →
    (∀ f ∈ fields, f.2.Fits) → Reads (repeated (line <* spaces)) (write fields)
      (fields.map fun f => .entry [] f.1 f.2.value) [] := by
  intro fields
  induction fields with
  | nil =>
      intro _ _
      refine Refuses.repeated ?_
      rfl
  | cons f fields ih =>
      intro bare fits
      obtain ⟨key, bare'⟩ := List.forall_mem_cons.mp bare
      obtain ⟨fit, fits'⟩ := List.forall_mem_cons.mp fits
      have whole : write (f :: fields) =
          f.1.toList ++ ' ' :: '=' :: ' ' :: (f.2.write ++ '\n' :: write fields) := by
        simp [write]
      have next : Reads spaces (write fields) () (write fields) :=
        reads_spaces (ends_write (fun _ => not_isSpace_of_isBare) bare')
      rw [whole]
      refine Reads.repeated ((reads_line key fit _).seqLeft next) ?_ (ih bare' fits')
      simp only [List.length_append, List.length_cons]
      omega

theorem reads_lines {fields : List (String × Plain)} (bare : ∀ f ∈ fields, IsBareKey f.1)
    (fits : ∀ f ∈ fields, f.2.Fits) :
    Reads lines (write fields) (fields.map fun f => .entry [] f.1 f.2.value) [] := by
  have unmarked : Reads (Reader.optional (char '\uFEFF')) (write fields) none (write fields) := by
    have other : ∀ c, isBare c = true → decide (c = '\uFEFF') = false :=
      fun _ known => decide_eq_false (other_of_isBare known (by decide))
    exact (refuses_char (ends_write other bare)).optional
  have start : Reads spaces (write fields) () (write fields) :=
    reads_spaces (ends_write (fun _ => not_isSpace_of_isBare) bare)
  exact unmarked.bind (start.bind ((reads_entries bare fits).bind (Reads.bind rfl
    (reads_pure _ []))))

end Reader

/-! ## Gathering -/

theorem Entries.add_of_new {entries : Entries} {key : String} (new : entries.lookup key = none)
    (value : Value) : entries.add [] key value = some (entries ++ [(key, value)]) := by
  show (if ([] : List String) ≠ [] ∧ Form.explicit ≠ .dotted then none
    else if (entries.lookup key).isSome then none
    else some ((), entries ++ [(key, value)])).bind (fun p => some p.2) = _
  simp [new]

/-- Entries with keys of their own are gathered in the order of their lines. -/
theorem foldlM_add_entries : ∀ {entries : Entries} (d : Draft),
    (d.current.map Prod.fst ++ entries.map Prod.fst).Nodup →
    (entries.map fun e => Line.entry [] e.1 e.2).foldlM Draft.add d =
      some { d with current := d.current ++ entries } := by
  intro entries
  induction entries with
  | nil => intro d _; simp
  | cons e entries ih =>
      intro d distinct
      have new : e.1 ∉ d.current.map Prod.fst := by
        rw [List.map_cons, List.nodup_append] at distinct
        exact fun known => distinct.2.2 e.1 known e.1 (List.mem_cons_self ..) rfl
      have added : d.add (.entry [] e.1 e.2) =
          some { d with current := d.current ++ [e] } := by
        show (d.current.add [] e.1 e.2).bind _ = _
        rw [Entries.add_of_new (Entries.lookup_eq_none_iff.mpr new)]
        rfl
      have distinct' : ((d.current ++ [e]).map Prod.fst ++ entries.map Prod.fst).Nodup := by
        simpa using distinct
      rw [List.map_cons, List.foldlM_cons, added]
      simpa using ih { d with current := d.current ++ [e] } distinct'

theorem parse_write {fields : List (String × Plain)} (bare : ∀ f ∈ fields, IsBareKey f.1)
    (fits : ∀ f ∈ fields, f.2.Fits) (distinct : (fields.map Prod.fst).Nodup) :
    parse (write fields) = some (fields.map fun f => (f.1, f.2.value)) := by
  have read : Reader.lines (write fields) = some (fields.map _, []) := Reader.reads_lines bare fits
  have gathered := @foldlM_add_entries (fields.map fun f => (f.1, f.2.value)) {} (by
    simpa [Function.comp_def] using distinct)
  rw [List.map_map] at gathered
  show (Reader.lines (write fields)).bind (fun p => (p.1.foldlM Draft.add {}).bind Draft.close) = _
  rw [read]
  show ((fields.map _).foldlM Draft.add {}).bind Draft.close = _
  exact (congrArg (·.bind Draft.close) gathered).trans rfl

end HiddenText.Toml
