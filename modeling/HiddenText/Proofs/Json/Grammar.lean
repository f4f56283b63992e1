import HiddenText.Json

/-! # The grammar of JSON

`Spells` is the grammar of JSON texts, all of it: a text spells a value and leaves a rest.  No text
spells two values (`Denotes.unique`), so that whoever reads a text as JSON reads the same value.
The proof follows the grammar: white space and numbers end where a character stands that cannot
belong to them (`Space.unique`, `number_unique`), and every other choice is made by the next
character. -/
set_option autoImplicit false

namespace HiddenText.Json

/-- A value of a JSON text.  A number is kept as it is spelled, a string is what its escapes stand
for. -/
inductive Tree
  | null
  | truth (b : Bool)
  | number (literal : List Char)
  | text (s : String)
  | array (items : List Tree)
  | object (fields : List (String × Tree))

/-! ## White space -/

def isSpace (c : Char) : Bool := c = ' ' || c = '\t' || c = '\n' || c = '\r'

inductive Space : List Char → List Char → Prop
  | none (rest : List Char) : Space rest rest
  | more {c t rest} (space : isSpace c = true) (further : Space t rest) : Space (c :: t) rest

theorem Space.append {t rest : List Char} (h : Space t rest) :
    ∃ blanks, (∀ c ∈ blanks, isSpace c = true) ∧ t = blanks ++ rest := by
  induction h with
  | none rest => exact ⟨[], by simp, rfl⟩
  | @more c t rest space further ih =>
      obtain ⟨blanks, all, split⟩ := ih
      refine ⟨c :: blanks, ?_, by rw [split]; rfl⟩
      intro b known
      rcases List.mem_cons.mp known with rfl | later
      · exact space
      · exact all b later

/-- What follows white space is determined if it starts with another character. -/
theorem Space.unique {t : List Char} {c c' : Char} {rest rest' : List Char}
    (h : Space t (c :: rest)) (h' : Space t (c' :: rest')) (stop : isSpace c = false)
    (stop' : isSpace c' = false) : c = c' ∧ rest = rest' := by
  have skipped : ∀ {c rest}, Space t (c :: rest) → isSpace c = false →
      t.dropWhile isSpace = c :: rest := by
    intro c rest h stop
    obtain ⟨blanks, all, split⟩ := h.append
    rw [split, List.dropWhile_append_of_pos all]
    exact List.dropWhile_cons_of_neg (by simp [stop])
  have same := (skipped h stop).symm.trans (skipped h' stop')
  exact List.cons.inj same

/-! ## Numbers -/

def Digits (t : List Char) : Prop := t ≠ [] ∧ ∀ c ∈ t, c.isDigit = true

/-- No zero stands before other digits. -/
def Integer (t : List Char) : Prop := t = ['0'] ∨ Digits t ∧ t.head? ≠ some '0'

def Fraction (t : List Char) : Prop := t = [] ∨ ∃ digits, Digits digits ∧ t = '.' :: digits

def Exponent (t : List Char) : Prop :=
  t = [] ∨ ∃ e sign digits, e ∈ ['e', 'E'] ∧ sign ∈ [[], ['+'], ['-']] ∧ Digits digits ∧
    t = e :: sign ++ digits

def Number (t : List Char) : Prop :=
  ∃ sign integer fraction exponent, sign ∈ [[], ['-']] ∧ Integer integer ∧ Fraction fraction ∧
    Exponent exponent ∧ t = sign ++ integer ++ fraction ++ exponent

def isNumeric (c : Char) : Bool := c.isDigit || c ∈ ['-', '+', '.', 'e', 'E']

theorem isSpace_of_numeric {c : Char} (h : isNumeric c = true) : isSpace c = false := by
  cases space : isSpace c with
  | false => rfl
  | true =>
      simp only [isSpace, Bool.or_eq_true, decide_eq_true_eq] at space
      rcases space with ((rfl | rfl) | rfl) | rfl <;> cases h

def EndsNumber (rest : List Char) : Prop := ∀ c ∈ rest.head?, isNumeric c = false

theorem Space.endsNumber {t rest : List Char} (h : Space t rest) (ends : EndsNumber rest) :
    EndsNumber t := by
  cases h with
  | none => exact ends
  | @more c t _ space further =>
      intro first known
      cases known
      cases numeric : isNumeric c with
      | false => rfl
      | true =>
          rw [isSpace_of_numeric numeric] at space
          cases space

theorem Space.endsNumber_of_cons {t rest : List Char} {c : Char} (h : Space t (c :: rest))
    (other : isNumeric c = false) : EndsNumber t := by
  apply h.endsNumber
  intro first known
  cases known
  exact other

theorem Digits.all_numeric {t : List Char} (h : Digits t) : ∀ c ∈ t, isNumeric c = true := by
  intro c known
  simp [isNumeric, h.2 c known]

theorem Integer.digits {t : List Char} (h : Integer t) : Digits t := by
  rcases h with rfl | digits
  · refine ⟨List.cons_ne_nil _ _, fun c known => ?_⟩
    rw [List.mem_singleton.mp known]
    decide
  · exact digits.1

theorem Number.all_numeric {t : List Char} (h : Number t) : ∀ c ∈ t, isNumeric c = true := by
  obtain ⟨sign, integer, fraction, exponent, signed, int, frac, exp, rfl⟩ := h
  intro c known
  simp only [List.mem_append] at known
  rcases known with ((inSign | inInteger) | inFraction) | inExponent
  · simp only [List.mem_cons, List.not_mem_nil, or_false] at signed
    rcases signed with rfl | rfl
    · cases inSign
    · rw [List.mem_singleton.mp inSign]
      decide
  · exact int.digits.all_numeric c inInteger
  · rcases frac with rfl | ⟨digits, all, rfl⟩
    · cases inFraction
    · rcases List.mem_cons.mp inFraction with rfl | digit
      · decide
      · exact all.all_numeric c digit
  · rcases exp with rfl | ⟨e, expSign, digits, mark, signed', all, rfl⟩
    · cases inExponent
    · simp only [List.cons_append, List.mem_cons, List.mem_append, List.not_mem_nil,
        or_false] at inExponent mark signed'
      rcases inExponent with rfl | inSign | digit
      · rcases mark with rfl | rfl <;> decide
      · rcases signed' with rfl | rfl | rfl
        · cases inSign
        · rw [List.mem_singleton.mp inSign]
          decide
        · rw [List.mem_singleton.mp inSign]
          decide
      · exact all.all_numeric c digit

theorem Number.ne_nil {t : List Char} (h : Number t) : t ≠ [] := by
  obtain ⟨sign, integer, fraction, exponent, -, int, -, -, rfl⟩ := h
  simp [int.digits.1]

theorem Number.head {literal t rest : List Char} {c : Char} (h : Number literal)
    (split : c :: t = literal ++ rest) : isNumeric c = true := by
  cases literal with
  | nil => exact absurd rfl h.ne_nil
  | cons first others =>
      rw [(List.cons.inj split).1]
      exact h.all_numeric first (List.mem_cons_self ..)

theorem number_unique {literal rest literal' rest' : List Char} (h : Number literal)
    (h' : Number literal') (same : literal ++ rest = literal' ++ rest') (ends : EndsNumber rest)
    (ends' : EndsNumber rest') : literal = literal' ∧ rest = rest' := by
  have taken : ∀ {literal rest : List Char}, Number literal → EndsNumber rest →
      (literal ++ rest).takeWhile isNumeric = literal := by
    intro literal rest number ends
    rw [List.takeWhile_append_of_pos number.all_numeric]
    cases rest with
    | nil => rw [List.takeWhile_nil, List.append_nil]
    | cons c more => rw [List.takeWhile_cons_of_neg (by simp [ends c rfl]), List.append_nil]
  have literals : literal = literal' := by
    rw [← taken h ends, same, taken h' ends']
  subst literals
  exact ⟨rfl, List.append_cancel_left same⟩

/-! ## Strings -/

def escaped? : Char → Option Char
  | '"' => some '"'
  | '\\' => some '\\'
  | '/' => some '/'
  | 'b' => some '\x08'
  | 'f' => some '\x0c'
  | 'n' => some '\n'
  | 'r' => some '\r'
  | 't' => some '\t'
  | _ => none

/-- The codepoint that two code units stand for, of which the first is a high surrogate and the
second a low one. -/
def ofSurrogates (high low : Nat) : Char :=
  Char.ofNat (0x10000 + (high - 0xD800) * 0x400 + (low - 0xDC00))

/-- A text goes on with the characters of a string and the quote that ends it.  A surrogate stands
for nothing alone. -/
inductive Chars : List Char → List Char → List Char → Prop
  | close (rest : List Char) : Chars ('"' :: rest) [] rest
  | plain {c t s rest} (quote : c ≠ '"') (backslash : c ≠ '\\') (control : 0x20 ≤ c.toNat)
      (more : Chars t s rest) : Chars (c :: t) (c :: s) rest
  | escape {e c t s rest} (known : escaped? e = some c) (more : Chars t s rest) :
      Chars ('\\' :: e :: t) (c :: s) rest
  | unit {a b c d n t s rest} (value : Hex.value? [a, b, c, d] = some n)
      (scalar : n.isValidChar) (more : Chars t s rest) :
      Chars ('\\' :: 'u' :: a :: b :: c :: d :: t) (Char.ofNat n :: s) rest
  | pair {a b c d e f g h high low t s rest} (first : Hex.value? [a, b, c, d] = some high)
      (second : Hex.value? [e, f, g, h] = some low) (isHigh : 0xD800 ≤ high ∧ high < 0xDC00)
      (isLow : 0xDC00 ≤ low ∧ low < 0xE000) (more : Chars t s rest) :
      Chars ('\\' :: 'u' :: a :: b :: c :: d :: '\\' :: 'u' :: e :: f :: g :: h :: t)
        (ofSurrogates high low :: s) rest

theorem not_scalar_of_high {n : Nat} (high : 0xD800 ≤ n ∧ n < 0xDC00) : ¬ n.isValidChar := by
  rintro (low | above)
  · omega
  · omega

theorem Chars.unique {t s rest : List Char} (h : Chars t s rest) :
    ∀ {s' rest'}, Chars t s' rest' → s = s' ∧ rest = rest' := by
  induction h with
  | close rest =>
      intro s' rest' other
      cases other with
      | close => exact ⟨rfl, rfl⟩
      | plain quote => exact absurd rfl quote
  | plain quote backslash control more ih =>
      intro s' rest' other
      cases other with
      | close => exact absurd rfl quote
      | plain quote' backslash' control' more' =>
          obtain ⟨rfl, rfl⟩ := ih more'
          exact ⟨rfl, rfl⟩
      | escape => exact absurd rfl backslash
      | unit => exact absurd rfl backslash
      | pair => exact absurd rfl backslash
  | escape known more ih =>
      intro s' rest' other
      cases other with
      | plain quote backslash => exact absurd rfl backslash
      | escape known' more' =>
          obtain ⟨rfl, rfl⟩ := ih more'
          rw [known] at known'
          cases known'
          exact ⟨rfl, rfl⟩
      | unit => cases known
      | pair => cases known
  | unit value scalar more ih =>
      intro s' rest' other
      cases other with
      | plain quote backslash => exact absurd rfl backslash
      | escape known => cases known
      | unit value' scalar' more' =>
          obtain ⟨rfl, rfl⟩ := ih more'
          rw [value] at value'
          cases value'
          exact ⟨rfl, rfl⟩
      | pair first second isHigh =>
          rw [value] at first
          cases first
          exact absurd scalar (not_scalar_of_high isHigh)
  | pair first second isHigh isLow more ih =>
      intro s' rest' other
      cases other with
      | plain quote backslash => exact absurd rfl backslash
      | escape known => cases known
      | unit value scalar =>
          rw [first] at value
          cases value
          exact absurd scalar (not_scalar_of_high isHigh)
      | pair first' second' isHigh' isLow' more' =>
          obtain ⟨rfl, rfl⟩ := ih more'
          rw [first] at first'
          rw [second] at second'
          cases first'
          cases second'
          exact ⟨rfl, rfl⟩

/-! ## Values -/

/-- What a text may go on with: a value, or the items or the fields up to the bracket that ends
them. -/
inductive Form
  | value (tree : Tree)
  | items (trees : List Tree)
  | fields (fields : List (String × Tree))

inductive Spells : List Char → Form → List Char → Prop
  | nullWord (rest : List Char) : Spells ('n' :: 'u' :: 'l' :: 'l' :: rest) (.value .null) rest
  | trueWord (rest : List Char) :
      Spells ('t' :: 'r' :: 'u' :: 'e' :: rest) (.value (.truth true)) rest
  | falseWord (rest : List Char) :
      Spells ('f' :: 'a' :: 'l' :: 's' :: 'e' :: rest) (.value (.truth false)) rest
  | number {literal t rest} (number : Number literal) (split : t = literal ++ rest) :
      Spells t (.value (.number literal)) rest
  | text {t s rest} (chars : Chars t s rest) :
      Spells ('"' :: t) (.value (.text (String.ofList s))) rest
  | emptyArray {t rest} (space : Space t (']' :: rest)) :
      Spells ('[' :: t) (.value (.array [])) rest
  | array {t trees rest} (items : Spells t (.items trees) rest) :
      Spells ('[' :: t) (.value (.array trees)) rest
  | emptyObject {t rest} (space : Space t ('\x7d' :: rest)) :
      Spells ('\x7b' :: t) (.value (.object [])) rest
  | object {t fields rest} (entries : Spells t (.fields fields) rest) :
      Spells ('\x7b' :: t) (.value (.object fields)) rest
  | lastItem {t start after tree rest} (space : Space t start)
      (item : Spells start (.value tree) after) (close : Space after (']' :: rest)) :
      Spells t (.items [tree]) rest
  | item {t start after next tree trees rest} (space : Space t start)
      (item : Spells start (.value tree) after) (comma : Space after (',' :: next))
      (more : Spells next (.items trees) rest) : Spells t (.items (tree :: trees)) rest
  | lastField {t quoted key named colon start after tree rest} (space : Space t ('"' :: quoted))
      (name : Chars quoted key named) (mark : Space named (':' :: colon)) (gap : Space colon start)
      (value : Spells start (.value tree) after) (close : Space after ('\x7d' :: rest)) :
      Spells t (.fields [(String.ofList key, tree)]) rest
  | field {t quoted key named colon start after next tree fields rest}
      (space : Space t ('"' :: quoted)) (name : Chars quoted key named)
      (mark : Space named (':' :: colon)) (gap : Space colon start)
      (value : Spells start (.value tree) after) (comma : Space after (',' :: next))
      (more : Spells next (.fields fields) rest) :
      Spells t (.fields ((String.ofList key, tree) :: fields)) rest

def Denotes (text : List Char) (tree : Tree) : Prop :=
  ∃ start after, Space text start ∧ Spells start (.value tree) after ∧ Space after []

/-! ## One reading -/

namespace Spells

theorem value_head {t rest : List Char} {tree : Tree} (h : Spells t (.value tree) rest) :
    ∃ c more, t = c :: more ∧ isSpace c = false ∧ c ≠ ']' := by
  cases h with
  | nullWord => exact ⟨'n', _, rfl, by decide, by decide⟩
  | trueWord => exact ⟨'t', _, rfl, by decide, by decide⟩
  | falseWord => exact ⟨'f', _, rfl, by decide, by decide⟩
  | @number literal _ _ number split =>
      cases literal with
      | nil => exact absurd rfl number.ne_nil
      | cons c more =>
          have numeric := number.all_numeric c (List.mem_cons_self ..)
          refine ⟨c, more ++ rest, split, ?_, ?_⟩
          · exact isSpace_of_numeric numeric
          · rintro rfl
            cases numeric
  | text => exact ⟨'"', _, rfl, by decide, by decide⟩
  | emptyArray => exact ⟨'[', _, rfl, by decide, by decide⟩
  | array => exact ⟨'[', _, rfl, by decide, by decide⟩
  | emptyObject => exact ⟨'\x7b', _, rfl, by decide, by decide⟩
  | object => exact ⟨'\x7b', _, rfl, by decide, by decide⟩

theorem items_cases {t rest : List Char} {trees : List Tree} (h : Spells t (.items trees) rest) :
    ∃ start tree after, Space t start ∧ Spells start (.value tree) after ∧
      (trees = [tree] ∧ Space after (']' :: rest) ∨ ∃ next others, trees = tree :: others ∧
        Space after (',' :: next) ∧ Spells next (.items others) rest) := by
  cases h with
  | lastItem space item close => exact ⟨_, _, _, space, item, .inl ⟨rfl, close⟩⟩
  | item space item comma more => exact ⟨_, _, _, space, item, .inr ⟨_, _, rfl, comma, more⟩⟩

theorem fields_cases {t rest : List Char} {fields : List (String × Tree)}
    (h : Spells t (.fields fields) rest) :
    ∃ quoted key named colon start tree after, Space t ('"' :: quoted) ∧ Chars quoted key named ∧
      Space named (':' :: colon) ∧ Space colon start ∧ Spells start (.value tree) after ∧
      (fields = [(String.ofList key, tree)] ∧ Space after ('\x7d' :: rest) ∨
        ∃ next others, fields = (String.ofList key, tree) :: others ∧
          Space after (',' :: next) ∧ Spells next (.fields others) rest) := by
  cases h with
  | lastField space name mark gap value close =>
      exact ⟨_, _, _, _, _, _, _, space, name, mark, gap, value, .inl ⟨rfl, close⟩⟩
  | field space name mark gap value comma more =>
      exact ⟨_, _, _, _, _, _, _, space, name, mark, gap, value, .inr ⟨_, _, rfl, comma, more⟩⟩

theorem array_cases {t rest : List Char} {tree : Tree} (h : Spells ('[' :: t) (.value tree) rest) :
    tree = .array [] ∧ Space t (']' :: rest) ∨
      ∃ trees, tree = .array trees ∧ Spells t (.items trees) rest := by
  cases h with
  | emptyArray space => exact .inl ⟨rfl, space⟩
  | array items => exact .inr ⟨_, rfl, items⟩
  | number number split => exact absurd (number.head split) (by decide)

theorem object_cases {t rest : List Char} {tree : Tree}
    (h : Spells ('\x7b' :: t) (.value tree) rest) :
    tree = .object [] ∧ Space t ('\x7d' :: rest) ∨
      ∃ fields, tree = .object fields ∧ Spells t (.fields fields) rest := by
  cases h with
  | emptyObject space => exact .inl ⟨rfl, space⟩
  | object entries => exact .inr ⟨_, rfl, entries⟩
  | number number split => exact absurd (number.head split) (by decide)

theorem not_closed_of_items {t rest rest' : List Char} {trees : List Tree}
    (h : Spells t (.items trees) rest) : ¬ Space t (']' :: rest') := by
  intro closed
  obtain ⟨start, tree, after, space, value, -⟩ := h.items_cases
  obtain ⟨c, more, rfl, stop, notClose⟩ := value.value_head
  exact notClose (space.unique closed stop (by decide)).1

theorem not_closed_of_fields {t rest rest' : List Char} {fields : List (String × Tree)}
    (h : Spells t (.fields fields) rest) : ¬ Space t ('\x7d' :: rest') := by
  intro closed
  obtain ⟨quoted, key, named, colon, start, tree, after, space, -⟩ := h.fields_cases
  exact absurd (space.unique closed (by decide) (by decide)).1 (by decide)

end Spells

/-- A text goes on in one way only, for a value if no number could go on. -/
def Form.Determined (t : List Char) : Form → List Char → Prop
  | .value tree, rest => EndsNumber rest → ∀ tree' rest', Spells t (.value tree') rest' →
      EndsNumber rest' → tree = tree' ∧ rest = rest'
  | .items trees, rest => ∀ trees' rest', Spells t (.items trees') rest' →
      trees = trees' ∧ rest = rest'
  | .fields known, rest => ∀ known' rest', Spells t (.fields known') rest' →
      known = known' ∧ rest = rest'

namespace Spells

/-- What stands between two marks, with white space around it, is one value, and the mark after it
is determined as well. -/
theorem unique_upTo {t start after rest start' after' rest' : List Char} {tree tree' : Tree}
    {c c' : Char} (determined : Form.Determined start (.value tree) after) (space : Space t start)
    (value : Spells start (.value tree) after) (close : Space after (c :: rest))
    (space' : Space t start') (value' : Spells start' (.value tree') after')
    (close' : Space after' (c' :: rest')) (mark : c ∈ [',', ']', '\x7d'])
    (mark' : c' ∈ [',', ']', '\x7d']) : tree = tree' ∧ c = c' ∧ rest = rest' := by
  have apart : ∀ c ∈ [',', ']', '\x7d'], isNumeric c = false ∧ isSpace c = false := by
    intro c known
    simp only [List.mem_cons, List.not_mem_nil, or_false] at known
    rcases known with rfl | rfl | rfl <;> decide
  obtain ⟨first, more, rfl, stop, -⟩ := value.value_head
  obtain ⟨first', more', rfl, stop', -⟩ := value'.value_head
  obtain ⟨rfl, rfl⟩ := space.unique space' stop stop'
  obtain ⟨rfl, rfl⟩ := determined (close.endsNumber_of_cons (apart c mark).1) _ _ value'
    (close'.endsNumber_of_cons (apart c' mark').1)
  exact ⟨rfl, close.unique close' (apart c mark).2 (apart c' mark').2⟩

/-- The name of a field, with the colon after it, is determined. -/
theorem name_unique {t quoted key named colon quoted' key' named' colon' : List Char}
    (space : Space t ('"' :: quoted)) (name : Chars quoted key named)
    (mark : Space named (':' :: colon)) (space' : Space t ('"' :: quoted'))
    (name' : Chars quoted' key' named') (mark' : Space named' (':' :: colon')) :
    key = key' ∧ colon = colon' := by
  obtain ⟨-, rfl⟩ := space.unique space' (by decide) (by decide)
  obtain ⟨rfl, rfl⟩ := name.unique name'
  exact ⟨rfl, (mark.unique mark' (by decide) (by decide)).2⟩

theorem determined {t rest : List Char} {form : Form} (h : Spells t form rest) :
    form.Determined t rest := by
  induction h with
  | nullWord rest =>
      rintro - tree' rest' other -
      cases other with
      | nullWord => exact ⟨rfl, rfl⟩
      | number number split => exact absurd (number.head split) (by decide)
  | trueWord rest =>
      rintro - tree' rest' other -
      cases other with
      | trueWord => exact ⟨rfl, rfl⟩
      | number number split => exact absurd (number.head split) (by decide)
  | falseWord rest =>
      rintro - tree' rest' other -
      cases other with
      | falseWord => exact ⟨rfl, rfl⟩
      | number number split => exact absurd (number.head split) (by decide)
  | number number split =>
      intro ends tree' rest' other ends'
      cases other with
      | number number' split' =>
          obtain ⟨rfl, rfl⟩ := number_unique number number' (split.symm.trans split') ends ends'
          exact ⟨rfl, rfl⟩
      | _ => exact absurd (number.head split) (by decide)
  | text chars =>
      rintro - tree' rest' other -
      cases other with
      | text chars' =>
          obtain ⟨rfl, rfl⟩ := chars.unique chars'
          exact ⟨rfl, rfl⟩
      | number number split => exact absurd (number.head split) (by decide)
  | emptyArray space =>
      rintro - tree' rest' other -
      rcases other.array_cases with ⟨rfl, space'⟩ | ⟨trees, rfl, items⟩
      · exact ⟨rfl, (space.unique space' (by decide) (by decide)).2⟩
      · exact absurd space items.not_closed_of_items
  | array items ih =>
      rintro - tree' rest' other -
      rcases other.array_cases with ⟨rfl, space⟩ | ⟨trees, rfl, items'⟩
      · exact absurd space items.not_closed_of_items
      · obtain ⟨rfl, rfl⟩ := ih _ _ items'
        exact ⟨rfl, rfl⟩
  | emptyObject space =>
      rintro - tree' rest' other -
      rcases other.object_cases with ⟨rfl, space'⟩ | ⟨fields, rfl, entries⟩
      · exact ⟨rfl, (space.unique space' (by decide) (by decide)).2⟩
      · exact absurd space entries.not_closed_of_fields
  | object entries ih =>
      rintro - tree' rest' other -
      rcases other.object_cases with ⟨rfl, space⟩ | ⟨fields, rfl, entries'⟩
      · exact absurd space entries.not_closed_of_fields
      · obtain ⟨rfl, rfl⟩ := ih _ _ entries'
        exact ⟨rfl, rfl⟩
  | lastItem space item close ih =>
      intro trees' rest' other
      obtain ⟨start', tree', after', space', item',
        ⟨rfl, close'⟩ | ⟨next, others, rfl, comma, -⟩⟩ := other.items_cases
      · obtain ⟨rfl, -, rfl⟩ :=
          unique_upTo ih space item close space' item' close' (by simp) (by simp)
        exact ⟨rfl, rfl⟩
      · have marks := unique_upTo ih space item close space' item' comma (by simp) (by simp)
        exact absurd marks.2.1 (by decide)
  | item space item comma more ih others =>
      intro trees' rest' other
      obtain ⟨start', tree', after', space', item',
        ⟨rfl, close⟩ | ⟨next, trees', rfl, comma', more'⟩⟩ := other.items_cases
      · have marks := unique_upTo ih space item comma space' item' close (by simp) (by simp)
        exact absurd marks.2.1 (by decide)
      · obtain ⟨rfl, -, rfl⟩ :=
          unique_upTo ih space item comma space' item' comma' (by simp) (by simp)
        obtain ⟨rfl, rfl⟩ := others _ _ more'
        exact ⟨rfl, rfl⟩
  | lastField space name mark gap value close ih =>
      intro fields' rest' other
      obtain ⟨quoted', key', named', colon', start', tree', after', space', name', mark', gap',
        value', ⟨rfl, close'⟩ | ⟨next, others, rfl, comma, -⟩⟩ := other.fields_cases
      all_goals obtain ⟨rfl, rfl⟩ := name_unique space name mark space' name' mark'
      · obtain ⟨rfl, -, rfl⟩ :=
          unique_upTo ih gap value close gap' value' close' (by simp) (by simp)
        exact ⟨rfl, rfl⟩
      · have marks := unique_upTo ih gap value close gap' value' comma (by simp) (by simp)
        exact absurd marks.2.1 (by decide)
  | field space name mark gap value comma more ih others =>
      intro fields' rest' other
      obtain ⟨quoted', key', named', colon', start', tree', after', space', name', mark', gap',
        value', ⟨rfl, close⟩ | ⟨next, more', rfl, comma', further⟩⟩ := other.fields_cases
      all_goals obtain ⟨rfl, rfl⟩ := name_unique space name mark space' name' mark'
      · have marks := unique_upTo ih gap value comma gap' value' close (by simp) (by simp)
        exact absurd marks.2.1 (by decide)
      · obtain ⟨rfl, -, rfl⟩ :=
          unique_upTo ih gap value comma gap' value' comma' (by simp) (by simp)
        obtain ⟨rfl, rfl⟩ := others _ _ further
        exact ⟨rfl, rfl⟩

end Spells

theorem Denotes.unique {text : List Char} {tree tree' : Tree} (h : Denotes text tree)
    (h' : Denotes text tree') : tree = tree' := by
  obtain ⟨start, after, space, value, close⟩ := h
  obtain ⟨start', after', space', value', close'⟩ := h'
  have ended : EndsNumber [] := by
    intro c known
    cases known
  obtain ⟨c, more, rfl, stop, -⟩ := value.value_head
  obtain ⟨c', more', rfl, stop', -⟩ := value'.value_head
  obtain ⟨rfl, rfl⟩ := space.unique space' stop stop'
  exact (value.determined (close.endsNumber ended) _ _ value' (close'.endsNumber ended)).1

end HiddenText.Json
