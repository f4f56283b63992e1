import HiddenText.Proofs.Finding
import HiddenText.Proofs.Text.WellFormed
import Mathlib.Data.Set.Card

/-! # A scan is a search for encodings

What is found in a byte string by reading it as a text and going through its characters is what a
search finds that knows nothing of texts: the offsets where the encoding of a restricted codepoint
stands (`scanBytes_searches`). -/
set_option autoImplicit false

namespace HiddenText

open Utf8 (WellFormed)

def StandsAt (bytes : Bytes) (offset : Nat) (c : Char) : Prop :=
  String.utf8EncodeChar c <+: bytes.drop offset

structure Occurrences (set : RestrictedSet) (bytes : Bytes) (found : List (Nat × Char)) : Prop where
  ascending : found.Pairwise (·.1 < ·.1)
  mem_iff : ∀ offset c, (offset, c) ∈ found ↔ set.Restricts c ∧ StandsAt bytes offset c

/-- What is told of a file in which these characters were found at these offsets. -/
def ContentScan.ofOccurrences (path : String) (cap : Nat) (found : List (Nat × Char)) :
    ContentScan :=
  if found = [] then .clean
  else .hit
    { path := path
      occurrences := found.length
      samples := (found.map Prod.snd).eraseDups.take cap }

variable {set : RestrictedSet} {bytes : Bytes} {path : String} {cap : Nat}

/-- At most one codepoint stands at an offset, so that offsets are counted. -/
theorem Occurrences.length_eq {found : List (Nat × Char)} (h : Occurrences set bytes found) :
    found.length = {offset | ∃ c, set.Restricts c ∧ StandsAt bytes offset c}.ncard := by
  have once : (found.map Prod.fst).Nodup :=
    List.pairwise_map.mpr (h.ascending.imp Nat.ne_of_lt)
  have offsets : {offset | ∃ c, set.Restricts c ∧ StandsAt bytes offset c} =
      ((found.map Prod.fst).toFinset : Set Nat) := by
    ext offset
    simp [← h.mem_iff]
  rw [offsets, Set.ncard_coe_finset, List.toFinset_card_of_nodup once, List.length_map]

/-! ## The characters of a text by their offsets -/

def positions (start : Nat) : List Char → List (Nat × Char)
  | [] => []
  | c :: text => (start, c) :: positions (start + (String.utf8EncodeChar c).length) text

theorem map_positions : ∀ (text : List Char) (start : Nat),
    (positions start text).map Prod.snd = text := by
  intro text
  induction text with
  | nil => intro start; rfl
  | cons c text ih => intro start; rw [positions, List.map_cons, ih]

theorem mem_positions {offset : Nat} {c : Char} : ∀ (text : List Char) (start : Nat),
    (offset, c) ∈ positions start text ↔
      ∃ before after, text = before ++ c :: after ∧
        offset = start + (Utf8.encode before).length := by
  intro text
  induction text with
  | nil =>
      intro start
      simp [positions]
  | cons first text ih =>
      intro start
      rw [positions, List.mem_cons, ih]
      constructor
      · rintro (here | ⟨before, after, rfl, rfl⟩)
        · cases here
          exact ⟨[], text, rfl, rfl⟩
        · refine ⟨first :: before, after, rfl, ?_⟩
          rw [Utf8.encode_cons, List.length_append, Nat.add_assoc]
      · rintro ⟨before, after, split, rfl⟩
        cases before with
        | nil =>
            cases split
            exact .inl rfl
        | cons c' before =>
            cases split
            refine .inr ⟨before, after, rfl, ?_⟩
            rw [Utf8.encode_cons, List.length_append, Nat.add_assoc]

theorem positions_ascend : ∀ (text : List Char) (start : Nat),
    (positions start text).Pairwise (·.1 < ·.1) := by
  intro text
  induction text with
  | nil => intro start; exact .nil
  | cons c text ih =>
      intro start
      refine .cons ?_ (ih _)
      rintro ⟨offset, c'⟩ later
      obtain ⟨before, after, -, rfl⟩ := (mem_positions text _).mp later
      have some : 0 < (String.utf8EncodeChar c).length :=
        List.length_pos_iff.mpr String.utf8EncodeChar_ne_nil
      simp only
      omega

theorem occurrences_encode (set : RestrictedSet) (text : List Char) :
    Occurrences set (Utf8.encode text)
      ((positions 0 text).filter fun position => set.Restricts position.2) where
  ascending := (positions_ascend text 0).filter _
  mem_iff offset c := by
    simp only [List.mem_filter, mem_positions, StandsAt, Utf8.encodeChar_prefix_drop_iff,
      decide_eq_true_iff, Nat.zero_add, and_comm]

theorem scanBytes_encode (path : String) (text : List Char) (set : RestrictedSet) (cap : Nat) :
    scanBytes path (Utf8.encode text) set cap = .ofOccurrences path cap
      ((positions 0 text).filter fun position => set.Restricts position.2) := by
  generalize isFound : ((positions 0 text).filter fun position => set.Restricts position.2) = found
  have restricted : found.map Prod.snd = text.filter (decide <| set.Restricts ·) := by
    conv_rhs => rw [← map_positions text 0, List.filter_map]
    rw [← isFound]
    rfl
  have counted : text.countP (decide <| set.Restricts ·) = found.length := by
    rw [List.countP_eq_length_filter, ← restricted, List.length_map]
  rw [scanBytes, Utf8.decode_encode, ContentScan.ofOccurrences]
  simp only [scanText, foldl_read, Tally.ofText, counted, ← restricted, List.length_eq_zero_iff]
  split
  · rename_i nothing
    split at nothing
    · rw [if_pos ‹_›]
    · cases nothing
  · rename_i finding told
    split at told
    · cases told
    · cases told
      rw [if_neg ‹_›]

theorem scanBytes_eq_notText_iff :
    scanBytes path bytes set cap = .notText ↔ ¬ WellFormed bytes := by
  rw [← Utf8.decode_eq_none_iff, scanBytes]
  cases Utf8.decode bytes with
  | none => simp
  | some text =>
      simp only [reduceCtorEq, iff_false]
      cases scanText path text set cap <;> simp

/-- Leaving out a byte that is an unrestricted character of its own changes nothing. -/
theorem scanBytes_around {front back : Bytes} {b : UInt8} (low : b.toNat < 0x80)
    (formed : WellFormed front) (unrestricted : ¬ set.Restricts (Char.ofNat b.toNat)) :
    scanBytes path (front ++ b :: back) set cap = scanBytes path (front ++ back) set cap := by
  obtain ⟨before, rfl⟩ := Utf8.wellFormed_iff.mp formed
  by_cases formed' : WellFormed back
  · obtain ⟨after, rfl⟩ := Utf8.wellFormed_iff.mp formed'
    have same : Tally.ofText set cap (before ++ Char.ofNat b.toNat :: after) =
        Tally.ofText set cap (before ++ after) := by
      simp [Tally.ofText, unrestricted]
    rw [← Utf8.encode_around low, ← Utf8.encode_append]
    simp only [scanBytes, Utf8.decode_encode, scanText, foldl_read, same]
  · have broken : ¬ WellFormed (Utf8.encode before ++ b :: back) :=
      fun whole => formed' ((Utf8.wellFormed_around_iff low).mp whole).2
    have broken' : ¬ WellFormed (Utf8.encode before ++ back) :=
      mt (Utf8.wellFormed_encode_append_iff before).mp formed'
    rw [scanBytes_eq_notText_iff.mpr broken, scanBytes_eq_notText_iff.mpr broken']

/-- A byte string is passed over exactly if it is not well-formed.  In one that is, an occurrence is
counted for each offset where the encoding of a restricted codepoint stands, and the samples are the
first of those codepoints by offset, without repetitions and up to the cap.  Control bytes, like all
bytes below 128, are characters of their own: one that is not restricted itself can be left out. -/
theorem scanBytes_searches (path : String) (bytes : Bytes) (set : RestrictedSet) (cap : Nat) :
    (scanBytes path bytes set cap = .notText ↔ ¬ WellFormed bytes) ∧
      (WellFormed bytes → ∃ found, Occurrences set bytes found ∧
        found.length = {offset | ∃ c, set.Restricts c ∧ StandsAt bytes offset c}.ncard ∧
        scanBytes path bytes set cap = .ofOccurrences path cap found) ∧
      ∀ front b back, bytes = front ++ b :: back → b.toNat < 0x80 →
        (WellFormed bytes ↔ WellFormed front ∧ WellFormed back) ∧
          (WellFormed front → ¬ set.Restricts (Char.ofNat b.toNat) →
            scanBytes path bytes set cap = scanBytes path (front ++ back) set cap) := by
  refine ⟨scanBytes_eq_notText_iff, ?_, ?_⟩
  · intro formed
    obtain ⟨text, rfl⟩ := Utf8.wellFormed_iff.mp formed
    have found := occurrences_encode set text
    exact ⟨_, found, found.length_eq, scanBytes_encode path text set cap⟩
  · rintro front b back rfl low
    exact ⟨Utf8.wellFormed_around_iff low, scanBytes_around low⟩

end HiddenText
