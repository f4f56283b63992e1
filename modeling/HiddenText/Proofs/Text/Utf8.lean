import HiddenText.Text.Utf8

/-! # Decoding undoes encoding, and accepts nothing else

`decode_eq_some_iff`: a byte string is read as a text if and only if it is that text's encoding.
A reader in the middle of a sequence is described by what may follow: every tail that its pending
ranges allow completes the encoding of the scalar value that the reader will then hold. -/
set_option autoImplicit false

namespace HiddenText.Utf8

/-! ## Lead bytes -/

theorem ByteRange.holds_iff (r : ByteRange) (b : UInt8) :
    r.holds b = true ↔ r.first.toNat ≤ b.toNat ∧ b.toNat ≤ r.last.toNat := by
  simp only [ByteRange.holds, Bool.and_eq_true, decide_eq_true_eq, UInt8.le_iff_toNat_le]

theorem continuation_holds_iff (b : UInt8) :
    continuation.holds b = true ↔ 128 ≤ b.toNat ∧ b.toNat ≤ 191 := by
  simp [ByteRange.holds_iff, continuation]

/-- The range of the byte after a lead byte of three or more. -/
def second (b : UInt8) : ByteRange :=
  if b = 0xE0 then ⟨0xA0, 0xBF⟩ else if b = 0xED then ⟨0x80, 0x9F⟩
  else if b = 0xF0 then ⟨0x90, 0xBF⟩ else if b = 0xF4 then ⟨0x80, 0x8F⟩ else continuation

theorem second_holds_iff (a b : UInt8) : (second a).holds b = true ↔
    128 ≤ b.toNat ∧ b.toNat ≤ 191 ∧ (a.toNat = 224 → 160 ≤ b.toNat) ∧
      (a.toNat = 237 → b.toNat < 160) ∧ (a.toNat = 240 → 144 ≤ b.toNat) ∧
      (a.toNat = 244 → b.toNat < 144) := by
  have eq_iff : ∀ c : UInt8, a = c ↔ a.toNat = c.toNat := fun c => UInt8.toNat_inj.symm
  rw [ByteRange.holds_iff]
  simp only [second, eq_iff, continuation]
  split
  · simp_all
    omega
  · split
    · simp_all
      omega
    · split
      · simp_all
        omega
      · split
        · simp_all
          omega
        · simp_all

/-- The lead bytes by the length of the sequence that they announce. -/
theorem announced_eq (b : UInt8) : announced b =
    if b.toNat < 194 then none
    else if b.toNat < 224 then some (b.toNat % 32, [continuation])
    else if b.toNat < 240 then some (b.toNat % 16, [second b, continuation])
    else if b.toNat < 245 then some (b.toNat % 8, [second b, continuation, continuation])
    else none := by
  have table : ∀ n : Fin 256, announced (UInt8.ofNat n.val) =
      if n.val < 194 then none
      else if n.val < 224 then some (n.val % 32, [continuation])
      else if n.val < 240 then some (n.val % 16, [second (UInt8.ofNat n.val), continuation])
      else if n.val < 245 then
        some (n.val % 8, [second (UInt8.ofNat n.val), continuation, continuation])
      else none := by decide +kernel
  simpa using table ⟨b.toNat, b.toNat_lt⟩

/-! ## Encodings by their length -/

theorem ofNat_eq_of_eq_toNat {n : Nat} {b : UInt8} (h : n = b.toNat) : UInt8.ofNat n = b := by
  subst h
  simp

theorem toNat_val_ofNat {n : Nat} (h : n.isValidChar) : (Char.ofNat n).val.toNat = n := by
  rw [Char.ofNat, dif_pos h]
  rfl

theorem encodeChar_one {b : UInt8} (h : b.toNat < 128) :
    String.utf8EncodeChar (Char.ofNat b.toNat) = [b] := by
  have valid : b.toNat.isValidChar := Or.inl (by omega)
  simp only [String.utf8EncodeChar, toNat_val_ofNat valid]
  rw [if_pos (by omega), ofNat_eq_of_eq_toNat rfl]

theorem encodeChar_two {n : Nat} {a b : UInt8} (ha : 194 ≤ a.toNat ∧ a.toNat < 224)
    (hb : 128 ≤ b.toNat ∧ b.toNat ≤ 191) (hn : n = a.toNat % 32 * 64 + b.toNat % 64) :
    String.utf8EncodeChar (Char.ofNat n) = [a, b] := by
  have valid : n.isValidChar := Or.inl (by omega)
  simp only [String.utf8EncodeChar, toNat_val_ofNat valid]
  rw [if_neg (by omega), if_pos (by omega), ofNat_eq_of_eq_toNat (b := a) (by omega),
    ofNat_eq_of_eq_toNat (b := b) (by omega)]

theorem encodeChar_three {n : Nat} {a b c : UInt8} (ha : 224 ≤ a.toNat ∧ a.toNat < 240)
    (hb : (second a).holds b = true) (hc : 128 ≤ c.toNat ∧ c.toNat ≤ 191)
    (hn : n = (a.toNat % 16 * 64 + b.toNat % 64) * 64 + c.toNat % 64) :
    String.utf8EncodeChar (Char.ofNat n) = [a, b, c] := by
  rw [second_holds_iff] at hb
  have valid : n.isValidChar := by
    by_cases small : n < 0xD800
    · exact Or.inl small
    · exact Or.inr (by omega)
  simp only [String.utf8EncodeChar, toNat_val_ofNat valid]
  rw [if_neg (by omega), if_neg (by omega), if_pos (by omega),
    ofNat_eq_of_eq_toNat (b := a) (by omega), ofNat_eq_of_eq_toNat (b := b) (by omega),
    ofNat_eq_of_eq_toNat (b := c) (by omega)]

theorem encodeChar_four {n : Nat} {a b c d : UInt8} (ha : 240 ≤ a.toNat ∧ a.toNat < 245)
    (hb : (second a).holds b = true) (hc : 128 ≤ c.toNat ∧ c.toNat ≤ 191)
    (hd : 128 ≤ d.toNat ∧ d.toNat ≤ 191)
    (hn : n = ((a.toNat % 8 * 64 + b.toNat % 64) * 64 + c.toNat % 64) * 64 + d.toNat % 64) :
    String.utf8EncodeChar (Char.ofNat n) = [a, b, c, d] := by
  rw [second_holds_iff] at hb
  have valid : n.isValidChar := Or.inr (by omega)
  simp only [String.utf8EncodeChar, toNat_val_ofNat valid]
  rw [if_neg (by omega), if_neg (by omega), if_neg (by omega),
    ofNat_eq_of_eq_toNat (b := a) (by omega), ofNat_eq_of_eq_toNat (b := b) (by omega),
    ofNat_eq_of_eq_toNat (b := c) (by omega), ofNat_eq_of_eq_toNat (b := d) (by omega)]

/-! ## Sequences in the middle -/

def Completes : List ByteRange → Bytes → Prop
  | [], [] => True
  | r :: pending, b :: tail => r.holds b = true ∧ Completes pending tail
  | _, _ => False

/-- The share of a scalar value that is known after more bytes of its sequence. -/
def extend (value : Nat) (tail : Bytes) : Nat :=
  tail.foldl (fun v b => v * 64 + b.toNat % 64) value

/-- Whatever completes an announced sequence makes it the encoding of one character. -/
theorem encodeChar_of_announced {b : UInt8} {value : Nat} {pending : List ByteRange} {tail : Bytes}
    (h : announced b = some (value, pending)) (complete : Completes pending tail) :
    String.utf8EncodeChar (Char.ofNat (extend value tail)) = b :: tail := by
  rw [announced_eq] at h
  split at h
  · cases h
  · split at h
    · cases h
      match tail, complete with
      | [c], ⟨hc, _⟩ =>
        rw [continuation_holds_iff] at hc
        exact encodeChar_two (by omega) hc rfl
    · split at h
      · cases h
        match tail, complete with
        | [c, d], ⟨hc, hd, _⟩ =>
          rw [continuation_holds_iff] at hd
          exact encodeChar_three (by omega) hc hd rfl
      · split at h
        · cases h
          match tail, complete with
          | [c, d, e], ⟨hc, hd, he, _⟩ =>
            rw [continuation_holds_iff] at hd he
            exact encodeChar_four (by omega) hc hd he rfl
        · cases h

theorem announced_two {b : UInt8} (h : 194 ≤ b.toNat ∧ b.toNat < 224) :
    announced b = some (b.toNat % 32, [continuation]) := by
  rw [announced_eq, if_neg (by omega), if_pos h.2]

theorem announced_three {b : UInt8} (h : 224 ≤ b.toNat ∧ b.toNat < 240) :
    announced b = some (b.toNat % 16, [second b, continuation]) := by
  rw [announced_eq, if_neg (by omega), if_neg (by omega), if_pos h.2]

theorem announced_four {b : UInt8} (h : 240 ≤ b.toNat ∧ b.toNat < 245) :
    announced b = some (b.toNat % 8, [second b, continuation, continuation]) := by
  rw [announced_eq, if_neg (by omega), if_neg (by omega), if_neg (by omega), if_pos h.2]

/-- The encoding of a character is one byte below 128, or a sequence that its first byte
announces. -/
theorem encodeChar_cases (c : Char) :
    (∃ b : UInt8, b.toNat < 128 ∧ b.toNat = c.toNat ∧ String.utf8EncodeChar c = [b]) ∨
      ∃ b tail value pending, String.utf8EncodeChar c = b :: tail ∧ 128 ≤ b.toNat ∧
        announced b = some (value, pending) ∧ Completes pending tail ∧
        extend value tail = c.toNat := by
  have scalar : c.toNat < 0xD800 ∨ 0xDFFF < c.toNat ∧ c.toNat < 0x110000 := c.valid
  have byte : ∀ n, n < 256 → (UInt8.ofNat n).toNat = n := fun n h => by
    rw [UInt8.toNat_ofNat', Nat.mod_eq_of_lt h]
  simp only [String.utf8EncodeChar, Char.toNat_val]
  generalize c.toNat = n at scalar ⊢
  split
  · left
    refine ⟨UInt8.ofNat n, ?_, ?_, rfl⟩
    · rw [byte n (by omega)]
      omega
    · rw [byte n (by omega)]
  · right
    have last : (UInt8.ofNat (n % 64 + 128)).toNat = n % 64 + 128 := byte _ (by omega)
    have middle : (UInt8.ofNat (n / 64 % 64 + 128)).toNat = n / 64 % 64 + 128 :=
      byte _ (by omega)
    split
    · have lead : (UInt8.ofNat (n / 64 % 32 + 192)).toNat = n / 64 % 32 + 192 := byte _ (by omega)
      refine ⟨_, _, _, _, rfl, by omega, announced_two (by omega), ⟨?_, trivial⟩, ?_⟩
      · rw [continuation_holds_iff]
        omega
      · simp only [extend, List.foldl_cons, List.foldl_nil]
        omega
    · split
      · have lead : (UInt8.ofNat (n / 4096 % 16 + 224)).toNat = n / 4096 % 16 + 224 :=
          byte _ (by omega)
        refine ⟨_, _, _, _, rfl, by omega, announced_three (by omega), ⟨?_, ?_, trivial⟩, ?_⟩
        · rw [second_holds_iff]
          omega
        · rw [continuation_holds_iff]
          omega
        · simp only [extend, List.foldl_cons, List.foldl_nil]
          omega
      · have lead : (UInt8.ofNat (n / 262144 % 8 + 240)).toNat = n / 262144 % 8 + 240 :=
          byte _ (by omega)
        have upper : (UInt8.ofNat (n / 4096 % 64 + 128)).toNat = n / 4096 % 64 + 128 :=
          byte _ (by omega)
        refine ⟨_, _, _, _, rfl, by omega, announced_four (by omega), ⟨?_, ?_, ?_, trivial⟩, ?_⟩
        · rw [second_holds_iff]
          omega
        · rw [continuation_holds_iff]
          omega
        · rw [continuation_holds_iff]
          omega
        · simp only [extend, List.foldl_cons, List.foldl_nil]
          omega

/-! ## Reading what was written -/

theorem feed_of_pending_nil {r : Reader} (idle : r.pending = []) (b : UInt8) :
    r.feed b = r.start b := by
  simp only [Reader.feed, idle]

theorem start_of_lt {b : UInt8} (h : b.toNat < 128) (r : Reader) :
    r.start b = r.emit (some (Char.ofNat b.toNat)) := by
  rw [Reader.start, if_pos (UInt8.lt_iff_toNat_lt.mpr h)]

theorem start_of_announced {b : UInt8} {value : Nat} {pending : List ByteRange}
    (high : 128 ≤ b.toNat) (h : announced b = some (value, pending)) (r : Reader) :
    r.start b = ⟨r.pieces, value, pending⟩ := by
  rw [Reader.start, if_neg (by rw [UInt8.lt_iff_toNat_lt]; exact Nat.not_lt.mpr high), h]

/-- A tail that completes the pending sequence ends it with one character. -/
theorem foldl_feed_of_completes : ∀ (tail : Bytes) (pieces : List (Option Char)) (value : Nat)
    (pending : List ByteRange), pending ≠ [] → Completes pending tail →
      tail.foldl Reader.feed ⟨pieces, value, pending⟩ =
        ⟨some (Char.ofNat (extend value tail)) :: pieces, 0, []⟩ := by
  intro tail
  induction tail with
  | nil =>
      intro pieces value pending some complete
      cases pending with
      | nil => exact absurd rfl some
      | cons range rest => exact absurd complete id
  | cons b tail ih =>
      intro pieces value pending _ complete
      cases pending with
      | nil => exact absurd complete id
      | cons range rest =>
          obtain ⟨holds, complete⟩ := complete
          rw [List.foldl_cons]
          cases rest with
          | nil =>
              cases tail with
              | nil => simp [Reader.feed, holds, Reader.emit, extend]
              | cons _ _ => exact absurd complete id
          | cons next more =>
              have step : Reader.feed ⟨pieces, value, range :: next :: more⟩ b =
                  ⟨pieces, value * 64 + b.toNat % 64, next :: more⟩ := by
                simp [Reader.feed, holds]
              rw [step, ih _ _ _ (List.cons_ne_nil _ _) complete]
              rfl

theorem pending_ne_nil_of_announced {b : UInt8} {value : Nat} {pending : List ByteRange}
    (h : announced b = some (value, pending)) : pending ≠ [] := by
  rw [announced_eq] at h
  split at h
  · cases h
  · repeat' split at h
    all_goals cases h
    all_goals exact List.cons_ne_nil _ _

theorem foldl_feed_encodeChar (r : Reader) (idle : r.pending = []) (c : Char) :
    (String.utf8EncodeChar c).foldl Reader.feed r = ⟨some c :: r.pieces, 0, []⟩ := by
  rcases encodeChar_cases c with ⟨b, low, value, encoded⟩ |
      ⟨b, tail, value, pending, encoded, high, lead, complete, reached⟩
  · rw [encoded, List.foldl_cons, List.foldl_nil, feed_of_pending_nil idle, start_of_lt low, value,
      Char.ofNat_toNat]
    rfl
  · rw [encoded, List.foldl_cons, feed_of_pending_nil idle, start_of_announced high lead,
      foldl_feed_of_completes tail _ _ _ (pending_ne_nil_of_announced lead) complete, reached,
      Char.ofNat_toNat]

theorem encode_cons (c : Char) (text : List Char) :
    encode (c :: text) = String.utf8EncodeChar c ++ encode text := rfl

theorem encode_append (text more : List Char) :
    encode (text ++ more) = encode text ++ encode more :=
  List.flatMap_append

theorem foldl_feed_encode : ∀ (text : List Char) (r : Reader), r.pending = [] →
    ((encode text).foldl Reader.feed r).pending = [] ∧
      ((encode text).foldl Reader.feed r).pieces = (text.map some).reverse ++ r.pieces := by
  intro text
  induction text with
  | nil => intro r idle; exact ⟨idle, rfl⟩
  | cons c text ih =>
      intro r idle
      rw [encode_cons, List.foldl_append, foldl_feed_encodeChar r idle]
      obtain ⟨still, pieces⟩ := ih ⟨some c :: r.pieces, 0, []⟩ rfl
      refine ⟨still, ?_⟩
      rw [pieces]
      simp

theorem pieces_encode (text : List Char) : pieces (encode text) = text.map some := by
  obtain ⟨idle, read⟩ := foldl_feed_encode text {} rfl
  simp only [pieces, Reader.finish, idle, read]
  simp

theorem decode_encode (text : List Char) : decode (encode text) = some text := by
  simp [decode, pieces_encode]

theorem decodeLossy_encode (text : List Char) : decodeLossy (encode text) = text := by
  simp [decodeLossy, pieces_encode, Function.comp_def]

/-! ## What was read was written -/

/-- After `bytes`, a reader has met a piece that is no character, or its pieces encode `bytes` up
to a sequence that is still open. -/
def Reader.Reads (r : Reader) (bytes : Bytes) : Prop :=
  none ∈ r.pieces ∨ ∃ text part, r.pieces = (text.map some).reverse ∧
    bytes = encode text ++ part ∧ (r.pending = [] → part = []) ∧
    ∀ tail, r.pending ≠ [] → Completes r.pending tail →
      String.utf8EncodeChar (Char.ofNat (extend r.value tail)) = part ++ tail

theorem Reader.Reads.emit {r : Reader} {bytes : Bytes} {text : List Char} {c : Char}
    (pieces : r.pieces = (text.map some).reverse)
    (written : bytes = encode text ++ String.utf8EncodeChar c) :
    (r.emit (some c)).Reads bytes := by
  refine Or.inr ⟨text ++ [c], [], ?_, ?_, fun _ => rfl, fun _ more => absurd rfl more⟩
  · simp [Reader.emit, pieces]
  · rw [written, encode_append]
    simp [encode]

theorem none_mem_start {r : Reader} (b : UInt8) (h : none ∈ r.pieces) :
    none ∈ (r.start b).pieces := by
  simp only [Reader.start, Reader.emit]
  split
  · exact List.mem_cons_of_mem _ h
  · split
    · exact List.mem_cons_of_mem _ h
    · exact h

theorem none_mem_feed {r : Reader} (b : UInt8) (h : none ∈ r.pieces) :
    none ∈ (r.feed b).pieces := by
  simp only [Reader.feed]
  split
  · exact none_mem_start b h
  · split
    · split
      · exact List.mem_cons_of_mem _ h
      · exact h
    · exact none_mem_start b (List.mem_cons_self ..)

theorem reads_start {r : Reader} {text : List Char} (b : UInt8)
    (pieces : r.pieces = (text.map some).reverse) : (r.start b).Reads (encode text ++ [b]) := by
  by_cases low : b.toNat < 128
  · rw [start_of_lt low]
    exact Reader.Reads.emit pieces (by rw [encodeChar_one low])
  · cases lead : announced b with
    | none =>
        left
        rw [Reader.start, if_neg (by rw [UInt8.lt_iff_toNat_lt]; exact low), lead]
        exact List.mem_cons_self ..
    | some found =>
        obtain ⟨value, pending⟩ := found
        rw [start_of_announced (Nat.not_lt.mp low) lead]
        exact Or.inr ⟨text, [b], pieces, rfl,
          fun closed => absurd closed (pending_ne_nil_of_announced lead),
          fun tail _ complete => encodeChar_of_announced lead complete⟩

theorem reads_feed {r : Reader} {bytes : Bytes} (b : UInt8) (h : r.Reads bytes) :
    (r.feed b).Reads (bytes ++ [b]) := by
  rcases h with bad | ⟨text, part, pieces, written, closed, opened⟩
  · exact Or.inl (none_mem_feed b bad)
  · cases waiting : r.pending with
    | nil =>
        rw [feed_of_pending_nil waiting, written, closed waiting, List.append_nil]
        exact reads_start b pieces
    | cons range rest =>
        rw [waiting] at opened
        by_cases holds : range.holds b = true
        · cases rest with
          | nil =>
              have step : r.feed b = r.emit (some (Char.ofNat (r.value * 64 + b.toNat % 64))) := by
                simp [Reader.feed, waiting, holds]
              rw [step]
              have char := opened [b] (List.cons_ne_nil _ _) ⟨holds, trivial⟩
              apply Reader.Reads.emit pieces
              rw [written, List.append_assoc, ← char]
              rfl
          | cons next more =>
              have step : r.feed b = ⟨r.pieces, r.value * 64 + b.toNat % 64, next :: more⟩ := by
                simp [Reader.feed, waiting, holds]
              rw [step]
              refine Or.inr ⟨text, part ++ [b], pieces, ?_, (fun closed => nomatch closed), ?_⟩
              · rw [written, List.append_assoc]
              · intro tail _ complete
                rw [List.append_assoc]
                exact opened (b :: tail) (List.cons_ne_nil _ _) ⟨holds, complete⟩
        · left
          have step : r.feed b = (r.emit none).start b := by
            simp [Reader.feed, waiting, holds]
          rw [step]
          exact none_mem_start b (List.mem_cons_self ..)

theorem reads_foldl_feed : ∀ (more bytes : Bytes) (r : Reader), r.Reads bytes →
    (more.foldl Reader.feed r).Reads (bytes ++ more) := by
  intro more
  induction more with
  | nil => intro bytes r h; rwa [List.append_nil]
  | cons b more ih =>
      intro bytes r h
      have := ih (bytes ++ [b]) (r.feed b) (reads_feed b h)
      rwa [List.append_assoc] at this

theorem Reader.Reads.eq_encode_finish {r : Reader} {bytes : Bytes} (h : r.Reads bytes)
    (good : none ∉ r.finish) : bytes = encode (r.finish.filterMap id) := by
  cases waiting : r.pending with
  | nil =>
      have finish : r.finish = r.pieces.reverse := by simp only [Reader.finish, waiting]
      rw [finish] at good ⊢
      rcases h with bad | ⟨text, part, pieces, written, closed, _⟩
      · exact absurd (List.mem_reverse.mpr bad) good
      · rw [written, closed waiting, pieces]
        simp
  | cons range rest =>
      have finish : r.finish = (none :: r.pieces).reverse := by simp only [Reader.finish, waiting]
      rw [finish] at good
      exact absurd (List.mem_reverse.mpr (List.mem_cons_self ..)) good

theorem eq_encode_of_decode {bytes : Bytes} {text : List Char} (h : decode bytes = some text) :
    bytes = encode text := by
  have start : Reader.Reads {} [] :=
    Or.inr ⟨[], [], rfl, rfl, fun _ => rfl, fun _ waiting => absurd rfl waiting⟩
  have read := reads_foldl_feed bytes [] {} start
  by_cases bad : none ∈ pieces bytes
  · rw [decode, if_pos bad] at h
    cases h
  · rw [decode, if_neg bad] at h
    cases h
    exact read.eq_encode_finish bad

theorem decode_eq_some_iff (bytes : Bytes) (text : List Char) :
    decode bytes = some text ↔ bytes = encode text :=
  ⟨eq_encode_of_decode, fun h => h ▸ decode_encode text⟩

theorem encode_injective : Function.Injective encode := fun text more h =>
  Option.some.inj (by rw [← decode_encode text, h, decode_encode])

end HiddenText.Utf8
