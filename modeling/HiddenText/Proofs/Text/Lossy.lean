import HiddenText.Proofs.Text.Utf8

/-! # The lossy reading around a character of ASCII

A byte below 0x80 stands for its character wherever it is, and a sequence that is still open ends
before it.  So the lossy reading of a byte string is cut where such a byte cuts it
(`decodeLossy_around`). -/
set_option autoImplicit false

namespace HiddenText.Utf8

/-! ## What was read before does not matter -/

def Reader.onto (r : Reader) (older : List (Option Char)) : Reader :=
  { r with pieces := r.pieces ++ older }

theorem start_onto (r : Reader) (older : List (Option Char)) (b : UInt8) :
    (r.onto older).start b = (r.start b).onto older := by
  rw [Reader.start, Reader.start]
  split
  · rfl
  · split <;> rfl

theorem feed_onto (r : Reader) (older : List (Option Char)) (b : UInt8) :
    (r.onto older).feed b = (r.feed b).onto older := by
  obtain ⟨pieces, value, pending⟩ := r
  cases pending with
  | nil =>
      rw [feed_of_pending_nil rfl, feed_of_pending_nil rfl]
      exact start_onto ..
  | cons range rest =>
      simp only [Reader.feed, Reader.onto]
      split
      · split <;> rfl
      · exact start_onto (Reader.emit ⟨pieces, value, range :: rest⟩ none) older b

theorem foldl_feed_onto : ∀ (bytes : Bytes) (r : Reader) (older : List (Option Char)),
    bytes.foldl Reader.feed (r.onto older) = (bytes.foldl Reader.feed r).onto older := by
  intro bytes
  induction bytes with
  | nil => intro r older; rfl
  | cons b bytes ih =>
      intro r older
      rw [List.foldl_cons, List.foldl_cons, feed_onto, ih]

theorem finish_onto (r : Reader) (older : List (Option Char)) :
    (r.onto older).finish = older.reverse ++ r.finish := by
  obtain ⟨pieces, value, pending⟩ := r
  cases pending <;> simp [Reader.finish, Reader.onto]

/-! ## Only high bytes are awaited -/

/-- No byte of ASCII continues the sequence that is being read. -/
def Reader.AwaitsHigh (r : Reader) : Prop := ∀ range ∈ r.pending, 0x80 ≤ range.first.toNat

theorem first_of_announced {b : UInt8} {value : Nat} {pending : List ByteRange}
    (h : announced b = some (value, pending)) : ∀ range ∈ pending, 0x80 ≤ range.first.toNat := by
  rw [announced] at h
  repeat' split at h
  all_goals cases h
  all_goals decide

theorem awaitsHigh_start (r : Reader) (b : UInt8) : (r.start b).AwaitsHigh := by
  rw [Reader.start]
  split
  · exact List.forall_mem_nil _
  · split
    · exact List.forall_mem_nil _
    · rename_i announces
      exact first_of_announced announces

theorem awaitsHigh_feed {r : Reader} (h : r.AwaitsHigh) (b : UInt8) : (r.feed b).AwaitsHigh := by
  obtain ⟨pieces, value, pending⟩ := r
  cases pending with
  | nil =>
      rw [feed_of_pending_nil rfl]
      exact awaitsHigh_start _ b
  | cons range rest =>
      rw [Reader.feed]
      split
      · rename_i idle
        cases idle
      · rename_i range' rest' pending
        cases pending
        split
        · split
          · exact List.forall_mem_nil _
          · exact fun range' known => h range' (List.mem_cons_of_mem _ known)
        · exact awaitsHigh_start _ b

theorem awaitsHigh_foldl_feed : ∀ (bytes : Bytes) {r : Reader}, r.AwaitsHigh →
    (bytes.foldl Reader.feed r).AwaitsHigh := by
  intro bytes
  induction bytes with
  | nil => exact id
  | cons b bytes ih => exact fun h => ih (awaitsHigh_feed h b)

/-! ## Bytes of ASCII -/

/-- The sequence that is being read ends before a byte of ASCII, complete or not. -/
theorem feed_of_lt {r : Reader} (high : r.AwaitsHigh) {b : UInt8} (low : b.toNat < 0x80) :
    r.feed b = Reader.onto {} (some (Char.ofNat b.toNat) :: r.finish.reverse) := by
  obtain ⟨pieces, value, pending⟩ := r
  cases pending with
  | nil =>
      rw [feed_of_pending_nil rfl, start_of_lt low]
      simp [Reader.finish, Reader.onto, Reader.emit]
  | cons range rest =>
      have refused : range.holds b = false := by
        have first := high range (List.mem_cons_self ..)
        rw [Bool.eq_false_iff, ne_eq, ByteRange.holds_iff]
        omega
      simp only [Reader.feed, refused, Bool.false_eq_true, if_false, start_of_lt low]
      simp [Reader.finish, Reader.onto, Reader.emit]

theorem pieces_around (front : Bytes) {b : UInt8} (low : b.toNat < 0x80) (back : Bytes) :
    pieces (front ++ b :: back) = pieces front ++ some (Char.ofNat b.toNat) :: pieces back := by
  have high : (front.foldl Reader.feed {}).AwaitsHigh :=
    awaitsHigh_foldl_feed front (List.forall_mem_nil _)
  rw [pieces, List.foldl_append, List.foldl_cons, feed_of_lt high low, foldl_feed_onto, finish_onto]
  simp [pieces]

/-- A byte of ASCII is read for itself, and what stands on its two sides is read apart. -/
theorem decodeLossy_around (front : Bytes) {b : UInt8} (low : b.toNat < 0x80) (back : Bytes) :
    decodeLossy (front ++ b :: back) =
      decodeLossy front ++ Char.ofNat b.toNat :: decodeLossy back := by
  rw [decodeLossy, pieces_around front low]
  simp [decodeLossy]

end HiddenText.Utf8
