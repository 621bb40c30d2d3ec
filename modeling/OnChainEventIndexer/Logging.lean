/-!
# Masked addresses

Model of `logging.rs`. `mask_addr` slices its argument at byte offsets; a Rust slice `&s[i..j]`
panics unless both ends lie on character boundaries. A panic is `none`.

`maskAddr_ne_none` says in terms of characters which addresses are masked.
-/

namespace OnChainEventIndexer

/-- `&s[i..j]`, `none` when it panics. -/
def slice (s : String) (i j : Nat) : Option String :=
  if String.Pos.Raw.isValid s ⟨i⟩ && String.Pos.Raw.isValid s ⟨j⟩ && decide (i ≤ j) then
    some (String.Pos.Raw.extract s ⟨i⟩ ⟨j⟩)
  else none

/-- `mask_addr` -/
def maskAddr (addr : String) : Option String :=
  let keep : Nat := 5
  let len := addr.utf8ByteSize
  if len ≤ keep * 2 + 3 then some addr
  else
    (slice addr 0 keep).bind fun start =>
      (slice addr (len - keep) len).map fun «end» => start ++ "..." ++ «end»

/-! ## Which addresses can be masked -/

/-- Some characters at the front of `s` take exactly `i` bytes. -/
def CharBoundary (s : String) (i : Nat) : Prop :=
  ∃ front back, s = front ++ back ∧ front.utf8ByteSize = i

/-- At most 13 bytes, or whole characters in the first five and in the last five. -/
def Maskable (addr : String) : Prop :=
  addr.utf8ByteSize ≤ 13 ∨ (CharBoundary addr 5 ∧ CharBoundary addr (addr.utf8ByteSize - 5))

theorem isValid_iff {s : String} {i : Nat} :
    String.Pos.Raw.isValid s ⟨i⟩ = true ↔ CharBoundary s i := by
  rw [String.Pos.Raw.isValid_eq_true_iff, String.Pos.Raw.isValid_iff_exists_append]
  constructor
  · rintro ⟨front, back, hs, hi⟩
    exact ⟨front, back, hs, (congrArg String.Pos.Raw.byteIdx hi).symm⟩
  · rintro ⟨front, back, hs, rfl⟩
    exact ⟨front, back, hs, rfl⟩

theorem charBoundary_zero (s : String) : CharBoundary s 0 := ⟨"", s, by simp, rfl⟩

theorem charBoundary_end (s : String) : CharBoundary s s.utf8ByteSize := ⟨s, "", by simp, rfl⟩

theorem slice_ne_none {s : String} {i j : Nat} :
    slice s i j ≠ none ↔ CharBoundary s i ∧ CharBoundary s j ∧ i ≤ j := by
  unfold slice
  rw [← isValid_iff, ← isValid_iff]
  split
  · rename_i h
    simpa [and_assoc] using h
  · rename_i h
    simpa [and_assoc] using h

/-- **`mask_addr` returns** just for these. -/
theorem maskAddr_ne_none {addr : String} : maskAddr addr ≠ none ↔ Maskable addr := by
  have hstart : slice addr 0 5 ≠ none ↔ CharBoundary addr 5 := by
    rw [slice_ne_none]
    exact ⟨fun h => h.2.1, fun h => ⟨charBoundary_zero addr, h, Nat.zero_le 5⟩⟩
  have hend : slice addr (addr.utf8ByteSize - 5) addr.utf8ByteSize ≠ none ↔
      CharBoundary addr (addr.utf8ByteSize - 5) := by
    rw [slice_ne_none]
    exact ⟨fun h => h.1, fun h => ⟨h, charBoundary_end addr, Nat.sub_le _ _⟩⟩
  unfold Maskable maskAddr
  rw [← hstart, ← hend]
  by_cases hlen : addr.utf8ByteSize ≤ 13
  · simp [hlen]
  · simp only [hlen, if_false, false_or]
    cases slice addr 0 5 with
    | none => simp
    | some start => simp

/-- Seven two-byte characters: byte 5 is inside the third one. -/
example : maskAddr "ééééééé" = none := by decide

end OnChainEventIndexer
