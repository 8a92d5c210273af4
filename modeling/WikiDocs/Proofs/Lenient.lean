import Mathlib.Tactic.IntervalCases
import WikiDocs.Proofs.Pieces

/-!
The lenient reading of what was encoded. The first byte of a character asks for
the bytes that its encoding goes on with, and these add up to its code.
-/

namespace WikiDocs.Text.Utf8

theorem lenientFrom_cons (state : State) (b : UInt8) (bytes : List UInt8) :
    lenientFrom state (b :: bytes) = (step state b).1 ++ lenientFrom (step state b).2 bytes := by
  cases state <;> rfl

theorem toNat_ofNat {n : Nat} (h : n < 256) : (UInt8.ofNat n).toNat = n :=
  UInt8.toNat_ofNat_of_lt' h

/-- A byte in the range that is asked for takes its six bits to those collected so far. -/
theorem lenientFrom_inside {owed bits n : Nat} {low high : UInt8} (h : n < 256)
    (hlow : low.toNat ≤ n) (hhigh : n ≤ high.toNat) (bytes : List UInt8) :
    lenientFrom (.inside owed low high bits) (UInt8.ofNat n :: bytes) =
      if owed ≤ 1 then Char.ofNat (bits * 64 + (n - 128)) :: lenientFrom .start bytes
      else lenientFrom (.inside (owed - 1) 0x80 0xBF (bits * 64 + (n - 128))) bytes := by
  have hrange : low ≤ UInt8.ofNat n ∧ UInt8.ofNat n ≤ high := by
    rw [UInt8.le_iff_toNat_le, UInt8.le_iff_toNat_le, toNat_ofNat h]
    exact ⟨hlow, hhigh⟩
  rw [lenientFrom_cons, step, if_pos hrange, toNat_ofNat h]
  simp only
  split <;> rfl

/-- The last byte of a character. -/
theorem lenientFrom_last {bits n : Nat} {low high : UInt8} (h : n < 256) (hlow : low.toNat ≤ n)
    (hhigh : n ≤ high.toNat) {c : Char} (hc : bits * 64 + (n - 128) = c.toNat)
    (bytes : List UInt8) :
    lenientFrom (.inside 1 low high bits) (UInt8.ofNat n :: bytes) =
      c :: lenientFrom .start bytes := by
  rw [lenientFrom_inside h hlow hhigh, if_pos (Nat.le_refl 1), hc, Char.ofNat_toNat]

theorem lenientFrom_first {b : UInt8} {state : State} (h : first b = ([], state))
    (bytes : List UInt8) : lenientFrom .start (b :: bytes) = lenientFrom state bytes := by
  rw [lenientFrom_cons, step, h]
  rfl

theorem first_one {n : Nat} (h : n < 128) : first (UInt8.ofNat n) = ([Char.ofNat n], .start) := by
  rw [first, toNat_ofNat (by omega)]
  exact if_pos h

theorem first_two {k : Nat} (hk : 2 ≤ k) (hk' : k < 32) :
    first (UInt8.ofNat (k + 192)) = ([], .inside 1 0x80 0xBF k) := by
  interval_cases k <;> rfl

/-- Of three bytes the second is bounded so that no shorter encoding and no surrogate is read. -/
theorem first_three {k : Nat} (hk : k < 16) :
    first (UInt8.ofNat (k + 224)) =
      ([], .inside 2 (UInt8.ofNat (if k = 0 then 160 else 128))
        (UInt8.ofNat (if k = 13 then 159 else 191)) k) := by
  interval_cases k <;> rfl

/-- Of four bytes the second is bounded so that no shorter encoding and nothing beyond the last
character is read. -/
theorem first_four {k : Nat} (hk : k ≤ 4) :
    first (UInt8.ofNat (k + 240)) =
      ([], .inside 3 (UInt8.ofNat (if k = 0 then 144 else 128))
        (UInt8.ofNat (if k = 4 then 143 else 191)) k) := by
  interval_cases k <;> rfl

theorem lenientFrom_utf8EncodeChar (c : Char) (bytes : List UInt8) :
    lenientFrom .start (String.utf8EncodeChar c ++ bytes) = c :: lenientFrom .start bytes := by
  have hvalid : c.toNat < 0xD800 ∨ 0xDFFF < c.toNat ∧ c.toNat < 0x110000 := c.valid
  have hcode : c.val.toNat = c.toNat := rfl
  have hlast : (128 : UInt8).toNat = 128 ∧ (191 : UInt8).toNat = 191 := ⟨rfl, rfl⟩
  simp only [String.utf8EncodeChar, hcode]
  split
  · have hfirst := first_one (n := c.toNat) (by omega)
    rw [List.singleton_append, lenientFrom_cons, step, hfirst, Char.ofNat_toNat]
    rfl
  split
  · rw [List.cons_append, List.cons_append, List.nil_append,
      lenientFrom_first (first_two (by omega) (by omega)),
      lenientFrom_last (c := c) (by omega) (by omega) (by omega) (by omega)]
  split
  · rw [List.cons_append, List.cons_append, List.cons_append, List.nil_append,
      lenientFrom_first (first_three (by omega)),
      lenientFrom_inside (by omega) _ _, if_neg (by decide),
      lenientFrom_last (c := c) (by omega) (by omega) (by omega) (by omega)]
    · rw [toNat_ofNat (by split <;> omega)]
      split <;> omega
    · rw [toNat_ofNat (by split <;> omega)]
      split <;> omega
  · rw [List.cons_append, List.cons_append, List.cons_append, List.cons_append, List.nil_append,
      lenientFrom_first (first_four (by omega)),
      lenientFrom_inside (by omega) _ _, if_neg (by decide),
      lenientFrom_inside (by omega) (by omega) (by omega), if_neg (by decide),
      lenientFrom_last (c := c) (by omega) (by omega) (by omega) (by omega)]
    · rw [toNat_ofNat (by split <;> omega)]
      split <;> omega
    · rw [toNat_ofNat (by split <;> omega)]
      split <;> omega

/-- What was encoded is read as it was. -/
theorem lenient_encode (s : Text) : lenient (encode s).data.toList = s := by
  rw [toList_encode, lenient]
  induction s with
  | nil => rfl
  | cons c s ih => rw [List.flatMap_cons, lenientFrom_utf8EncodeChar, ih]

end WikiDocs.Text.Utf8
