import Mathlib.Tactic.Ring
import ShardQuery.Uuid

/-!
# Identifiers Read Back

## Main results

* `Uuid.parse?_render`: an identifier reads back from its text.
-/

namespace ShardQuery.Uuid

/-- The hexadecimal digit of a number below sixteen stands for that number. There are only sixteen
cases, and each of them is computed. -/
theorem digitValue?_digit : ∀ n < 16, Hex.digitValue? (Hex.digit n) = some n := by
  decide +kernel

/-- The values of the digits of a number, from the highest of `k` digits. -/
def hexValues (n k : Nat) : List Nat :=
  (List.range k).map fun i => (n >>> (4 * (k - 1 - i))) % 16

/-- The digits of a number stand for it, as far as there are enough of them. -/
theorem foldl_hexValues (n k : Nat) :
    (hexValues n k).foldl (fun n value => n * 16 + value) 0 = n % 16 ^ k := by
  induction k generalizing n with
  | zero => exact (Nat.mod_one n).symm
  | succ k ih =>
      have hlast : hexValues n (k + 1) = hexValues (n / 16) k ++ [n % 16] := by
        rw [hexValues, List.range_succ, List.map_append, hexValues]
        congr 1
        · refine List.map_congr_left fun i hi => ?_
          have hi := List.mem_range.1 hi
          rw [Nat.shiftRight_eq_div_pow, Nat.shiftRight_eq_div_pow, Nat.div_div_eq_div_mul,
            show 4 * (k + 1 - 1 - i) = 4 + 4 * (k - 1 - i) by omega, Nat.pow_add]
        · simp
      rw [hlast, List.foldl_append, ih, Nat.pow_succ', Nat.mod_mul]
      simp only [List.foldl_cons, List.foldl_nil]
      ring

/-- An identifier has thirty-two digits, whatever its number: leading zeros are written. -/
theorem length_digits (id : Uuid) : id.digits.length = 32 := by
  rw [digits, List.length_map, List.length_range]

/-- The digits of an identifier stand for the last thirty-two places of its number to the base
sixteen. -/
theorem mapM_digits (id : Uuid) :
    id.digits.mapM Hex.digitValue? = some (hexValues id.bits.toNat 32) := by
  rw [digits, hexValues]
  induction List.range 32 with
  | nil => rfl
  | cons i is ih =>
      rw [List.map_cons, List.mapM_cons, digitValue?_digit _ (Nat.mod_lt _ (by decide)), ih]
      rfl

/-- The digits of an identifier stand for it, since thirty-two places are enough for all of its
bits. -/
theorem ofDigits?_digits (id : Uuid) : ofDigits? id.digits = some id := by
  have hlt : id.bits.toNat < 16 ^ 32 := id.bits.isLt
  rw [ofDigits?, if_pos id.length_digits, mapM_digits, Option.map_some, foldl_hexValues,
    Nat.mod_eq_of_lt hlt, BitVec.ofNat_toNat, BitVec.setWidth_eq]

/-- Digits in groups of eight, four, four, four and twelve are found again once the hyphens between
them are taken out. -/
theorem ofGroups?_groups {a b c d e : List Char} (ha : a.length = 8) (hb : b.length = 4)
    (hc : c.length = 4) (hd : d.length = 4) (he : e.length = 12) :
    ofGroups? (a ++ '-' :: b ++ '-' :: c ++ '-' :: d ++ '-' :: e) =
      ofDigits? (a ++ b ++ c ++ d ++ e) := by
  rw [ofGroups?, if_pos]
  · simp (disch := omega) [List.drop_append, ha, hb, hc, hd,
      List.drop_eq_nil_of_le]
  · simp [List.getElem?_append, ha, hb, hc, hd, he]

/-- **An identifier reads back from its text**, so that a token is taken up by the execution that it
names. -/
theorem parse?_render (id : Uuid) : parse? id.render = some id := by
  have hlength := id.length_digits
  have hgroups : id.digits.take 8 ++ (id.digits.drop 8).take 4 ++ (id.digits.drop 12).take 4 ++
      (id.digits.drop 16).take 4 ++ id.digits.drop 20 = id.digits := by
    simp [← List.take_add]
  have hrender : id.render.toList.length = 36 := by
    simp [render, hlength]
  simp only [parse?, hrender, reduceIte, Nat.reduceEqDiff]
  rw [render, String.toList_ofList, ofGroups?_groups (by simp [hlength]) (by simp [hlength])
    (by simp [hlength]) (by simp [hlength]) (by simp [hlength]), hgroups, ofDigits?_digits]

end ShardQuery.Uuid
