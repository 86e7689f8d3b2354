import Mathlib.Data.UInt

namespace UnixNotes.Library

/-! Counters of 64 bits that stay in range. -/

theorem toNat_succ {n : UInt64} (h : n.toNat + 1 < 2 ^ 64) : (n + 1).toNat = n.toNat + 1 := by
  rw [UInt64.toNat_add, UInt64.toNat_one, Nat.mod_eq_of_lt h]

theorem toNat_pred {n : UInt64} (h : 0 < n.toNat) : (n - 1).toNat + 1 = n.toNat := by
  have hle : (1 : UInt64) ≤ n := by
    rw [UInt64.le_iff_toNat_le, UInt64.toNat_one]
    exact h
  rw [UInt64.toNat_sub_of_le _ _ hle, UInt64.toNat_one]
  omega

/-! Counters that follow a number of tokens, and wrap. -/

theorem eq_ofNat_of_balance {p q : UInt64} {n m i j : Nat} (hp : p = UInt64.ofNat n)
    (hstep : q + UInt64.ofNat i = p + UInt64.ofNat j) (htokens : m + i = n + j) :
    q = UInt64.ofNat m := by
  apply add_right_cancel (b := UInt64.ofNat i)
  rw [hstep, hp, ← UInt64.ofNat_add, ← UInt64.ofNat_add, htokens]

theorem ofNat_inj {n m : Nat} (hn : n < 2 ^ 64) (hm : m < 2 ^ 64)
    (h : UInt64.ofNat n = UInt64.ofNat m) : n = m := by
  rw [← UInt64.toNat_ofNat_of_lt' (show n < UInt64.size from hn), h,
    UInt64.toNat_ofNat_of_lt' (show m < UInt64.size from hm)]

end UnixNotes.Library
