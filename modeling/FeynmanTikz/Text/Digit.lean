/-
Decimal digits of every script.

A decimal digit is a character of Unicode category Nd.  Such characters come in runs of
ten, from zero to nine, so a script is known by the code point of its zero.

* `decimalDigit? c` is the value of `c`,
* `isDecimalDigit c` says whether it has one,
* `digitsValue` reads a digit string of any length, scripts mixed.
-/

namespace FeynmanTikz

/-- The zeros of all scripts with decimal digits, in ascending order. -/
def decimalZeros : List Nat :=
  [0x30, 0x660, 0x6f0, 0x7c0, 0x966, 0x9e6, 0xa66, 0xae6, 0xb66, 0xbe6, 0xc66, 0xce6, 0xd66,
   0xde6, 0xe50, 0xed0, 0xf20, 0x1040, 0x1090, 0x17e0, 0x1810, 0x1946, 0x19d0, 0x1a80, 0x1a90,
   0x1b50, 0x1bb0, 0x1c40, 0x1c50, 0xa620, 0xa8d0, 0xa900, 0xa9d0, 0xa9f0, 0xaa50, 0xabf0,
   0xff10, 0x104a0, 0x10d30, 0x11066, 0x110f0, 0x11136, 0x111d0, 0x112f0, 0x11450, 0x114d0,
   0x11650, 0x116c0, 0x11730, 0x118e0, 0x11950, 0x11c50, 0x11d50, 0x11da0, 0x16a60, 0x16ac0,
   0x16b50, 0x1d7ce, 0x1d7d8, 0x1d7e2, 0x1d7ec, 0x1d7f6, 0x1e140, 0x1e2f0, 0x1e950, 0x1fbf0]

/-- The value of a decimal digit. -/
def decimalDigit? (c : Char) : Option Nat :=
  (decimalZeros.find? fun z => z ≤ c.toNat && c.toNat < z + 10).map (c.toNat - ·)

def isDecimalDigit (c : Char) : Bool := (decimalDigit? c).isSome

theorem isDecimalDigit_of_isDigit {c : Char} (h : c.isDigit = true) : isDecimalDigit c = true := by
  have hc : 48 ≤ c.toNat ∧ c.toNat < 58 := by
    simp only [Char.isDigit, Bool.and_eq_true, decide_eq_true_eq, ge_iff_le] at h
    obtain ⟨h1, h2⟩ := h
    have h1' : (48 : Nat) ≤ c.val.toNat := UInt32.le_iff_toNat_le.1 h1
    have h2' : c.val.toNat ≤ 57 := UInt32.le_iff_toNat_le.1 h2
    exact ⟨h1', Nat.lt_succ_of_le h2'⟩
  simp [isDecimalDigit, decimalDigit?, decimalZeros, hc]

/-- The number a digit string stands for; other characters count as zero. -/
def digitsValue (ds : List Char) : Nat :=
  ds.foldl (fun n c => 10 * n + (decimalDigit? c).getD 0) 0

end FeynmanTikz
