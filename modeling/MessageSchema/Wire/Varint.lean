/-! # Variable-length numbers

A number in groups of seven bits, one group a byte, least significant group first; the top bit of
a byte says that another byte follows.  A reader accepts at most ten bytes and at most one bit in
the tenth, so what it reads fits into sixty-four bits; longer forms than necessary are accepted.

Main statements: reading undoes writing (`decode_encode`), and reading uses up at least one byte
(`length_lt_of_decode`). -/

namespace MessageSchema.Varint

/-- The bytes of `n`, as few as possible. -/
def encode (n : Nat) : List UInt8 :=
  if n < 128 then [n.toUInt8] else (n % 128 + 128).toUInt8 :: encode (n / 128)
termination_by n

/-- Read a number that takes at most `left` bytes, the tenth byte being the one with `left = 1`. -/
def decodeWithin : Nat → List UInt8 → Option (Nat × List UInt8)
  | 0, _ => none
  | _ + 1, [] => none
  | left + 1, b :: rest =>
      if b.toNat < 128 then
        if left = 0 ∧ 1 < b.toNat then none else some (b.toNat, rest)
      else
        match decodeWithin left rest with
        | some (n, rest) => some (b.toNat - 128 + 128 * n, rest)
        | none => none

/-- The number at the start of `bytes`, and the bytes after it. -/
def decode (bytes : List UInt8) : Option (Nat × List UInt8) := decodeWithin 10 bytes

/-! ### Progress -/

theorem length_lt_of_decodeWithin {left : Nat} {bytes rest : List UInt8} {n : Nat}
    (h : decodeWithin left bytes = some (n, rest)) : rest.length < bytes.length := by
  fun_induction decodeWithin left bytes generalizing n rest with
  | case1 | case2 | case3 | case6 => simp at h
  | case4 =>
      simp only [Option.some.injEq, Prod.mk.injEq] at h
      simp [← h.2]
  | case5 left b tail hb m r hm ih =>
      simp only [Option.some.injEq, Prod.mk.injEq] at h
      have := ih hm
      simp only [← h.2, List.length_cons]
      omega

theorem length_lt_of_decode {bytes rest : List UInt8} {n : Nat}
    (h : decode bytes = some (n, rest)) : rest.length < bytes.length :=
  length_lt_of_decodeWithin h

/-! ### Reading undoes writing -/

/-- What fits into `left` full groups and one more bit is below this bound. -/
def bound : Nat → Nat
  | 0 => 2
  | left + 1 => 128 * bound left

theorem decodeWithin_encode {left n : Nat} (h : n < bound left) (rest : List UInt8) :
    decodeWithin (left + 1) (encode n ++ rest) = some (n, rest) := by
  induction left generalizing n with
  | zero =>
      rw [bound] at h
      rw [encode, if_pos (by omega)]
      have hb : n.toUInt8.toNat = n := UInt8.toNat_ofNat_of_lt' (by omega : n < 256)
      simp only [List.singleton_append, decodeWithin, hb]
      rw [if_pos (by omega), if_neg (by omega)]
  | succ left ih =>
      rw [encode]
      split
      next hn =>
        have hb : n.toUInt8.toNat = n := UInt8.toNat_ofNat_of_lt' (by omega : n < 256)
        simp [decodeWithin, hb, hn]
      next hn =>
        have hb : (n % 128 + 128).toUInt8.toNat = n % 128 + 128 :=
          UInt8.toNat_ofNat_of_lt' (by omega : n % 128 + 128 < 256)
        have hlt : n / 128 < bound left := by
          rw [bound] at h
          omega
        simp only [List.cons_append, decodeWithin, hb, ih hlt]
        rw [if_neg (by omega)]
        simp only [Option.some.injEq, Prod.mk.injEq, and_true]
        omega

theorem decode_encode {n : Nat} (h : n < UInt64.size) (rest : List UInt8) :
    decode (encode n ++ rest) = some (n, rest) :=
  @decodeWithin_encode 9 n h rest

end MessageSchema.Varint
