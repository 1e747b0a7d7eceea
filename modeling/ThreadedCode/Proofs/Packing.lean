import ThreadedCode.Proofs.Disassembly

/-!
# Packed strings

Packing and unpacking a string undo each other. What is packed is unpacked again whatever units
follow it, and units from which a string is unpacked are those that it is packed into, except that
the byte beside the last byte of a string of even length is never looked at and is packed as zero.
-/

namespace ThreadedCode.Code

/-! ### Units and their bytes -/

theorem pairBytes_isUnit (bytes : List UInt8) :
    ∀ unit ∈ pairBytes bytes, 0 ≤ unit ∧ unit ≤ 65535 := by
  intro unit member
  have kept := map_toUnit_pairBytes bytes
  rw [← kept] at member
  obtain ⟨value, -, rfl⟩ := List.mem_map.mp member
  have below := toUnit_lt value
  exact ⟨toUnit_nonneg value, by omega⟩

theorem length_flatMap_unitBytes (units : List Int) :
    (units.flatMap unitBytes).length = 2 * units.length := by
  induction units with
  | nil => rfl
  | cons unit units ih =>
    rw [List.flatMap_cons, List.length_append, ih, unitBytes]
    simp only [List.length_cons, List.length_nil]
    omega

section

variable {unit : Int} (range : 0 ≤ unit ∧ unit ≤ 65535)

include range

theorem toNat_unitBytes :
    ((unit / 256 % 256).toNat.toUInt8.toNat : Int) = unit / 256 ∧
      ((unit % 256).toNat.toUInt8.toNat : Int) = unit % 256 := by
  simp only [Nat.toUInt8, UInt8.toNat_ofNat']
  omega

theorem pairBytes_unitBytes (rest : List UInt8) :
    pairBytes (unitBytes unit ++ rest) = unit :: pairBytes rest := by
  obtain ⟨high, low⟩ := toNat_unitBytes range
  rw [unitBytes, List.cons_append, List.cons_append, List.nil_append, pairBytes, high, low]
  congr 1
  omega

theorem pairBytes_high :
    pairBytes ((unitBytes unit).take 1) = [unit / 256 * 256] := by
  obtain ⟨high, -⟩ := toNat_unitBytes range
  rw [unitBytes, List.take_succ_cons, List.take_zero, pairBytes, high]

end

/-- The first bytes of some units, taken two to a unit, give the first of these units back. If their
number is odd, the low byte of the last one is lost. -/
theorem pairBytes_take {units : List Int} (range : ∀ unit ∈ units, 0 ≤ unit ∧ unit ≤ 65535)
    {count : Nat} (present : 0 < count) (enough : count ≤ 2 * units.length) :
    ∃ front last rest, units = front ++ last :: rest ∧ front.length = (count - 1) / 2 ∧
      pairBytes ((units.flatMap unitBytes).take count) =
        front ++ [if count % 2 = 0 then last else last / 256 * 256] := by
  induction units generalizing count with
  | nil =>
    rw [List.length_nil] at enough
    omega
  | cons unit units ih =>
    obtain ⟨first, others⟩ := List.forall_mem_cons.mp range
    rw [List.length_cons] at enough
    match count with
    | 1 =>
      refine ⟨[], unit, units, rfl, rfl, ?_⟩
      exact pairBytes_high first
    | 2 =>
      refine ⟨[], unit, units, rfl, rfl, ?_⟩
      exact pairBytes_unitBytes first []
    | count + 3 =>
      obtain ⟨front, last, rest, rfl, length, packed⟩ :=
        ih others (show 0 < count + 1 by omega) (by omega)
      refine ⟨unit :: front, last, rest, rfl, ?_, ?_⟩
      · rw [List.length_cons, length]
        omega
      · have parity : (count + 3) % 2 = (count + 1) % 2 := by omega
        have split : ((unit :: (front ++ last :: rest)).flatMap unitBytes).take (count + 3) =
            unitBytes unit ++ ((front ++ last :: rest).flatMap unitBytes).take (count + 1) := rfl
        rw [split, pairBytes_unitBytes first, packed, parity]
        rfl

/-! ### Packing and unpacking -/

theorem pack_error_iff {bytes : List UInt8} {problem : Problem} :
    pack bytes = .error problem ↔
      maxPackedBytes < bytes.length ∧ problem = .stringTooLong bytes.length := by
  unfold pack
  split
  · rename_i long
    simp [long, eq_comm]
  · rename_i short
    simp [short]

theorem pack_eq_packed {bytes : List UInt8} (short : bytes.length ≤ maxPackedBytes) :
    pack bytes = .ok (packed bytes) :=
  if_neg (Nat.not_lt.mpr short)

/-- A string that is unpacked has its length in the first byte of the units and its own bytes
behind that. -/
theorem unpack_ok {units : List Int} {bytes : List UInt8} (done : unpack units = .ok bytes) :
    bytes.length ≤ maxPackedBytes ∧ bytes.length + 1 ≤ 2 * units.length ∧
      bytes.length.toUInt8 :: bytes = (units.flatMap unitBytes).take (bytes.length + 1) := by
  rw [← length_flatMap_unitBytes]
  unfold unpack at done
  split at done
  · cases done
  · rename_i length rest flat
    rw [flat]
    split at done
    · cases done
    · rename_i enough
      obtain rfl := Except.ok.inj done
      have bound := length.toNat_lt
      have taken : (rest.take length.toNat).length = length.toNat := by
        rw [List.length_take]
        omega
      rw [taken, List.length_cons, List.take_succ_cons]
      refine ⟨?_, by omega, ?_⟩
      · unfold maxPackedBytes
        omega
      · rw [Nat.toUInt8, UInt8.ofNat_toNat]

theorem packed_of_unpack {units : List Int} (range : ∀ unit ∈ units, 0 ≤ unit ∧ unit ≤ 65535)
    {bytes : List UInt8} (done : unpack units = .ok bytes) :
    ∃ front last rest, units = front ++ last :: rest ∧
      (front.length + 1 : Int) = packedLength bytes.length ∧
      packed bytes = front ++ [if bytes.length % 2 = 0 then last / 256 * 256 else last] := by
  obtain ⟨-, enough, taken⟩ := unpack_ok done
  obtain ⟨front, last, rest, same, length, paired⟩ :=
    pairBytes_take range (Nat.succ_pos bytes.length) enough
  refine ⟨front, last, rest, same, ?_, ?_⟩
  · rw [packedLength, length]
    omega
  · rw [packed, taken, paired]
    by_cases even : bytes.length % 2 = 0
    · rw [if_pos even, if_neg (by omega)]
    · rw [if_neg even, if_pos (by omega)]

/-- A string is packed if and only if it has at most 255 bytes. Its units are as many as
`packedLength` says, and it is unpacked from them whatever follows. Conversely, units from which it
is unpacked begin with those that it is packed into, up to the low byte of the last one if the
length is even. -/
theorem pack_unpack_correspond (bytes : List UInt8) :
    (∀ problem, pack bytes = .error problem ↔
      255 < bytes.length ∧ problem = .stringTooLong bytes.length) ∧
    (bytes.length ≤ 255 → ∃ units, pack bytes = .ok units ∧
      (units.length : Int) = packedLength bytes.length ∧
      (∀ unit ∈ units, 0 ≤ unit ∧ unit ≤ 65535) ∧
      ∀ rest, unpack (units ++ rest) = .ok bytes) ∧
    ∀ units, (∀ unit ∈ units, 0 ≤ unit ∧ unit ≤ 65535) → unpack units = .ok bytes →
      ∃ front last rest, units = front ++ last :: rest ∧
        (front.length + 1 : Int) = packedLength bytes.length ∧
        pack bytes = .ok (front ++ [if bytes.length % 2 = 0 then last / 256 * 256 else last]) := by
  refine ⟨fun problem => pack_error_iff, fun short => ?_, fun units range done => ?_⟩
  · have done := pack_eq_packed short
    exact ⟨packed bytes, done, Compiler.length_pack done, pairBytes_isUnit _, unpack_packed short⟩
  · obtain ⟨front, last, rest, same, length, paired⟩ := packed_of_unpack range done
    refine ⟨front, last, rest, same, length, ?_⟩
    rw [pack_eq_packed (unpack_ok done).1, paired]

/-- The low byte of the second unit is not part of the string. -/
theorem pack_unpack_correspond_sample :
    unpack [0x0268, 0x69FF, 7] = .ok [0x68, 0x69] ∧
      (∃ units, pack [0x68, 0x69] = .ok units ∧ ∀ rest, unpack (units ++ rest) = .ok [0x68, 0x69]) ∧
      ∃ front last rest, [0x0268, 0x69FF, 7] = front ++ last :: rest ∧
        pack [0x68, 0x69] = .ok (front ++ [last / 256 * 256]) := by
  have done : unpack [0x0268, 0x69FF, 7] = .ok [0x68, 0x69] := by decide
  obtain ⟨-, there, back⟩ := pack_unpack_correspond [0x68, 0x69]
  obtain ⟨units, packed, -, -, again⟩ := there (by decide)
  obtain ⟨front, last, rest, same, -, again'⟩ := back _ (by decide) done
  exact ⟨done, ⟨units, packed, again⟩, front, last, rest, same, again'⟩

end ThreadedCode.Code
