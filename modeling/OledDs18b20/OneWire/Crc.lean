import OledDs18b20.Lib.Register
import OledDs18b20.OneWire.Transaction

/-! The checksums of the 1-Wire library. The table of `crc8`, which `ONEWIRE_CRC8_TABLE`
selects, and the parities of `crc16` do at once what a shift register does bit by bit. -/
namespace OledDs18b20.OneWire
open Lib

set_option maxRecDepth 2048 in
def dscrcTable : Vector UInt8 256 :=
  #v[
    0, 94, 188, 226, 97, 63, 221, 131, 194, 156, 126, 32, 163, 253, 31, 65,
    157, 195, 33, 127, 252, 162, 64, 30, 95, 1, 227, 189, 62, 96, 130, 220,
    35, 125, 159, 193, 66, 28, 254, 160, 225, 191, 93, 3, 128, 222, 60, 98,
    190, 224, 2, 92, 223, 129, 99, 61, 124, 34, 192, 158, 29, 67, 161, 255,
    70, 24, 250, 164, 39, 121, 155, 197, 132, 218, 56, 102, 229, 187, 89, 7,
    219, 133, 103, 57, 186, 228, 6, 88, 25, 71, 165, 251, 120, 38, 196, 154,
    101, 59, 217, 135, 4, 90, 184, 230, 167, 249, 27, 69, 198, 152, 122, 36,
    248, 166, 68, 26, 153, 199, 37, 123, 58, 100, 134, 216, 91, 5, 231, 185,
    140, 210, 48, 110, 237, 179, 81, 15, 78, 16, 242, 172, 47, 113, 147, 205,
    17, 79, 173, 243, 112, 46, 204, 146, 211, 141, 111, 49, 178, 236, 14, 80,
    175, 241, 19, 77, 206, 144, 114, 44, 109, 51, 209, 143, 12, 82, 176, 238,
    50, 108, 142, 208, 83, 13, 239, 177, 240, 174, 76, 18, 145, 207, 45, 115,
    202, 148, 118, 40, 171, 245, 23, 73, 8, 86, 180, 234, 105, 55, 213, 139,
    87, 9, 235, 181, 54, 104, 138, 212, 149, 203, 41, 119, 244, 170, 72, 22,
    233, 183, 85, 11, 136, 214, 52, 106, 43, 117, 151, 201, 74, 20, 246, 168,
    116, 42, 200, 150, 21, 75, 169, 247, 182, 232, 10, 84, 215, 137, 107, 53]

def crcByte (crc byte : UInt8) : UInt8 :=
  have h : (crc ^^^ byte).toNat < 256 := (crc ^^^ byte).toNat_lt
  dscrcTable[(crc ^^^ byte).toNat]

def crc8 (bytes : List UInt8) : UInt8 :=
  bytes.foldl crcByte 0

/-- The body of the inner loop of `crc8` without the table: `crc` and `inbyte`. -/
def crcBit (loop : UInt8 × UInt8) : UInt8 × UInt8 :=
  let mix := (loop.1 ^^^ loop.2) &&& 0x01
  let crc := loop.1 >>> 1
  (if mix ≠ 0 then crc ^^^ 0x8C else crc, loop.2 >>> 1)

/-- `crc8` as it is compiled without `ONEWIRE_CRC8_TABLE`. -/
def crc8Direct (bytes : List UInt8) : UInt8 :=
  bytes.foldl (fun crc inbyte => (crcBit^[8] (crc, inbyte)).1) 0

def crc8Taps : BitVec 8 := 0x8C#8

theorem word_byteBits (byte : UInt8) : Register.word 8 (byteBits byte) = byte.toBitVec := by
  obtain ⟨⟨byte⟩⟩ := byte
  revert byte
  decide +kernel

theorem dscrcTable_eq (index : Fin 256) :
    (dscrcTable.get index).toBitVec = (Register.shift crc8Taps)^[8] (BitVec.ofFin index) := by
  revert index
  decide +kernel

theorem crcByte_eq (crc byte : UInt8) :
    (crcByte crc byte).toBitVec = Register.digest crc8Taps crc.toBitVec (byteBits byte) := by
  rw [Register.digest_eq _ _ (by simp), word_byteBits, length_byteBits, ← UInt8.toBitVec_xor]
  exact dscrcTable_eq ⟨(crc ^^^ byte).toNat, (crc ^^^ byte).toNat_lt⟩

theorem crc8_eq (bytes : List UInt8) :
    (crc8 bytes).toBitVec = Register.digest crc8Taps 0#8 (wireBits bytes) := by
  induction bytes using List.reverseRecOn with
  | nil => rfl
  | append_singleton bytes byte ih =>
      have hwire : wireBits (bytes ++ [byte]) = wireBits bytes ++ byteBits byte := by
        rw [wireBits, List.flatMap_append]
        simp [wireBits]
      rw [crc8, List.foldl_append, ← crc8, List.foldl_cons, List.foldl_nil, crcByte_eq, ih,
        hwire, Register.digest_append]

theorem mix_ne_zero (byte : UInt8) : byte &&& 0x01 ≠ 0 ↔ byte.toBitVec.getLsbD 0 = true := by
  obtain ⟨⟨byte⟩⟩ := byte
  revert byte
  decide +kernel

theorem crcBit_eq (crc inbyte : UInt8) :
    (crcBit (crc, inbyte)).1.toBitVec =
      Register.feed crc8Taps crc.toBitVec (inbyte.toBitVec.getLsbD 0) := by
  have hbit := mix_ne_zero (crc ^^^ inbyte)
  rw [UInt8.toBitVec_xor, BitVec.getLsbD_xor] at hbit
  rw [Register.feed_eq _ (by decide), crcBit]
  simp only [hbit]
  cases crc.toBitVec.getLsbD 0 ^^ inbyte.toBitVec.getLsbD 0 with
  | true => rfl
  | false =>
      rw [Register.gated_false, BitVec.xor_zero]
      rfl

theorem crcBits_eq (count : ℕ) (crc inbyte : UInt8) :
    (crcBit^[count] (crc, inbyte)).1.toBitVec =
      Register.digest crc8Taps crc.toBitVec
        ((List.range count).map inbyte.toBitVec.getLsbD) := by
  induction count generalizing crc inbyte with
  | zero => rfl
  | succ count ih =>
      have hnext : crcBit (crc, inbyte) = ((crcBit (crc, inbyte)).1, inbyte >>> 1) := rfl
      have hbits : ∀ place, (inbyte >>> 1).toBitVec.getLsbD place =
          inbyte.toBitVec.getLsbD (place + 1) := by
        intro place
        have hshift : (inbyte >>> 1).toBitVec = inbyte.toBitVec >>> 1 := rfl
        rw [hshift, BitVec.getLsbD_ushiftRight, Nat.add_comm]
      rw [Function.iterate_succ_apply, hnext, ih, crcBit_eq, List.range_succ_eq_map,
        List.map_cons, List.map_map, Register.digest_cons]
      congr 1
      exact List.map_congr_left fun place _ => hbits place

/-- Both versions of `crc8` compute the same checksum. -/
theorem crc8_direct (bytes : List UInt8) : crc8 bytes = crc8Direct bytes := by
  have hbyte : ∀ crc inbyte, crcByte crc inbyte = (crcBit^[8] (crc, inbyte)).1 := by
    intro crc inbyte
    apply UInt8.toBitVec_inj.mp
    rw [crcByte_eq, crcBits_eq]
    rfl
  rw [crc8, crc8Direct]
  congr 1
  funext crc inbyte
  exact hbyte crc inbyte

/-! What the checksum notices. -/

theorem crc8Taps_msb : crc8Taps.msb = true := rfl

/-- The check byte is right exactly if the register ends at zero. -/
theorem crc8_check (bytes : List UInt8) (check : UInt8) :
    crc8 bytes = check ↔
      Register.digest crc8Taps 0#8 (wireBits (bytes ++ [check])) = 0#8 := by
  have hwire : wireBits (bytes ++ [check]) = wireBits bytes ++ byteBits check := by
    rw [wireBits, List.flatMap_append]
    simp [wireBits]
  have hinjective := (Register.shift_injective crc8Taps crc8Taps_msb).iterate 8
  rw [hwire, Register.digest_append, ← crc8_eq, Register.digest_eq _ _ (by simp),
    word_byteBits, length_byteBits, ← Register.shifts_zero crc8Taps 8, hinjective.eq_iff,
    BitVec.xor_eq_zero_iff, UInt8.toBitVec_inj]

theorem crc8Taps_period : ∀ count < 127,
    (Register.shift crc8Taps)^[count] (BitVec.twoPow 8 0) = BitVec.twoPow 8 0 → count = 0 := by
  decide +kernel

/-- The errors that the check byte reveals in a message that is not too long. -/
def Slight (errors : List Bool) : Prop := errors.count true ≤ 3 ∨ Register.Burst 8 errors

/-- A message of up to 15 bytes that is only slightly wrong does not pass the check. -/
theorem crc8_notices {sent received : List UInt8} {check check' : UInt8}
    (hsent : crc8 sent = check) (hlength : sent.length = received.length)
    (hshort : sent.length ≤ 14) (hne : sent ++ [check] ≠ received ++ [check'])
    (hslight : Slight (Register.difference (wireBits (sent ++ [check]))
      (wireBits (received ++ [check'])))) : crc8 received ≠ check' := by
  have hbits : (wireBits (sent ++ [check])).length =
      (wireBits (received ++ [check'])).length := by
    simp [length_wireBits, hlength]
  have herror := Register.mem_difference hbits (wireBits_injective.ne hne)
  rw [crc8_check] at hsent
  rw [Ne, crc8_check]
  intro hreceived
  have hnothing := (Register.digest_eq_iff crc8Taps 0#8 hbits).mp (hsent.trans hreceived.symm)
  rcases hslight with hfew | hburst
  · refine Register.digest_few crc8Taps_msb (by decide) crc8Taps_period ?_
      (List.count_pos_iff.mpr herror) hfew hnothing
    rw [Register.difference, List.length_zipWith, length_wireBits, List.length_append,
      List.length_singleton]
    omega
  · exact Register.digest_of_burst crc8Taps_msb herror hburst hnothing

/-! The 16-bit checksum. -/

def oddparity : List UInt8 := [0, 1, 1, 0, 1, 0, 0, 1, 1, 0, 0, 1, 0, 1, 1, 0]

def crc16Byte (crc : UInt16) (byte : UInt8) : UInt16 :=
  let cdata := (byte.toUInt16 ^^^ crc) &&& 0xFF
  let crc := crc >>> 8
  let odd := oddparity.getD (cdata &&& 0x0F).toNat 0 ^^^ oddparity.getD (cdata >>> 4).toNat 0
  let crc := if odd ≠ 0 then crc ^^^ 0xC001 else crc
  let cdata := cdata <<< 6
  let crc := crc ^^^ cdata
  let cdata := cdata <<< 1
  crc ^^^ cdata

def crc16 (input : List UInt8) (crc : UInt16) : UInt16 := input.foldl crc16Byte crc

def checkCrc16 (input : List UInt8) (inverted : UInt8 × UInt8) (crc : UInt16) : Bool :=
  let crc := ~~~crc16 input crc
  (crc &&& 0xFF) = inverted.1.toUInt16 && (crc >>> 8) = inverted.2.toUInt16

def crc16Taps : BitVec 16 := 0xA001#16

theorem crc16Byte_zero (cdata : BitVec 8) :
    (crc16Byte ⟨cdata.setWidth 16⟩ 0).toBitVec =
      (Register.shift crc16Taps)^[8] (cdata.setWidth 16) := by
  obtain ⟨cdata⟩ := cdata
  revert cdata
  decide +kernel

theorem word_byteBits_wide (byte : UInt8) :
    Register.word 16 (byteBits byte) = byte.toBitVec.setWidth 16 := by
  obtain ⟨⟨byte⟩⟩ := byte
  revert byte
  decide +kernel

theorem lowByte_getLsbD {place : ℕ} (h : place < 16) :
    (UInt16.toBitVec 0xFF).getLsbD place = decide (place < 8) := by
  interval_cases place <;> rfl

/-- The byte that falls out of the register, mixed with the one that comes in. -/
theorem cdata_eq (crc : UInt16) (byte : UInt8) :
    (byte.toUInt16 ^^^ crc) &&& 0xFF =
      ⟨((crc.toBitVec ^^^ byte.toBitVec.setWidth 16).setWidth 8).setWidth 16⟩ := by
  apply UInt16.toBitVec_inj.mp
  apply BitVec.eq_of_getLsbD_eq
  intro place hplace
  rw [UInt16.toBitVec_and, BitVec.getLsbD_and, lowByte_getLsbD hplace, UInt16.toBitVec_xor,
    UInt8.toBitVec_toUInt16, BitVec.getLsbD_setWidth, BitVec.getLsbD_setWidth,
    BitVec.xor_comm, Bool.and_comm]
  simp [hplace]

theorem lowByte_shiftRight (cdata : UInt16) : (cdata &&& 0xFF) >>> 8 = 0 := by
  apply UInt16.toBitVec_inj.mp
  have hshift : ((cdata &&& 0xFF) >>> 8).toBitVec = (cdata &&& 0xFF).toBitVec >>> 8 := rfl
  apply BitVec.eq_of_getLsbD_eq
  intro place hplace
  rw [hshift, BitVec.getLsbD_ushiftRight, UInt16.toBitVec_and, BitVec.getLsbD_and]
  by_cases hinside : 8 + place < 16
  · have hnone : ¬ 8 + place < 8 := by omega
    rw [lowByte_getLsbD hinside, decide_eq_false hnone, Bool.and_false]
    simp
  · simp [BitVec.getLsbD_of_ge _ (8 + place) (Nat.not_lt.mp hinside)]

theorem crc16Byte_split (crc : UInt16) (byte : UInt8) :
    crc16Byte crc byte =
      (crc >>> 8) ^^^ crc16Byte ((byte.toUInt16 ^^^ crc) &&& 0xFF) 0 := by
  have hzero : (0 : UInt8).toUInt16 = 0 := rfl
  have hmask : (0xFF : UInt16) &&& 0xFF = 0xFF := rfl
  have hlow : ((0 : UInt8).toUInt16 ^^^ ((byte.toUInt16 ^^^ crc) &&& 0xFF)) &&& 0xFF =
      (byte.toUInt16 ^^^ crc) &&& 0xFF := by
    rw [hzero, UInt16.zero_xor, UInt16.and_assoc, hmask]
  unfold crc16Byte
  simp only [hlow, lowByte_shiftRight]
  split_ifs
  · simp [UInt16.xor_assoc]
  · simp [UInt16.xor_assoc]

theorem crc16Byte_eq (crc : UInt16) (byte : UInt8) :
    (crc16Byte crc byte).toBitVec =
      Register.digest crc16Taps crc.toBitVec (byteBits byte) := by
  have hhigh : (crc.toBitVec ^^^ byte.toBitVec.setWidth 16) >>> 8 = (crc >>> 8).toBitVec := by
    have hshift : (crc >>> 8).toBitVec = crc.toBitVec >>> 8 := rfl
    rw [hshift]
    apply BitVec.eq_of_getLsbD_eq
    intro place _
    simp
  rw [Register.digest_eq _ _ (by simp), word_byteBits_wide, length_byteBits,
    Register.shifts_split, hhigh, ← crc16Byte_zero, ← cdata_eq, crc16Byte_split,
    UInt16.toBitVec_xor, BitVec.xor_comm]

theorem crc16_eq (input : List UInt8) (crc : UInt16) :
    (crc16 input crc).toBitVec = Register.digest crc16Taps crc.toBitVec (wireBits input) := by
  induction input generalizing crc with
  | nil => rfl
  | cons byte input ih =>
      rw [wireBits_cons, Register.digest_append, ← crc16Byte_eq, ← ih]
      rfl

theorem byteBits_getD (byte : UInt8) (place : ℕ) :
    (byteBits byte).getD place false = byte.toBitVec.getLsbD place := by
  by_cases hplace : place < 8
  · rw [List.getD_eq_getElem _ _ (by simpa using hplace)]
    simp [byteBits]
  · rw [List.getD_eq_default _ _ (by simpa using hplace),
      BitVec.getLsbD_of_ge _ _ (Nat.not_lt.mp hplace)]

theorem word_pair {low high : UInt8} {place : ℕ} (h : place < 16) :
    (Register.word 16 (byteBits low ++ byteBits high)).getLsbD place =
      if place < 8 then low.toBitVec.getLsbD place else high.toBitVec.getLsbD (place - 8) := by
  rw [Register.getLsbD_word, decide_eq_true h, Bool.true_and]
  split_ifs with hlow
  · rw [List.getD_append _ _ _ _ (by simpa using hlow), byteBits_getD]
  · rw [List.getD_append_right _ _ _ _ (by simpa using hlow), length_byteBits, byteBits_getD]

/-- The two bytes that `check_crc16` compares are those of the inverted checksum. -/
theorem inverted_iff (crc : UInt16) (low high : UInt8) :
    (crc &&& 0xFF = low.toUInt16 ∧ crc >>> 8 = high.toUInt16) ↔
      Register.word 16 (byteBits low ++ byteBits high) = crc.toBitVec := by
  have hshift : (crc >>> 8).toBitVec = crc.toBitVec >>> 8 := rfl
  rw [← UInt16.toBitVec_inj, ← UInt16.toBitVec_inj, hshift, UInt16.toBitVec_and,
    UInt8.toBitVec_toUInt16, UInt8.toBitVec_toUInt16]
  constructor
  · rintro ⟨hlow, hhigh⟩
    apply BitVec.eq_of_getLsbD_eq
    intro place hplace
    rw [word_pair hplace]
    split_ifs with hinside
    · have hbit := congrArg (BitVec.getLsbD · place) hlow
      simp only [BitVec.getLsbD_and, lowByte_getLsbD hplace, BitVec.getLsbD_setWidth] at hbit
      simpa [hinside, hplace] using hbit.symm
    · have hbit := congrArg (BitVec.getLsbD · (place - 8)) hhigh
      simp only [BitVec.getLsbD_ushiftRight, BitVec.getLsbD_setWidth] at hbit
      rw [Nat.add_sub_cancel' (Nat.not_lt.mp hinside)] at hbit
      simpa [show place - 8 < 16 by omega] using hbit.symm
  · intro hword
    constructor
    · apply BitVec.eq_of_getLsbD_eq
      intro place hplace
      rw [BitVec.getLsbD_and, lowByte_getLsbD hplace, ← hword, word_pair hplace,
        BitVec.getLsbD_setWidth]
      by_cases hinside : place < 8
      · simp [hinside, hplace]
      · simp [hinside, BitVec.getLsbD_of_ge low.toBitVec place (Nat.not_lt.mp hinside)]
    · apply BitVec.eq_of_getLsbD_eq
      intro place hplace
      rw [BitVec.getLsbD_ushiftRight, BitVec.getLsbD_setWidth]
      by_cases hinside : 8 + place < 16
      · rw [← hword, word_pair hinside]
        simp [hplace]
      · rw [BitVec.getLsbD_of_ge _ _ (Nat.not_lt.mp hinside),
          BitVec.getLsbD_of_ge high.toBitVec _ (by omega), Bool.and_false]

/-- `check_crc16` is right exactly if the register ends at what it makes of ones. -/
theorem checkCrc16_iff (input : List UInt8) (low high : UInt8) (crc : UInt16) :
    checkCrc16 input (low, high) crc = true ↔
      Register.digest crc16Taps crc.toBitVec (wireBits (input ++ [low, high])) =
        (Register.shift crc16Taps)^[16] (BitVec.allOnes 16) := by
  have hwire : wireBits (input ++ [low, high]) =
      wireBits input ++ (byteBits low ++ byteBits high) := by
    rw [wireBits, List.flatMap_append]
    simp [wireBits]
  have hinjective := (Register.shift_injective crc16Taps rfl).iterate 16
  have hlength : (byteBits low ++ byteBits high).length = 16 := by simp
  rw [hwire, Register.digest_append, ← crc16_eq, Register.digest_eq _ _ hlength.le, hlength,
    hinjective.eq_iff, checkCrc16]
  simp only [Bool.and_eq_true, decide_eq_true_eq]
  have hones : (crc16 input crc).toBitVec ^^^ ~~~(crc16 input crc).toBitVec =
      BitVec.allOnes 16 := by
    rw [← BitVec.xor_allOnes, ← BitVec.xor_assoc, BitVec.xor_self, BitVec.zero_xor]
  rw [inverted_iff, UInt16.toBitVec_not, ← hones, BitVec.xor_right_inj]

/-- Against a message of the same length that passes the check, an odd number of wrong bits,
or wrong bits within 16 places of each other, make it fail. -/
theorem checkCrc16_notices {sent received : List UInt8} {low high low' high' : UInt8}
    (crc : UInt16) (hsent : checkCrc16 sent (low, high) crc = true)
    (hlength : sent.length = received.length)
    (hne : sent ++ [low, high] ≠ received ++ [low', high'])
    (herrors : (Register.difference (wireBits (sent ++ [low, high]))
        (wireBits (received ++ [low', high']))).count true % 2 = 1 ∨
      Register.Burst 16 (Register.difference (wireBits (sent ++ [low, high]))
        (wireBits (received ++ [low', high'])))) :
    checkCrc16 received (low', high') crc = false := by
  have hbits : (wireBits (sent ++ [low, high])).length =
      (wireBits (received ++ [low', high'])).length := by
    simp [length_wireBits, hlength]
  rw [checkCrc16_iff] at hsent
  rw [Bool.eq_false_iff, Ne, checkCrc16_iff]
  intro hreceived
  have hnothing := (Register.digest_eq_iff crc16Taps _ hbits).mp (hsent.trans hreceived.symm)
  rcases herrors with hodd | hburst
  · rw [Nat.mod_two_of_bodd] at hodd
    refine Register.digest_odd (by decide) (by decide) ?_ hnothing
    simpa using hodd
  · exact Register.digest_of_burst (by decide)
      (Register.mem_difference hbits (wireBits_injective.ne hne)) hburst hnothing

theorem checkCrc16_notices_flip : checkCrc16 [0x33, 0x10, 0x05] (0x03, 0xF3) 0 = false := by
  have hsent : checkCrc16 [0x33, 0x10, 0x04] (0x03, 0xF3) 0 = true := by decide +kernel
  exact checkCrc16_notices 0 hsent rfl (by decide) (.inl (by decide +kernel))

end OledDs18b20.OneWire
