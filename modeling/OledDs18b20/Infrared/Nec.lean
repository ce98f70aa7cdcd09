import OledDs18b20.Infrared.Recording
import OledDs18b20.Lib.Binary32

/-! The code of the remote control: what `sendNEC` puts on the line for 32 bits, and which
recordings `decodeNEC` reads them from. -/
namespace OledDs18b20.Infrared
open Lib

/-! A measured number of ticks against a time in microseconds. -/

def markExcess : ℤ := 100

/-- `LTOL`: the tolerance is exact in single precision. -/
def ltol : ℚ := 1 - 25 / 100

def utol : ℚ := 1 + 25 / 100

def ticksLow (us : ℤ) : ℤ :=
  Binary32.truncate (Binary32.round (Binary32.round (us * ltol) / 50))

def ticksHigh (us : ℤ) : ℤ :=
  Binary32.truncate (Binary32.round (Binary32.round (Binary32.round (us * utol) / 50) + 1))

/-- The entry of `rawbuf` is converted to `int`. -/
def inTicks (measured : UInt16) (us : ℤ) : Bool :=
  ticksLow us ≤ measured.toInt16.toInt && measured.toInt16.toInt ≤ ticksHigh us

def matchMark (measuredTicks : UInt16) (desiredUs : ℤ) : Bool :=
  inTicks measuredTicks (desiredUs + markExcess)

def matchSpace (measuredTicks : UInt16) (desiredUs : ℤ) : Bool :=
  inTicks measuredTicks (desiredUs - markExcess)

/-! `sendNEC` and `decodeNEC`. -/

def necBits : ℕ := 32
def necHdrMark : ℕ := 9000
def necHdrSpace : ℕ := 4500
def necBitMark : ℕ := 560
def necOneSpace : ℕ := 1690
def necZeroSpace : ℕ := 560
def necRptSpace : ℕ := 2250

def bitSpace (bit : Bool) : ℕ :=
  if bit then necOneSpace else necZeroSpace

/-- The loop of `sendNEC`, whose `mask` selects the bits below `count`, the highest first. -/
def sendBits (data : UInt32) : ℕ → List ℕ
  | 0 => []
  | count + 1 => necBitMark :: bitSpace (data.toNat.testBit count) :: sendBits data count

/-- The times of the marks and spaces of `sendNEC(data, 32)`. -/
def sendNEC (data : UInt32) : List ℕ :=
  necHdrMark :: necHdrSpace :: (sendBits data necBits ++ [necBitMark])

/-- What the remote control sends while a key is held down. -/
def necRepeat : List ℕ :=
  [necHdrMark, necRptSpace, necBitMark]

/-- `decode_type_t`, as far as it is written here. The sketch does not read it. -/
inductive DecodeType where
  | nec
deriving DecidableEq

structure DecodeResults where
  decodeType : DecodeType
  value : UInt32
  bits : ℕ
deriving DecidableEq

def repeatValue : UInt32 := 0xFFFFFFFF

namespace Irparams

def raw (irparams : Irparams) (offset : ℕ) : UInt16 :=
  irparams.rawbuf[offset]?.getD 0

def decodeBits (irparams : Irparams) : ℕ → ℕ → UInt32 → Option UInt32
  | 0, _, data => some data
  | count + 1, offset, data =>
      if !matchMark (irparams.raw offset) necBitMark then none
      else if matchSpace (irparams.raw (offset + 1)) necOneSpace then
        irparams.decodeBits count (offset + 2) (data <<< 1 ||| 1)
      else if matchSpace (irparams.raw (offset + 1)) necZeroSpace then
        irparams.decodeBits count (offset + 2) (data <<< 1 ||| 0)
      else none

def decodeNEC (irparams : Irparams) : Option DecodeResults :=
  if !matchMark (irparams.raw 1) necHdrMark then none
  else if irparams.rawlen = 4 ∧ matchSpace (irparams.raw 2) necRptSpace ∧
      matchMark (irparams.raw 3) necBitMark then
    some { decodeType := .nec, value := repeatValue, bits := 0 }
  else if irparams.rawlen < 2 * necBits + 4 then none
  else if !matchSpace (irparams.raw 2) necHdrSpace then none
  else (irparams.decodeBits necBits 3 0).map fun data =>
    { decodeType := .nec, value := data, bits := necBits }

end Irparams

/-! Which numbers of ticks match. -/

theorem toInt_toInt16 (measured : UInt16) :
    measured.toInt16.toInt = (measured.toNat : ℤ).bmod 65536 := by
  rw [Int16.toInt, UInt16.toBitVec_toInt16, BitVec.toInt_eq_toNat_bmod, UInt16.toNat_toBitVec]

theorem inTicks_iff {us low high : ℤ} (hlow : ticksLow us = low) (hhigh : ticksHigh us = high)
    (hnonneg : 0 ≤ low) (hsmall : high < 32768) (measured : UInt16) :
    inTicks measured us = true ↔ low ≤ measured.toNat ∧ (measured.toNat : ℤ) ≤ high := by
  have hword : measured.toNat < 65536 := measured.toNat_lt
  rw [inTicks, Bool.and_eq_true, decide_eq_true_iff, decide_eq_true_iff, hlow, hhigh,
    toInt_toInt16]
  rcases Nat.lt_or_ge measured.toNat 32768 with hpositive | hnegative
  · rw [Int.bmod_eq_of_le (by omega) (by omega)]
  · have hwrap : (measured.toNat : ℤ).bmod 65536 = measured.toNat - 65536 := by
      rw [← Int.sub_bmod_right, Int.bmod_eq_of_le (by omega) (by omega)]
      rfl
    rw [hwrap]
    omega

def MarkMatches (us : ℕ) (measured : UInt16) : Prop := matchMark measured us = true

def SpaceMatches (us : ℕ) (measured : UInt16) : Prop := matchSpace measured us = true

theorem spaceMatches_one (measured : UInt16) :
    SpaceMatches necOneSpace measured ↔ 23 ≤ measured.toNat ∧ measured.toNat ≤ 40 := by
  have hlow : ticksLow (necOneSpace - markExcess) = 23 := by decide +kernel
  have hhigh : ticksHigh (necOneSpace - markExcess) = 40 := by decide +kernel
  rw [SpaceMatches, matchSpace, inTicks_iff hlow hhigh (by decide) (by decide)]
  omega

theorem spaceMatches_zero (measured : UInt16) :
    SpaceMatches necZeroSpace measured ↔ 6 ≤ measured.toNat ∧ measured.toNat ≤ 12 := by
  have hlow : ticksLow (necZeroSpace - markExcess) = 6 := by decide +kernel
  have hhigh : ticksHigh (necZeroSpace - markExcess) = 12 := by decide +kernel
  rw [SpaceMatches, matchSpace, inTicks_iff hlow hhigh (by decide) (by decide)]
  omega

/-- A space is long for a one or short for a zero, and never both. -/
theorem bit_of_spaceMatches {bit : Bool} {measured : UInt16}
    (h : SpaceMatches (bitSpace bit) measured) :
    matchSpace measured necOneSpace = bit ∧ (bit = false → matchSpace measured necZeroSpace) := by
  cases bit with
  | true => exact ⟨h, fun hbit => absurd hbit (by decide)⟩
  | false =>
      have hzero : SpaceMatches necZeroSpace measured := h
      refine ⟨?_, fun _ => hzero⟩
      rw [spaceMatches_zero] at hzero
      have hone : ¬ SpaceMatches necOneSpace measured := by
        rw [spaceMatches_one]
        omega
      simpa [SpaceMatches] using hone

/-! `decodeNEC` succeeds exactly on what `sendNEC` sends, measured within the tolerance. -/

theorem append_bit {data : UInt32} (hdata : data.toNat < 2 ^ 31) (bit : Bool) :
    (data <<< 1 ||| if bit then 1 else 0).toNat = 2 * data.toNat + bit.toNat := by
  have hshift : (data <<< 1).toNat = 2 ^ 1 * data.toNat := by
    rw [UInt32.toNat_shiftLeft]
    change data.toNat <<< 1 % 2 ^ 32 = _
    rw [Nat.shiftLeft_eq, Nat.mod_eq_of_lt (by omega), Nat.mul_comm]
  have hbit : (if bit then 1 else 0 : UInt32).toNat = bit.toNat := by cases bit <;> rfl
  rw [UInt32.toNat_or, hshift, hbit, ← Nat.two_pow_add_eq_or_of_lt (Bool.toNat_lt bit), pow_one]

theorem div_two_pow_iff (value data count : ℕ) (bit : Bool) :
    value / 2 ^ count = 2 * data + bit.toNat ↔
      value / 2 ^ (count + 1) = data ∧ value.testBit count = bit := by
  have hhalf : value / 2 ^ (count + 1) = value / 2 ^ count / 2 := by
    rw [pow_succ, Nat.div_div_eq_div_mul]
  rw [hhalf, Nat.testBit_eq_decide_div_mod_eq]
  cases bit <;> simp <;> omega

namespace Irparams
variable (s : Irparams)

theorem drop_rawbuf {offset : ℕ} (h : offset < rawbufSize) :
    s.rawbuf.toList.drop offset = s.raw offset :: s.rawbuf.toList.drop (offset + 1) := by
  have hlength : offset < s.rawbuf.toList.length := by simpa using h
  rw [List.drop_eq_getElem_cons hlength, raw]
  simp [h]

theorem decodeBits_succ {count offset : ℕ} {data : UInt32} {bit : Bool}
    (hmark : MarkMatches necBitMark (s.raw offset))
    (hspace : SpaceMatches (bitSpace bit) (s.raw (offset + 1))) :
    s.decodeBits (count + 1) offset data =
      s.decodeBits count (offset + 2) (data <<< 1 ||| if bit then 1 else 0) := by
  obtain ⟨hone, hzero⟩ := bit_of_spaceMatches hspace
  have hmark' : matchMark (s.raw offset) necBitMark = true := hmark
  rw [decodeBits, hmark', if_neg (by decide), hone]
  cases bit with
  | true => rfl
  | false => rw [if_neg (by decide), if_pos (hzero rfl), if_neg (by decide)]

theorem exists_bit_of_decodeBits {count offset : ℕ} {data value : UInt32}
    (h : s.decodeBits (count + 1) offset data = some value) :
    MarkMatches necBitMark (s.raw offset) ∧
      ∃ bit, SpaceMatches (bitSpace bit) (s.raw (offset + 1)) := by
  rw [decodeBits] at h
  split_ifs at h with hmark hone hzero
  · exact ⟨by simpa [MarkMatches] using hmark, true, hone⟩
  · exact ⟨by simpa [MarkMatches] using hmark, false, hzero⟩

theorem decodeBits_iff {count offset : ℕ} {data value : UInt32}
    (hroom : offset + 2 * count ≤ rawbufSize) (hcount : count ≤ 32)
    (hdata : data.toNat < 2 ^ (32 - count)) :
    s.decodeBits count offset data = some value ↔
      value.toNat / 2 ^ count = data.toNat ∧
        Waveform.Alternating MarkMatches SpaceMatches (sendBits value count)
          ((s.rawbuf.toList.drop offset).take (2 * count)) := by
  induction count generalizing offset data with
  | zero =>
      rw [decodeBits, pow_zero, Nat.div_one, Option.some.injEq, Nat.mul_zero, List.take_zero,
        ← UInt32.toNat_inj, eq_comm]
      exact (and_iff_left trivial).symm
  | succ count ih =>
      have hentries : (s.rawbuf.toList.drop offset).take (2 * (count + 1)) =
          s.raw offset :: s.raw (offset + 1) ::
            (s.rawbuf.toList.drop (offset + 2)).take (2 * count) := by
        rw [s.drop_rawbuf (by omega), s.drop_rawbuf (by omega), Nat.mul_succ]
        rfl
      have hshift : data.toNat < 2 ^ 31 :=
        hdata.trans_le (Nat.pow_le_pow_right (by decide) (by omega))
      have hpower : 2 ^ (32 - count) = 2 * 2 ^ (32 - (count + 1)) := by
        rw [← pow_succ']
        congr 1
        omega
      -- The bit that the space stands for decides the highest of the bits still missing.
      have hnext : ∀ bit, SpaceMatches (bitSpace bit) (s.raw (offset + 1)) →
          MarkMatches necBitMark (s.raw offset) →
          (s.decodeBits (count + 1) offset data = some value ↔
            (value.toNat / 2 ^ (count + 1) = data.toNat ∧ value.toNat.testBit count = bit) ∧
              Waveform.Alternating MarkMatches SpaceMatches (sendBits value count)
                ((s.rawbuf.toList.drop (offset + 2)).take (2 * count))) := by
        intro bit hspace hmark
        have hword := append_bit hshift bit
        have hbit : bit.toNat ≤ 1 := Bool.toNat_le bit
        rw [s.decodeBits_succ hmark hspace, ih (by omega) (by omega) (by omega), hword,
          div_two_pow_iff]
      rw [hentries]
      constructor
      · intro h
        obtain ⟨hmark, bit, hspace⟩ := s.exists_bit_of_decodeBits h
        obtain ⟨⟨hhigh, hbit⟩, hrest⟩ := (hnext bit hspace hmark).mp h
        exact ⟨hhigh, hmark, by rw [hbit]; exact hspace, hrest⟩
      · rintro ⟨hhigh, hmark, hspace, hrest⟩
        exact (hnext _ hspace hmark).mpr ⟨⟨hhigh, rfl⟩, hrest⟩

/-- The recording agrees, time for time, with what is sent for the value. The mark that ends
the last bit is not looked at, nor what comes after it. -/
def Agrees (times : List ℕ) : Prop :=
  Waveform.Alternating MarkMatches SpaceMatches times ((s.entries.drop 1).take times.length)

theorem take_entries {count : ℕ} (h : count < s.rawlen) :
    (s.entries.drop 1).take count = (s.rawbuf.toList.drop 1).take count := by
  rw [entries, List.drop_take, List.take_take, Nat.min_eq_left (by omega)]

theorem length_sendBits (data : UInt32) (count : ℕ) : (sendBits data count).length = 2 * count := by
  induction count with
  | zero => rfl
  | succ count ih => simp [sendBits, ih, Nat.mul_succ]

theorem agrees_iff (value : UInt32) (hlength : 68 ≤ s.rawlen) :
    s.Agrees (necHdrMark :: necHdrSpace :: sendBits value necBits) ↔
      MarkMatches necHdrMark (s.raw 1) ∧ SpaceMatches necHdrSpace (s.raw 2) ∧
        s.decodeBits necBits 3 0 = some value := by
  have hhigh : value.toNat / 2 ^ necBits = (0 : UInt32).toNat :=
    Nat.div_eq_of_lt value.toNat_lt
  have hentries : (s.entries.drop 1).take 66 =
      s.raw 1 :: s.raw 2 :: (s.rawbuf.toList.drop 3).take (2 * necBits) := by
    rw [s.take_entries (by omega), s.drop_rawbuf (by decide), s.drop_rawbuf (by decide)]
    rfl
  rw [s.decodeBits_iff (by decide) (by decide) (by decide), and_iff_right hhigh, Agrees,
    List.length_cons, List.length_cons, length_sendBits]
  change Waveform.Alternating _ _ _ ((s.entries.drop 1).take 66) ↔ _
  rw [hentries]
  rfl

theorem decodeNEC_iff (value : UInt32) :
    s.decodeNEC = some { decodeType := .nec, value := value, bits := necBits } ↔
      68 ≤ s.rawlen ∧ s.Agrees (necHdrMark :: necHdrSpace :: sendBits value necBits) := by
  constructor
  · intro h
    rw [decodeNEC] at h
    split_ifs at h with hmark hrepeat hshort hspace
    · have hbits : 0 = necBits := congrArg DecodeResults.bits (Option.some.inj h)
      exact absurd hbits (by decide)
    · have hlength : 68 ≤ s.rawlen := Nat.not_lt.mp hshort
      obtain ⟨data, hdata, hresults⟩ := Option.map_eq_some_iff.mp h
      obtain rfl : data = value := congrArg DecodeResults.value hresults
      refine ⟨hlength, (s.agrees_iff data hlength).mpr ⟨?_, ?_, hdata⟩⟩
      · simpa [MarkMatches] using hmark
      · simpa [SpaceMatches] using hspace
  · rintro ⟨hlength, hagrees⟩
    obtain ⟨hmark, hspace, hdata⟩ := (s.agrees_iff value hlength).mp hagrees
    have hmark' : matchMark (s.raw 1) necHdrMark = true := hmark
    have hspace' : matchSpace (s.raw 2) necHdrSpace = true := hspace
    have hrepeat : s.rawlen ≠ 4 := by omega
    have hlong : ¬ s.rawlen < 2 * necBits + 4 := Nat.not_lt.mpr hlength
    rw [decodeNEC, hmark', hspace', hdata, if_neg (by decide), if_neg (fun h => hrepeat h.1),
      if_neg hlong, if_neg (by decide), Option.map_some]

theorem decodeNEC_repeat_iff :
    s.decodeNEC = some { decodeType := .nec, value := repeatValue, bits := 0 } ↔
      s.rawlen = 4 ∧ s.Agrees necRepeat := by
  have hagrees : s.rawlen = 4 → (s.Agrees necRepeat ↔ MarkMatches necHdrMark (s.raw 1) ∧
      SpaceMatches necRptSpace (s.raw 2) ∧ MarkMatches necBitMark (s.raw 3)) := by
    intro hlength
    have hentries : (s.entries.drop 1).take 3 = [s.raw 1, s.raw 2, s.raw 3] := by
      rw [s.take_entries (by omega), s.drop_rawbuf (by decide), s.drop_rawbuf (by decide),
        s.drop_rawbuf (by decide)]
      rfl
    change Waveform.Alternating _ _ _ ((s.entries.drop 1).take 3) ↔ _
    rw [hentries]
    simp [necRepeat, Waveform.Alternating]
  constructor
  · intro h
    rw [decodeNEC] at h
    split_ifs at h with hmark hrepeat hshort hspace
    · obtain ⟨hlength, hspace, hlast⟩ := hrepeat
      exact ⟨hlength, (hagrees hlength).mpr ⟨by simpa [MarkMatches] using hmark, hspace, hlast⟩⟩
    · obtain ⟨data, -, hresults⟩ := Option.map_eq_some_iff.mp h
      have hbits : necBits = 0 := congrArg DecodeResults.bits hresults
      exact absurd hbits (by decide)
  · rintro ⟨hlength, h⟩
    obtain ⟨hmark, hspace, hlast⟩ := (hagrees hlength).mp h
    have hmark' : matchMark (s.raw 1) necHdrMark = true := hmark
    rw [decodeNEC, hmark', if_neg (by decide), if_pos ⟨hlength, hspace, hlast⟩]

theorem decodeNEC_cases {results : DecodeResults} (h : s.decodeNEC = some results) :
    results = { decodeType := .nec, value := repeatValue, bits := 0 } ∨
      results = { decodeType := .nec, value := results.value, bits := necBits } := by
  rw [decodeNEC] at h
  split_ifs at h with hmark hrepeat hshort hspace
  · exact .inl (Option.some.inj h).symm
  · obtain ⟨data, -, rfl⟩ := Option.map_eq_some_iff.mp h
    exact .inr rfl

end Irparams

end OledDs18b20.Infrared
