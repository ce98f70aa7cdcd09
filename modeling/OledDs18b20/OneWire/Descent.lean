import OledDs18b20.OneWire.Search

/-! What a call of `search` finds: the loop follows the candidates on the bus bit by bit,
along the route that the last call left. -/
namespace OledDs18b20.OneWire
open Lib

def maskOf (index : ℕ) : UInt8 := Bus.bitMasks.getD index 1

theorem byteBits_set (byte : UInt8) {index : ℕ} (h : index < 8) (bit : Bool) :
    byteBits (if bit then byte ||| maskOf index else byte &&& ~~~maskOf index) =
      (byteBits byte).set index bit := by
  obtain ⟨⟨byte⟩⟩ := byte
  have hall : ∀ byte : Fin 256, ∀ index : Fin 8, ∀ bit : Bool,
      byteBits (if bit then ⟨⟨byte⟩⟩ ||| maskOf index else ⟨⟨byte⟩⟩ &&& ~~~maskOf index) =
        (byteBits ⟨⟨byte⟩⟩).set index bit := by
    decide +kernel
  exact hall byte ⟨index, h⟩ bit

theorem and_maskOf (byte : UInt8) {index : ℕ} (h : index < 8) :
    decide (byte &&& maskOf index > 0) = (byteBits byte).getD index true := by
  obtain ⟨⟨byte⟩⟩ := byte
  have hall : ∀ byte : Fin 256, ∀ index : Fin 8,
      decide ((⟨⟨byte⟩⟩ : UInt8) &&& maskOf index > 0) =
        (byteBits ⟨⟨byte⟩⟩).getD index true := by
    decide +kernel
  exact hall byte ⟨index, h⟩

theorem maskOf_shift {index : ℕ} (h : index < 8) :
    maskOf index <<< 1 = if index = 7 then 0 else maskOf (index + 1) := by
  interval_cases index <;> decide

theorem maskOf_ne_zero {index : ℕ} (h : index < 8) : maskOf index ≠ 0 := by
  interval_cases index <;> decide

theorem getD_wireBits (bytes : List UInt8) {place : ℕ} (h : place < 8 * bytes.length) :
    (wireBits bytes).getD place true =
      (byteBits (bytes.getD (place / 8) 0)).getD (place % 8) true := by
  induction bytes generalizing place with
  | nil => simp at h
  | cons byte bytes ih =>
      rw [wireBits_cons]
      rcases Nat.lt_or_ge place 8 with hfirst | hlater
      · rw [Nat.div_eq_of_lt hfirst, Nat.mod_eq_of_lt hfirst, List.getD_append _ _ _ _ (by simpa)]
        rfl
      · obtain ⟨more, rfl⟩ := Nat.exists_eq_add_of_le hlater
        rw [List.length_cons] at h
        rw [List.getD_append_right _ _ _ _ (by simp), length_byteBits, Nat.add_sub_cancel_left,
          ih (by omega), Nat.add_div_left _ (by decide), Nat.add_mod_left]
        rfl

theorem wireBits_set (bytes : List UInt8) {place : ℕ} (h : place < 8 * bytes.length)
    {byte : UInt8} {bit : Bool}
    (hbyte : byteBits byte = (byteBits (bytes.getD (place / 8) 0)).set (place % 8) bit) :
    wireBits (bytes.set (place / 8) byte) = (wireBits bytes).set place bit := by
  induction bytes generalizing place with
  | nil => simp at h
  | cons head bytes ih =>
      rcases Nat.lt_or_ge place 8 with hfirst | hlater
      · rw [Nat.div_eq_of_lt hfirst, Nat.mod_eq_of_lt hfirst] at hbyte
        rw [Nat.div_eq_of_lt hfirst, List.set_cons_zero, wireBits_cons, wireBits_cons, hbyte,
          List.set_append_left _ _ (by simpa)]
        rfl
      · obtain ⟨more, rfl⟩ := Nat.exists_eq_add_of_le hlater
        rw [List.length_cons] at h
        rw [Nat.add_div_left _ (by decide), Nat.add_mod_left] at hbyte
        rw [Nat.add_div_left _ (by decide), List.set_cons_succ, wireBits_cons, wireBits_cons,
          ih (by omega) hbyte, List.set_append_right _ _ (by simp), length_byteBits,
          Nat.add_sub_cancel_left]

/-! The bus in a search: the candidates on the path send the next bit. -/

namespace Bus

def words (bus : Bus) : List (List Bool) := bus.devices.map Device.word

def searching (path : List Bool) (bus : Bus) : Bus :=
  bus.each fun device => { device with phase := device.along path .searchBit }

theorem uniform_words (bus : Bus) : BitSearch.Uniform 64 bus.words := by
  intro word hword
  obtain ⟨device, _, rfl⟩ := List.mem_map.mp hword
  exact device.length_word

/-- A candidate on the path has the bit `bit` next. -/
theorem exists_next_iff {bus : Bus} {path : List Bool} (h : path.length < 64) (bit : Bool) :
    BitSearch.after bit (BitSearch.afterAll path bus.words) ≠ [] ↔
      ∃ device ∈ bus.devices, device.word.take path.length = path ∧
        device.word.getD path.length true = bit := by
  constructor
  · intro hne
    obtain ⟨rest, hrest⟩ := List.exists_mem_of_ne_nil _ hne
    have hword := BitSearch.mem_afterAll.mp (BitSearch.mem_after.mp hrest)
    obtain ⟨device, hdevice, hsame⟩ := List.mem_map.mp hword
    refine ⟨device, hdevice, ?_, ?_⟩
    · rw [hsame, List.take_left]
    · rw [hsame, List.getD_append_right _ _ _ _ (Nat.le_refl _), Nat.sub_self]
      rfl
  · rintro ⟨device, hdevice, hpath, hbit⟩
    have hopen : path.length < device.word.length := by rwa [device.length_word]
    have hsplit : device.word = path ++ bit :: device.word.drop (path.length + 1) := by
      rw [List.getD_eq_getElem _ _ hopen] at hbit
      rw [← hbit, List.getElem_cons_drop hopen]
      conv_lhs => rw [← List.take_append_drop path.length device.word, hpath]
    apply List.ne_nil_of_mem (a := device.word.drop (path.length + 1))
    rw [BitSearch.mem_after, BitSearch.mem_afterAll, ← hsplit]
    exact List.mem_map_of_mem hdevice

/-- Where the devices are while they send the next bit and its complement. -/
def stage (path : List Bool) (phase : Phase) (bus : Bus) : Bus :=
  bus.each fun device => { device with
    phase := if device.word.take path.length = path then phase else .idle }

theorem level_stage_iff (path : List Bool) (phase : Phase) (bus : Bus) :
    (bus.stage path phase).level true = false ↔
      ∃ device ∈ bus.devices, device.word.take path.length = path ∧
        ({ device with phase := phase } : Device).lets = false := by
  rw [level, Bool.true_and, List.all_eq_false]
  simp only [stage, each, List.mem_map, exists_exists_and_eq_and, Bool.not_eq_true]
  refine exists_congr fun device => and_congr_right fun _ => ?_
  by_cases hpath : device.word.take path.length = path
  · simp only [hpath, if_true, true_and]
  · simp only [hpath, if_false, false_and, iff_false, Bool.not_eq_false]
    rfl

section Stage
variable {bus : Bus} {path : List Bool} (h : path.length < 64)
include h

theorem searching_eq : bus.searching path = bus.stage path (.searchBit path.length) := by
  apply each_congr
  intro device _
  rw [Device.along, device.length_word, if_pos h]

theorem level_searchBit : (bus.stage path (.searchBit path.length)).level true =
    decide (BitSearch.after false (BitSearch.afterAll path bus.words) = []) := by
  rw [← Bool.not_inj_iff, Bool.eq_iff_iff, Bool.not_eq_true', level_stage_iff, Bool.not_eq_true',
    decide_eq_false_iff_not, ← ne_eq, exists_next_iff h]
  rfl

theorem level_searchComplement : (bus.stage path (.searchComplement path.length)).level true =
    decide (BitSearch.after true (BitSearch.afterAll path bus.words) = []) := by
  rw [← Bool.not_inj_iff, Bool.eq_iff_iff, Bool.not_eq_true', level_stage_iff, Bool.not_eq_true',
    decide_eq_false_iff_not, ← ne_eq, exists_next_iff h]
  refine exists_congr fun device => and_congr_right fun _ => and_congr_right fun _ => ?_
  change (!device.word.getD path.length true) = false ↔ _
  rw [Bool.not_eq_false']

omit h in
theorem slot_stage {phase phase' : Phase}
    (hnext : ∀ device : Device, ({ device with phase := phase } : Device).observe
      ((bus.stage path phase).level true) = { device with phase := phase' }) :
    (bus.stage path phase).slot true = bus.stage path phase' := by
  change (bus.stage path phase).each _ = _
  rw [stage, each_each]
  apply each_congr
  intro device _
  by_cases hpath : device.word.take path.length = path
  · simp only [Function.comp_apply, hpath, if_true]
    exact hnext device
  · simp only [Function.comp_apply, hpath, if_false]
    rfl

theorem turn_searching (bit : Bool) :
    (bus.stage path (.searchDirection path.length)).writeBit bit =
      bus.searching (path ++ [bit]) := by
  have hlevel : (bus.stage path (.searchDirection path.length)).level bit = bit := by
    have hfree : (bus.stage path (.searchDirection path.length)).devices.all
        Device.lets = true := by
      rw [List.all_eq_true]
      intro device hdevice
      obtain ⟨before, _, rfl⟩ := List.mem_map.mp hdevice
      unfold Device.lets
      split_ifs <;> rfl
    rw [level, hfree, Bool.and_true]
  rw [writeBit, slot, hlevel]
  change (bus.stage path _).each _ = _
  rw [stage, each_each]
  apply each_congr
  intro device _
  rw [Device.along_concat (by rwa [device.length_word])]
  by_cases hpath : device.word.take path.length = path
  · simp only [Function.comp_apply, hpath, if_true]
    rfl
  · simp only [Function.comp_apply, hpath, if_false]
    rfl

/-- The two readings say whether all candidates have a one, and whether all have a zero. -/
theorem readBits_searching :
    let rest := BitSearch.afterAll path bus.words
    (bus.searching path).readBit.1 = decide (BitSearch.after false rest = []) ∧
      (bus.searching path).readBit.2.readBit.1 = decide (BitSearch.after true rest = []) ∧
      ∀ bit, (bus.searching path).readBit.2.readBit.2.writeBit bit =
        bus.searching (path ++ [bit]) := by
  have hfirst : (bus.searching path).readBit =
      (decide (BitSearch.after false (BitSearch.afterAll path bus.words) = []),
        bus.stage path (.searchComplement path.length)) := by
    rw [searching_eq h, readBit, level_searchBit h, slot_stage fun _ => rfl]
  have hsecond : (bus.stage path (.searchComplement path.length)).readBit =
      (decide (BitSearch.after true (BitSearch.afterAll path bus.words) = []),
        bus.stage path (.searchDirection path.length)) := by
    rw [readBit, level_searchComplement h, slot_stage fun _ => rfl]
  rw [hfirst]
  dsimp only
  rw [hsecond]
  exact ⟨rfl, rfl, turn_searching h⟩

end Stage

theorem search_command {bus : Bus} (h : bus.Works) :
    bus.reset.2.write 0xF0 = bus.searching [] := by
  have hstart : Device.romCommand (byteBits 0xF0) = .searchBit 0 := by decide
  rw [reset_eq h, write_rom, hstart]
  exact each_congr fun device _ => by simp [Device.along]

end Bus

/-! One pass of the loop, and all of them. -/

namespace Search

/-- The route that a search takes at the discrepancies. -/
def routeOf (lastDiscrepancy : ℕ) (word : List Bool) : List Bool :=
  if lastDiscrepancy = 0 then [] else word.take (lastDiscrepancy - 1) ++ [true]

theorem headD_drop_routeOf {lastDiscrepancy place : ℕ} {word : List Bool}
    (h : place < word.length) :
    ((routeOf lastDiscrepancy word).drop place).headD false =
      if place + 1 < lastDiscrepancy then word.getD place true
      else decide (place + 1 = lastDiscrepancy) := by
  rw [List.headD_eq_head?_getD, List.head?_drop, routeOf]
  split_ifs with hzero hbefore hbefore
  · omega
  · simp [hzero]
  · have hplace : place < (word.take (lastDiscrepancy - 1)).length := by
      rw [List.length_take]
      omega
    rw [List.getElem?_append_left hplace, List.getElem?_take_of_lt (by omega)]
    simp [List.getD_eq_getElem?_getD, List.getElem?_eq_getElem (show place < word.length by omega)]
  · have htake : (word.take (lastDiscrepancy - 1)).length = lastDiscrepancy - 1 := by
      rw [List.length_take]
      omega
    rw [List.getElem?_append_right (by omega), htake]
    by_cases hlast : place + 1 = lastDiscrepancy
    · have hindex : place - (lastDiscrepancy - 1) = 0 := by omega
      simp [hindex, hlast]
    · have hindex : place - (lastDiscrepancy - 1) ≠ 0 := by omega
      obtain ⟨more, hmore⟩ := Nat.exists_eq_succ_of_ne_zero hindex
      simp [hmore, hlast]

namespace Walk

def word (walk : Walk) : List Bool := wireBits walk.romNo.toList

/-- The loop stands at the bit after `path`, and has the later bits still from the last
call. -/
structure At (old path : List Bool) (walk : Walk) : Prop where
  word : walk.word = path ++ old.drop path.length
  idBitNumber : walk.idBitNumber.toNat = path.length + 1
  romByteNumber : walk.romByteNumber.toNat = path.length / 8
  romByteMask : walk.romByteMask = maskOf (path.length % 8)

theorem at_start (search : Search) (bus : Bus) :
    At (wireBits search.romNo.toList) []
      { bus := bus
        romNo := search.romNo
        idBitNumber := 1
        lastZero := 0
        romByteNumber := 0
        romByteMask := 1
        lastFamilyDiscrepancy := search.lastFamilyDiscrepancy } :=
  ⟨rfl, rfl, rfl, rfl⟩

section Pass
variable {walk : Walk} {old path : List Bool} (h : At old path walk)
  (hpath : path.length < 64) (hold : old.length = 64)
include h hpath hold

omit hpath hold in
theorem At.getD_word : walk.word.getD path.length true = old.getD path.length true := by
  rw [h.word, List.getD_append_right _ _ _ _ (Nat.le_refl _), Nat.sub_self,
    List.getD_eq_getElem?_getD, List.getD_eq_getElem?_getD, List.getElem?_drop, Nat.add_zero]

theorem At.turn (bit : Bool) : At old (path ++ [bit]) (walk.turn bit) := by
  have hmod : path.length % 8 < 8 := Nat.mod_lt _ (by decide)
  have hplace : path.length < 8 * walk.romNo.toList.length := by
    rw [Vector.length_toList]
    exact hpath
  have hmask : walk.romByteMask <<< 1 = 0 ↔ path.length % 8 = 7 := by
    rw [h.romByteMask, maskOf_shift hmod]
    split_ifs with hlast
    · exact iff_of_true rfl hlast
    · exact iff_of_false (maskOf_ne_zero (by omega)) hlast
  rw [Walk.turn]
  constructor
  · have hbyte : byteBits (if bit then walk.romByte ||| walk.romByteMask
          else walk.romByte &&& ~~~walk.romByteMask) =
        (byteBits (walk.romNo.toList.getD (path.length / 8) 0)).set (path.length % 8) bit := by
      rw [romByte, h.romByteMask, h.romByteNumber, byteBits_set _ hmod]
    have hset : path.length - path.length = 0 := Nat.sub_self _
    dsimp only [Walk.word]
    rw [Vector.toList_setIfInBounds, h.romByteNumber, wireBits_set _ hplace hbyte]
    change walk.word.set path.length bit = _
    rw [h.word, List.set_append_right _ _ (Nat.le_refl _), hset,
      List.drop_eq_getElem_cons (by omega), List.set_cons_zero, List.length_append,
      List.length_singleton, List.append_assoc, List.singleton_append]
  · dsimp only
    rw [UInt8.toNat_add, h.idBitNumber, List.length_append]
    exact Nat.mod_eq_of_lt (by simp; omega)
  · dsimp only
    rw [List.length_append, List.length_singleton]
    split_ifs with hwrap
    · rw [UInt8.toNat_add, h.romByteNumber]
      have hlast := hmask.mp hwrap
      have hone : UInt8.toNat 1 = 1 := rfl
      rw [hone, Nat.mod_eq_of_lt (by omega)]
      omega
    · have hlast := mt hmask.mpr hwrap
      rw [h.romByteNumber]
      omega
  · dsimp only
    rw [List.length_append, List.length_singleton]
    split_ifs with hwrap
    · have hlast := hmask.mp hwrap
      have hnext : (path.length + 1) % 8 = 0 := by omega
      rw [hnext]
      rfl
    · have hlast := mt hmask.mpr hwrap
      have hnext : (path.length + 1) % 8 = path.length % 8 + 1 := by omega
      rw [h.romByteMask, maskOf_shift hmod, if_neg hlast, hnext]

theorem At.choose (lastDiscrepancy : UInt8) :
    walk.choose lastDiscrepancy =
      ((routeOf lastDiscrepancy.toNat old).drop path.length).headD false := by
  have hmod : path.length % 8 < 8 := Nat.mod_lt _ (by decide)
  have hbit : decide (walk.romByte &&& walk.romByteMask > 0) = old.getD path.length true := by
    rw [← h.getD_word, h.romByteMask, and_maskOf _ hmod, romByte, h.romByteNumber,
      Walk.word, getD_wireBits _ (by rw [Vector.length_toList]; exact hpath)]
  rw [headD_drop_routeOf (by omega), Walk.choose, hbit]
  simp only [UInt8.lt_iff_toNat_lt, ← UInt8.toNat_inj, h.idBitNumber]

omit h hpath hold in
/-- What the two readings of a pass leave, apart from the zero that it may note. -/
theorem pass_eq (lastDiscrepancy : UInt8) {zeros ones : Bool}
    (hidBit : walk.bus.readBit.1 = !zeros) (hcmpIdBit : walk.bus.readBit.2.readBit.1 = !ones)
    (hsome : zeros = true ∨ ones = true) :
    let choice := walk.choose lastDiscrepancy
    let bit := if zeros = false then true else if ones = false then false else choice
    ∃ lastFamilyDiscrepancy, walk.pass lastDiscrepancy = some (Walk.turn bit { walk with
      bus := walk.bus.readBit.2.readBit.2
      lastZero := if bit = false ∧ ones = true then walk.idBitNumber else walk.lastZero
      lastFamilyDiscrepancy := lastFamilyDiscrepancy }) := by
  have hchoice : Walk.choose lastDiscrepancy
    { walk with bus := walk.bus.readBit.2.readBit.2 } = walk.choose lastDiscrepancy := rfl
  unfold Walk.pass
  dsimp only
  rw [hidBit, hcmpIdBit, hchoice]
  cases zeros with
  | false =>
      cases ones with
      | false => simp at hsome
      | true => exact ⟨_, rfl⟩
  | true =>
      cases ones with
      | false => exact ⟨_, rfl⟩
      | true =>
          cases walk.choose lastDiscrepancy with
          | false => exact ⟨_, rfl⟩
          | true => exact ⟨_, rfl⟩

/-- One pass takes the direction of the abstract search. -/
theorem At.pass {bus : Bus} (lastDiscrepancy : UInt8)
    (hbus : walk.bus = bus.searching path)
    (hrest : BitSearch.afterAll path bus.words ≠ []) :
    let rest := BitSearch.afterAll path bus.words
    let bit := BitSearch.direction rest
      (((routeOf lastDiscrepancy.toNat old).drop path.length).headD false)
    ∃ next, walk.pass lastDiscrepancy = some next ∧ At old (path ++ [bit]) next ∧
      next.bus = bus.searching (path ++ [bit]) ∧
      next.lastZero = if bit = false ∧ BitSearch.after true rest ≠ [] then walk.idBitNumber
        else walk.lastZero := by
  intro rest bit
  have hread := bus.readBits_searching hpath
  rw [← hbus] at hread
  obtain ⟨hidBit, hcmpIdBit, hturn⟩ := hread
  have hsome : BitSearch.after false rest ≠ [] ∨ BitSearch.after true rest ≠ [] := by
    have hlength : path.length + (63 - path.length + 1) = 64 := by omega
    have huniform : BitSearch.Uniform (63 - path.length + 1) rest := by
      apply BitSearch.uniform_afterAll
      rw [hlength]
      exact bus.uniform_words
    exact BitSearch.exists_after_ne_nil huniform hrest
  have hzeros : walk.bus.readBit.1 = !decide (BitSearch.after false rest ≠ []) := by
    rw [hidBit, decide_not, Bool.not_not]
  have hones : walk.bus.readBit.2.readBit.1 = !decide (BitSearch.after true rest ≠ []) := by
    rw [hcmpIdBit, decide_not, Bool.not_not]
  obtain ⟨lastFamilyDiscrepancy, hpass⟩ :=
    pass_eq lastDiscrepancy hzeros hones (by simpa using hsome)
  simp only [decide_eq_false_iff_not, not_not, decide_eq_true_iff,
    h.choose hpath hold lastDiscrepancy] at hpass
  refine ⟨_, hpass, ?_, hturn bit, rfl⟩
  apply At.turn _ hpath hold
  exact ⟨h.word, h.idBitNumber, h.romByteNumber, h.romByteMask⟩

end Pass

/-- The loop has ended with the word of the abstract search, which had `count` bits to go
after `path` and the last zero so far at `lastZero`. -/
structure Found (bus : Bus) (path : List Bool) (lastZero count : ℕ) (route : List Bool)
    (rest : List (List Bool)) (walk : Walk) : Prop where
  word : walk.word = path ++ BitSearch.descend count route rest
  bus : walk.bus = bus.searching walk.word
  idBitNumber : walk.idBitNumber.toNat = 65
  lastZero : walk.lastZero.toNat =
    if BitSearch.reroute count route rest = [] then lastZero
    else path.length + (BitSearch.reroute count route rest).length

theorem Found.of_at {bus : Bus} {old path route : List Bool} {rest : List (List Bool)}
    {walk : Walk} (h : At old path walk) (hbus : walk.bus = bus.searching path)
    (hpath : path.length = 64) (hold : old.length = 64) :
    Found bus path walk.lastZero.toNat 0 route rest walk := by
  have hword := h.word
  rw [List.drop_eq_nil_of_le (by omega), List.append_nil] at hword
  refine ⟨?_, ?_, ?_, rfl⟩
  · rw [hword]
    exact (List.append_nil path).symm
  · rw [hword]
    exact hbus
  · rw [h.idBitNumber, hpath]

theorem Found.step {bus : Bus} {path route : List Bool} {rest : List (List Bool)}
    {lastZero lastZero' count : ℕ} {walk : Walk} {bit : Bool}
    (hbit : BitSearch.direction rest (route.headD false) = bit)
    (hzero : lastZero' = if bit = false ∧ BitSearch.after true rest ≠ [] then path.length + 1
      else lastZero)
    (h : Found bus (path ++ [bit]) lastZero' count route.tail (BitSearch.after bit rest) walk) :
    Found bus path lastZero (count + 1) route rest walk := by
  refine ⟨?_, h.bus, h.idBitNumber, ?_⟩
  · rw [h.word, BitSearch.descend, hbit, List.append_assoc, List.singleton_append]
  · rw [h.lastZero, BitSearch.reroute, hbit, hzero, List.length_append, List.length_singleton]
    by_cases hlater : BitSearch.reroute count route.tail (BitSearch.after bit rest) = []
    · by_cases hdiscrepancy : bit = false ∧ BitSearch.after true rest ≠ []
      · obtain ⟨rfl, hones⟩ := hdiscrepancy
        simp [hlater, hones]
      · simp [hlater, hdiscrepancy]
    · simp [hlater]
      ring

/-- The passes from `path` on find the word of the abstract search. -/
theorem At.loop {bus : Bus} (lastDiscrepancy : UInt8)
    {old : List Bool} (hold : old.length = 64) {count : ℕ} {walk : Walk} {path : List Bool}
    (hcount : path.length + (count + 1) = 64) (h : At old path walk)
    (hbus : walk.bus = bus.searching path)
    (hrest : BitSearch.afterAll path bus.words ≠ []) :
    Found bus path walk.lastZero.toNat (count + 1)
      ((routeOf lastDiscrepancy.toNat old).drop path.length)
      (BitSearch.afterAll path bus.words) (Walk.loop lastDiscrepancy (count + 1) walk) := by
  induction count generalizing walk path with
  | zero =>
      obtain ⟨next, hpass, hat, hnext, hzero⟩ := h.pass (by omega) hold lastDiscrepancy hbus hrest
      have hend : ¬ next.romByteNumber < 8 := by
        have hbyte := hat.romByteNumber
        have height : UInt8.toNat 8 = 8 := rfl
        rw [List.length_append, List.length_singleton] at hbyte
        rw [UInt8.lt_iff_toNat_lt, hbyte]
        omega
      simp only [Walk.loop, hpass, hend, if_false]
      refine Found.step rfl ?_ (Found.of_at hat hnext (by simp; omega) hold)
      rw [hzero, apply_ite UInt8.toNat, h.idBitNumber]
  | succ count ih =>
      obtain ⟨next, hpass, hat, hnext, hzero⟩ := h.pass (by omega) hold lastDiscrepancy hbus hrest
      have hmore : next.romByteNumber < 8 := by
        have hbyte := hat.romByteNumber
        have height : UInt8.toNat 8 = 8 := rfl
        rw [List.length_append, List.length_singleton] at hbyte
        rw [UInt8.lt_iff_toNat_lt, hbyte]
        omega
      have huniform : BitSearch.Uniform (count + 1 + 1)
          (BitSearch.afterAll path bus.words) := by
        apply BitSearch.uniform_afterAll
        rw [hcount]
        exact bus.uniform_words
      have hrest' := BitSearch.after_direction_ne_nil huniform hrest
        (((routeOf lastDiscrepancy.toNat old).drop path.length).headD false)
      rw [← BitSearch.afterAll_concat] at hrest'
      have hlater := ih (by simp; omega) hat hnext hrest'
      rw [BitSearch.afterAll_concat, List.length_append, List.length_singleton,
        ← List.tail_drop] at hlater
      rw [Walk.loop, hpass]
      dsimp only
      rw [if_pos hmore]
      refine Found.step rfl ?_ hlater
      rw [hzero, apply_ite UInt8.toNat, h.idBitNumber]

end Walk

/-- The state in which the next call takes `route`, and finds nothing more if it is empty. -/
structure Resumes (route : List Bool) (state : Search) : Prop where
  route : routeOf state.lastDiscrepancy.toNat (wireBits state.romNo.toList) = route
  lastDeviceFlag : state.lastDeviceFlag = false

theorem resumes_resetSearch (state : Search) : Resumes [] state.resetSearch :=
  ⟨rfl, rfl⟩

theorem search_eq {bus : Bus} (hworks : bus.Works) (hne : bus.devices ≠ []) {state : Search}
    (hflag : state.lastDeviceFlag = false) :
    state.search bus =
      let walk := state.walk (bus.searching [])
      let found := state.found walk
      let finished := found.1.finish found.2
      (if finished.2 then some finished.1.romNo else none, finished.1, walk.bus) := by
  have hpresent : bus.reset.1 = true := by
    rw [Bus.reset_eq hworks]
    simpa using hne
  rw [search, hflag, ← Bus.search_command hworks]
  dsimp only
  rw [hpresent]
  rfl

def keep (walk : Walk) : Search where
  romNo := walk.romNo
  lastDiscrepancy := walk.lastZero
  lastFamilyDiscrepancy := walk.lastFamilyDiscrepancy
  lastDeviceFlag := walk.lastZero = 0

theorem finish_found (state : Search) (walk : Walk) (hdone : walk.idBitNumber.toNat = 65)
    (hfamily : walk.romNo.toList.getD 0 0 ≠ 0) :
    (state.found walk).1.finish (state.found walk).2 = (keep walk, true) := by
  have hend : ¬ walk.idBitNumber < 65 := by
    have hbits : UInt8.toNat 65 = 65 := rfl
    rw [UInt8.lt_iff_toNat_lt]
    omega
  rw [found, if_neg hend, finish, if_neg]
  · rfl
  · rintro (hnone | hzero)
    · exact Bool.false_ne_true hnone.symm
    · exact hfamily hzero

/-- What the kept state says of the rest of the tour. -/
theorem keep_resumes {bus : Bus} {route : List Bool} {walk : Walk}
    (h : Walk.Found bus [] 0 64 route bus.words walk) :
    (BitSearch.reroute 64 route bus.words = [] → (keep walk).lastDeviceFlag = true) ∧
      (BitSearch.reroute 64 route bus.words ≠ [] →
        Resumes (BitSearch.reroute 64 route bus.words) (keep walk)) := by
  have hword : wireBits walk.romNo.toList = BitSearch.descend 64 route bus.words := h.word
  have hlastZero := h.lastZero
  constructor
  · intro hnone
    rw [if_pos hnone] at hlastZero
    exact decide_eq_true (UInt8.toNat_inj.mp hlastZero)
  · intro hmore
    have hroute := BitSearch.reroute_eq hmore
    have hpos := List.length_pos_iff.mpr hmore
    rw [if_neg hmore, List.length_nil, Nat.zero_add] at hlastZero
    refine ⟨?_, ?_⟩
    · rw [keep, hword, hlastZero, routeOf, if_neg hpos.ne', ← hroute]
    · apply decide_eq_false
      intro hzero
      rw [hzero] at hlastZero
      exact hpos.ne hlastZero

/-- What the abstract search finds is a device. -/
theorem exists_descended {bus : Bus} (hne : bus.devices ≠ []) {route : List Bool}
    {rom : Vector UInt8 8}
    (h : wireBits rom.toList = BitSearch.descend 64 route bus.words) :
    ∃ device ∈ bus.devices, device.rom = rom := by
  have hwords : bus.words ≠ [] := fun hnil => hne (List.map_eq_nil_iff.mp hnil)
  have hmem := BitSearch.descend_mem bus.uniform_words hwords route
  rw [← h] at hmem
  obtain ⟨device, hdevice, hsame⟩ := List.mem_map.mp hmem
  exact ⟨device, hdevice, (device.word_eq_iff rom).mp hsame⟩

/-- A call finds the word of the abstract search, and leaves its next route. -/
theorem search_found {bus : Bus} (hworks : bus.Works) (hne : bus.devices ≠ [])
    {state : Search} {route : List Bool}
    (hfamily : ∀ rom : Vector UInt8 8, wireBits rom.toList = BitSearch.descend 64 route bus.words →
      rom.toList.getD 0 0 ≠ 0) (h : Resumes route state) :
    ∃ rom next path,
      state.search bus = (some rom, next, bus.searching path) ∧
      wireBits rom.toList = BitSearch.descend 64 route bus.words ∧
      (BitSearch.reroute 64 route bus.words = [] → next.lastDeviceFlag = true) ∧
      (BitSearch.reroute 64 route bus.words ≠ [] →
        Resumes (BitSearch.reroute 64 route bus.words) next) := by
  have hwords : bus.words ≠ [] := fun hnil => hne (List.map_eq_nil_iff.mp hnil)
  have hold : (wireBits state.romNo.toList).length = 64 := by
    rw [length_wireBits, Vector.length_toList]
  have hfound : Walk.Found bus [] 0 64 route bus.words (state.walk (bus.searching [])) := by
    rw [← h.route]
    exact Walk.At.loop state.lastDiscrepancy hold (show [].length + (63 + 1) = 64 from rfl)
      (Walk.at_start state (bus.searching [])) rfl hwords
  have hword : wireBits (state.walk (bus.searching [])).romNo.toList =
      BitSearch.descend 64 route bus.words := hfound.word
  have hsearch : state.search bus =
      (some (state.walk (bus.searching [])).romNo, keep (state.walk (bus.searching [])),
        bus.searching (state.walk (bus.searching [])).word) := by
    rw [search_eq hworks hne h.lastDeviceFlag]
    dsimp only
    rw [finish_found state _ hfound.idBitNumber (hfamily _ hword), hfound.bus]
    rfl
  exact ⟨_, _, _, hsearch, hword, keep_resumes hfound⟩

end Search

end OledDs18b20.OneWire
