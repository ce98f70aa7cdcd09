import OledDs18b20.OneWire.Descent

/-! Successive calls of `search` on a bus whose devices stay the same: they find the devices
in turn, and after the last one there is a call that finds none. -/
namespace OledDs18b20.OneWire
open Lib

abbrev Rom := Vector UInt8 8

def romOfWord (word : List Bool) : Rom :=
  Vector.ofFn fun number => pack ((List.range 8).map fun index =>
    word.getD (8 * number.val + index) true)

theorem romOfWord_wireBits (rom : Rom) : romOfWord (wireBits rom.toList) = rom := by
  apply Vector.ext
  intro number hnumber
  have hbyte : rom.toList[number]? = some rom[number] := by
    rw [Vector.getElem?_toList, Vector.getElem?_eq_getElem hnumber]
  rw [romOfWord, Vector.getElem_ofFn, Bus.byteBits_eq_range _ _ hbyte, pack_byteBits]

/-- The ROM codes in the order in which they are found. -/
def rota (roms : List Rom) : List Rom :=
  (BitSearch.enumerate 64 (roms.map fun rom => wireBits rom.toList)).map romOfWord

/-- The first bit in which the codes differ, lowest first, is a zero in the first one. -/
def Before (first second : Rom) : Prop :=
  List.Lex (· < ·) (wireBits first.toList) (wireBits second.toList)

theorem uniform_roms (roms : List Rom) :
    BitSearch.Uniform 64 (roms.map fun rom => wireBits rom.toList) := by
  intro word hword
  obtain ⟨rom, _, rfl⟩ := List.mem_map.mp hword
  rw [length_wireBits, Vector.length_toList]

theorem map_rota (roms : List Rom) :
    (rota roms).map (fun rom => wireBits rom.toList) =
      BitSearch.enumerate 64 (roms.map fun rom => wireBits rom.toList) := by
  rw [rota, List.map_map]
  apply (List.map_congr_left _).trans (List.map_id _)
  intro word hword
  have hmem := (BitSearch.mem_enumerate (uniform_roms roms)).mp hword
  obtain ⟨rom, _, rfl⟩ := List.mem_map.mp hmem
  rw [Function.comp_apply, romOfWord_wireBits]
  rfl

theorem mem_rota {roms : List Rom} {rom : Rom} : rom ∈ rota roms ↔ rom ∈ roms := by
  constructor
  · intro hrom
    obtain ⟨word, hword, rfl⟩ := List.mem_map.mp hrom
    have hmem := (BitSearch.mem_enumerate (uniform_roms roms)).mp hword
    obtain ⟨rom, hrom, rfl⟩ := List.mem_map.mp hmem
    rwa [romOfWord_wireBits]
  · intro hrom
    refine List.mem_map.mpr ⟨wireBits rom.toList, ?_, romOfWord_wireBits rom⟩
    exact (BitSearch.mem_enumerate (uniform_roms roms)).mpr (List.mem_map.mpr ⟨rom, hrom, rfl⟩)

@[simp] theorem rota_nil : rota [] = [] := by
  rw [rota, List.map_nil, BitSearch.enumerate_empty, List.map_nil]

theorem rota_sorted (roms : List Rom) : (rota roms).Pairwise Before := by
  have hsorted := BitSearch.enumerate_sorted 64 (roms.map fun rom => wireBits rom.toList)
  rw [← map_rota, List.pairwise_map] at hsorted
  exact hsorted

theorem rota_nodup (roms : List Rom) : (rota roms).Nodup := by
  apply (rota_sorted roms).imp
  rintro first second hbefore rfl
  exact List.lex_irrefl (fun bit => lt_irrefl bit) _ hbefore

theorem rota_perm {roms : List Rom} (h : roms.Nodup) : (rota roms).Perm roms :=
  (List.perm_ext_iff_of_nodup (rota_nodup roms) h).mpr fun _ => mem_rota

namespace Search

/-- The bus works, and its devices are those with the given ROM codes, whatever they have
been doing. -/
structure Holds (roms : List Rom) (bus : Bus) : Prop where
  works : bus.Works
  roms : bus.devices.map Device.rom = roms

theorem Holds.words {roms : List Rom} {bus : Bus} (h : Holds roms bus) :
    bus.words = roms.map fun rom => wireBits rom.toList := by
  rw [← h.roms, List.map_map]
  rfl

theorem Holds.each {roms : List Rom} {bus : Bus} (h : Holds roms bus) {f : Device → Device}
    (hrom : ∀ device, (f device).rom = device.rom) : Holds roms (bus.each f) where
  works := h.works
  roms := by
    rw [← h.roms, Bus.each, List.map_map]
    exact List.map_congr_left fun device _ => hrom device

/-- The devices that the next calls will find, before one that finds none. -/
inductive Standing (roms : List Rom) : List Rom → Search → Prop where
  | finds {remaining : List Rom} {state : Search} {route : List Bool} (some : roms ≠ [])
      (tour : BitSearch.Tour 64 (roms.map fun rom => wireBits rom.toList) route
        (remaining.map fun rom => wireBits rom.toList))
      (resumes : Resumes route state) : Standing roms remaining state
  | done {state : Search} (flag : state.lastDeviceFlag = true) : Standing roms [] state
  | empty {state : Search} (none : roms = []) (flag : state.lastDeviceFlag = false) :
      Standing roms [] state

theorem standing_start (roms : List Rom) {state : Search} (h : Resumes [] state) :
    Standing roms (rota roms) state := by
  by_cases hroms : roms = []
  · rw [hroms, rota_nil]
    exact .empty rfl h.lastDeviceFlag
  · refine .finds hroms ?_ h
    rw [map_rota]
    exact BitSearch.tour_enumerate (uniform_roms roms) (by simpa using hroms)

theorem wire_injective {first second : Rom}
    (h : wireBits first.toList = wireBits second.toList) : first = second :=
  Vector.toList_inj.mp (wireBits_injective h)

theorem search_finds {roms remaining : List Rom} {state : Search} {bus : Bus}
    {route : List Bool} {words : List (List Bool)}
    (hfamily : ∀ rom ∈ roms, rom.toList.getD 0 0 ≠ 0) (hbus : Holds roms bus)
    (hsome : roms ≠ [])
    (hwords : remaining.map (fun rom => wireBits rom.toList) = words)
    (tour : BitSearch.Tour 64 (roms.map fun rom => wireBits rom.toList) route words)
    (resumes : Resumes route state) :
    ∃ rom rest, remaining = rom :: rest ∧ (state.search bus).1 = some rom ∧
      Standing roms rest (state.search bus).2.1 ∧ Holds roms (state.search bus).2.2 := by
  have hne : bus.devices ≠ [] := by
    intro hnil
    have hroms := hbus.roms
    rw [hnil] at hroms
    exact hsome hroms.symm
  have hdescended : ∀ rom : Vector UInt8 8,
      wireBits rom.toList = BitSearch.descend 64 route bus.words →
      rom.toList.getD 0 0 ≠ 0 := by
    intro rom hrom
    obtain ⟨device, hdevice, rfl⟩ := exists_descended hne hrom
    apply hfamily
    rw [← hbus.roms]
    exact List.mem_map_of_mem hdevice
  obtain ⟨found, next, path, hsearch, hfound, hlast, hmore⟩ :=
    search_found hbus.works hne hdescended resumes
  rw [hbus.words] at hfound hlast hmore
  rw [hsearch]
  have hafter : Holds roms (bus.searching path) := hbus.each fun _ => rfl
  cases tour with
  | last done =>
      obtain ⟨rom, rest, rfl, hrom, hrest⟩ := List.map_eq_cons_iff.mp hwords
      rw [List.map_eq_nil_iff.mp hrest]
      refine ⟨rom, [], rfl, ?_, .done (hlast done), hafter⟩
      rw [wire_injective (hfound.trans hrom.symm)]
  | next more tail =>
      obtain ⟨rom, rest, rfl, hrom, hrest⟩ := List.map_eq_cons_iff.mp hwords
      rw [← hrest] at tail
      refine ⟨rom, rest, rfl, ?_, .finds hsome tail (hmore more), hafter⟩
      rw [wire_injective (hfound.trans hrom.symm)]

/-- A call finds the first of the devices that remain; without any, the round is over. -/
theorem search_standing {roms remaining : List Rom} {state : Search} {bus : Bus}
    (hfamily : ∀ rom ∈ roms, rom.toList.getD 0 0 ≠ 0) (hbus : Holds roms bus)
    (h : Standing roms remaining state) :
    (state.search bus).1 = remaining.head? ∧
      Standing roms (if remaining = [] then rota roms else remaining.tail)
        (state.search bus).2.1 ∧
      Holds roms (state.search bus).2.2 := by
  cases h with
  | finds hsome tour resumes =>
      obtain ⟨rom, rest, rfl, hfound, hstanding, hafter⟩ :=
        search_finds hfamily hbus hsome rfl tour resumes
      rw [if_neg (List.cons_ne_nil rom rest)]
      exact ⟨hfound, hstanding, hafter⟩
  | done flag =>
      rw [search, if_pos flag, if_pos rfl]
      exact ⟨rfl, standing_start roms ⟨rfl, rfl⟩, hbus⟩
  | empty hnone flag =>
      have habsent : bus.reset.1 = false := by
        have hdevices := hbus.roms
        rw [hnone, List.map_eq_nil_iff] at hdevices
        rw [Bus.reset_eq hbus.works, hdevices]
        rfl
      rw [search, if_neg (by simp [flag]), if_pos rfl]
      dsimp only
      rw [if_pos habsent]
      refine ⟨rfl, standing_start roms ⟨rfl, rfl⟩, ?_⟩
      rw [Bus.reset_eq hbus.works]
      exact hbus.each fun _ => rfl

/-- The results of one call on each of the buses. -/
def results : Search → List Bus → List (Option Rom)
  | _, [] => []
  | state, bus :: later => (state.search bus).1 :: results (state.search bus).2.1 later

theorem next_place (place count : ℕ) :
    (if place % (count + 1) < count then place % (count + 1) + 1 else 0) =
      (place + 1) % (count + 1) := by
  have hlt : place % (count + 1) < count + 1 := Nat.mod_lt place (Nat.succ_pos count)
  have hstep : (place + 1) % (count + 1) = (place % (count + 1) + 1) % (count + 1) :=
    (Nat.mod_add_mod place (count + 1) 1).symm
  split_ifs with hmore
  · exact (hstep.trans (Nat.mod_eq_of_lt (by omega))).symm
  · have hlast : place % (count + 1) = count := by omega
    rw [hstep, hlast, Nat.mod_self]

/-- The search is at the given place, counted on through the rounds. -/
def AtPlace (roms : List Rom) (place : ℕ) (state : Search) : Prop :=
  Standing roms ((rota roms).drop (place % ((rota roms).length + 1))) state

theorem head_place (roms : List Rom) (place : ℕ) :
    ((rota roms).drop place).head? = (rota roms)[place]? :=
  List.head?_drop

theorem AtPlace.next {roms : List Rom} {place : ℕ} {state : Search}
    (h : Standing roms
      (if (rota roms).drop (place % ((rota roms).length + 1)) = [] then rota roms
        else ((rota roms).drop (place % ((rota roms).length + 1))).tail) state) :
    AtPlace roms (place + 1) state := by
  rw [AtPlace, ← next_place]
  split_ifs with hplace
  · have hne : (rota roms).drop (place % ((rota roms).length + 1)) ≠ [] := by
      simpa [List.drop_eq_nil_iff] using hplace
    rwa [if_neg hne, List.tail_drop] at h
  · have hnil : (rota roms).drop (place % ((rota roms).length + 1)) = [] :=
      List.drop_eq_nil_iff.mpr (by omega)
    rwa [if_pos hnil] at h

/-- The calls go round the devices and the call that finds none. -/
theorem results_eq {roms : List Rom} {buses : List Bus} {state : Search} {place : ℕ}
    (hfamily : ∀ rom ∈ roms, rom.toList.getD 0 0 ≠ 0)
    (hbuses : ∀ bus ∈ buses, Holds roms bus) (h : AtPlace roms place state) :
    results state buses = (List.range buses.length).map fun call =>
      (rota roms)[(place + call) % ((rota roms).length + 1)]? := by
  induction buses generalizing state place with
  | nil => rfl
  | cons bus later ih =>
      rw [List.forall_mem_cons] at hbuses
      obtain ⟨hfirst, hnext, _⟩ := search_standing hfamily hbuses.1 h
      rw [results, hfirst, ih hbuses.2 (AtPlace.next hnext), List.length_cons,
        List.range_succ_eq_map, List.map_cons, List.map_map, head_place]
      refine List.cons_eq_cons.mpr ⟨rfl, List.map_congr_left fun call _ => ?_⟩
      have hcall : place + 1 + call = place + call.succ := by omega
      rw [Function.comp_apply, hcall]

theorem atPlace_start (roms : List Rom) {state : Search} (h : Resumes [] state) :
    AtPlace roms 0 state := by
  rw [AtPlace, Nat.zero_mod, List.drop_zero]
  exact standing_start roms h

theorem atPlace_of_standing {roms : List Rom} {place : ℕ} {state : Search}
    (hplace : place ≤ (rota roms).length) (h : Standing roms ((rota roms).drop place) state) :
    AtPlace roms place state := by
  rwa [AtPlace, Nat.mod_eq_of_lt (Nat.lt_succ_of_le hplace)]

/-- Whatever a search remembers, it is somewhere in a round of the devices that are there. -/
theorem exists_place (roms : List Rom) (state : Search) : ∃ place, AtPlace roms place state := by
  cases hflag : state.lastDeviceFlag with
  | true =>
      refine ⟨(rota roms).length, atPlace_of_standing le_rfl ?_⟩
      rw [List.drop_length]
      exact .done hflag
  | false =>
      by_cases hroms : roms = []
      · refine ⟨0, atPlace_of_standing (Nat.zero_le _) ?_⟩
        rw [hroms, rota_nil]
        exact .empty rfl hflag
      · obtain ⟨found, hsuffix, htour⟩ := BitSearch.exists_tour (uniform_roms roms)
          (by simpa using hroms)
          (routeOf state.lastDiscrepancy.toNat (wireBits state.romNo.toList))
        rw [← map_rota] at hsuffix
        have hfound := List.suffix_iff_eq_drop.mp hsuffix
        rw [← List.map_drop] at hfound
        rw [hfound] at htour
        refine ⟨_, atPlace_of_standing ?_ (.finds hroms htour ⟨rfl, hflag⟩)⟩
        rw [List.length_map]
        exact Nat.sub_le _ _

theorem results_round {roms : List Rom} {buses : List Bus} {state : Search} {place : ℕ}
    (hfamily : ∀ rom ∈ roms, rom.toList.getD 0 0 ≠ 0)
    (hbuses : ∀ bus ∈ buses, Holds roms bus) (h : AtPlace roms place state)
    (hround : buses.length = (rota roms).length + 1) :
    results state buses = ((rota roms).map some ++ [none]).rotate place := by
  rw [results_eq hfamily hbuses h]
  apply List.ext_getElem
  · simp [hround]
  · intro call hcall _
    rw [List.length_map, List.length_range, hround] at hcall
    have hcells : ((rota roms).map some ++ [none]).length = (rota roms).length + 1 := by simp
    rw [List.getElem_map, List.getElem_range, List.getElem_rotate, Nat.add_comm call place]
    simp only [hcells]
    have hindex := Nat.mod_lt (place + call) (Nat.succ_pos (rota roms).length)
    rcases Nat.lt_or_ge ((place + call) % ((rota roms).length + 1)) (rota roms).length with
      hdevice | hnone
    · rw [List.getElem_append_left (by simpa using hdevice), List.getElem_map,
        List.getElem?_eq_getElem hdevice]
    · rw [List.getElem_append_right (by simpa using hnone), List.getElem_singleton,
        List.getElem?_eq_none hnone]

/-- After `reset_search` the calls find the devices in the order of their ROM codes, lowest
bit first, then find none once, and so on. -/
theorem search_rounds {roms : List Rom} (hfamily : ∀ rom ∈ roms, rom.toList.getD 0 0 ≠ 0)
    (state : Search) {buses : List Bus} (hbuses : ∀ bus ∈ buses, Holds roms bus) :
    ∃ order : List Rom, order.Pairwise Before ∧ (∀ rom, rom ∈ order ↔ rom ∈ roms) ∧
      results state.resetSearch buses =
        (List.range buses.length).map fun call => order[call % (order.length + 1)]? := by
  refine ⟨rota roms, rota_sorted roms, fun rom => mem_rota, ?_⟩
  rw [results_eq hfamily hbuses (atPlace_start roms (resumes_resetSearch state))]
  simp only [Nat.zero_add]

/-- A bus of idle devices whose scratchpads are empty. -/
def benchBus (roms : List Rom) : Bus where
  devices := roms.map fun rom => ⟨rom, Vector.replicate 9 0, .idle⟩
  lowReads := 0

theorem benchBus_holds (roms : List Rom) : Holds roms (benchBus roms) where
  works := rfl
  roms := by
    rw [benchBus, List.map_map]
    exact List.map_id _

/-- The ROM codes of a DS18S20 and of a DS18B20. -/
def benchRoms : List Rom :=
  [Bus.bytesOf 8 [0x10, 0, 0, 0, 0, 0, 0, 0xFB], Bus.bytesOf 8 [0x28, 0, 0, 0, 0, 0, 0, 30]]

theorem benchRoms_family : ∀ rom ∈ benchRoms, rom.toList.getD 0 0 ≠ 0 := by
  intro rom hrom
  fin_cases hrom <;> decide

/-- A search that was stopped by other devices. -/
def benchState : Search := ⟨Bus.bytesOf 8 [0x22, 1, 2, 3, 4, 5, 6, 7], 12, 4, false⟩

theorem search_rounds_bench : ∃ order : List Rom, order.Pairwise Before ∧
    (∀ rom, rom ∈ order ↔ rom ∈ benchRoms) ∧
      results benchState.resetSearch (List.replicate 7 (benchBus benchRoms)) =
        (List.range (List.replicate 7 (benchBus benchRoms)).length).map fun call =>
          order[call % (order.length + 1)]? := by
  apply search_rounds benchRoms_family benchState
  intro bus hbus
  rw [List.eq_of_mem_replicate hbus]
  exact benchBus_holds benchRoms

/-- From any state, also one left by other devices, a round of calls finds each device once
and ends or begins again with one call that finds none. -/
theorem search_covers {roms : List Rom} (hfamily : ∀ rom ∈ roms, rom.toList.getD 0 0 ≠ 0)
    (hdistinct : roms.Nodup) (state : Search) {buses : List Bus}
    (hbuses : ∀ bus ∈ buses, Holds roms bus) (hround : buses.length = roms.length + 1) :
    (results state buses).Perm (none :: roms.map some) := by
  have horder := rota_perm hdistinct
  obtain ⟨place, hplace⟩ := exists_place roms state
  rw [results_round hfamily hbuses hplace (by rw [hround, horder.length_eq])]
  have hrotate := List.rotate_perm ((rota roms).map some ++ [none]) place
  exact (hrotate.trans (List.perm_append_singleton _ _)).trans ((horder.map some).cons none)

theorem search_covers_bench :
    (results benchState (List.replicate 3 (benchBus benchRoms))).Perm
      (none :: benchRoms.map some) := by
  refine search_covers benchRoms_family (by decide) benchState ?_ rfl
  intro bus hbus
  rw [List.eq_of_mem_replicate hbus]
  exact benchBus_holds benchRoms

/-! A search for a family of devices. -/

theorem targetSearch_route (familyCode : UInt8) (state : Search) :
    byteBits familyCode <+: routeOf (state.targetSearch familyCode).lastDiscrepancy.toNat
      (wireBits (state.targetSearch familyCode).romNo.toList) := by
  have hbytes : (state.targetSearch familyCode).romNo.toList =
      familyCode :: List.replicate 7 0 := rfl
  have hlast : (state.targetSearch familyCode).lastDiscrepancy.toNat = 64 := rfl
  have hwhole : (byteBits familyCode).take 63 = byteBits familyCode :=
    List.take_of_length_le (by simp)
  rw [hbytes, hlast, wireBits_cons, routeOf, if_neg (by decide), List.take_append, hwhole,
    List.append_assoc]
  exact List.prefix_append _ _

theorem familyCode_begins (rom : Rom) : byteBits (rom.get 0) <+: wireBits rom.toList := by
  have hfirst : rom.toList = rom.get 0 :: rom.toList.drop 1 := by
    rw [← List.drop_zero (l := rom.toList), List.drop_eq_getElem_cons (by simp),
      Vector.getElem_toList]
    simp [Vector.get_eq_getElem]
  rw [hfirst, wireBits_cons]
  exact List.prefix_append _ _

theorem toList_getD_zero (rom : Rom) : rom.toList.getD 0 0 = rom.get 0 := by
  simp [List.getD_eq_getElem?_getD, Vector.get_eq_getElem]

/-- What the search finds after `target_search` is of the family, if a device on the bus is. -/
theorem targetSearch_family {bus : Bus} {familyCode : UInt8} {state : Search} {rom : Rom}
    (hpresent : ∃ device ∈ bus.devices, device.rom.get 0 = familyCode)
    (hfound : wireBits rom.toList = BitSearch.descend 64
      (routeOf (state.targetSearch familyCode).lastDiscrepancy.toNat
        (wireBits (state.targetSearch familyCode).romNo.toList)) bus.words) :
    rom.get 0 = familyCode := by
  obtain ⟨present, hmem, rfl⟩ := hpresent
  obtain ⟨rest, hrest⟩ := familyCode_begins present.rom
  have hcandidate : byteBits (present.rom.get 0) ++ rest ∈ bus.words := by
    rw [hrest]
    exact List.mem_map_of_mem hmem
  have hfollows := BitSearch.descend_follows
    (targetSearch_route (present.rom.get 0) state)
    (show (byteBits (present.rom.get 0)).length ≤ 64 by simp) ⟨rest, hcandidate⟩
  rw [← hfound] at hfollows
  have hbits := List.prefix_of_prefix_length_le (familyCode_begins rom) hfollows (by simp)
  exact byteBits_injective (hbits.eq_of_length (by simp))

/-- After `target_search` the next call finds a device of the family, if there is one. Family 0
is not searched for: `search` takes a ROM code that begins with 0 for none. -/
theorem target_search_finds {bus : Bus} (hworks : bus.Works) (state : Search)
    {familyCode : UInt8} (hfamily : familyCode ≠ 0)
    (hpresent : ∃ device ∈ bus.devices, device.rom.get 0 = familyCode) :
    ∃ device ∈ bus.devices, device.rom.get 0 = familyCode ∧
      ((state.targetSearch familyCode).search bus).1 = some device.rom := by
  have hne : bus.devices ≠ [] := by
    obtain ⟨present, hmem, -⟩ := hpresent
    exact List.ne_nil_of_mem hmem
  have hresumes : Resumes _ (state.targetSearch familyCode) := ⟨rfl, rfl⟩
  obtain ⟨rom, next, path, hsearch, hfound, -⟩ := search_found hworks hne
    (fun rom hrom => by
      rw [toList_getD_zero, targetSearch_family hpresent hrom]
      exact hfamily) hresumes
  obtain ⟨device, hdevice, rfl⟩ := exists_descended hne hfound
  exact ⟨device, hdevice, targetSearch_family hpresent hfound, by rw [hsearch]⟩

/-- The DS18B20 on the bench is found before the DS18S20, which comes first in the round. -/
theorem target_search_finds_bench :
    ∃ device ∈ (benchBus benchRoms).devices, device.rom.get 0 = 0x28 ∧
      ((benchState.targetSearch 0x28).search (benchBus benchRoms)).1 = some device.rom :=
  target_search_finds (benchBus_holds benchRoms).works benchState (by decide)
    ⟨_, List.mem_map_of_mem (List.mem_cons_of_mem _ List.mem_cons_self), rfl⟩

end Search

end OledDs18b20.OneWire
