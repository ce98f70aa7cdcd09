import OledDs18b20.Infrared.Receiver

/-! What the receiver has recorded when it stops: the runs of a transmission that was on the
line, from its first mark on. -/
namespace OledDs18b20.Infrared
open Lib

/-- The interrupt routine runs, or the program calls `resume`. -/
inductive Event where
  | tick (irdata : Level)
  | resume
deriving DecidableEq

def step (s : Irparams) : Event → Irparams
  | .tick irdata => s.tick irdata
  | .resume => s.resume

/-- What was on the line while the events happened. -/
def heard (events : List Event) : List Level :=
  events.filterMap fun event =>
    match event with
    | .tick irdata => some irdata
    | .resume => none

/-- The line had been quiet for so many ticks, as far as the timer can tell. -/
def Quiet (line : List Level) (timer : UInt16) : Prop :=
  ∃ count, timer = UInt16.ofNat count ∧ List.replicate count Level.space <:+ line

/-- A whole transmission was on the line, between two gaps, and its runs are in `rawbuf`. -/
def Captured (line : List Level) (s : Irparams) : Prop :=
  ∃ before runs after,
    line = before ++ Waveform.signal Level.mark .space runs ++ after ∧
    List.replicate 99 Level.space <:+ before ∧ List.replicate 102 Level.space <+: after ∧
    (∀ run ∈ runs, 0 < run) ∧ levelAt runs.length = .space ∧
    s.entries.drop 1 = runs.map UInt16.ofNat

/-- How the state of the receiver follows from what was on the line. -/
inductive Follows (line : List Level) (s : Irparams) : Prop where
  | idle (rcvstate : s.rcvstate = .idle) (quiet : Quiet line s.timer)
  | recording {gap : UInt16} {before : List Level} {runs : List ℕ} {run : ℕ}
      (recording : Recording (gap :: runs.map UInt16.ofNat) runs.length run s)
      (line_eq : line = before ++ Waveform.signal Level.mark .space (runs ++ [run]))
      (quiet : List.replicate 99 Level.space <:+ before) (positive : ∀ run ∈ runs, 0 < run)
      (started : 0 < run) (short : levelAt runs.length = .space → run ≤ 101)
  | stopped (rcvstate : s.rcvstate = .stop) (quiet : Quiet line s.timer)
      (captured : Captured line s)

theorem Quiet.space {line : List Level} {timer : UInt16} (h : Quiet line timer) :
    Quiet (line ++ [.space]) (timer + 1) := by
  obtain ⟨count, rfl, before, rfl⟩ := h
  refine ⟨count + 1, by rw [UInt16.ofNat_add]; rfl, before, ?_⟩
  rw [List.replicate_succ', List.append_assoc]

theorem quiet_zero (line : List Level) : Quiet line 0 :=
  ⟨0, rfl, List.nil_suffix⟩

/-- A timer that has come to a gap has counted that many spaces. -/
theorem Quiet.gap {line : List Level} {timer : UInt16} (h : Quiet line timer)
    (hgap : ¬ timer + 1 < gapTicks) : List.replicate 99 Level.space <:+ line := by
  obtain ⟨count, rfl, hsuffix⟩ := h
  have hcount : 99 ≤ count := by
    by_contra hshort
    apply hgap
    have hsize : count + 1 < UInt16.size := by
      have hlarge : 65536 = UInt16.size := rfl
      omega
    have hsum : UInt16.ofNat count + 1 = UInt16.ofNat (count + 1) := by
      rw [UInt16.ofNat_add]
      rfl
    rw [hsum, UInt16.lt_iff_toNat_lt, UInt16.toNat_ofNat_of_lt' hsize]
    change count + 1 < 100
    omega
  refine List.IsSuffix.trans ⟨List.replicate (count - 99) Level.space, ?_⟩ hsuffix
  rw [List.replicate_append_replicate]
  congr 1
  omega

theorem Captured.later {line : List Level} {s : Irparams} (h : Captured line s)
    (irdata : Level) {s' : Irparams} (hentries : s'.entries = s.entries) :
    Captured (line ++ [irdata]) s' := by
  obtain ⟨before, runs, after, rfl, hbefore, hafter, hpositive, hlast, hruns⟩ := h
  refine ⟨before, runs, after ++ [irdata], by simp, hbefore,
    hafter.trans (List.prefix_append _ _), hpositive, hlast, ?_⟩
  rw [hentries, hruns]

theorem Follows.tick_recording {gap : UInt16} {before : List Level} {runs : List ℕ} {run : ℕ}
    {s : Irparams} (recording : Recording (gap :: runs.map UInt16.ofNat) runs.length run s)
    (quiet : List.replicate 99 Level.space <:+ before) (positive : ∀ run ∈ runs, 0 < run)
    (started : 0 < run) (short : levelAt runs.length = .space → run ≤ 101)
    (hroom : s.rawlen < rawbufSize) (irdata : Level) :
    Follows (before ++ Waveform.signal Level.mark .space (runs ++ [run]) ++ [irdata])
      (s.tick irdata) := by
  have hroom' : runs.length + 1 < rawbufSize := by
    rw [← recording.rawlen]
    exact hroom
  by_cases hsame : irdata = levelAt runs.length
  · subst hsame
    by_cases hlong : levelAt runs.length = .space ∧ run = 101
    · obtain ⟨hspace, rfl⟩ := hlong
      have hline : before ++ Waveform.signal Level.mark .space (runs ++ [101]) ++ [.space] =
          before ++ Waveform.signal Level.mark .space runs ++ List.replicate 102 Level.space := by
        have hlevel : Waveform.levelAt Level.mark .space runs.length = Level.space := hspace
        rw [Waveform.signal_concat, hlevel, List.replicate_succ' (n := 101)]
        simp only [List.append_assoc]
      rw [hspace, recording.stop hroom' hspace, hline]
      refine .stopped rfl ⟨101, rfl, ?_⟩
        ⟨before, runs, List.replicate 102 Level.space, rfl, quiet, List.prefix_rfl, positive,
          hspace, ?_⟩
      · exact List.IsSuffix.trans ⟨[.space], rfl⟩ (List.suffix_append _ _)
      · have hentries := congrArg (List.drop 1) recording.entries
        exact hentries
    · have hshort : levelAt runs.length = .space → run ≤ 100 := by
        intro hspace
        have hrun := short hspace
        have hother : run ≠ 101 := fun hrun => hlong ⟨hspace, hrun⟩
        omega
      refine .recording (recording.same hroom' hshort) ?_ quiet positive (Nat.succ_pos run) ?_
      · rw [List.append_assoc]
        exact congrArg (before ++ ·) (Waveform.signal_same _ _ runs run)
      · intro hspace
        have hrun := hshort hspace
        omega
  · have hturn : irdata = levelAt (runs.length + 1) := by
      rw [levelAt_succ]
      revert hsame
      cases irdata <;> cases levelAt runs.length <;> simp [Level.other]
    subst hturn
    have hnext : Recording (gap :: (runs ++ [run]).map UInt16.ofNat) (runs ++ [run]).length 1
        (s.tick (levelAt (runs.length + 1))) := by
      rw [List.map_append, List.length_append]
      exact recording.turn hroom'
    refine .recording hnext ?_ quiet ?_ Nat.one_pos fun _ => by decide
    · rw [List.append_assoc]
      exact congrArg (before ++ ·) (Waveform.signal_turn _ _ runs run)
    · intro other hother
      rcases List.mem_append.mp hother with hother | hother
      · exact positive other hother
      · rw [List.mem_singleton.mp hother]
        exact started

/-- One event, as `decode` and its callers allow it: `resume` only after a stop, and no more
runs than `rawbuf` has room for. -/
def Allowed (s : Irparams) : Event → Prop
  | .tick _ => s.rawlen < rawbufSize
  | .resume => s.rcvstate = .stop

instance (s : Irparams) (event : Event) : Decidable (Allowed s event) :=
  match event with
  | .tick _ => inferInstanceAs (Decidable (_ < _))
  | .resume => inferInstanceAs (Decidable (_ = _))

theorem Follows.next {line : List Level} {s : Irparams} (h : Follows line s) {event : Event}
    (hallowed : Allowed s event) : Follows (line ++ heard [event]) (step s event) := by
  cases event with
  | resume =>
      have hline : line ++ heard [.resume] = line := List.append_nil line
      have hstop : s.rcvstate = .stop := hallowed
      rw [hline]
      cases h with
      | idle rcvstate quiet => exact .idle rfl quiet
      | recording recording line_eq quiet positive started short =>
          exact absurd (recording.rcvstate.symm.trans hstop) (Level.measuring_ne_stop _)
      | stopped rcvstate quiet captured => exact .idle rfl quiet
  | tick irdata =>
      have hroom : s.rawlen < rawbufSize := hallowed
      change Follows (line ++ [irdata]) (s.tick irdata)
      cases h with
      | idle rcvstate quiet =>
          by_cases hstart : irdata = .mark ∧ ¬ s.timer + 1 < gapTicks
          · obtain ⟨rfl, hgap⟩ := hstart
            have hrecording : Recording ((s.timer + 1) :: List.map UInt16.ofNat [])
                (List.length ([] : List ℕ)) 1 (s.tick .mark) := .start rcvstate hroom hgap
            exact .recording hrecording rfl (quiet.gap hgap) (by simp) Nat.one_pos
              fun _ => by decide
          · rw [Irparams.tick_idle rcvstate hroom]
            cases irdata with
            | space => exact .idle rcvstate quiet.space
            | mark =>
                rw [if_pos rfl, if_pos (by simpa using hstart)]
                exact .idle rcvstate (quiet_zero _)
      | recording recording line_eq quiet positive started short =>
          rw [line_eq]
          exact .tick_recording recording quiet positive started short hroom irdata
      | stopped rcvstate quiet captured =>
          rw [Irparams.tick_stop rcvstate hroom]
          cases irdata with
          | mark => exact .stopped rcvstate (quiet_zero _) (captured.later _ rfl)
          | space => exact .stopped rcvstate quiet.space (captured.later _ rfl)

theorem heard_append (earlier later : List Event) :
    heard (earlier ++ later) = heard earlier ++ heard later :=
  List.filterMap_append

theorem Follows.final {line : List Level} {s : Irparams} (h : Follows line s) {events : List Event}
    (hallowed : ∀ visit ∈ Run.visits step s events, Allowed visit.1 visit.2) :
    Follows (line ++ heard events) (Run.final step s events) := by
  induction events generalizing line s with
  | nil => simpa [heard] using h
  | cons event events ih =>
      rw [Run.visits_cons, List.forall_mem_cons] at hallowed
      have hsplit : heard (event :: events) = heard [event] ++ heard events :=
        heard_append [event] events
      rw [hsplit, ← List.append_assoc, Run.final_cons]
      exact ih (h.next hallowed.1) hallowed.2

/-- Whenever the receiver has stopped, whatever was on the line and however often the program
resumed, `rawbuf` holds the runs of one whole transmission: it came after a gap, was followed
by one, and nothing of it is missing. -/
theorem recorded_exactly {events : List Event}
    (hallowed : ∀ visit ∈ Run.visits step .enableIRIn events, Allowed visit.1 visit.2)
    (hstop : (Run.final step .enableIRIn events).rcvstate = .stop) :
    Captured (heard events) (Run.final step .enableIRIn events) := by
  have hstart : Follows [] Irparams.enableIRIn := .idle rfl (quiet_zero [])
  have hfollows := hstart.final hallowed
  rw [List.nil_append] at hfollows
  cases hfollows with
  | idle rcvstate quiet => simp [hstop] at rcvstate
  | recording recording line_eq quiet positive started short =>
      exact absurd (recording.rcvstate.symm.trans hstop) (Level.measuring_ne_stop _)
  | stopped rcvstate quiet captured => exact captured

/-- Two short transmissions with a `resume` between them. -/
def benchEvents : List Event :=
  let line : List Level := List.replicate 100 Level.space ++
    Waveform.signal Level.mark .space [18, 9, 11] ++ List.replicate 102 Level.space
  let transmission := line.map Event.tick
  transmission ++ .resume :: transmission

theorem recorded_exactly_bench :
    Captured (heard benchEvents) (Run.final step .enableIRIn benchEvents) :=
  recorded_exactly (by decide +kernel) (by decide +kernel)

/-! A transmission from its gap to the stop. -/

/-- The interrupt routine runs once for each of the levels. -/
def ticks (line : List Level) (s : Irparams) : Irparams :=
  line.foldl (fun s irdata => s.tick irdata) s

@[simp] theorem ticks_nil (s : Irparams) : ticks [] s = s := rfl

@[simp] theorem ticks_cons (irdata : Level) (line : List Level) (s : Irparams) :
    ticks (irdata :: line) s = ticks line (s.tick irdata) := rfl

theorem ticks_append (first second : List Level) (s : Irparams) :
    ticks (first ++ second) s = ticks second (ticks first s) :=
  List.foldl_append

/-- The spaces among the runs are not longer than the limit. -/
def Short (limit : ℕ) (runs : List ℕ) : Prop :=
  ∀ number run, runs[number]? = some run → levelAt number = .space → run ≤ limit

theorem short_of_getD {limit : ℕ} {runs : List ℕ}
    (h : ∀ number < runs.length, levelAt number = .space → runs.getD number 0 ≤ limit) :
    Short limit runs := by
  intro number run hrun hspace
  obtain ⟨hnumber, rfl⟩ := List.getElem?_eq_some_iff.mp hrun
  have hlimit := h number hnumber hspace
  rwa [List.getD_eq_getElem _ _ hnumber] at hlimit

theorem Short.init {limit : ℕ} {runs : List ℕ} {run : ℕ} (h : Short limit (runs ++ [run])) :
    Short limit runs := by
  intro number other hother hspace
  apply h number other _ hspace
  rw [List.getElem?_append_left (List.getElem?_eq_some_iff.mp hother).1]
  exact hother

theorem Short.last {limit : ℕ} {runs : List ℕ} {run : ℕ} (h : Short limit (runs ++ [run]))
    (hspace : levelAt runs.length = .space) : run ≤ limit := by
  apply h runs.length run _ hspace
  simp

theorem Recording.sames {entries : List UInt16} {number run : ℕ} {s : Irparams}
    (h : Recording entries number run s) (hroom : number + 1 < rawbufSize) (count : ℕ)
    (hshort : levelAt number = .space → run + count ≤ 101) :
    Recording entries number (run + count)
      (ticks (List.replicate count (levelAt number)) s) := by
  induction count generalizing run s with
  | zero => exact h
  | succ count ih =>
      have hnext := h.same hroom fun hspace => by
        have hrun := hshort hspace
        omega
      have hcount : run + (count + 1) = run + 1 + count := by ring
      rw [hcount] at hshort ⊢
      exact ih hnext hshort

/-- The receiver waits for a transmission. -/
structure Waiting (timer : UInt16) (s : Irparams) : Prop where
  rcvstate : s.rcvstate = .idle
  rawlen : s.rawlen = 0
  timer : s.timer = timer

namespace Waiting
variable {timer : UInt16} {s : Irparams}

theorem room (h : Waiting timer s) : s.rawlen < rawbufSize := by
  rw [h.rawlen]
  decide

theorem tick_space (h : Waiting timer s) : Waiting (timer + 1) (s.tick .space) := by
  rw [Irparams.tick_idle h.rcvstate h.room, if_neg (by decide)]
  exact ⟨h.rcvstate, h.rawlen, congrArg (· + 1) h.timer⟩

theorem tick_mark (h : Waiting timer s) (hsoon : timer + 1 < gapTicks) :
    Waiting 0 (s.tick .mark) := by
  rw [← h.timer] at hsoon
  rw [Irparams.tick_idle h.rcvstate h.room, if_pos rfl, if_pos hsoon]
  exact ⟨h.rcvstate, h.rawlen, rfl⟩

theorem start (h : Waiting timer s) (hgap : ¬ timer + 1 < gapTicks) :
    Recording [timer + 1] 0 1 (s.tick .mark) := by
  rw [← h.timer] at hgap ⊢
  exact .start h.rcvstate h.room hgap

end Waiting

/-- The last run is the one that the timer measures. -/
theorem Waiting.signal {timer : UInt16} {s : Irparams} (h : Waiting timer s)
    (hgap : ¬ timer + 1 < gapTicks) {runs : List ℕ} {run : ℕ}
    (hcount : runs.length + 1 < rawbufSize) (hpositive : ∀ other ∈ runs ++ [run], 0 < other)
    (hshort : Short 101 (runs ++ [run])) :
    Recording ((timer + 1) :: runs.map UInt16.ofNat) runs.length run
      (ticks (Waveform.signal Level.mark .space (runs ++ [run])) s) := by
  induction runs using List.reverseRecOn generalizing run with
  | nil =>
      obtain ⟨count, rfl⟩ := Nat.exists_eq_add_of_le' (hpositive run List.mem_cons_self)
      have hsames := (h.start hgap).sames (by decide) count (by simp)
      have hsignal : Waveform.signal Level.mark .space ([] ++ [count + 1]) =
          Level.mark :: List.replicate count (levelAt 0) := by
        simp [Waveform.signal, List.replicate_succ]
      rw [hsignal, ticks_cons, Nat.add_comm count 1]
      exact hsames
  | append_singleton runs previous ih =>
      have hpositive' : ∀ other ∈ runs ++ [previous], 0 < other :=
        fun other hother => hpositive other (List.mem_append_left _ hother)
      have hlast := hshort.last
      rw [List.length_append, List.length_singleton] at hlast
      rw [List.length_append, List.length_singleton] at hcount
      have hturn := (ih (by omega) hpositive' hshort.init).turn (by omega)
      obtain ⟨count, rfl⟩ := Nat.exists_eq_add_of_le' (hpositive run (by simp))
      have hsames := hturn.sames hcount count fun hspace => by
        have hrun := hlast hspace
        omega
      have hlevel : Waveform.levelAt Level.mark .space (runs.length + 1) =
          levelAt (runs.length + 1) := rfl
      rw [Waveform.signal_concat, ticks_append, List.length_append, List.length_singleton, hlevel,
        List.replicate_succ, ticks_cons, List.map_append, Nat.add_comm count 1]
      exact hsames

/-- What is left after a transmission that came after a gap. -/
structure Received (gap : UInt16) (runs : List ℕ) (s : Irparams) : Prop where
  rcvstate : s.rcvstate = .stop
  rawlen : s.rawlen = runs.length + 1
  entries : s.entries = gap :: runs.map UInt16.ofNat
  timer : s.timer = 101

theorem Recording.received {gap : UInt16} {runs : List ℕ} {s : Irparams}
    (h : Recording (gap :: runs.map UInt16.ofNat) runs.length 101 s)
    (hroom : runs.length + 1 < rawbufSize) (hlevel : levelAt runs.length = .space) :
    Received gap runs (s.tick .space) := by
  rw [h.stop hroom hlevel]
  exact ⟨rfl, h.rawlen, h.entries, rfl⟩

theorem Waiting.received {timer : UInt16} {s : Irparams} (h : Waiting timer s)
    (hgap : ¬ timer + 1 < gapTicks) {runs : List ℕ} (hlast : levelAt runs.length = .space)
    (hcount : runs.length + 1 < rawbufSize) (hpositive : ∀ run ∈ runs, 0 < run)
    (hshort : Short 101 runs) :
    Received (timer + 1) runs
      (ticks (Waveform.signal Level.mark .space runs ++ List.replicate 102 Level.space) s) := by
  rcases List.eq_nil_or_concat' runs with rfl | ⟨runs, run, rfl⟩
  · exact absurd hlast (by decide)
  · rw [List.length_append, List.length_singleton] at hlast hcount
    have hrecording := h.signal hgap (by omega) hpositive hshort
    have hsames := (hrecording.turn (by omega)).sames hcount 100 fun _ => by decide
    have hsplit : List.replicate 102 Level.space =
        levelAt (runs.length + 1) :: (List.replicate 100 (levelAt (runs.length + 1)) ++
          [Level.space]) := by
      rw [hlast]
      rfl
    have hmap : (timer + 1) :: runs.map UInt16.ofNat ++ [UInt16.ofNat run] =
        (timer + 1) :: (runs ++ [run]).map UInt16.ofNat := by simp
    have hlength : runs.length + 1 = (runs ++ [run]).length := by simp
    rw [hmap, hlength] at hsames
    rw [hlength] at hcount hlast hsplit
    rw [ticks_append, hsplit, ticks_cons, ticks_append, ticks_cons, ticks_nil]
    exact hsames.received hcount hlast

/-! A transmission that comes too soon after a mark, or when the timer has just begun again. -/

/-- How the timer goes on while no transmission is recorded. -/
def timerAfter (timer : UInt16) : List Level → UInt16
  | [] => timer
  | .mark :: line => timerAfter 0 line
  | .space :: line => timerAfter (timer + 1) line

/-- No mark comes after a gap. -/
def Ignored (timer : UInt16) : List Level → Prop
  | [] => True
  | .mark :: line => timer + 1 < gapTicks ∧ Ignored 0 line
  | .space :: line => Ignored (timer + 1) line

theorem timerAfter_append (timer : UInt16) (first second : List Level) :
    timerAfter timer (first ++ second) = timerAfter (timerAfter timer first) second := by
  induction first generalizing timer with
  | nil => rfl
  | cons irdata first ih => cases irdata <;> exact ih _

theorem ignored_append (timer : UInt16) (first second : List Level) :
    Ignored timer (first ++ second) ↔
      Ignored timer first ∧ Ignored (timerAfter timer first) second := by
  induction first generalizing timer with
  | nil => exact (and_iff_right trivial).symm
  | cons irdata first ih =>
      cases irdata with
      | mark =>
          change _ ∧ Ignored 0 (first ++ second) ↔ (_ ∧ _) ∧ _
          rw [ih, and_assoc]
          rfl
      | space => exact ih _

theorem timerAfter_spaces (timer : UInt16) (count : ℕ) :
    timerAfter timer (List.replicate count Level.space) = timer + UInt16.ofNat count := by
  induction count generalizing timer with
  | zero => simp [timerAfter]
  | succ count ih =>
      rw [List.replicate_succ, timerAfter, ih, UInt16.ofNat_add, UInt16.add_assoc,
        UInt16.add_comm 1]
      rfl

theorem spaces_ignored (timer : UInt16) (count : ℕ) :
    Ignored timer (List.replicate count Level.space) := by
  induction count generalizing timer with
  | zero => trivial
  | succ count ih => exact ih _

theorem timerAfter_marks (timer : UInt16) (count : ℕ) :
    timerAfter timer (List.replicate (count + 1) Level.mark) = 0 := by
  induction count generalizing timer with
  | zero => rfl
  | succ count ih => exact ih 0

theorem marks_ignored {timer : UInt16} (h : timer + 1 < gapTicks) (count : ℕ) :
    Ignored timer (List.replicate count Level.mark) := by
  induction count generalizing timer with
  | zero => trivial
  | succ count ih => exact ⟨h, ih (by decide)⟩

theorem Waiting.ticks {timer : UInt16} {s : Irparams} (h : Waiting timer s) {line : List Level}
    (hignored : Ignored timer line) : Waiting (timerAfter timer line) (ticks line s) := by
  induction line generalizing timer s with
  | nil => exact h
  | cons irdata line ih =>
      cases irdata with
      | mark => exact ih (h.tick_mark hignored.1) hignored.2
      | space => exact ih h.tick_space hignored

theorem Waiting.spaces {timer : UInt16} {s : Irparams} (h : Waiting timer s) (count : ℕ) :
    Waiting (timer + UInt16.ofNat count)
      (Infrared.ticks (List.replicate count Level.space) s) := by
  rw [← timerAfter_spaces]
  exact h.ticks (spaces_ignored timer count)

theorem soon_of_short {run : ℕ} (h : run ≤ 98) : UInt16.ofNat run + 1 < gapTicks := by
  have hsize : run + 1 < UInt16.size := lt_of_le_of_lt (Nat.succ_le_succ h) (by decide)
  have hsum : UInt16.ofNat run + 1 = UInt16.ofNat (run + 1) := by
    rw [UInt16.ofNat_add]
    rfl
  rw [hsum, UInt16.lt_iff_toNat_lt, UInt16.toNat_ofNat_of_lt' hsize]
  change run + 1 < 100
  omega

/-- None of its spaces is a gap. -/
theorem signal_ignored {timer : UInt16} (hsoon : timer + 1 < gapTicks) {runs : List ℕ} {run : ℕ}
    (hpositive : ∀ other ∈ runs ++ [run], 0 < other) (hshort : Short 98 (runs ++ [run])) :
    Ignored timer (Waveform.signal Level.mark .space (runs ++ [run])) ∧
      timerAfter timer (Waveform.signal Level.mark .space (runs ++ [run])) =
        if levelAt runs.length = .mark then 0 else UInt16.ofNat run := by
  induction runs using List.reverseRecOn generalizing run with
  | nil =>
      obtain ⟨count, rfl⟩ := Nat.exists_eq_add_of_le' (hpositive run List.mem_cons_self)
      have hsignal : Waveform.signal Level.mark .space ([] ++ [count + 1]) =
          List.replicate (count + 1) Level.mark := by
        simp [Waveform.signal]
      rw [hsignal]
      exact ⟨marks_ignored hsoon (count + 1), timerAfter_marks timer count⟩
  | append_singleton runs previous ih =>
      have hpositive' : ∀ other ∈ runs ++ [previous], 0 < other :=
        fun other hother => hpositive other (List.mem_append_left _ hother)
      obtain ⟨hignored, htimer⟩ := ih hpositive' hshort.init
      have hlast := hshort.init.last
      have hlevel : Waveform.levelAt Level.mark .space (runs.length + 1) =
          (levelAt runs.length).other := levelAt_succ _
      rw [Waveform.signal_concat, ignored_append, timerAfter_append, List.length_append,
        List.length_singleton, hlevel, levelAt_succ, htimer]
      cases hparity : levelAt runs.length with
      | mark =>
          rw [if_pos rfl]
          refine ⟨⟨hignored, spaces_ignored 0 run⟩, ?_⟩
          have hspaces := timerAfter_spaces 0 run
          rw [UInt16.zero_add] at hspaces
          exact hspaces
      | space =>
          rw [if_neg (by decide)]
          obtain ⟨count, rfl⟩ := Nat.exists_eq_add_of_le' (hpositive run (by simp))
          exact ⟨⟨hignored, marks_ignored (soon_of_short (hlast hparity)) (count + 1)⟩,
            timerAfter_marks _ count⟩

theorem transmission_ignored {timer : UInt16} (hsoon : timer + 1 < gapTicks) {runs : List ℕ}
    (hlast : levelAt runs.length = .space) (hpositive : ∀ run ∈ runs, 0 < run)
    (hshort : Short 98 runs) :
    Ignored timer (Waveform.signal Level.mark .space runs ++ List.replicate 102 Level.space) ∧
      timerAfter timer (Waveform.signal Level.mark .space runs ++
        List.replicate 102 Level.space) = 102 := by
  rcases List.eq_nil_or_concat' runs with rfl | ⟨runs, run, rfl⟩
  · exact absurd hlast (by decide)
  · have hlevel : levelAt runs.length = .mark := by
      rw [List.length_append, List.length_singleton, levelAt_succ] at hlast
      cases hparity : levelAt runs.length with
      | mark => rfl
      | space => simp [hparity, Level.other] at hlast
    obtain ⟨hignored, htimer⟩ := signal_ignored hsoon hpositive hshort
    rw [if_pos hlevel] at htimer
    rw [ignored_append, timerAfter_append, htimer, timerAfter_spaces]
    exact ⟨⟨hignored, spaces_ignored 0 102⟩, rfl⟩

/-- A transmission with short spaces is received exactly if the timer shows a gap when it
begins. The timer has 16 bits: that is so unless the line was quiet for less than 100 ticks
after a multiple of 65536. Otherwise nothing of it is recorded. -/
theorem transmission_received_iff {s : Irparams} (hidle : s.rcvstate = .idle)
    (hlength : s.rawlen = 0) (gap : ℕ) {runs : List ℕ} (hlast : levelAt runs.length = .space)
    (hcount : runs.length + 1 < rawbufSize) (hpositive : ∀ run ∈ runs, 0 < run)
    (hshort : Short 98 runs) :
    let after := ticks (List.replicate gap Level.space ++ Waveform.signal Level.mark .space runs ++
      List.replicate 102 Level.space) s
    (after.rcvstate = .stop ↔ 100 ≤ (s.timer.toNat + gap + 1) % 65536) ∧
      (after.rcvstate = .stop → after.rawlen = runs.length + 1 ∧
        after.entries.drop 1 = runs.map UInt16.ofNat) ∧
      (after.rcvstate ≠ .stop → after.rcvstate = .idle ∧ after.rawlen = 0) := by
  intro after
  have hwaiting : Waiting (s.timer + UInt16.ofNat gap)
      (ticks (List.replicate gap Level.space) s) := Waiting.spaces ⟨hidle, hlength, rfl⟩ gap
  have hgap : s.timer + UInt16.ofNat gap + 1 < gapTicks ↔
      ¬ 100 ≤ (s.timer.toNat + gap + 1) % 65536 := by
    have hone : UInt16.toNat 1 = 1 := rfl
    have hticks : gapTicks.toNat = 100 := rfl
    rw [UInt16.lt_iff_toNat_lt, UInt16.toNat_add, UInt16.toNat_add, UInt16.toNat_ofNat', hone,
      hticks]
    omega
  have hafter : after = ticks
      (Waveform.signal Level.mark .space runs ++ List.replicate 102 Level.space)
      (ticks (List.replicate gap Level.space) s) := by
    rw [← ticks_append, ← List.append_assoc]
  by_cases hsoon : s.timer + UInt16.ofNat gap + 1 < gapTicks
  · have hmissed := hwaiting.ticks (transmission_ignored hsoon hlast hpositive hshort).1
    rw [← hafter] at hmissed
    have hidle' : after.rcvstate ≠ .stop := by
      rw [hmissed.rcvstate]
      decide
    exact ⟨iff_of_false hidle' (hgap.mp hsoon), fun hstop => absurd hstop hidle',
      fun _ => ⟨hmissed.rcvstate, hmissed.rawlen⟩⟩
  · have hshort' : Short 101 runs := fun number run hrun hspace =>
      (hshort number run hrun hspace).trans (by decide)
    have hreceived := hwaiting.received hsoon hlast hcount hpositive hshort'
    rw [← hafter] at hreceived
    refine ⟨iff_of_true hreceived.rcvstate (not_not.mp (mt hgap.mpr hsoon)), fun _ => ?_,
      fun hrunning => absurd hreceived.rcvstate hrunning⟩
    rw [hreceived.entries]
    exact ⟨hreceived.rawlen, rfl⟩

/-- A header, one bit and the mark that ends it, after a second of quiet. -/
theorem transmission_received_iff_bench :
    let after := ticks (List.replicate 20000 Level.space ++
      Waveform.signal Level.mark .space [180, 90, 11, 34, 11] ++
      List.replicate 102 Level.space) .enableIRIn
    (after.rcvstate = .stop ↔ 100 ≤ (Irparams.enableIRIn.timer.toNat + 20000 + 1) % 65536) ∧
      (after.rcvstate = .stop → after.rawlen = [180, 90, 11, 34, 11].length + 1 ∧
        after.entries.drop 1 = [180, 90, 11, 34, 11].map UInt16.ofNat) ∧
      (after.rcvstate ≠ .stop → after.rcvstate = .idle ∧ after.rawlen = 0) := by
  exact transmission_received_iff rfl rfl 20000 rfl (by decide) (by decide)
    (short_of_getD (by decide))

end OledDs18b20.Infrared
