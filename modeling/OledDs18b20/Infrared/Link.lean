import OledDs18b20.Infrared.Code
import OledDs18b20.Lib.Mailbox

/-! The receiver and the program that polls it. The interrupt routine runs at any moment, also
between a `decode` that succeeds and the `resume` that follows the switch on the value. Seen from
the program, that is a mailbox with one place. -/
namespace OledDs18b20.Infrared
open Lib

/-- `decode`. The decoders that are tried after `decodeNEC` are `others`. -/
def Irparams.decode (others : Irparams → Option DecodeResults) (s : Irparams) :
    Option DecodeResults × Irparams :=
  if s.rcvstate ≠ .stop then (none, s)
  else match s.decodeNEC with
    | some results => (some results, s)
    | none =>
        match others s with
        | some results => (some results, s)
        | none => (none, s.resume)

/-- `results` is set while the program is at the value it has decoded. -/
structure Link where
  irparams : Irparams
  results : Option DecodeResults

namespace Link

inductive Event where
  | tick (irdata : Level)
  | decode
  | resume

variable (others : Irparams → Option DecodeResults)

def step (s : Link) : Event → Link
  | .tick irdata => { s with irparams := s.irparams.tick irdata }
  | .decode =>
      if s.results.isSome then s
      else { irparams := (s.irparams.decode others).2, results := (s.irparams.decode others).1 }
  | .resume => if s.results.isSome then ⟨s.irparams.resume, none⟩ else s

def start : Link := ⟨.enableIRIn, none⟩

def heard (events : List Event) : List Level :=
  events.filterMap fun event =>
    match event with
    | .tick irdata => some irdata
    | _ => none

/-- The value that the program is done with. -/
def done : Link × Event → Option DecodeResults
  | (s, .resume) => s.results
  | _ => none

def handled (s : Link) (events : List Event) : List DecodeResults :=
  (Run.visits (step others) s events).filterMap done

end Link

/-! While a transmission is recorded, and before, a poll finds nothing. -/

/-- The receiver does not stop before the end of the line. -/
def Unready (s : Irparams) : List Level → Prop
  | [] => True
  | irdata :: line => s.rcvstate ≠ .stop ∧ Unready (s.tick irdata) line

theorem unready_append {s : Irparams} {first second : List Level} (hfirst : Unready s first)
    (hsecond : Unready (ticks first s) second) : Unready s (first ++ second) := by
  induction first generalizing s with
  | nil => exact hsecond
  | cons irdata first ih => exact ⟨hfirst.1, ih hfirst.2 hsecond⟩

theorem Waiting.unready {timer : UInt16} {s : Irparams} (h : Waiting timer s) (count : ℕ) :
    Unready s (List.replicate count Level.space) := by
  induction count generalizing timer s with
  | zero => trivial
  | succ count ih =>
      refine ⟨?_, ih h.tick_space⟩
      rw [h.rcvstate]
      decide

theorem Recording.unready {entries : List UInt16} {number run : ℕ} {s : Irparams}
    (h : Recording entries number run s) (hroom : number + 1 < rawbufSize) (count : ℕ)
    (hshort : levelAt number = .space → run + count ≤ 102) :
    Unready s (List.replicate count (levelAt number)) := by
  induction count generalizing run s with
  | zero => trivial
  | succ count ih =>
      refine ⟨?_, ?_⟩
      · rw [h.rcvstate]
        exact Level.measuring_ne_stop _
      · cases count with
        | zero => trivial
        | succ count =>
            refine ih (h.same hroom fun hspace => ?_) fun hspace => ?_
            · have hrun := hshort hspace
              omega
            · have hrun := hshort hspace
              omega

theorem Waiting.unready_signal {timer : UInt16} {s : Irparams} (h : Waiting timer s)
    (hgap : ¬ timer + 1 < gapTicks) {runs : List ℕ} {run : ℕ}
    (hcount : runs.length + 1 < rawbufSize) (hpositive : ∀ other ∈ runs ++ [run], 0 < other)
    (hshort : Short 101 (runs ++ [run])) :
    Unready s (Waveform.signal Level.mark .space (runs ++ [run])) := by
  induction runs using List.reverseRecOn generalizing run with
  | nil =>
      obtain ⟨count, rfl⟩ := Nat.exists_eq_add_of_le' (hpositive run List.mem_cons_self)
      have hsignal : Waveform.signal Level.mark .space ([] ++ [count + 1]) =
          Level.mark :: List.replicate count (levelAt 0) := by
        simp [Waveform.signal, List.replicate_succ]
      rw [hsignal]
      refine ⟨?_, (h.start hgap).unready (by decide) count fun hspace => absurd hspace (by decide)⟩
      rw [h.rcvstate]
      decide
  | append_singleton runs previous ih =>
      have hpositive' : ∀ other ∈ runs ++ [previous], 0 < other :=
        fun other hother => hpositive other (List.mem_append_left _ hother)
      have hlast := hshort.last
      rw [List.length_append, List.length_singleton] at hlast
      rw [List.length_append, List.length_singleton] at hcount
      have hrecording := h.signal hgap (by omega) hpositive' hshort.init
      obtain ⟨count, rfl⟩ := Nat.exists_eq_add_of_le' (hpositive run (by simp))
      have hlevel : Waveform.levelAt Level.mark .space (runs.length + 1) =
          levelAt (runs.length + 1) := rfl
      rw [Waveform.signal_concat, List.length_append, List.length_singleton, hlevel,
        List.replicate_succ]
      refine unready_append (ih (by omega) hpositive' hshort.init) ⟨?_, ?_⟩
      · rw [hrecording.rcvstate]
        exact Level.measuring_ne_stop _
      · refine (hrecording.turn (by omega)).unready hcount count fun hspace => ?_
        have hrun := hlast hspace
        omega

/-- The stop comes with the last of the spaces that make a gap, and not before. -/
theorem Waiting.unready_transmission {timer : UInt16} {s : Irparams} (h : Waiting timer s)
    (hgap : ¬ timer + 1 < gapTicks) {runs : List ℕ} (hrecordable : Recordable runs) :
    Unready s (Waveform.signal Level.mark .space runs ++ List.replicate 102 Level.space) := by
  obtain ⟨hlast, hcount, hpositive, hshort⟩ := hrecordable
  have hshort' : Short 101 runs := fun number run hrun hspace =>
    (hshort number run hrun hspace).trans (by decide)
  rcases List.eq_nil_or_concat' runs with rfl | ⟨runs, run, rfl⟩
  · exact absurd hlast (by decide)
  · rw [List.length_append, List.length_singleton] at hlast hcount
    have hrecording := h.signal hgap (by omega) hpositive hshort'
    have hturn := hrecording.turn (by omega)
    refine unready_append (h.unready_signal hgap (by omega) hpositive hshort') ⟨?_, ?_⟩
    · rw [hrecording.rcvstate]
      exact Level.measuring_ne_stop _
    · have hspaces := hturn.unready hcount 101 fun _ => by decide
      rw [hlast] at hspaces hturn
      exact hspaces

/-! One transmission after another, with polls at any moment. -/

/-- One code on the line, as the ticks see it, after a gap. The gap may be of any length for
which the timer, whose start is at most 102, shows a gap in the end. -/
structure Transmission where
  gap : ℕ
  code : Code
  runs : List ℕ
  clear : 99 ≤ gap % 65536 ∧ gap % 65536 ≤ 65432
  seen : Waveform.Alternating (Seen .mark) (Seen .space) code.times runs

namespace Transmission
variable (t : Transmission)

def body : List Level :=
  Waveform.signal Level.mark .space t.runs ++ List.replicate 102 Level.space

def line : List Level := List.replicate t.gap Level.space ++ t.body

theorem recordable : Recordable t.runs := Code.recordable t.seen

theorem body_eq_cons : ∃ rest, t.body = .mark :: rest := by
  obtain ⟨hlast, -, hpositive, -⟩ := t.recordable
  rw [body]
  cases hruns : t.runs with
  | nil => simp [hruns] at hlast
  | cons run runs =>
      rw [hruns] at hpositive
      obtain ⟨count, rfl⟩ := Nat.exists_eq_add_of_le' (hpositive run List.mem_cons_self)
      exact ⟨_, rfl⟩

theorem body_ignored {timer : UInt16} (h : timer + 1 < gapTicks) :
    Ignored timer t.body ∧ timerAfter timer t.body = 102 := by
  obtain ⟨hlast, -, hpositive, hshort⟩ := t.recordable
  exact transmission_ignored h hlast hpositive hshort

theorem not_soon {timer : UInt16} (h : timer ≤ 102) :
    ¬ timer + UInt16.ofNat t.gap + 1 < gapTicks := by
  have hclear := t.clear
  have hbound : timer.toNat ≤ 102 := h
  have hone : UInt16.toNat 1 = 1 := rfl
  have hticks : gapTicks.toNat = 100 := rfl
  rw [UInt16.lt_iff_toNat_lt, UInt16.toNat_add, UInt16.toNat_add, UInt16.toNat_ofNat', hone,
    hticks]
  omega

end Transmission

/-- The receiver keeps a code until the program is done with it. -/
structure Kept (code : Code) (s : Link) : Prop where
  holding : ∃ runs, Holding runs s.irparams ∧
    Waveform.Alternating (Seen .mark) (Seen .space) code.times runs
  results : s.results = none ∨ s.results = some code.results

namespace Kept
variable {code : Code} {s : Link}

theorem rcvstate (h : Kept code s) : s.irparams.rcvstate = .stop := by
  obtain ⟨runs, hholding, -⟩ := h.holding
  exact hholding.rcvstate

theorem tick (h : Kept code s) (irdata : Level) :
    Kept code { s with irparams := s.irparams.tick irdata } := by
  obtain ⟨runs, hholding, hseen⟩ := h.holding
  exact ⟨⟨runs, hholding.tick (Code.recordable hseen).count irdata, hseen⟩, h.results⟩

theorem timer_tick (h : Kept code s) (irdata : Level) :
    (s.irparams.tick irdata).timer = timerAfter s.irparams.timer [irdata] := by
  obtain ⟨runs, hholding, hseen⟩ := h.holding
  have hroom : s.irparams.rawlen < rawbufSize := by
    rw [hholding.rawlen]
    exact (Code.recordable hseen).count
  rw [Irparams.tick_stop hholding.rcvstate hroom]
  cases irdata <;> rfl

theorem decode (others : Irparams → Option DecodeResults) (h : Kept code s) :
    Kept code (Link.step others s .decode) ∧
      (Link.step others s .decode).irparams = s.irparams := by
  obtain ⟨runs, hholding, hseen⟩ := h.holding
  have hdecode : s.irparams.decode others = (some code.results, s.irparams) := by
    rw [Irparams.decode, if_neg (not_not.mpr hholding.rcvstate),
      Code.decodeNEC hholding.rawlen hholding.entries hseen]
  rw [Link.step]
  split_ifs
  · exact ⟨h, rfl⟩
  · rw [hdecode]
    exact ⟨⟨⟨runs, hholding, hseen⟩, .inr rfl⟩, rfl⟩

end Kept

theorem waiting_resume (s : Irparams) : Waiting s.timer s.resume :=
  ⟨rfl, rfl, rfl⟩

/-- Between two transmissions. -/
inductive Boundary (s : Link) : Option DecodeResults → Prop where
  | waiting {timer : UInt16} (waiting : Waiting timer s.irparams) (early : timer ≤ 102)
      (results : s.results = none) : Boundary s none
  | kept {code : Code} (kept : Kept code s) (early : s.irparams.timer ≤ 102) :
      Boundary s (some code.results)

theorem Boundary.rcvstate_iff {s : Link} {slot : Option DecodeResults} (h : Boundary s slot) :
    s.irparams.rcvstate = .stop ↔ slot.isSome := by
  cases h with
  | waiting waiting early results => simp [waiting.rcvstate]
  | kept kept early => simp [kept.rcvstate]

/-- Within a transmission: what is still to come of the line, what the mailbox holds, and
whether the code of the transmission is still to arrive there. -/
inductive Within (t : Transmission) (s : Link) :
    List Level → Option DecodeResults → Bool → Prop where
  | hearing {rest : List Level} (unready : Unready s.irparams rest)
      (holding : Holding t.runs (ticks rest s.irparams))
      (timer : (ticks rest s.irparams).timer = 101) (results : s.results = none) :
      Within t s rest none true
  | gap {code : Code} {count : ℕ} (kept : Kept code s)
      (clear : ¬ s.irparams.timer + UInt16.ofNat count + 1 < gapTicks) :
      Within t s (List.replicate count Level.space ++ t.body) (some code.results) true
  | kept {code : Code} {rest : List Level} (kept : Kept code s)
      (ignored : Ignored s.irparams.timer rest)
      (timer : timerAfter s.irparams.timer rest = 102) : Within t s rest (some code.results) false
  | missed {timer : UInt16} {rest : List Level} (waiting : Waiting timer s.irparams)
      (ignored : Ignored timer rest) (timer_eq : timerAfter timer rest = 102)
      (results : s.results = none) : Within t s rest none false

theorem Within.listen {t : Transmission} {s : Link} {timer : UInt16}
    (waiting : Waiting timer s.irparams) {count : ℕ}
    (clear : ¬ timer + UInt16.ofNat count + 1 < gapTicks) (results : s.results = none) :
    Within t s (List.replicate count Level.space ++ t.body) none true := by
  have hspaces := waiting.spaces count
  have hrecordable := t.recordable
  have hshort : Short 101 t.runs := fun number run hrun hspace =>
    (hrecordable.short number run hrun hspace).trans (by decide)
  have hreceived := hspaces.received clear hrecordable.last hrecordable.count
    hrecordable.positive hshort
  have hticks : ticks (List.replicate count Level.space ++ t.body) s.irparams =
      ticks t.body (ticks (List.replicate count Level.space) s.irparams) :=
    ticks_append _ _ _
  refine .hearing (unready_append (waiting.unready count)
    (hspaces.unready_transmission clear hrecordable)) ?_ ?_ results
  · rw [hticks]
    exact hreceived.holding
  · rw [hticks]
    exact hreceived.timer

theorem Boundary.begin {s : Link} {slot : Option DecodeResults} (h : Boundary s slot)
    (t : Transmission) : Within t s t.line slot true := by
  cases h with
  | waiting waiting early results => exact .listen waiting (t.not_soon early) results
  | kept kept early => exact .gap kept (t.not_soon early)

/-- The arrival that is still to come. -/
def Transmission.toCome (t : Transmission) (coming : Bool) : List DecodeResults :=
  if coming then [t.code.results] else []

/-- What an event of the receiver and the program is for the mailbox. -/
structure Answers (t : Transmission) (s' : Link) (rest : List Level)
    (slot : Option DecodeResults) (coming : Bool) (done : Option DecodeResults)
    (abstract : List (Mailbox.Event DecodeResults)) (coming' : Bool) : Prop where
  within : Within t s' rest (Run.final Mailbox.step slot abstract) coming'
  arrived : Mailbox.collect Mailbox.arrived slot abstract ++ t.toCome coming' = t.toCome coming
  taken : Mailbox.collect Mailbox.taken slot abstract = done.toList

section Next
variable {t : Transmission} {s : Link} {rest : List Level} {slot : Option DecodeResults}
  {coming : Bool} (others : Irparams → Option DecodeResults)

theorem Within.answers {s' : Link} (h : Within t s' rest slot coming) :
    Answers t s' rest slot coming none [] coming :=
  ⟨h, rfl, rfl⟩

/-- A code begins while another one is kept: the mailbox ignores it. -/
theorem Kept.begun {code : Code} (h : Kept code s) (hbody : t.body = .mark :: rest) :
    Within t { s with irparams := s.irparams.tick .mark } rest (some code.results) false := by
  have hignored : Ignored 0 t.body ∧ timerAfter 0 t.body = 102 := t.body_ignored (by decide)
  rw [hbody] at hignored
  have hzero : (s.irparams.tick .mark).timer = 0 := h.timer_tick .mark
  refine .kept (h.tick .mark) ?_ ?_
  · rw [hzero]
    exact hignored.1.2
  · rw [hzero]
    exact hignored.2

theorem Within.tick {irdata : Level} (h : Within t s (irdata :: rest) slot coming) :
    ∃ abstract coming',
      Answers t { s with irparams := s.irparams.tick irdata } rest slot coming none abstract
        coming' ∧ (irdata = .space → coming' = coming) := by
  generalize hline : irdata :: rest = line at h
  cases h with
  | hearing unready holding timer results =>
      subst hline
      exact ⟨[], true, Within.answers (.hearing unready.2 holding timer results), fun _ => rfl⟩
  | @gap code count kept clear =>
      have htimer := kept.timer_tick irdata
      cases count with
      | zero =>
          obtain ⟨rest', hbody⟩ := t.body_eq_cons
          rw [List.replicate_zero, List.nil_append, hbody, List.cons.injEq] at hline
          obtain ⟨rfl, rfl⟩ := hline
          exact ⟨[.arrive t.code.results], false, ⟨kept.begun hbody, rfl, rfl⟩,
            fun hspace => absurd hspace (by decide)⟩
      | succ count =>
          rw [List.replicate_succ, List.cons_append, List.cons.injEq] at hline
          obtain ⟨rfl, rfl⟩ := hline
          refine ⟨[], true, Within.answers (.gap (kept.tick .space) ?_), fun _ => rfl⟩
          have hone : (s.irparams.tick .space).timer = s.irparams.timer + 1 := htimer
          rw [hone, UInt16.add_assoc _ 1, UInt16.add_comm 1]
          rw [UInt16.ofNat_add] at clear
          exact clear
  | kept kept ignored timer =>
      subst hline
      have htimer := kept.timer_tick irdata
      refine ⟨[], false, Within.answers (.kept (kept.tick irdata) ?_ ?_), fun _ => rfl⟩
      · rw [htimer]
        exact ((ignored_append _ [irdata] rest).mp ignored).2
      · rw [htimer, ← timerAfter_append]
        exact timer
  | missed waiting ignored timer results =>
      subst hline
      have hsplit := (ignored_append _ [irdata] rest).mp ignored
      refine ⟨[], false, Within.answers (.missed (waiting.ticks hsplit.1) hsplit.2 ?_ results),
        fun _ => rfl⟩
      rw [← timerAfter_append]
      exact timer

theorem Irparams.decode_idle {s : Irparams} (h : s.rcvstate ≠ .stop) :
    s.decode others = (none, s) := by
  rw [Irparams.decode, if_pos h]

theorem Link.decode_idle (h : s.irparams.rcvstate ≠ .stop) (hresults : s.results = none) :
    Link.step others s .decode = s := by
  rw [Link.step, if_neg (by simp [hresults]), Irparams.decode_idle others h, ← hresults]

theorem Link.resume_idle (h : s.results = none) : Link.step others s .resume = s := by
  rw [Link.step, if_neg (by simp [h])]

theorem Within.decode (h : Within t s rest slot coming) (hrest : rest ≠ []) :
    Within t (Link.step others s .decode) rest slot coming := by
  cases h with
  | hearing unready holding timer results =>
      have hrunning : s.irparams.rcvstate ≠ .stop := by
        cases rest with
        | nil => exact absurd rfl hrest
        | cons irdata rest => exact unready.1
      rw [Link.decode_idle others hrunning results]
      exact .hearing unready holding timer results
  | gap kept clear =>
      obtain ⟨hkept, hirparams⟩ := kept.decode others
      refine .gap hkept ?_
      rw [hirparams]
      exact clear
  | kept kept ignored timer =>
      obtain ⟨hkept, hirparams⟩ := kept.decode others
      refine .kept hkept ?_ ?_ <;> rw [hirparams] <;> assumption
  | missed waiting ignored timer results =>
      have hidle : s.irparams.rcvstate ≠ .stop := by
        rw [waiting.rcvstate]
        decide
      rw [Link.decode_idle others hidle results]
      exact .missed waiting ignored timer results

theorem Kept.resume {code : Code} (h : Kept code s) (hresults : s.results ≠ none) :
    Link.step others s .resume = ⟨s.irparams.resume, none⟩ ∧ s.results = some code.results := by
  have hsome := h.results.resolve_left hresults
  rw [Link.step, if_pos (by simp [hsome])]
  exact ⟨rfl, hsome⟩

theorem Within.resume (h : Within t s rest slot coming) :
    ∃ abstract, Answers t (Link.step others s .resume) rest slot coming s.results abstract
      coming := by
  by_cases hresults : s.results = none
  · rw [Link.resume_idle others hresults, hresults]
    exact ⟨[], h.answers⟩
  · cases h with
    | hearing unready holding timer results => exact absurd results hresults
    | gap kept clear =>
        obtain ⟨hstep, hsome⟩ := kept.resume others hresults
        rw [hstep, hsome]
        exact ⟨[.take], .listen (waiting_resume s.irparams) clear rfl, rfl, rfl⟩
    | kept kept ignored timer =>
        obtain ⟨hstep, hsome⟩ := kept.resume others hresults
        rw [hstep, hsome]
        exact ⟨[.take], .missed (waiting_resume s.irparams) ignored timer rfl, rfl, rfl⟩
    | missed waiting ignored timer results => exact absurd results hresults

end Next

end OledDs18b20.Infrared
