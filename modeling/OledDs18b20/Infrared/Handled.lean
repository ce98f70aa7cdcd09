import OledDs18b20.Infrared.Link

/-! Whole runs of the receiver and the program that polls it: which of the codes that are sent
the program handles. -/
namespace OledDs18b20.Infrared
open Lib

namespace Link

theorem heard_append (earlier later : List Event) :
    heard (earlier ++ later) = heard earlier ++ heard later :=
  List.filterMap_append

/-- The events up to the tick that hears the last of `first`. -/
theorem exists_split {events : List Event} {first second : List Level}
    (h : heard events = first ++ second) :
    ∃ earlier later, events = earlier ++ later ∧ heard earlier = first ∧ heard later = second ∧
      ∀ start finish, earlier = start ++ finish → finish ≠ [] → heard finish ≠ [] := by
  induction events generalizing first with
  | nil =>
      obtain ⟨rfl, rfl⟩ := List.append_eq_nil_iff.mp h.symm
      refine ⟨[], [], rfl, rfl, rfl, fun start finish hsplit hfinish => ?_⟩
      exact absurd (List.append_eq_nil_iff.mp hsplit.symm).2 hfinish
  | cons event events ih =>
      cases first with
      | nil =>
          refine ⟨[], event :: events, rfl, rfl, h, fun start finish hsplit hfinish => ?_⟩
          exact absurd (List.append_eq_nil_iff.mp hsplit.symm).2 hfinish
      | cons irdata first =>
          have htail : ∃ first', heard events = first' ++ second ∧
              heard [event] ++ first' = irdata :: first := by
            cases event with
            | tick level =>
                have hhead : level :: heard events = irdata :: (first ++ second) := h
                obtain ⟨rfl, hevents⟩ := List.cons.inj hhead
                exact ⟨first, hevents, rfl⟩
            | decode => exact ⟨irdata :: first, h, rfl⟩
            | resume => exact ⟨irdata :: first, h, rfl⟩
          obtain ⟨first', hevents, hfirst⟩ := htail
          obtain ⟨earlier, later, rfl, hearlier, hlater, hends⟩ := ih hevents
          have hheard : heard (event :: earlier) = irdata :: first := by
            rw [← hfirst, ← hearlier]
            exact heard_append [event] earlier
          refine ⟨event :: earlier, later, rfl, hheard, hlater, fun start finish hsplit hne => ?_⟩
          cases start with
          | nil =>
              rw [List.nil_append] at hsplit
              rw [← hsplit, hheard]
              exact List.cons_ne_nil _ _
          | cons head start =>
              exact hends start finish (List.cons.inj hsplit).2 hne

variable (others : Irparams → Option DecodeResults)

theorem handled_cons (s : Link) (event : Event) (events : List Event) :
    handled others s (event :: events) =
      (done (s, event)).toList ++ handled others (step others s event) events := by
  rw [handled, Run.visits_cons, List.filterMap_cons]
  cases done (s, event) <;> rfl

theorem handled_append (s : Link) (earlier later : List Event) :
    handled others s (earlier ++ later) =
      handled others s earlier ++ handled others (Run.final (step others) s earlier) later := by
  rw [handled, Run.visits_append, List.filterMap_append]
  rfl

end Link

/-- What a run of the receiver and the program is for the mailbox. -/
structure Refines (others : Irparams → Option DecodeResults) (s : Link)
    (slot : Option DecodeResults) (events : List Link.Event) (codes : List DecodeResults)
    (abstract : List (Mailbox.Event DecodeResults)) : Prop where
  arrived : Mailbox.collect Mailbox.arrived slot abstract = codes
  taken : Mailbox.collect Mailbox.taken slot abstract = Link.handled others s events
  boundary : Boundary (Run.final (Link.step others) s events)
    (Run.final Mailbox.step slot abstract)

section Runs
variable {t : Transmission} {s : Link} {rest : List Level} {slot : Option DecodeResults}
  {coming : Bool} {events : List Link.Event} (others : Irparams → Option DecodeResults)

theorem Within.ended (h : Within t s [] slot coming) :
    ∃ abstract, Refines others s slot [] (t.toCome coming) abstract := by
  generalize hline : ([] : List Level) = line at h
  cases h with
  | hearing unready holding timer results =>
      subst hline
      have hkept : Kept t.code s := ⟨⟨t.runs, holding, t.seen⟩, .inl results⟩
      have hearly : s.irparams.timer ≤ 102 := by
        rw [show s.irparams.timer = 101 from timer]
        decide
      exact ⟨[.arrive t.code.results], rfl, rfl, .kept hkept hearly⟩
  | gap kept clear =>
      obtain ⟨rest, hbody⟩ := t.body_eq_cons
      simp [hbody] at hline
  | kept kept ignored timer =>
      subst hline
      have hearly : s.irparams.timer ≤ 102 := by
        rw [show s.irparams.timer = 102 from timer]
        decide
      exact ⟨[], rfl, rfl, .kept kept hearly⟩
  | missed waiting ignored timer_eq results =>
      subst hline
      obtain rfl := timer_eq
      exact ⟨[], rfl, rfl, .waiting waiting (by decide) results⟩

/-- The events of a part of a transmission. The polls come before its end. -/
theorem Within.steps (h : Within t s (Link.heard events ++ rest) slot coming)
    (hends : ∀ start finish, events = start ++ finish → finish ≠ [] →
      Link.heard finish ++ rest ≠ []) :
    ∃ abstract coming', Within t (Run.final (Link.step others) s events) rest
        (Run.final Mailbox.step slot abstract) coming' ∧
      Mailbox.collect Mailbox.arrived slot abstract ++ t.toCome coming' = t.toCome coming ∧
      Mailbox.collect Mailbox.taken slot abstract = Link.handled others s events ∧
      ((∀ irdata ∈ Link.heard events, irdata = .space) → coming' = coming) := by
  induction events generalizing s slot coming with
  | nil => exact ⟨[], coming, h, rfl, rfl, fun _ => rfl⟩
  | cons event events ih =>
      have hmore : Link.heard (event :: events) ++ rest ≠ [] :=
        hends [] (event :: events) rfl (List.cons_ne_nil _ _)
      have hnext : ∃ abstract coming', Answers t (Link.step others s event)
          (Link.heard events ++ rest) slot coming (Link.done (s, event)) abstract coming' ∧
          ((∀ irdata ∈ Link.heard [event], irdata = .space) → coming' = coming) := by
        cases event with
        | tick irdata =>
            obtain ⟨abstract, coming', hanswers, hspace⟩ := Within.tick h
            exact ⟨abstract, coming', hanswers,
              fun hspaces => hspace (hspaces irdata List.mem_cons_self)⟩
        | decode => exact ⟨[], coming, (h.decode others hmore).answers, fun _ => rfl⟩
        | resume =>
            obtain ⟨abstract, hanswers⟩ := h.resume others
            exact ⟨abstract, coming, hanswers, fun _ => rfl⟩
      obtain ⟨first, middle, ⟨hwithin, harrived, htaken⟩, hmiddle⟩ := hnext
      obtain ⟨second, coming', hwithin', harrived', htaken', hcoming'⟩ := ih hwithin
        fun start finish hsplit => hends (event :: start) finish (congrArg (event :: ·) hsplit)
      have hheard : Link.heard (event :: events) = Link.heard [event] ++ Link.heard events :=
        Link.heard_append [event] events
      refine ⟨first ++ second, coming', ?_, ?_, ?_, fun hspaces => ?_⟩
      · rw [Run.final_append]
        exact hwithin'
      · rw [Mailbox.collect_append, List.append_assoc, harrived', harrived]
      · rw [Mailbox.collect_append, htaken, htaken', Link.handled_cons]
      · rw [hheard, List.forall_mem_append] at hspaces
        rw [hcoming' hspaces.2, hmiddle hspaces.1]

theorem Boundary.poll {event : Link.Event} (h : Boundary s slot)
    (hquiet : Link.heard [event] = []) :
    ∃ abstract, Refines others s slot [event] [] abstract := by
  cases event with
  | tick irdata => exact absurd hquiet (List.cons_ne_nil _ _)
  | decode =>
      refine ⟨[], rfl, rfl, ?_⟩
      cases h with
      | waiting waiting early results =>
          have hidle : s.irparams.rcvstate ≠ .stop := by
            rw [waiting.rcvstate]
            decide
          rw [Run.final_cons, Run.final_nil, Link.decode_idle others hidle results]
          exact .waiting waiting early results
      | kept kept early =>
          obtain ⟨hkept, hirparams⟩ := kept.decode others
          refine .kept hkept ?_
          rw [Run.final_cons, Run.final_nil, hirparams]
          exact early
  | resume =>
      by_cases hresults : s.results = none
      · refine ⟨[], rfl, ?_, ?_⟩
        · rw [Link.handled_cons, Link.done, hresults]
          rfl
        · rw [Run.final_cons, Run.final_nil, Link.resume_idle others hresults]
          exact h
      · cases h with
        | waiting waiting early results => exact absurd results hresults
        | kept kept early =>
            obtain ⟨hstep, hsome⟩ := kept.resume others hresults
            refine ⟨[.take], rfl, ?_, ?_⟩
            · rw [Link.handled_cons, Link.done, hsome]
              rfl
            · rw [Run.final_cons, Run.final_nil, hstep]
              exact .waiting (waiting_resume s.irparams) early rfl

theorem Refines.append {later : List Link.Event} {codes codes' : List DecodeResults}
    {first second : List (Mailbox.Event DecodeResults)}
    (h : Refines others s slot events codes first)
    (h' : Refines others (Run.final (Link.step others) s events)
      (Run.final Mailbox.step slot first) later codes' second) :
    Refines others s slot (events ++ later) (codes ++ codes') (first ++ second) where
  arrived := by rw [Mailbox.collect_append, h.arrived, h'.arrived]
  taken := by rw [Mailbox.collect_append, h.taken, h'.taken, Link.handled_append]
  boundary := by
    rw [Run.final_append, Run.final_append]
    exact h'.boundary

/-- The events of what is left of a transmission, up to its last tick. -/
theorem Within.run (h : Within t s (Link.heard events) slot coming)
    (hends : ∀ start finish, events = start ++ finish → finish ≠ [] → Link.heard finish ≠ []) :
    ∃ abstract, Refines others s slot events (t.toCome coming) abstract := by
  rw [← List.append_nil (Link.heard events)] at h
  obtain ⟨first, coming', hwithin, harrived, htaken, -⟩ :=
    h.steps others (by simpa using hends)
  obtain ⟨second, hrefines⟩ := hwithin.ended others
  refine ⟨first ++ second, ?_, ?_, ?_⟩
  · rw [Mailbox.collect_append, hrefines.arrived, harrived]
  · rw [Mailbox.collect_append, htaken, hrefines.taken]
    exact List.append_nil _
  · rw [Run.final_append]
    exact hrefines.boundary

theorem Boundary.polls (h : Boundary s slot) (hquiet : Link.heard events = []) :
    ∃ abstract, Refines others s slot events [] abstract := by
  induction events generalizing s slot with
  | nil => exact ⟨[], rfl, rfl, h⟩
  | cons event events ih =>
      have hsplit : Link.heard [event] ++ Link.heard events = [] := by
        rw [← Link.heard_append]
        exact hquiet
      obtain ⟨hevent, hevents⟩ := List.append_eq_nil_iff.mp hsplit
      obtain ⟨first, hfirst⟩ := h.poll others hevent
      obtain ⟨second, hsecond⟩ := ih hfirst.boundary hevents
      exact ⟨first ++ second, hfirst.append others hsecond⟩

theorem Boundary.run (h : Boundary s slot) {transmissions : List Transmission}
    (hheard : Link.heard events = transmissions.flatMap Transmission.line) :
    ∃ abstract, Refines others s slot events (transmissions.map (·.code.results)) abstract := by
  induction transmissions generalizing s slot events with
  | nil => exact h.polls others hheard
  | cons t transmissions ih =>
      obtain ⟨earlier, later, rfl, hearlier, hlater, hends⟩ := Link.exists_split hheard
      have hwithin : Within t s (Link.heard earlier) slot true := by
        rw [hearlier]
        exact h.begin t
      obtain ⟨first, hfirst⟩ := hwithin.run others hends
      obtain ⟨second, hsecond⟩ := ih hfirst.boundary hlater
      exact ⟨first ++ second, hfirst.append others hsecond⟩

theorem Within.finish (h : Within t s (Link.heard events) slot coming) :
    ∃ abstract, Refines others s slot events (t.toCome coming) abstract := by
  obtain ⟨earlier, later, rfl, hearlier, hlater, hends⟩ :=
    Link.exists_split (List.append_nil (Link.heard events)).symm
  rw [← hearlier] at h
  obtain ⟨first, hfirst⟩ := h.run others hends
  obtain ⟨second, hsecond⟩ := hfirst.boundary.polls others hlater
  have hrefines := hfirst.append others hsecond
  rw [List.append_nil] at hrefines
  exact ⟨first ++ second, hrefines⟩

end Runs

/-- While codes are sent one after another, and the program polls at any moments, the receiver
is a mailbox: there are events of one to which the codes arrive in the order in which they are
sent, and whose takes are the values that the program handles. So each of them is the value of
a code that was sent, and none is handled twice or before an earlier one. -/
theorem mailbox_refined (others : Irparams → Option DecodeResults)
    (transmissions : List Transmission) {events : List Link.Event}
    (hheard : Link.heard events = transmissions.flatMap Transmission.line) :
    (∃ abstract : List (Mailbox.Event DecodeResults),
      Mailbox.collect Mailbox.arrived none abstract = transmissions.map (·.code.results) ∧
      Mailbox.collect Mailbox.taken none abstract = Link.handled others Link.start events ∧
      ((Run.final (Link.step others) Link.start events).irparams.rcvstate = .stop ↔
        (Run.final Mailbox.step none abstract).isSome)) ∧
    List.Sublist (Link.handled others Link.start events)
      (transmissions.map (·.code.results)) := by
  have hstart : Boundary Link.start none := .waiting ⟨rfl, rfl, rfl⟩ (by decide) rfl
  obtain ⟨abstract, harrived, htaken, hboundary⟩ := hstart.run others hheard
  refine ⟨⟨abstract, harrived, htaken, hboundary.rcvstate_iff⟩, ?_⟩
  have hprefix : List.Sublist (Mailbox.collect Mailbox.taken none abstract)
      (Mailbox.collect Mailbox.accepted none abstract) := by
    have haccepted := Mailbox.taken_append_held none abstract
    rw [Option.toList_none, List.nil_append] at haccepted
    rw [← haccepted]
    exact List.sublist_append_left _ _
  rw [← htaken, ← harrived]
  exact hprefix.trans (Mailbox.accepted_sublist none abstract)

def benchKey : Transmission where
  gap := 200
  code := .data 0xFFC23D
  runs := (Code.data 0xFFC23D).times.map (· / 50)
  clear := by decide
  seen := by decide +kernel

def benchHeld : Transmission where
  gap := 800
  code := .held
  runs := Code.held.times.map (· / 50)
  clear := by decide
  seen := by decide +kernel

/-- The program polls after the first code, and is not done with it when the second begins. -/
def benchPolls : List Link.Event :=
  benchKey.line.map .tick ++ .decode :: benchHeld.line.map .tick ++ [.resume]

theorem mailbox_refined_bench :
    (∃ abstract : List (Mailbox.Event DecodeResults),
      Mailbox.collect Mailbox.arrived none abstract =
        [benchKey, benchHeld].map (·.code.results) ∧
      Mailbox.collect Mailbox.taken none abstract =
        Link.handled (fun _ => none) Link.start benchPolls ∧
      ((Run.final (Link.step fun _ => none) Link.start benchPolls).irparams.rcvstate = .stop ↔
        (Run.final Mailbox.step none abstract).isSome)) ∧
    List.Sublist (Link.handled (fun _ => none) Link.start benchPolls)
      ([benchKey, benchHeld].map (·.code.results)) :=
  mailbox_refined (fun _ => none) [benchKey, benchHeld] (by decide +kernel)

/-- What the receiver keeps. -/
def Link.kept (s : Link) : List DecodeResults :=
  if s.irparams.rcvstate = .stop then s.irparams.decodeNEC.toList else []

theorem Kept.kept_eq {code : Code} {s : Link} (h : Kept code s) : s.kept = [code.results] := by
  obtain ⟨runs, hholding, hseen⟩ := h.holding
  rw [Link.kept, if_pos h.rcvstate, Code.decodeNEC hholding.rawlen hholding.entries hseen]
  rfl

theorem Boundary.kept_eq {s : Link} {slot : Option DecodeResults} (h : Boundary s slot) :
    s.kept = slot.toList := by
  cases h with
  | waiting waiting early results =>
      rw [Link.kept, if_neg (by simp [waiting.rcvstate])]
      rfl
  | kept kept early => exact kept.kept_eq

theorem Refines.handled_kept {others : Irparams → Option DecodeResults} {s : Link}
    {slot : Option DecodeResults} {events : List Link.Event} {codes : List DecodeResults}
    {abstract : List (Mailbox.Event DecodeResults)}
    (h : Refines others s slot events codes abstract) :
    Link.handled others s events ++ (Run.final (Link.step others) s events).kept =
      slot.toList ++ Mailbox.collect Mailbox.accepted slot abstract := by
  rw [h.boundary.kept_eq, ← h.taken]
  exact Mailbox.taken_append_held slot abstract

/-- The first mark of a code decides: if the receiver keeps nothing at that moment, the code is
kept until the program has handled it, and otherwise it is lost, and what is kept stays. -/
theorem first_mark_decides (others : Irparams → Option DecodeResults)
    (transmissions : List Transmission) (t : Transmission) {earlier later : List Link.Event}
    (hearlier : Link.heard earlier =
      transmissions.flatMap Transmission.line ++ List.replicate t.gap Level.space)
    (hlater : Link.heard (.tick .mark :: later) = t.body) :
    let s := Run.final (Link.step others) Link.start earlier
    Link.handled others s (.tick .mark :: later) ++
        (Run.final (Link.step others) s (.tick .mark :: later)).kept =
      if s.irparams.rcvstate = .stop then s.kept else [t.code.results] := by
  intro s
  have hstart : Boundary Link.start none := .waiting ⟨rfl, rfl, rfl⟩ (by decide) rfl
  obtain ⟨before, gap, hsplit, hbefore, hgap, -⟩ := Link.exists_split hearlier
  obtain ⟨first, hfirst⟩ := hstart.run others hbefore
  have hnonempty : t.body ≠ [] := by
    rw [← hlater]
    exact List.cons_ne_nil _ _
  have hbegin := hfirst.boundary.begin t
  rw [Transmission.line, ← hgap] at hbegin
  obtain ⟨second, coming, hwithin, -, -, hcoming⟩ := hbegin.steps others
    fun start finish _ _ hnil => hnonempty (List.append_eq_nil_iff.mp hnil).2
  rw [← Run.final_append, ← hsplit] at hwithin
  obtain rfl : coming = true := hcoming fun irdata hirdata =>
    List.eq_of_mem_replicate (hgap ▸ hirdata)
  change Within t s _ _ _ at hwithin
  generalize Run.final Mailbox.step _ second = slot at hwithin
  generalize hrest : t.body = rest at hwithin
  cases hwithin with
  | hearing unready holding timer results =>
      have hrunning : s.irparams.rcvstate ≠ .stop := by
        rw [← hrest, ← hlater] at unready
        exact unready.1
      have hwithin : Within t s (Link.heard (.tick .mark :: later)) none true := by
        rw [hlater, hrest]
        exact .hearing unready holding timer results
      obtain ⟨abstract, hrefines⟩ := hwithin.finish others
      rw [if_neg hrunning, hrefines.handled_kept, Mailbox.accepted_of_single hrefines.arrived]
      rfl
  | @gap code count kept clear =>
      have hwithin : Within t (Link.step others s (.tick .mark)) (Link.heard later)
          (some code.results) false := kept.begun hlater.symm
      obtain ⟨abstract, hrefines⟩ := hwithin.finish others
      have hnone := Mailbox.accepted_sublist (some code.results) abstract
      rw [hrefines.arrived, Transmission.toCome, if_neg (by decide), List.sublist_nil] at hnone
      have hkept := hrefines.handled_kept
      rw [hnone, List.append_nil] at hkept
      rw [if_pos kept.rcvstate, kept.kept_eq]
      exact hkept

/-- The code of the held key comes while that of the key is still kept. -/
theorem first_mark_decides_held :
    let earlier := benchKey.line.map Link.Event.tick ++ .decode ::
      (List.replicate 800 Level.space).map .tick
    let later := benchHeld.body.tail.map Link.Event.tick ++ [.resume]
    let s := Run.final (Link.step fun _ => none) Link.start earlier
    Link.handled (fun _ => none) s (.tick .mark :: later) ++
        (Run.final (Link.step fun _ => none) s (.tick .mark :: later)).kept =
      if s.irparams.rcvstate = .stop then s.kept else [benchHeld.code.results] :=
  first_mark_decides (fun _ => none) [benchKey] benchHeld (by decide +kernel) (by decide +kernel)

end OledDs18b20.Infrared
