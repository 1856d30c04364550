import ThreeAddress.Command.Log
import ThreeAddress.Proofs.Program.Trace

namespace ThreeAddress.Command

open Code

/-- What a line of the log says. -/
structure Record where
  level : Level
  message : String

namespace Record

def line (r : Record) : String := r.level.text ++ " - " ++ r.message ++ "\n"

def lines (verbosity : Nat) (records : List Record) : String :=
  String.join ((records.filter (·.level.threshold ≤ verbosity)).map line)

@[simp] theorem lines_nil (verbosity : Nat) : lines verbosity [] = "" := rfl

theorem lines_append (verbosity : Nat) (rs rs' : List Record) :
    lines verbosity (rs ++ rs') = lines verbosity rs ++ lines verbosity rs' := by
  simp [lines]

theorem lines_singleton (verbosity : Nat) (level : Level) (message : String) :
    lines verbosity [⟨level, message⟩] = logLine verbosity level message := by
  unfold lines logLine
  by_cases h : level.threshold ≤ verbosity
  · simp [h, line]
  · simp [h]

theorem lines_map_error (verbosity : Nat) (messages : List String) :
    lines verbosity (messages.map (⟨.error, ·⟩)) =
      String.join (messages.map (logLine verbosity .error)) := by
  induction messages with
  | nil => rfl
  | cons message messages ih =>
    rw [List.map_cons, ← List.singleton_append, lines_append, lines_singleton, ih]
    simp

end Record

/-- An event on the record. One that has no message stands without one. -/
def eventRecord (event : Event) : Record :=
  ⟨eventLevel event, (eventMessage event).toOption.getD ""⟩

theorem eventRecord_level_ne (event : Event) : (eventRecord event).level ≠ .error := by
  cases event <;> exact nofun

/-- An event whose message cannot be made. -/
def Unspeakable (event : Event) : Prop := ∃ i, event.instr? = some i ∧ i.offset? = some .minValue

theorem eventMessage_failsIff (event : Event) :
    FailsIff (eventMessage event) (Unspeakable event) := by
  cases event with
  | appended i =>
    have hu : Unspeakable (.appended i) = (i.offset? = some .minValue) := by
      simp [Unspeakable, Event.instr?]
    rw [hu]
    exact i.text_failsIff.andThen _
  | _ => exact .ok _ (by simp [Unspeakable, Event.instr?])

theorem level_of_unspeakable {event : Event} (h : Unspeakable event) :
    eventLevel event = .trace := by
  obtain ⟨i, hi, -⟩ := h
  cases event with
  | appended i => rfl
  | _ => cases hi

theorem addEvent_of_quiet {verbosity : Nat} {event : Event}
    (h : 4 ≤ verbosity → ¬ Unspeakable event) (text : String) :
    addEvent verbosity ⟨text, none⟩ event =
      ⟨text ++ Record.lines verbosity [eventRecord event], none⟩ := by
  unfold addEvent
  by_cases hl : (eventLevel event).threshold ≤ verbosity
  · rw [if_pos hl, eventRecord, Record.lines_singleton]
    cases hm : eventMessage event with
    | ok message => rfl
    | error fault =>
      have hu := ((eventMessage_failsIff event fault).mp hm).2
      rw [level_of_unspeakable hu] at hl
      exact absurd hu (h hl)
  · rw [if_neg hl]
    simp [Record.lines, eventRecord, hl]

theorem foldl_addEvent_of_quiet {verbosity : Nat} {events : List Event}
    (h : 4 ≤ verbosity → ∀ event ∈ events, ¬ Unspeakable event) (text : String) :
    events.foldl (addEvent verbosity) ⟨text, none⟩ =
      ⟨text ++ Record.lines verbosity (events.map eventRecord), none⟩ := by
  induction events generalizing text with
  | nil => simp
  | cons event events ih =>
    have hone : 4 ≤ verbosity → ¬ Unspeakable event := fun hv ↦ h hv event List.mem_cons_self
    have hrest : 4 ≤ verbosity → ∀ e ∈ events, ¬ Unspeakable e :=
      fun hv e he ↦ h hv e (List.mem_cons_of_mem _ he)
    rw [List.foldl_cons, addEvent_of_quiet hone, ih hrest, List.map_cons,
      ← List.singleton_append (l := events.map eventRecord), Record.lines_append,
      String.append_assoc]

theorem eventLog_of_quiet {verbosity : Nat} {events : List Event}
    (h : 4 ≤ verbosity → ∀ event ∈ events, ¬ Unspeakable event) :
    eventLog verbosity events = ⟨Record.lines verbosity (events.map eventRecord), none⟩ := by
  have hlog := foldl_addEvent_of_quiet h ""
  rwa [String.empty_append] at hlog

theorem foldl_addEvent_of_fault {verbosity : Nat} (w : Written) {f : Fault} (h : w.fault = some f)
    (events : List Event) : events.foldl (addEvent verbosity) w = w := by
  have hstep (event : Event) : addEvent verbosity w event = w := by
    unfold addEvent
    split
    · split <;> simp [Written.add, Written.fail, h]
    · rfl
  induction events with
  | nil => rfl
  | cons event events ih => rw [List.foldl_cons, hstep, ih]

theorem addEvent_of_unspeakable {verbosity : Nat} {event : Event} (hv : 4 ≤ verbosity)
    (h : Unspeakable event) (text : String) :
    addEvent verbosity ⟨text, none⟩ event = ⟨text, some .negation⟩ := by
  have hl : (eventLevel event).threshold ≤ verbosity := by rwa [level_of_unspeakable h]
  have hm := (eventMessage_failsIff event .negation).mpr ⟨rfl, h⟩
  rw [addEvent, if_pos hl, hm]
  rfl

/-- A log that comes to something it cannot show has all the records up to there. -/
theorem eventLog_of_unspeakable {verbosity : Nat} {events : List Event} (hv : 4 ≤ verbosity)
    (h : ∃ event ∈ events, Unspeakable event) :
    ∃ before, before <+: events ∧ eventLog verbosity events =
      ⟨Record.lines verbosity (before.map eventRecord), some .negation⟩ := by
  have hfold (text : String) : ∃ before, before <+: events ∧
      events.foldl (addEvent verbosity) ⟨text, none⟩ =
        ⟨text ++ Record.lines verbosity (before.map eventRecord), some .negation⟩ := by
    induction events generalizing text with
    | nil => simp at h
    | cons event events ih =>
      by_cases hu : Unspeakable event
      · refine ⟨[], List.nil_prefix, ?_⟩
        rw [List.foldl_cons, addEvent_of_unspeakable hv hu, foldl_addEvent_of_fault _ rfl]
        simp
      · have hrest : ∃ e ∈ events, Unspeakable e := by simpa [hu] using h
        obtain ⟨before, hbefore, hlog⟩ :=
          ih hrest (text ++ Record.lines verbosity [eventRecord event])
        refine ⟨event :: before, (List.prefix_cons_inj event).mpr hbefore, ?_⟩
        rw [List.foldl_cons, addEvent_of_quiet fun _ ↦ hu, hlog, List.map_cons,
          ← List.singleton_append (l := before.map eventRecord), Record.lines_append,
          String.append_assoc]
  obtain ⟨before, hbefore, hlog⟩ := hfold ""
  rw [String.empty_append] at hlog
  exact ⟨before, hbefore, hlog⟩

theorem exists_unspeakable_iff {events : List Event} :
    (∃ event ∈ events, Unspeakable event) ↔
      ∃ i ∈ recorded events, i.offset? = some .minValue := by
  simp only [recorded, List.mem_filterMap, Unspeakable]
  constructor
  · rintro ⟨event, he, i, hi, ho⟩
    exact ⟨i, ⟨event, he, hi⟩, ho⟩
  · rintro ⟨i, ⟨event, he, hi⟩, ho⟩
    exact ⟨event, he, i, hi, ho⟩

end ThreeAddress.Command
