import Melody.Proofs.Characters
import Melody.Proofs.Soundness

/-!
# The causes of a crash

A melody of a loaded program is played to its end, or a fault in a value is reported and the program
exits, or the wait for the last sounds never ends. Anything else is a crash, and every crash has one
of seven causes, which can be told from the program without running it.
-/

set_option autoImplicit false

namespace Melody

open Text Act

namespace Program

inductive Below (p : Program) (melody : List Command) : Nat → List Command → Prop where
  | start : Below p melody 0 melody
  | next {k : Nat} {cs ds : List Command} :
      Below p melody k cs → p.Runs cs ds → Below p melody (k + 1) ds

theorem Below.up {p : Program} {melody ds : List Command} {k n : Nat} (h : p.Below melody n ds)
    (hk : k ≤ n) : ∃ es, p.Below melody k es := by
  induction h with
  | start =>
    obtain rfl := Nat.le_zero.mp hk
    exact ⟨melody, .start⟩
  | next hcs hruns ih =>
    rcases Nat.le_succ_iff.mp hk with hk | rfl
    · exact ih hk
    · exact ⟨_, hcs.next hruns⟩

inductive Notes (p : Program) (melody : List Command) : String → Prop where
  | played {k : Nat} {cs : List Command} {note : String} {accidental duration : Slot} :
      p.Below melody k cs → .play (some (.text note)) accidental duration ∈ cs →
      Notes p melody note
  | sounded {k : Nat} {cs : List Command} {name duration : Slot} {notes : List Value}
      {note : List Char} {accidental : Option Char} :
      p.Below melody k cs → .playChord name (some (.list notes)) duration ∈ cs →
      Command.noteValue note accidental ∈ notes → Notes p melody (String.ofList note)
  | defined {chord : String} {notes : List Value} {note : List Char} {accidental : Option Char} :
      p.chords.find? chord = some (.list notes) → Command.noteValue note accidental ∈ notes →
      Notes p melody (String.ofList note)
  | passed {k : Nat} {cs : List Command} {function : Slot} {items : List Value} {note : String} :
      p.Below melody k cs → .call function (some (.list items)) ∈ cs → .text note ∈ items →
      Notes p melody note
  | gathered {k : Nat} {cs : List Command} {function : Slot} {items : List Value} {chord : String}
      {note : List Char} :
      p.Below melody k cs → .call function (some (.list items)) ∈ cs → .text chord ∈ items →
      Performance.isChordText chord.toList = true →
      note ∈ words (Function.unquote chord.toList) →
      Notes p melody (String.ofList (Command.splitAccidental note).1)

inductive Shapes (p : Program) (melody : List Command) : Envelope Float → Prop where
  | timbre (i : Sound.Instrument) : Shapes p melody i.timbre.envelope
  | settings {e : Envelope Float} : p.envelope = some e → Shapes p melody e
  | command {k : Nat} {cs : List Command} {e : Envelope Float} :
      p.Below melody k cs →
      .envelope (some (.float e.attack)) (some (.float e.decay)) (some (.float e.sustain))
        (some (.float e.release)) ∈ cs →
      Shapes p melody e

end Program

namespace Performance

open Command

/-- What can crash a melody, with the crash: blocks and calls nest too deep, the tempo is zero or
beyond every double, so is the octave of a note, the stages of an envelope have no length in
samples, the sign of comparison stands more than once in a condition, or the body of a function
that is called cannot be read. -/
inductive Crash (program : Program) (melody : List Command) : Halt → Prop where
  | depth {ds : List Command} : program.Below melody depthLimit ds → Crash program melody .tooDeep
  | noTempo : program.tempo = .int 0 → Crash program melody (.fault .divisionByZero)
  | tempo {n : Int} : program.tempo = .int n → (Number.ofInt n).isInf = true →
      Crash program melody (.fault .integerOverflow)
  | octave {note : String} : program.Notes melody note → Theory.TooHigh note →
      Crash program melody (.fault .integerOverflow)
  | stages {e : Envelope Float} {duration : String} {seconds : Float} {f : Fault} :
      program.Shapes melody e → Theory.seconds duration program.tempo = .ok seconds →
      Sound.stageLengths e seconds = .error f → f.isBadValue = false →
      Crash program melody (.fault f)
  | condition {k : Nat} {cs : List Command} {s : String} {whenTrue whenFalse : Block}
      {sides : List (List Char)} :
      program.Below melody k cs → .branch (some (.text s)) whenTrue whenFalse ∈ cs →
      sidesOf s = some sides → 2 < sides.length → Crash program melody (.fault .tooManyParts)
  | body {k : Nat} {cs : List Command} {c : Command} {name : String} {parameters : List String}
      {body : List Char} {f : Fault} :
      program.Below melody k cs → c ∈ cs → c.callee? = some name →
      program.functions.find? name = some (.user parameters body) →
      (Command.read .diagnosing program.context body).fault = some f →
      Crash program melody (.fault f)

def Stops (program : Program) (melody : List Command) (h : Halt) : Prop :=
  h = .exit 1 ∨ h = .stalled ∨ Crash program melody h

theorem Crash.stops {program : Program} {melody : List Command} {h : Halt}
    (hcrash : Crash program melody h) : Stops program melody h :=
  .inr (.inr hcrash)

def vocabulary (program : Program) (melody : List Command) : Vocabulary where
  note s := Theory.TooHigh s → Stops program melody (.fault .integerOverflow)
  argument s :=
    (Theory.TooHigh s → Stops program melody (.fault .integerOverflow)) ∧
      (isChordText s.toList = true → ∀ w ∈ words (Function.unquote s.toList),
        Theory.TooHigh (String.ofList (splitAccidental w).1) →
          Stops program melody (.fault .integerOverflow))
  condition s := ∀ sides, sidesOf s = some sides → 2 < sides.length →
    Stops program melody (.fault .tooManyParts)
  envelope := program.Shapes melody
  callee depth name := ∃ k cs c, program.Below melody k cs ∧ c ∈ cs ∧ c.callee? = some name ∧
    depthLimit ≤ k + depth + 1
  deep := Stops program melody .tooDeep

section Typed

variable {program : Program} {melody : List Command}

theorem typed_notes {notes : List Value} (hformed : ∀ v ∈ notes, Vocabulary.all.IsNote v)
    (hnotes : ∀ note accidental, noteValue note accidental ∈ notes →
      program.Notes melody (String.ofList note)) :
    ∀ v ∈ notes, (vocabulary program melody).IsNote v := by
  intro v hv
  obtain ⟨note, accidental, rfl, -⟩ := hformed v hv
  exact ⟨note, accidental, rfl, fun hhigh => (Crash.octave (hnotes _ _ hv) hhigh).stops⟩

/-- The depth that is left for a block, or none. -/
theorem deep_below {k depth : Nat} {ds : List Command} (hbelow : program.Below melody (k + 1) ds)
    (hdepth : depthLimit ≤ k + depth + 1) :
    depth = 0 → (vocabulary program melody).deep := by
  intro hzero
  obtain ⟨es, hes⟩ := hbelow.up (show depthLimit ≤ k + 1 by omega)
  exact (Crash.depth hes).stops

mutual
/-- The induction is over the command: its blocks lie one level below, and have less depth left. -/
theorem typed_command {k depth : Nat} (hdepth : depthLimit ≤ k + depth + 1) :
    ∀ (c : Command) {cs : List Command}, Formed c → program.Below melody k cs → c ∈ cs →
      Typed (vocabulary program melody) c depth
  | .play note accidental duration, cs, hformed, hbelow, hc => by
    obtain ⟨⟨s, rfl, -⟩, hsign, hduration⟩ := hformed 0
    exact ⟨⟨s, rfl, fun hhigh => (Crash.octave (.played hbelow hc) hhigh).stops⟩, hsign, hduration⟩
  | .playChord name notes duration, cs, hformed, hbelow, hc => by
    obtain ⟨hname, ⟨_, rfl, items, rfl, hitems⟩, hduration⟩ := hformed 0
    exact ⟨hname, ⟨_, rfl, items, rfl, typed_notes hitems fun _ _ hv => .sounded hbelow hc hv⟩,
      hduration⟩
  | .pause duration, _, hformed, _, _ => hformed 0
  | .envelope attack decay sustain release, cs, hformed, hbelow, hc => by
    obtain ⟨e, -, rfl, rfl, rfl, rfl⟩ := hformed 0
    exact ⟨e, .command hbelow hc, rfl, rfl, rfl, rfl⟩
  | .waveform name, _, hformed, _, _ => hformed 0
  | .instrument name, _, hformed, _, _ => hformed 0
  | .startParallel, _, _, _, _ => trivial
  | .endParallel, _, _, _, _ => trivial
  | .branch condition whenTrue whenFalse, cs, hformed, hbelow, hc => by
    obtain ⟨⟨s, rfl, -⟩, -, -⟩ := hformed 0
    refine ⟨⟨s, rfl, ?_⟩, ?_, ?_⟩
    · intro sides hsides hmany
      exact (Crash.condition hbelow hc hsides hmany).stops
    · apply typed_block hdepth whenTrue fun n => (hformed n).2.1
      intro ds hds
      exact hbelow.next (.block hc (List.mem_append_left _ hds))
    · cases whenFalse with
      | missing => exact absurd (hformed 0).2.2 (by simp [TypedBlock])
      | value v => exact .inl (by simpa [TypedBlock] using (hformed 0).2.2)
      | commands ds =>
        right
        apply typed_block hdepth (.commands ds)
        · intro n
          simpa using (hformed n).2.2
        · intro es hes
          exact hbelow.next (.block hc (List.mem_append_right _ hes))
  | .loop times body, cs, hformed, hbelow, hc => by
    refine ⟨(hformed 0).1, typed_block hdepth body (fun n => (hformed n).2) ?_⟩
    intro ds hds
    exact hbelow.next (.block hc hds)
  | .forEach name collection reversed body, cs, hformed, hbelow, hc => by
    obtain ⟨hname, hcollection, hreversed, -⟩ := hformed 0
    refine ⟨hname, hcollection, hreversed,
      typed_block hdepth body (fun n => (hformed n).2.2.2) ?_⟩
    intro ds hds
    exact hbelow.next (.block hc hds)
  | .call function arguments, cs, hformed, hbelow, hc => by
    obtain ⟨⟨name, rfl, -⟩, _, rfl, items, rfl, hitems⟩ := hformed 0
    refine ⟨⟨name, rfl, k, cs, _, hbelow, hc, rfl, hdepth⟩, _, rfl, items, rfl, ?_⟩
    intro a ha
    obtain ⟨s, rfl, -⟩ := hitems a ha
    refine ⟨s, rfl, ?_, ?_⟩
    · intro hhigh
      exact (Crash.octave (.passed hbelow hc ha) hhigh).stops
    · intro hchord w hw hhigh
      exact (Crash.octave (.gathered hbelow hc ha hchord hw) hhigh).stops
  | .marked _ _, _, hformed, _, _ => hformed 0
  | .other _, _, hformed, _, _ => hformed 0

theorem typed_block {k depth : Nat} (hdepth : depthLimit ≤ k + depth + 1) :
    ∀ b : Block, (∀ n, TypedBlock .all b n) → (∀ ds ∈ b.lists, program.Below melody (k + 1) ds) →
      TypedBlock (vocabulary program melody) b depth
  | .commands cs, hformed, hbelow => by
    have hcs := hbelow cs (List.mem_singleton_self cs)
    refine ⟨deep_below hcs hdepth, ?_⟩
    have hleft : depthLimit ≤ (k + 1) + (depth - 1) + 1 := by omega
    exact typed_all hleft cs (fun n => (hformed (n + 1)).2) hcs fun c hc => hc
  | .missing, hformed, _ => hformed 0
  | .value _, hformed, _ => hformed 0

theorem typed_all {k depth : Nat} (hdepth : depthLimit ≤ k + depth + 1) :
    ∀ (ds : List Command) {cs : List Command}, (∀ n, AllTyped .all ds n) →
      program.Below melody k cs → (∀ c ∈ ds, c ∈ cs) →
      AllTyped (vocabulary program melody) ds depth
  | [], _, _, _, _ => trivial
  | c :: ds, _, hformed, hbelow, hsub =>
    ⟨typed_command hdepth c (fun n => (hformed n).1) hbelow (hsub c (by simp)),
      typed_all hdepth ds (fun n => (hformed n).2) hbelow fun d hd => hsub d (by simp [hd])⟩
end

end Typed

end Performance

namespace Theory

theorem digits_not_high {cs : List Char} (h : ∀ c ∈ cs, c.isDigit) :
    ¬ TooHigh (String.ofList cs) := by
  intro hhigh
  have hrange : ∀ c ∈ cs, c.toNat < 128 := by
    intro c hc
    have hdigit := h c hc
    simp only [Char.isDigit, Bool.and_eq_true, decide_eq_true_eq, UInt32.le_iff_toNat_le] at hdigit
    have hlast : c.toNat ≤ 57 := hdigit.2
    omega
  have hdigit : ∀ c ∈ cs.map Char.toLower, isDigit c = true := by
    intro c hc
    obtain ⟨d, hd, rfl⟩ := List.mem_map.mp hc
    exact ascii_cases (P := fun d => d.isDigit = true → isDigit d.toLower = true)
      (by decide +kernel) d (hrange d hd) (h d hd)
  have hnone : ((cs.map Char.toLower).filter fun c => !isDigit c) = [] := by
    rw [List.filter_eq_nil_iff]
    intro c hc
    simp [hdigit c hc]
  apply hhigh.named
  rw [lettersOf, lower, String.toList_ofList, String.toList_ofList, lower_ascii cs hrange, hnone]
  decide

/-- No name in the table starts with one of the signs that open a written list, a written record or
a negative number. -/
theorem table_heads : ∀ entry ∈ noteFrequencies, ∀ c ∈ ['[', '{', '-'],
    entry.1.toList.head? ≠ some c := by
  decide

theorem lookup_sign {c : Char} (hc : c ∈ ['[', '{', '-']) {s : String}
    (hs : s.toList.head? = some c) : noteFrequencies.lookup s = none := by
  cases hlookup : noteFrequencies.lookup s with
  | none => rfl
  | some f =>
    obtain ⟨before, after, hsplit, -⟩ := List.lookup_eq_some_iff.mp hlookup
    exact absurd hs (table_heads (s, f) (by rw [hsplit]; simp) c hc)

theorem sign_not_high {c : Char} (hc : c ∈ ['[', '{', '-']) (cs : List Char) :
    ¬ TooHigh (String.ofList (c :: cs)) := by
  have hplain : ∀ c ∈ ['[', '{', '-'], c ≠ 'Σ' ∧ lowerChar c = [c] ∧ isDigit c = false := by
    decide
  obtain ⟨hsigma, hlower, hdigit⟩ := hplain c hc
  intro hhigh
  apply hhigh.named
  apply lookup_sign hc
  simp [lettersOf, lower, lowerText, lowerAfter, hsigma, hlower, hdigit]

end Theory

namespace Performance

open Command

section Covers

variable {program : Program} {melody : List Command}

theorem chord_text_head {c : Char} {cs : List Char} (h : isChordText (c :: cs) = true) :
    c = '<' := by
  simp only [isChordText, Bool.and_eq_true, decide_eq_true_eq, List.head?_cons,
    Option.some.injEq] at h
  exact h.1

theorem sign_argument {c : Char} (hc : c ∈ ['[', '{', '-']) {s : String}
    (hs : s.toList.head? = some c) : (vocabulary program melody).argument s := by
  obtain ⟨cs, hcs⟩ := List.head?_eq_some_iff.mp hs
  obtain rfl : s = String.ofList (c :: cs) := by rw [← hcs, String.ofList_toList]
  constructor
  · intro hhigh
    exact absurd hhigh (Theory.sign_not_high hc cs)
  · intro hchord
    rw [String.toList_ofList] at hchord
    rw [chord_text_head hchord] at hc
    exact absurd hc (by decide)

theorem integer_argument (n : Int) : (vocabulary program melody).argument (toString n) := by
  cases n with
  | ofNat m =>
    have hdigit : ∀ c ∈ Nat.toDigits 10 m, c.isDigit := fun c hc =>
      Nat.isDigit_of_mem_toDigits (by decide) (by decide) hc
    change (vocabulary program melody).argument (String.ofList (Nat.toDigits 10 m))
    constructor
    · intro hhigh
      exact absurd hhigh (Theory.digits_not_high hdigit)
    · intro hchord
      rw [String.toList_ofList] at hchord
      cases hdigits : Nat.toDigits 10 m with
      | nil =>
        rw [hdigits] at hchord
        cases hchord
      | cons c cs =>
        rw [hdigits] at hchord hdigit
        have hfirst := hdigit c (by simp)
        rw [chord_text_head hchord] at hfirst
        exact absurd hfirst (by decide)
  | negSucc m =>
    change (vocabulary program melody).argument ("-" ++ Nat.repr (m + 1))
    exact sign_argument (c := '-') (by decide) (by simp)

/-- What a variable holds can be passed on in its written form. -/
theorem written_argument {v : Value} (h : (vocabulary program melody).Held v) :
    (vocabulary program melody).argument v.written := by
  rcases h with ⟨s, rfl, hs⟩ | ⟨n, rfl⟩ | ⟨notes, rfl, -⟩ | ⟨name, accidental, rfl, -⟩
  · exact hs
  · exact integer_argument n
  · exact sign_argument (c := '[') (by decide) (by simp [Value.written, Value.quoted])
  · exact sign_argument (c := '{') (by decide) (by simp [noteValue, Value.written, Value.quoted])

theorem fallback_not_high : ¬ Theory.TooHigh fallbackNote := by
  intro hhigh
  obtain ⟨n, hn, -⟩ := hhigh.octave
  have hoctave : Theory.octaveOf fallbackNote = [] := by decide +kernel
  rw [hoctave] at hn
  cases hn

theorem beat_stops (htempo : ∃ n, program.tempo = .int n) {f : Fault}
    (h : Theory.beatSeconds program.tempo = .error f) : Stops program melody (.fault f) := by
  obtain ⟨n, hn⟩ := htempo
  have hbeat : Theory.beatSeconds (.int n) =
      if (Number.ofInt n).isInf then .error .integerOverflow
      else if n = 0 then .error .divisionByZero else .ok (60.0 / Number.ofInt n) := rfl
  rw [hn, hbeat] at h
  apply Crash.stops
  split_ifs at h with hinf hzero
  · cases h
    exact .tempo hn hinf
  · cases h
    subst hzero
    exact .noTempo hn

/-- Whatever stops a formed program has been blamed on what it contains. -/
theorem covers_formed (h : program.Formed) :
    Covers program (vocabulary program melody) (Stops program melody) where
  fallback hhigh := absurd hhigh fallback_not_high
  played hs := hs.1
  written := written_argument
  pieces hs hchord w hw := ⟨_, _, rfl, hs.2 hchord w hw⟩
  tempo := h.tempo
  chords hfind := by
    obtain ⟨notes, rfl, hnotes⟩ := h.chords _ _ hfind
    exact ⟨notes, rfl, typed_notes hnotes fun _ _ hv => .defined hfind hv⟩
  timbre := .timbre
  settings := .settings
  ready := by
    rintro depth name parameters body ⟨k, cs, c, hbelow, hc, hname, hdepth⟩ hfind hfault
    apply typed_block hdepth
    · intro n
      exact formed_ready (read_formed h.chords .diagnosing body) n
    · intro ds hds
      obtain rfl := List.mem_singleton.mp hds
      exact hbelow.next (.call hc hname hfind hfault)
  reported := .inl rfl
  stalled := .inr (.inl rfl)
  deep := id
  beat := beat_stops h.tempo
  pitch hs := hs
  stages he hseconds hlengths hbad := (Crash.stages he hseconds hlengths hbad).stops
  sides hs := hs _
  body := by
    rintro depth name parameters body f ⟨k, cs, c, hbelow, hc, hname, -⟩ hfind hfault
    exact (Crash.body hbelow hc hname hfind hfault).stops

theorem melody_ready (hmelody : ∀ c ∈ melody, Formed c) :
    Ready (vocabulary program melody) melody depthLimit := by
  apply ready_iff.mpr
  refine ⟨fun hzero => absurd hzero (by decide), ?_⟩
  intro c hc
  exact typed_command (k := 0) (by decide) c (hmelody c hc) .start hc

end Covers

def isTimed : Command → Bool
  | .pause (some (.text _)) => true
  | .play (some note) (some accidental) (some (.text _)) =>
    (Theory.noteFrequency note accidental).isOk
  | _ => false

theorem run_timed {c : Command} (h : isTimed c = true) (one : Command → Performance Unit)
    (isOpen : Bool) (cs : List Command) :
    runAll one isOpen (c :: cs) = (do announce c; one c; runAll one isOpen cs) := by
  revert h
  fun_cases isTimed c with
  | case1 | case2 => exact fun _ => rfl
  | case3 => exact fun h => (by cases h)

section Timed

variable {program : Program} {V : Vocabulary} {p : Performer} (hp : Sane V program p) {f : Fault}
  (htempo : Theory.beatSeconds program.tempo = .error f) (hbad : f.isBadValue = false)

include hp htempo

theorem no_duration (name : String) {Q : Float → Performer → Prop} :
    (durationSeconds (.text name)).Meets p (· = .fault f) Q := by
  have hfault : Theory.durationSeconds (.text name) program.tempo = .error f := by
    change Theory.seconds name program.tempo = _
    rw [Theory.seconds, htempo]
    rfl
  unfold durationSeconds
  rw [meets_bind, meets_read, hp.tempo, hfault]
  exact (meets_fail _).mpr rfl

include hbad

theorem timed_crashes {c : Command} (h : isTimed c = true) (inner : Inner)
    {Q : Unit → Performer → Prop} : (step inner c).Meets p (· = .fault f) Q := by
  have hstop (reason : String) {m : Performance Unit} (hm : m.Meets p (· = .fault f) Q) :
      (stopOnBadValue reason m).Meets p (· = .fault f) Q := by
    -- the handler reports bad values only, and lets this fault pass
    apply meets_stop reason hm
    · rintro g ⟨⟩ hg
      cases hbad.symm.trans hg
    · intro r hr _
      exact hr
  revert h
  fun_cases isTimed c with
  | case1 duration =>
    intro _
    change (pause _).Meets p _ _
    unfold pause
    rw [meets_bind, meets_need]
    apply hstop
    rw [meets_bind]
    exact no_duration hp htempo duration
  | case2 note accidental duration =>
    intro h
    change (playNote _ _ _).Meets p _ _
    unfold playNote
    rw [meets_bind, meets_need, meets_bind, meets_need, meets_bind, meets_need]
    apply hstop
    cases hfrequency : Theory.noteFrequency note accidental with
    | error => simp [hfrequency, Except.isOk, Except.toBool] at h
    | ok frequency =>
      rw [of_except_bind, meets_bind]
      exact no_duration hp htempo duration
  | case3 => exact fun h => (by cases h)

theorem melody_crashes {name : Value} {c : Command} {rest : List Command} {depth : Nat}
    (hclosed : Closed program V) (hplays : Plays program name (c :: rest)) (hc : isTimed c = true)
    (htyped : Typed V c depth) :
    (perform name).Meets p (· = .fault f) fun _ _ => False := by
  have hrun {q : Performer} (hq : Sane V program q) :
      (run (c :: rest)).Meets q (· = .fault f) fun _ _ => False := by
    rw [run, depthLimit, execute, run_timed hc, meets_bind]
    apply announce_meets htyped
    rw [meets_bind]
    exact timed_crashes hq htempo hbad hc _
  apply (perform_run hp hclosed hplays hrun fun h => h.elim).mono
  intro _ _ h
  exact h.2

end Timed

/-- A melody of a loaded program, played by a new performer, is played to its end, or a fault in a
value was reported and the program exits, or the wait for its sounds does not end, or it crashes
for one of the causes that the program contains. Where the tempo gives no beat, a melody that
begins with a pause or a note does crash. -/
theorem crash_has_cause (cs : List Char) (debug : Bool) {name : Value} {melody : List Command}
    (hplays : Plays (Program.loadText cs { debug := debug }).program name melody) :
    let program := (Program.loadText cs { debug := debug }).program
    let outcome := (perform name { program := program, debug := debug }).outcome
    (outcome = .ok true ∨ outcome = .error (.exit 1) ∨ outcome = .error .stalled ∨
      ∃ h, outcome = .error h ∧ Crash program melody h) ∧
    ∀ f, Theory.beatSeconds program.tempo = .error f → f.isBadValue = false →
      melody.head?.any isTimed = true → outcome = .error (.fault f) := by
  intro program outcome
  have hformed : program.Formed := Program.load_formed cs (Program.formed_start debug)
  have hsane : Sane (vocabulary program melody) program { program := program, debug := debug } :=
    ⟨⟨program.mistakes, rfl⟩, rfl, fun _ h => (by cases h), _, .timbre .piano, rfl, rfl⟩
  have hready : Ready (vocabulary program melody) melody depthLimit := by
    obtain ⟨chosen, _, hfind⟩ := hplays
    exact melody_ready (hformed.melodies chosen melody hfind)
  have hcovers : Covers program (vocabulary program melody) (Stops program melody) :=
    covers_formed hformed
  constructor
  · have hmeets := perform_meets hcovers hsane hplays hready
    cases houtcome : outcome with
    | ok found => exact .inl (congrArg Except.ok (hmeets.2 found houtcome))
    | error h =>
      rcases hmeets.1 h houtcome with rfl | rfl | hcrash
      · exact .inr (.inl rfl)
      · exact .inr (.inr (.inl rfl))
      · exact .inr (.inr (.inr ⟨h, rfl, hcrash⟩))
  · intro f htempo hbad hhead
    cases melody with
    | nil => cases hhead
    | cons c rest =>
      have hmeets := melody_crashes hsane htempo hbad hcovers.toClosed hplays hhead
        ((ready_iff.mp hready).2 c (by simp))
      cases houtcome : outcome with
      | ok found => exact (hmeets.2 found houtcome).elim
      | error h => rw [hmeets.1 h houtcome]

def stillText : List Char :=
  "tempo = 0; melodia m \x7b tocar do minima; \x7d".toList

def stillProgram : Program :=
  (Program.loadText stillText {}).program

theorem still_melody_crashes :
    (Program.loadText stillText {}).accepted = true ∧
      ∃ melody, Plays stillProgram .none melody ∧
        (perform .none { program := stillProgram }).outcome = .error (.fault .divisionByZero) ∧
        Crash stillProgram melody (.fault .divisionByZero) := by
  have hfound : ((stillProgram.melodies.find? "m").any (·.head?.any isTimed)) = true := by
    decide +kernel
  obtain ⟨melody, hmelody, hhead⟩ := (Option.any_eq_true _ _).mp hfound
  have hname : (chooseMelody .none stillProgram.melodies).asName = .ok (some "m") := by
    decide +kernel
  have hplays : Plays stillProgram .none melody := ⟨"m", hname, hmelody⟩
  have hcause := crash_has_cause stillText false hplays
  have hcrash := hcause.2 .divisionByZero (by decide +kernel) rfl hhead
  refine ⟨by decide +kernel, melody, hplays, hcrash, ?_⟩
  rcases hcause.1 with h | h | h | ⟨h, hh, hfault⟩
  · cases h.symm.trans hcrash
  · cases h.symm.trans hcrash
  · cases h.symm.trans hcrash
  · cases hh.symm.trans hcrash
    exact hfault

end Performance

end Melody
