import Mathlib.Logic.Relation
import Melody.Proofs.Acceptance
import Melody.Proofs.FirstFinds
import Melody.Proofs.OneLine

/-!
# Bodies of melodies and the global settings

The global settings are looked for in a whole program, so a melody can hold one. Two programs with
the same text outside their melodies and the same heads have the same settings if corresponding
bodies hold the same settings, and only then: bodies that do not hold the same settings are told
apart by a program around them.
-/

set_option autoImplicit false

namespace Melody.Program

open Melody.Text Melody.Source

structure GlobalSettings where
  tempo : Value := .int 120
  instrument : String := "piano"
  envelope : Option (Envelope Float) := none
  waveform : String := ""

def globalSettings (p : Program) : GlobalSettings :=
  ⟨p.tempo, p.instrument, p.envelope, p.waveform⟩

def newSettings (cs : List Char) : GlobalSettings :=
  (process cs {}).program.globalSettings

def tempoOf (form : List Char → Option (List Char × List Char)) (cs : List Char) :
    Option (Option Int) :=
  (searchFirst form cs).map fun digits => (parseInt digits).toOption

def tempoIn (cs : List Char) : Option (Option Int) :=
  (tempoOf tempoEquals? cs).or (tempoOf tempoSpaced? cs)

def envelopeIn (cs : List Char) : Option (Option (Envelope Float)) :=
  (searchFirst envelope? cs).map fun text => text.value.toOption

def waveformIn (cs : List Char) : Option (List Char) :=
  searchFirst waveform? cs

def settingsFrom (tempo : Option (Option Int)) (instrument : Option (List Char))
    (envelope : Option (Option (Envelope Float))) (waveform : Option (List Char)) :
      GlobalSettings :=
  match tempo with
  | some none => {}
  | _ =>
    let timed : GlobalSettings :=
      { tempo := .int ((tempo.bind id).getD 120)
        instrument := (instrument.map String.ofList).getD "piano" }
    match envelope with
    | some none => timed
    | _ =>
      { timed with
        envelope := envelope.bind id
        waveform := (waveform.map String.ofList).getD "" }

theorem keeps_settings_definitions (cs : List Char) :
    Keeps globalSettings (Loaded.run [addChords cs, addFunctions cs, addMelodies cs]) := by
  apply keeps_run
  simp only [List.forall_mem_cons, List.not_mem_nil, false_implies, implies_true, and_true]
  refine ⟨?chords, ?functions, ?melodies⟩
  case chords | functions =>
    apply keeps_run
    intro step hstep
    obtain ⟨found, -, rfl⟩ := List.mem_map.mp hstep
    exact fun p => rfl
  case melodies =>
    apply keeps_run
    intro step hstep
    obtain ⟨found, -, rfl⟩ := List.mem_map.mp hstep
    intro p
    unfold addMelody
    split <;> rfl

section Run

variable {step : Program → Loaded} {rest : List (Program → Loaded)} {p q : Program}
  {printed : List String}

theorem run_on (h : step p = ⟨q, printed, none⟩) :
    (Loaded.run (step :: rest) p).program = (Loaded.run rest q).program := by
  rw [Loaded.run, Loaded.andThen, h]

theorem run_stop {f : Fault} (h : step p = ⟨q, printed, some f⟩) :
    (Loaded.run (step :: rest) p).program = q := by
  rw [Loaded.run, Loaded.andThen, h]

end Run

theorem waveform_settings (cs : List Char) (p : Program) :
    (Loaded.run
      [setWaveform cs, addChords cs, addFunctions cs, addMelodies cs] p).program.globalSettings
      = { p.globalSettings with
          waveform := ((waveformIn cs).map String.ofList).getD p.waveform } := by
  unfold waveformIn
  cases h : searchFirst waveform? cs with
  | none =>
    rw [run_on (by rw [setWaveform, h]), keeps_settings_definitions]
    rfl
  | some word =>
    rw [run_on (by rw [setWaveform, h]), keeps_settings_definitions]
    rfl

theorem envelope_settings (cs : List Char) (p : Program) :
    (Loaded.run [setEnvelope cs, setWaveform cs, addChords cs, addFunctions cs, addMelodies cs]
        p).program.globalSettings =
      match envelopeIn cs with
      | some none => p.globalSettings
      | envelope =>
        { p.globalSettings with
          envelope := (envelope.bind id).or p.envelope
          waveform := ((waveformIn cs).map String.ofList).getD p.waveform } := by
  unfold envelopeIn
  cases h : searchFirst envelope? cs with
  | none =>
    rw [run_on (by rw [setEnvelope, h]), waveform_settings]
    rfl
  | some text =>
    cases hvalue : text.value with
    | error f =>
      rw [run_stop (by rw [setEnvelope, h]; dsimp only; rw [hvalue])]
      simp [hvalue, Except.toOption]
    | ok e =>
      rw [run_on (by rw [setEnvelope, h]; dsimp only; rw [hvalue]), waveform_settings]
      simp [hvalue, Except.toOption, globalSettings]

theorem timed_settings (cs : List Char) {tempo : Option (Option Int)} (htempo : tempo ≠ some none)
    {p : Program} (hp : p.globalSettings = { tempo := .int ((tempo.bind id).getD 120) }) :
    (Loaded.run [setInstrument cs, setEnvelope cs, setWaveform cs, addChords cs, addFunctions cs,
        addMelodies cs] p).program.globalSettings =
      settingsFrom tempo (findInstrument cs) (envelopeIn cs) (waveformIn cs) := by
  have hfrom (instrument : Option (List Char)) (q : Program)
      (hq : q.globalSettings = { tempo := .int ((tempo.bind id).getD 120)
                                 instrument := (instrument.map String.ofList).getD "piano" }) :
      (Loaded.run [setEnvelope cs, setWaveform cs, addChords cs, addFunctions cs, addMelodies cs]
          q).program.globalSettings =
        settingsFrom tempo instrument (envelopeIn cs) (waveformIn cs) := by
    have henvelope : q.envelope = none := congrArg GlobalSettings.envelope hq
    have hwaveform : q.waveform = "" := congrArg GlobalSettings.waveform hq
    rw [envelope_settings, hq, henvelope, hwaveform]
    obtain _ | _ | n := tempo
    · rcases envelopeIn cs with _ | _ | e <;> rfl
    · exact absurd rfl htempo
    · rcases envelopeIn cs with _ | _ | e <;> rfl
  cases h : findInstrument cs with
  | none =>
    rw [run_on (by rw [setInstrument, h])]
    exact hfrom none p hp
  | some word =>
    rw [run_on (by rw [setInstrument, h])]
    apply hfrom (some word)
    rw [globalSettings, GlobalSettings.mk.injEq] at hp ⊢
    exact ⟨hp.1, rfl, hp.2.2⟩

theorem tempo_in_eq (cs : List Char) :
    tempoIn cs = (findTempo cs).map fun digits => (parseInt digits).toOption := by
  rw [tempoIn, tempoOf, tempoOf, ← Option.map_or]
  unfold findTempo
  cases searchFirst tempoEquals? cs <;> rfl

/-- The settings of a new program after a text on one line. -/
theorem define_settings (cs : List Char) :
    (define cs {}).program.globalSettings =
      settingsFrom (tempoIn cs) (findInstrument cs) (envelopeIn cs) (waveformIn cs) := by
  unfold define
  rw [run_on rfl, run_on rfl, tempo_in_eq]
  cases h : findTempo cs with
  | none =>
    rw [run_on (by rw [setTempo, h])]
    exact timed_settings cs (by simp) rfl
  | some digits =>
    cases hnumber : parseInt digits with
    | error f =>
      rw [run_stop (by rw [setTempo, h]; dsimp only; rw [hnumber])]
      simp [hnumber, Except.toOption, settingsFrom, globalSettings]
    | ok n =>
      rw [run_on (by rw [setTempo, h]; dsimp only; rw [hnumber])]
      simp only [Option.map_some, hnumber, Except.toOption]
      exact timed_settings cs (by simp) rfl

structure Front where
  text : List Char
  head : ∃ top gap name gap', text = top ++ "melodia".toList ++ gap ++ name ++ gap' ∧ gap ≠ [] ∧
    (∀ c ∈ gap, isBlank c) ∧ IsWord name ∧ ∀ c ∈ gap', isBlank c
  closed : EndsBefore '{' text

structure Body where
  text : List Char
  closed : EndsBefore '}' ('{' :: text)

def Front.fill (f : Front) (b : Body) (rest : List Char) : List Char :=
  f.text ++ '{' :: (b.text ++ '}' :: rest)

def Front.line (f : Front) : List Char :=
  (flatten (f.text ++ ['{'])).dropLast

def Body.block (b : Body) : List Char :=
  flatten ('{' :: (b.text ++ ['}']))

theorem solid_open : Solid '{' := by decide

theorem solid_close : Solid '}' := by decide

theorem block_parts (b : Body) : ∃ inner, b.block = '{' :: (inner ++ ['}']) := by
  obtain ⟨front, hfront⟩ := flatten_last solid_close b.closed
  rw [List.cons_append, flatten_cons solid_open] at hfront
  cases front with
  | nil => simp at hfront
  | cons c inner =>
    rw [List.cons_append] at hfront
    obtain ⟨rfl, hinner⟩ := List.cons.inj hfront
    exact ⟨inner, by rw [Body.block, flatten_cons solid_open, hinner]⟩

/-- A program on one line is the front, the block of the body, and the rest. -/
theorem flatten_fill (f : Front) (b : Body) (rest : List Char) :
    flatten (f.fill b rest) = f.line ++ (b.block ++ behind rest) := by
  obtain ⟨line, hline⟩ := flatten_last solid_open f.closed
  have hfront : f.line = line := by rw [Front.line, hline, List.dropLast_concat]
  have hbody := flatten_append solid_close b.closed rest
  rw [List.cons_append, List.cons_append, flatten_cons solid_open] at hbody
  rw [Front.fill, flatten_append solid_open f.closed, hline, hfront, List.append_assoc,
    List.singleton_append, hbody, Body.block]

section Finds

variable (f : Front) (b : Body) (rest : List Char)

theorem search_fill {α : Type} {recognise : List Char → Option (α × List Char)}
    (h : ∀ {c}, IsBrace c → Avoids c recognise) (hnil : recognise [] = none) :
    searchFirst recognise (flatten (f.fill b rest)) =
      (searchFirst recognise f.line).or
        ((searchFirst recognise b.block).or (searchFirst recognise (behind rest))) := by
  obtain ⟨inner, hinner⟩ := block_parts b
  have hopen (a b : List Char) := search_avoids (h (.inl rfl)) hnil a b
  have hclose (a b : List Char) := search_avoids (h (.inr rfl)) hnil a b
  have hblock : searchFirst recognise b.block = searchFirst recognise inner := by
    have hstart := hopen [] (inner ++ ['}'])
    rw [List.nil_append, search_nil hnil, Option.none_or] at hstart
    rw [hinner, hstart, hclose, search_nil hnil, Option.or_none]
  rw [flatten_fill, hblock, hinner, List.cons_append, hopen, List.append_assoc,
    List.singleton_append, hclose]

theorem envelope_fill :
    envelopeIn (flatten (f.fill b rest)) =
      (envelopeIn f.line).or
        ((if endsEnvelope f.line then envelopeIn ("envelope".toList ++ b.block)
          else envelopeIn b.block).or (envelopeIn (behind rest))) := by
  obtain ⟨inner, hinner⟩ := block_parts b
  have hsearch : searchFirst envelope? (flatten (f.fill b rest)) =
      (searchFirst envelope? f.line).or
        ((if endsEnvelope f.line then searchFirst envelope? ("envelope".toList ++ b.block)
          else searchFirst envelope? b.block).or (searchFirst envelope? (behind rest))) := by
    have hshape : f.line ++ (b.block ++ behind rest) =
        (f.line ++ '{' :: inner) ++ '}' :: behind rest := by
      rw [hinner]
      simp
    rw [flatten_fill, hshape, search_envelope_close, List.append_assoc, List.cons_append,
      search_envelope_open, hinner, Option.or_assoc]
  unfold envelopeIn
  rw [hsearch]
  split <;> simp only [Option.map_or]

theorem waveform_fill :
    waveformIn (flatten (f.fill b rest)) =
      (waveformIn f.line).or ((waveformIn b.block).or (waveformIn (behind rest))) :=
  search_fill f b rest waveform_avoids rfl

theorem instrument_fill :
    findInstrument (flatten (f.fill b rest)) = findInstrument f.line := by
  obtain ⟨inner, hinner⟩ := block_parts b
  rw [flatten_fill, hinner, List.cons_append]
  exact instrument_avoids (.inl rfl) _ _

theorem tempo_fill {form : List Char → Option (List Char × List Char)}
    (h : ∀ {c}, IsBrace c → Avoids c form) (hnil : form [] = none) :
    tempoOf form (flatten (f.fill b rest)) =
      (tempoOf form f.line).or ((tempoOf form b.block).or (tempoOf form (behind rest))) := by
  unfold tempoOf
  rw [search_fill f b rest h hnil, Option.map_or, Option.map_or]

end Finds

def statedTempo (cs : List Char) : Option (Bool × Option Int) :=
  ((tempoOf tempoEquals? cs).map (true, ·)).or ((tempoOf tempoSpaced? cs).map (false, ·))

/-- Both bodies hold the same tempo, the same waveform and the same envelope, also if the name of
the melody ends with the word that makes the body itself an envelope. -/
structure Body.SameSettings (b b' : Body) : Prop where
  tempo : statedTempo b.block = statedTempo b'.block
  envelope : envelopeIn b.block = envelopeIn b'.block
  named : envelopeIn ("envelope".toList ++ b.block) = envelopeIn ("envelope".toList ++ b'.block)
  waveform : waveformIn b.block = waveformIn b'.block

theorem stated_iff (cs cs' : List Char) :
    statedTempo cs = statedTempo cs' ↔
      tempoOf tempoEquals? cs = tempoOf tempoEquals? cs' ∧
        (tempoOf tempoEquals? cs = none →
          tempoOf tempoSpaced? cs = tempoOf tempoSpaced? cs') := by
  unfold statedTempo
  cases tempoOf tempoEquals? cs <;> cases tempoOf tempoEquals? cs' <;>
    cases tempoOf tempoSpaced? cs <;> cases tempoOf tempoSpaced? cs' <;> simp

theorem same_tempo {b b' : Body} (h : statedTempo b.block = statedTempo b'.block) (f : Front)
    (rest : List Char) :
    tempoIn (flatten (f.fill b rest)) = tempoIn (flatten (f.fill b' rest)) := by
  obtain ⟨hequals, hspaced⟩ := (stated_iff _ _).mp h
  simp only [tempoIn, tempo_fill f _ rest tempo_equals_avoids rfl,
    tempo_fill f _ rest tempo_spaced_avoids rfl]
  rw [← hequals]
  cases htempo : tempoOf tempoEquals? b.block with
  | none => rw [hspaced htempo]
  | some n => cases tempoOf tempoEquals? f.line <;> rfl

theorem new_settings_fill (f : Front) (b : Body) (rest : List Char) :
    newSettings (f.fill b rest) =
      settingsFrom (tempoIn (flatten (f.fill b rest))) (findInstrument f.line)
        (envelopeIn (flatten (f.fill b rest))) (waveformIn (flatten (f.fill b rest))) := by
  unfold newSettings process
  rw [define_settings, instrument_fill]

/-- Bodies that hold the same settings can stand for each other. -/
theorem settings_exchange {b b' : Body} (h : b.SameSettings b') (f : Front) (rest : List Char) :
    newSettings (f.fill b rest) = newSettings (f.fill b' rest) := by
  have henvelope : envelopeIn (flatten (f.fill b rest)) =
      envelopeIn (flatten (f.fill b' rest)) := by
    rw [envelope_fill, envelope_fill, h.envelope, h.named]
  have hwaveform : waveformIn (flatten (f.fill b rest)) =
      waveformIn (flatten (f.fill b' rest)) := by
    rw [waveform_fill, waveform_fill, h.waveform]
  rw [new_settings_fill, new_settings_fill, same_tempo h.tempo, henvelope, hwaveform]

def Front.ofPlain (top name : List Char) (hname : IsWord name)
    (h : Plain (top ++ "melodia".toList ++ [' '] ++ name ++ [' '])) : Front where
  text := top ++ "melodia".toList ++ [' '] ++ name ++ [' ']
  head := ⟨top, [' '], name, [' '], rfl, by decide, by decide, hname, by decide⟩
  closed := plain_ends h solid_open

def fluteFront : Front :=
  .ofPlain "instrumento flauta; ".toList ['m'] ⟨by decide, by decide⟩ (by decide)

def waveFront : Front :=
  .ofPlain "forma_onda x; tempo = 0; ".toList ['m'] ⟨by decide, by decide⟩ (by decide)

def namedFront : Front :=
  .ofPlain "forma_onda x; tempo = 0; ".toList "envelope".toList ⟨by decide, by decide⟩ (by decide)

def stagesFront : Front :=
  .ofPlain
    "tempo = 0; envelope \x7b attack = 0; decay = 0; sustain = 0; release = 0; \x7d ".toList
    ['m'] ⟨by decide, by decide⟩ (by decide)

theorem tempo_tells {v v' : Option Int} (h : v ≠ v') (word : List Char)
    (hword : String.ofList word ≠ "piano") (e e' : Option (Option (Envelope Float)))
    (w w' : Option (List Char)) :
    settingsFrom (some v) (some word) e w ≠ settingsFrom (some v') (some word) e' w' := by
  have hread (n : Int) (e : Option (Option (Envelope Float))) (w : Option (List Char)) :
      (settingsFrom (some (some n)) (some word) e w).tempo = .int n ∧
        (settingsFrom (some (some n)) (some word) e w).instrument = String.ofList word := by
    rcases e with _ | _ | e <;> exact ⟨rfl, rfl⟩
  intro heq
  have htempo := congrArg GlobalSettings.tempo heq
  have hinstrument := congrArg GlobalSettings.instrument heq
  cases v with
  | none =>
    cases v' with
    | none => exact h rfl
    | some n =>
      rw [(hread n e' w').2] at hinstrument
      exact hword hinstrument.symm
  | some n =>
    cases v' with
    | none =>
      rw [(hread n e w).2] at hinstrument
      exact hword hinstrument
    | some n' =>
      rw [(hread n e w).1, (hread n' e' w').1] at htempo
      exact h (congrArg some (Value.int.inj htempo))

theorem envelope_tells {e e' : Option (Option (Envelope Float))} (h : e ≠ e') (n : Int)
    (i : Option (List Char)) (w w' : List Char) (hw : String.ofList w ≠ "")
    (hw' : String.ofList w' ≠ "") :
    settingsFrom (some (some n)) i e (some w) ≠ settingsFrom (some (some n)) i e' (some w') := by
  intro heq
  have henvelope := congrArg GlobalSettings.envelope heq
  have hwaveform := congrArg GlobalSettings.waveform heq
  rcases e with _ | _ | e <;> rcases e' with _ | _ | e'
  · exact h rfl
  · exact hw hwaveform
  · cases henvelope
  · exact hw' hwaveform.symm
  · exact h rfl
  · cases henvelope
  · cases henvelope
  · cases henvelope
  · exact h (congrArg (fun e => some (some e)) (Option.some.inj henvelope))

theorem getD_tells {x x' : Option (Option Int)} (h : x ≠ x') :
    x.getD (some 0) ≠ x'.getD (some 0) ∨ x.getD (some 1) ≠ x'.getD (some 1) := by
  by_contra hboth
  rw [not_or, not_ne_iff, not_ne_iff] at hboth
  obtain ⟨hzero, hone⟩ := hboth
  cases x with
  | none =>
    cases x' with
    | none => exact h rfl
    | some v =>
      rw [Option.getD_none, Option.getD_some] at hzero hone
      cases hzero.trans hone.symm
  | some v =>
    cases x' with
    | none =>
      rw [Option.getD_none, Option.getD_some] at hzero hone
      cases hzero.symm.trans hone
    | some v' => exact h (congrArg some hzero)

/-- Bodies with different tempos: a tempo behind the melody shows whether a body has one. -/
theorem tempo_separates {b b' : Body} (h : statedTempo b.block ≠ statedTempo b'.block) :
    ∃ rest, newSettings (fluteFront.fill b rest) ≠ newSettings (fluteFront.fill b' rest) := by
  have hflute : findInstrument fluteFront.line = some "flauta".toList := by decide +kernel
  have hequals : tempoOf tempoEquals? fluteFront.line = none := by decide +kernel
  have hspaced : tempoOf tempoSpaced? fluteFront.line = none := by decide +kernel
  have htell {rest : List Char} {v v' : Option Int}
      (hv : tempoIn (flatten (fluteFront.fill b rest)) = some v)
      (hv' : tempoIn (flatten (fluteFront.fill b' rest)) = some v') (hne : v ≠ v') :
      newSettings (fluteFront.fill b rest) ≠ newSettings (fluteFront.fill b' rest) := by
    rw [new_settings_fill, new_settings_fill, hflute, hv, hv']
    exact tempo_tells hne _ (by decide) _ _ _ _
  have hin (b : Body) (rest : List Char) : tempoIn (flatten (fluteFront.fill b rest)) =
      ((tempoOf tempoEquals? b.block).or (tempoOf tempoEquals? (behind rest))).or
        ((tempoOf tempoSpaced? b.block).or (tempoOf tempoSpaced? (behind rest))) := by
    rw [tempoIn, tempo_fill _ _ _ tempo_equals_avoids rfl, tempo_fill _ _ _ tempo_spaced_avoids rfl,
      hequals, hspaced, Option.none_or, Option.none_or]
  rw [Ne, stated_iff, not_and] at h
  by_cases hsame : tempoOf tempoEquals? b.block = tempoOf tempoEquals? b'.block
  · obtain ⟨hnone, hdiffer⟩ := Classical.not_imp.mp (h hsame)
    have hnone' := hsame.symm.trans hnone
    have hspaced {rest : List Char} {n : Int} (he : tempoOf tempoEquals? (behind rest) = none)
        (hs : tempoOf tempoSpaced? (behind rest) = some (some n))
        (hne : (tempoOf tempoSpaced? b.block).getD (some n) ≠
          (tempoOf tempoSpaced? b'.block).getD (some n)) :
        newSettings (fluteFront.fill b rest) ≠ newSettings (fluteFront.fill b' rest) := by
      apply htell _ _ hne
      · rw [hin, hnone, he, hs, Option.or_some]
        rfl
      · rw [hin, hnone', he, hs, Option.or_some]
        rfl
    rcases getD_tells hdiffer with hzero | hone
    · exact ⟨" tempo 0".toList, hspaced (by decide +kernel) (by decide +kernel) hzero⟩
    · exact ⟨" tempo 1".toList, hspaced (by decide +kernel) (by decide +kernel) hone⟩
  · have hequals {rest : List Char} {n : Int}
        (he : tempoOf tempoEquals? (behind rest) = some (some n))
        (hne : (tempoOf tempoEquals? b.block).getD (some n) ≠
          (tempoOf tempoEquals? b'.block).getD (some n)) :
        newSettings (fluteFront.fill b rest) ≠ newSettings (fluteFront.fill b' rest) := by
      apply htell _ _ hne
      · rw [hin, he, Option.or_some, Option.some_or]
      · rw [hin, he, Option.or_some, Option.some_or]
    rcases getD_tells hsame with hzero | hone
    · exact ⟨" tempo = 0".toList, hequals (by decide +kernel) hzero⟩
    · exact ⟨" tempo = 1".toList, hequals (by decide +kernel) hone⟩

theorem behind_nil : behind [] = [] := by decide +kernel

/-- Bodies with different envelopes, at a front that ends with the word or does not. -/
theorem envelope_separates {f : Front} {b b' : Body} {n : Int} {w : List Char}
    (htempo : tempoOf tempoEquals? f.line = some (some n)) (hwaveform : waveformIn f.line = some w)
    (hw : String.ofList w ≠ "") (hnone : envelopeIn f.line = none)
    (h : (if endsEnvelope f.line then envelopeIn ("envelope".toList ++ b.block)
          else envelopeIn b.block) ≠
        if endsEnvelope f.line then envelopeIn ("envelope".toList ++ b'.block)
          else envelopeIn b'.block) :
    newSettings (f.fill b []) ≠ newSettings (f.fill b' []) := by
  have hin (b : Body) : tempoIn (flatten (f.fill b [])) = some (some n) := by
    rw [tempoIn, tempo_fill _ _ _ tempo_equals_avoids rfl, htempo, Option.some_or, Option.some_or]
  have hend : envelopeIn [] = none := rfl
  rw [new_settings_fill, new_settings_fill, hin, hin, waveform_fill, waveform_fill, hwaveform,
    Option.some_or, Option.some_or, envelope_fill, envelope_fill, hnone, behind_nil, hend,
    Option.none_or, Option.none_or, Option.or_none, Option.or_none]
  exact envelope_tells h n _ w w hw hw

theorem search_item {α : Type} {recognise : List Char → Option (α × List Char)} {cs : List Char}
    {item : α} (h : searchFirst recognise cs = some item) :
    ∃ part rest, recognise part = some (item, rest) := by
  induction cs with
  | nil =>
    obtain ⟨found, hfound, rfl⟩ := Option.map_eq_some_iff.mp h
    exact ⟨[], found.2, hfound⟩
  | cons c cs ih =>
    rw [searchFirst] at h
    split at h
    · rename_i found rest hfound
      cases h
      exact ⟨c :: cs, rest, hfound⟩
    · exact ih h

theorem waveform_word {cs word : List Char} (h : waveformIn cs = some word) : word ≠ [] := by
  obtain ⟨part, rest, hfound⟩ := search_item h
  obtain ⟨more, -, hfound⟩ := Option.bind_eq_some_iff.mp hfound
  obtain ⟨start, -, hword⟩ := Option.bind_eq_some_iff.mp hfound
  unfold word? run? at hword
  split at hword
  · cases hword
  · rename_i hne
    cases hword
    exact hne

theorem waveform_tells {w w' : Option (List Char)} (h : w ≠ w') (hw : w ≠ some [])
    (hw' : w' ≠ some []) :
    (w.map String.ofList).getD "" ≠ (w'.map String.ofList).getD "" := by
  have hempty {word : List Char} (hword : String.ofList word = "") : word = [] :=
    String.ofList_injective hword
  intro heq
  cases w with
  | none =>
    cases w' with
    | none => exact h rfl
    | some word => exact hw' (congrArg some (hempty heq.symm))
  | some word =>
    cases w' with
    | none => exact hw (congrArg some (hempty heq))
    | some word' => exact h (congrArg some (String.ofList_injective heq))

theorem waveform_separates {b b' : Body} (h : waveformIn b.block ≠ waveformIn b'.block) :
    newSettings (stagesFront.fill b []) ≠ newSettings (stagesFront.fill b' []) := by
  have htempo : tempoOf tempoEquals? stagesFront.line = some (some 0) := by decide +kernel
  have hwaveform : waveformIn stagesFront.line = none := by decide +kernel
  have hsome : ((envelopeIn stagesFront.line).bind id).isSome = true := by decide +kernel
  obtain ⟨e, he⟩ := Option.isSome_iff_exists.mp hsome
  obtain ⟨_, henvelope, rfl⟩ := Option.bind_eq_some_iff.mp he
  have hin (b : Body) :
      (newSettings (stagesFront.fill b [])).waveform =
        ((waveformIn b.block).map String.ofList).getD "" := by
    have hend : waveformIn [] = none := rfl
    rw [new_settings_fill, tempoIn, tempo_fill _ _ _ tempo_equals_avoids rfl, htempo,
      Option.some_or,
      Option.some_or, envelope_fill, henvelope, Option.some_or, waveform_fill,
      hwaveform, behind_nil,
      hend, Option.none_or, Option.or_none]
    rfl
  intro heq
  have hshown := congrArg GlobalSettings.waveform heq
  rw [hin, hin] at hshown
  exact waveform_tells h (fun hw => waveform_word hw rfl) (fun hw => waveform_word hw rfl) hshown

def Exchanging (R : Body → Body → Prop) (cs cs' : List Char) : Prop :=
  ∃ f b b' rest, R b b' ∧ cs = Front.fill f b rest ∧ cs' = Front.fill f b' rest

/-- Bodies that do not hold the same settings are told apart by some program around them. -/
theorem settings_separate {b b' : Body} (h : ¬ b.SameSettings b') :
    ∃ (f : Front) (rest : List Char),
      newSettings (f.fill b rest) ≠ newSettings (f.fill b' rest) := by
  have hbraceless {cs : List Char} (hcs : '{' ∉ cs) : envelopeIn cs = none := by
    rw [envelopeIn, search_braceless hcs]
    rfl
  by_contra hsame
  simp only [not_exists, not_not] at hsame
  apply h
  constructor
  case tempo =>
    by_contra hne
    obtain ⟨rest, hrest⟩ := tempo_separates hne
    exact hrest (hsame fluteFront rest)
  case envelope =>
    by_contra hne
    have hunnamed : endsEnvelope waveFront.line = false := by decide +kernel
    have htempo : tempoOf tempoEquals? waveFront.line = some (some 0) := by decide +kernel
    have hwaveform : waveformIn waveFront.line = some ['x'] := by decide +kernel
    refine envelope_separates htempo hwaveform (by decide) (hbraceless (by decide +kernel)) ?_
      (hsame waveFront [])
    rw [hunnamed]
    exact hne
  case named =>
    by_contra hne
    have hnamed : endsEnvelope namedFront.line = true := by decide +kernel
    have htempo : tempoOf tempoEquals? namedFront.line = some (some 0) := by decide +kernel
    have hwaveform : waveformIn namedFront.line = some ['x'] := by decide +kernel
    refine envelope_separates htempo hwaveform (by decide) (hbraceless (by decide +kernel)) ?_
      (hsame namedFront [])
    rw [hnamed]
    exact hne
  case waveform =>
    by_contra hne
    exact waveform_separates hne (hsame stagesFront [])

/-- Exchanging bodies, one or many, for related ones keeps the settings of every program, if and
only if related bodies hold the same settings. -/
theorem bodies_keep_settings_iff (R : Body → Body → Prop) :
    (∀ cs cs', Relation.ReflTransGen (Exchanging R) cs cs' → newSettings cs = newSettings cs') ↔
      ∀ b b', R b b' → b.SameSettings b' := by
  constructor
  · intro hkeep b b' hrelated
    by_contra hdiffer
    obtain ⟨f, rest, hne⟩ := settings_separate hdiffer
    exact hne (hkeep _ _ (.single ⟨f, b, b', rest, hrelated, rfl, rfl⟩))
  · intro hrelated cs cs' hchain
    induction hchain with
    | refl => rfl
    | tail _ hlast ih =>
      obtain ⟨f, b, b', rest, hR, rfl, rfl⟩ := hlast
      rw [ih, settings_exchange (hrelated b b' hR)]

def Body.ofPlain (text : List Char) (h : Plain ('{' :: text)) : Body :=
  ⟨text, plain_ends h solid_close⟩

def bareFront : Front :=
  .ofPlain [] ['m'] ⟨by decide, by decide⟩ (by decide)

def squareBody : Body :=
  .ofPlain " configurar_forma_onda square; ".toList (by decide)

def emptyBody : Body :=
  .ofPlain [' '] (by decide)

/-- Not all bodies can stand for each other: a command for the waveform of a melody sets the
waveform of the whole program. -/
theorem square_body_sets_waveform :
    (newSettings (bareFront.fill squareBody [])).waveform = "square" ∧
      (newSettings (bareFront.fill emptyBody [])).waveform = "" ∧
      ¬ ∀ cs cs', Relation.ReflTransGen (Exchanging fun _ _ => True) cs cs' →
        newSettings cs = newSettings cs' := by
  refine ⟨by decide +kernel, by decide +kernel, ?_⟩
  rw [bodies_keep_settings_iff]
  intro hsame
  have hwaveform := (hsame squareBody emptyBody trivial).waveform
  have hsquare : waveformIn squareBody.block = some "square".toList := by decide +kernel
  have hempty : waveformIn emptyBody.block = none := by decide +kernel
  rw [hsquare, hempty] at hwaveform
  cases hwaveform

end Melody.Program
