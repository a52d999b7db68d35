import Melody.Proofs.Bodies
import Melody.Proofs.Declarations
import Melody.Proofs.Margins

/-!
# The order of declarations

Declarations of different kinds can be exchanged without a change to the tempo, the waveform, the
envelope and all that is defined behind them. The instrument stays the same if and only if the
same declaration of an instrument opens both texts or neither text opens with one.
-/

set_option autoImplicit false

namespace Melody.Text

variable {α : Type} {recognise : List Char → Option (α × List Char)}

theorem find_from_stop (hs : Shrinks recognise) {fuel offset : Nat} {cs : List Char}
    {found : Found α} (h : found ∈ findFrom recognise fuel offset cs) : offset < found.stop := by
  fun_induction findFrom recognise fuel offset cs with
  | case1 => contradiction
  | case2 => contradiction
  | case3 fuel offset c cs item rest hfound stop ih =>
    have hlength := (hs _ _ _ hfound).length_lt
    have hstop : offset < stop := by omega
    rcases List.mem_cons.mp h with rfl | h
    · exact hstop
    · exact hstop.trans (ih h)
  | case4 fuel offset c cs hfound ih => exact (Nat.lt_succ_self offset).trans (ih h)

theorem slice_shift (w cs : List Char) (start stop : Nat) :
    slice (w ++ cs) (start + w.length) (stop + w.length) = slice cs start stop := by
  rw [slice, slice, Nat.add_sub_add_right, Nat.add_comm start, List.drop_length_add_append]

end Melody.Text

namespace Melody.Program

open Melody.Text

theorem closing_brace_shift (w cs : List Char) (place : Nat) :
    closingBrace? (w ++ cs) (place + w.length) = (closingBrace? cs place).map (· + w.length) := by
  have hplace : place + w.length + 1 = w.length + (place + 1) := by omega
  have hsum : (fun n => n + (w.length + (place + 1))) =
      (fun n => n + w.length) ∘ fun n => n + (place + 1) := by
    funext n
    simp only [Function.comp_apply]
    omega
  rw [closingBrace?, closingBrace?, hplace, List.drop_length_add_append, hsum, Option.map_map]

/-- A melody is the same behind a longer text. -/
theorem add_melody_shift (w cs : List Char) {found : Found (List Char)} (h : 0 < found.stop) :
    addMelody (w ++ cs) (found.shift w.length) = addMelody cs found := by
  have hstop : found.stop + w.length - 1 = found.stop - 1 + w.length := by omega
  funext p
  simp only [addMelody, Found.shift, hstop, closing_brace_shift]
  cases closingBrace? cs (found.stop - 1) with
  | none => rfl
  | some stop =>
    simp only [Option.map_some, slice_shift]

theorem melody_shrinks : Shrinks melodyHead? := by
  intro cs name rest h
  obtain ⟨afterKeyword, hkeyword, h⟩ := Option.bind_eq_some_iff.mp h
  obtain ⟨afterBlanks, hblanks, h⟩ := Option.bind_eq_some_iff.mp h
  obtain ⟨⟨word, afterWord⟩, hword, h⟩ := Option.bind_eq_some_iff.mp h
  obtain ⟨afterBrace, hbrace, h⟩ := Option.bind_eq_some_iff.mp h
  obtain ⟨-, rfl⟩ := Prod.mk.inj (Option.some.inj h)
  have hfront : '{' :: afterBrace <:+ afterWord := by
    have hskip := skip_suffix afterWord
    rw [drop_text_eq hbrace] at hskip
    exact hskip
  have hbehind : Behind afterBrace ('{' :: afterBrace) := ⟨List.suffix_cons _ _, by simp⟩
  exact hbehind.of_suffix (hfront.trans ((run_suffix hword).trans
    ((blanks_suffix hblanks).trans (drop_text_suffix hkeyword))))

section Behind

variable {cs rest : List Char}

theorem add_chords_behind (h : Skips chord? cs rest) : addChords cs = addChords rest := by
  obtain ⟨w, -, hfinds⟩ := h.find_all
  unfold addChords
  rw [hfinds, List.map_map]
  rfl

theorem add_functions_behind (h : Skips function? cs rest) :
    addFunctions cs = addFunctions rest := by
  obtain ⟨w, -, hfinds⟩ := h.find_all
  unfold addFunctions
  rw [hfinds, List.map_map]
  rfl

theorem add_melodies_behind (h : Skips melodyHead? cs rest) :
    addMelodies cs = addMelodies rest := by
  obtain ⟨w, rfl, hfinds⟩ := h.find_all
  unfold addMelodies
  rw [hfinds, List.map_map]
  congr 1
  apply List.map_congr_left
  intro found hfound
  exact add_melody_shift w rest (find_from_stop melody_shrinks hfound)

end Behind

/-- If at most one element has the kind that is picked, the order does not matter to the first
pick. -/
theorem find_some_perm {α β κ : Type} {pick : α → Option β} {kind : α → κ} {k : κ}
    (hpick : ∀ a, pick a = none ↔ kind a ≠ k) {l l' : List α} (hp : l.Perm l')
    (hone : (l.map kind).Nodup) : l.findSome? pick = l'.findSome? pick := by
  induction hp with
  | nil => rfl
  | cons a _ ih =>
    rw [List.findSome?_cons, List.findSome?_cons, ih (List.nodup_cons.mp hone).2]
  | swap a b l =>
    have hne : kind b ≠ kind a := by
      intro heq
      apply (List.nodup_cons.mp hone).1
      rw [heq, List.map_cons]
      exact List.mem_cons_self
    rw [List.findSome?_cons, List.findSome?_cons, List.findSome?_cons, List.findSome?_cons]
    by_cases hka : kind a = k
    · rw [(hpick b).mpr fun hkb => hne (hkb.trans hka.symm)]
    · rw [(hpick a).mpr hka]
  | trans hp _ ih ih' => exact (ih hone).trans (ih' ((hp.map kind).nodup_iff.mp hone))

section Reorder

variable {ds ds' : List (Spacing × Declaration)} (hp : (sayings ds).Perm (sayings ds'))
  (hone : ((sayings ds).map Saying.kind).Nodup) (rest : List Char)

include hp hone

theorem search_reorder {α : Type} {recognise : List Char → Option (α × List Char)}
    {keyword : List Char} {follow : Follow} (hk : Keyed keyword follow.Sees recognise)
    (hend : follow.accepts ';' = false) {pick : Saying → Option α} {k : Kind}
    (hpick : ∀ s, pick s = none ↔ s.kind ≠ k)
    (hhit : ∀ d rest item, pick d.saying = some item →
      ∃ more, recognise (Declaration.text rest d) = some (item, more))
    (hskip : ∀ kind, kind ≠ k → Ignores keyword follow kind) :
    searchFirst recognise (written ds rest) = searchFirst recognise (written ds' rest) := by
  rw [search_written hk hend hpick hhit hskip, search_written hk hend hpick hhit hskip,
    find_some_perm hpick hp hone]

theorem tempo_reorder : findTempo (written ds rest) = findTempo (written ds' rest) := by
  have hskip (kind : Kind) : Ignores "tempo".toList (.run isDecimal) kind := by
    cases kind <;> decide
  have hequals := search_reorder hp hone rest keyed_tempo_equals (by decide) Saying.tempo_none_iff
    (fun _ rest _ h => tempo_found rest h) fun kind => by cases kind <;> decide
  rw [findTempo, findTempo, hequals,
    (skips_written keyed_tempo_spaced (by decide) hskip ds rest).search,
    (skips_written keyed_tempo_spaced (by decide) hskip ds' rest).search]

theorem envelope_reorder :
    searchFirst envelope? (written ds rest) = searchFirst envelope? (written ds' rest) :=
  search_reorder hp hone rest keyed_envelope (by decide) Saying.envelope_none_iff
    (fun _ rest _ h => envelope_found rest h) fun kind => by cases kind <;> decide

theorem waveform_reorder :
    searchFirst waveform? (written ds rest) = searchFirst waveform? (written ds' rest) :=
  search_reorder hp hone rest keyed_waveform (by decide) Saying.waveform_none_iff
    (fun _ rest _ h => waveform_found rest h) fun kind => by cases kind <;> decide

/-- Chords, functions and melodies are those of the text behind the declarations. -/
theorem define_same_reorder : DefineSame (written ds rest) (written ds' rest) where
  tempo := tempo_reorder hp hone rest
  envelope := envelope_reorder hp hone rest
  waveform := waveform_reorder hp hone rest
  chords := by
    have hskip (ds : List (Spacing × Declaration)) : Skips chord? (written ds rest) rest :=
      skips_written keyed_chord (by decide) (fun kind => by cases kind <;> decide) ds rest
    rw [add_chords_behind (hskip ds), add_chords_behind (hskip ds')]
  functions := by
    have hskip (ds : List (Spacing × Declaration)) : Skips function? (written ds rest) rest :=
      skips_written keyed_function (by decide) (fun kind => by cases kind <;> decide) ds rest
    rw [add_functions_behind (hskip ds), add_functions_behind (hskip ds')]
  melodies := by
    have hskip (ds : List (Spacing × Declaration)) : Skips melodyHead? (written ds rest) rest :=
      skips_written keyed_melody (by decide) (fun kind => by cases kind <;> decide) ds rest
    rw [add_melodies_behind (hskip ds), add_melodies_behind (hskip ds')]

end Reorder

def openingInstrument : List Saying → String
  | .instrument name :: _ => String.ofList name
  | _ => "piano"

theorem find_instrument_eq (cs : List Char) :
    findInstrument cs = (dropText? "instrumento".toList cs >>= fun more =>
      blanks? more >>= word?).map Prod.fst := by
  unfold findInstrument Command.Line.keywordWord? Command.Line.keyword?
  cases dropText? "instrumento".toList cs with
  | none => rfl
  | some more =>
    dsimp only [Option.bind_eq_bind, Option.bind_some]
    cases blanks? more with
    | none => rfl
    | some more =>
      dsimp only [Option.bind_some]
      cases word? more <;> rfl

theorem instrument_written {ds : List (Spacing × Declaration)} (h : ds ≠ []) (rest : List Char) :
    ((findInstrument (written (oneLine ds) rest)).map String.ofList).getD "piano" =
      openingInstrument (sayings ds) := by
  obtain ⟨⟨before, d⟩, ds, rfl⟩ := List.exists_cons_of_ne_nil h
  cases d with
  | instrument between name beforeEnd =>
    have hfound := named_found (written (onLines ds) rest) "instrumento".toList between.onLine name
      beforeEnd.onLine
    have hname : findInstrument
        (written (oneLine ((before, .instrument between name beforeEnd) :: ds)) rest) =
          some name.1 := by
      rw [find_instrument_eq]
      exact congrArg (Option.map Prod.fst) hfound
    rw [hname]
    rfl
  | tempo | waveform | envelope => rfl

theorem settings_instrument (tempo : Option (Option Int)) (instrument : Option (List Char))
    (envelope : Option (Option (Envelope Float))) (waveform : Option (List Char)) :
    (settingsFrom tempo instrument envelope waveform).instrument =
      if tempo = some none then "piano" else (instrument.map String.ofList).getD "piano" := by
  rcases tempo with _ | _ | n
  · rcases envelope with _ | _ | e <;> rfl
  · rfl
  · rcases envelope with _ | _ | e <;> rfl

/-- A tempo that cannot be read ends the text in front of the instrument. -/
theorem process_instrument {ds : List (Spacing × Declaration)} (h : ds ≠ []) (rest : List Char) :
    (process (written ds rest) {}).program.instrument =
      if tempoIn (flatten (written ds rest)) = some none then "piano"
      else openingInstrument (sayings ds) := by
  have hsettings := congrArg GlobalSettings.instrument (define_settings (flatten (written ds rest)))
  rw [settings_instrument] at hsettings
  refine hsettings.trans ?_
  rw [flatten_written h, instrument_written h]

/-- Texts that define the same lead to programs that differ in their margins at most. -/
theorem define_same {cs cs' : List Char} (h : DefineSame cs cs') :
    Agree (Alongside fun _ _ => True) (define cs) (define cs') := by
  apply define_alongside h
  · rintro p q ⟨m, -, rfl⟩
    exact ⟨⟨{ m with parallel := hasParallelSwitch cs' }, trivial, rfl⟩, rfl⟩
  · have hkept (cs : List Char) (p : Program) : ∃ name,
        (setInstrument cs p).program = { p with instrument := name } ∧
          (setInstrument cs p).fault = none := by
      unfold setInstrument
      split <;> exact ⟨_, rfl, rfl⟩
    rintro p q ⟨m, -, rfl⟩
    obtain ⟨name, hname, hfault⟩ := hkept cs p
    obtain ⟨name', hname', hfault'⟩ := hkept cs' (p.within m)
    rw [hname, hname', hfault, hfault']
    exact ⟨⟨{ m with instrument := name' }, trivial, rfl⟩, rfl⟩

theorem process_same {ds ds' : List (Spacing × Declaration)} (hp : (sayings ds).Perm (sayings ds'))
    (hone : ((sayings ds).map Saying.kind).Nodup) (hds : ds ≠ []) (hds' : ds' ≠ [])
    (rest : List Char) :
    DefineSame (flatten (written ds rest)) (flatten (written ds' rest)) := by
  rw [flatten_written hds, flatten_written hds']
  apply define_same_reorder
  · rw [sayings_one_line, sayings_one_line]
    exact hp
  · rw [sayings_one_line]
    exact hone

/-- Declarations of different kinds in front of any text, in two orders and however they are
written: all that is defined is the same, but for the instrument. It is the same if and only if
both texts open with the same instrument, or if there is a tempo that cannot be read. -/
theorem reordered_declarations {ds ds' : List (Spacing × Declaration)}
    (hp : (sayings ds).Perm (sayings ds')) (hone : ((sayings ds).map Saying.kind).Nodup)
    (rest : List Char) :
    let p := process (written ds rest) {}
    let q := process (written ds' rest) {}
    (p.fault = q.fault ∧ p.program.tempo = q.program.tempo ∧
      p.program.waveform = q.program.waveform ∧ p.program.envelope = q.program.envelope ∧
      p.program.chords = q.program.chords ∧ p.program.functions = q.program.functions ∧
      p.program.melodies = q.program.melodies) ∧
    (p.program.instrument = q.program.instrument ↔
      tempoIn (flatten (written ds rest)) = some none ∨
        openingInstrument (sayings ds) = openingInstrument (sayings ds')) := by
  intro p q
  by_cases hds : ds = []
  · obtain rfl := hds
    obtain rfl : ds' = [] := List.map_eq_nil_iff.mp hp.nil_eq.symm
    exact ⟨⟨rfl, rfl, rfl, rfl, rfl, rfl, rfl⟩, iff_of_true rfl (.inr rfl)⟩
  · have hds' : ds' ≠ [] := by
      rintro rfl
      exact hds (List.map_eq_nil_iff.mp hp.eq_nil)
    have hsame := process_same hp hone hds hds' rest
    obtain ⟨⟨m, -, hq⟩, hfault⟩ := define_same hsame {} {} ⟨margin {}, trivial, rfl⟩
    change q.program = p.program.within m at hq
    refine ⟨⟨hfault, by rw [hq]; rfl, by rw [hq]; rfl, by rw [hq]; rfl, by rw [hq]; rfl,
      by rw [hq]; rfl, by rw [hq]; rfl⟩, ?_⟩
    have htempo : tempoIn (flatten (written ds rest)) = tempoIn (flatten (written ds' rest)) := by
      rw [tempo_in_eq, tempo_in_eq, hsame.tempo]
    rw [process_instrument hds, process_instrument hds', ← htempo]
    by_cases hnumber : tempoIn (flatten (written ds rest)) = some none
    · simp only [hnumber, if_true, true_or]
    · simp only [hnumber, if_false, false_or]

def ninety : Declaration :=
  .tempo ⟨[' '], by decide⟩ ⟨[' '], by decide⟩ ⟨['9', '0'], by decide⟩ noGap

def violin : Declaration :=
  .instrument ⟨[' '], by decide⟩ ⟨"violino".toList, by decide, by decide⟩ noGap

def tempoFirst : List (Spacing × Declaration) :=
  [(noGap, ninety), (⟨[' '], by decide⟩, violin)]

def violinFirst : List (Spacing × Declaration) :=
  [(noGap, violin), (⟨['\n'], by decide⟩, ninety)]

/-- Behind the tempo a violin is not heard; the tempo is 90 in both orders. -/
theorem violin_behind_tempo :
    (sayings tempoFirst).Perm (sayings violinFirst) ∧
      ((sayings tempoFirst).map Saying.kind).Nodup ∧
      (process (written tempoFirst " melodia m \x7b \x7d".toList) {}).program.tempo =
        (process (written violinFirst " melodia m \x7b \x7d".toList) {}).program.tempo ∧
      (process (written tempoFirst " melodia m \x7b \x7d".toList) {}).program.instrument ≠
        (process (written violinFirst " melodia m \x7b \x7d".toList) {}).program.instrument := by
  have hp : (sayings tempoFirst).Perm (sayings violinFirst) := .swap _ _ _
  have hone : ((sayings tempoFirst).map Saying.kind).Nodup := by decide
  have hboth := reordered_declarations hp hone " melodia m \x7b \x7d".toList
  refine ⟨hp, hone, hboth.1.2.1, mt hboth.2.mp ?_⟩
  rintro (htempo | hopening)
  · exact absurd htempo (by decide +kernel)
  · exact absurd hopening (by decide)

end Melody.Program
