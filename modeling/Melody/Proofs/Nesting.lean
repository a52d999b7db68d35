import Melody.Proofs.Manners
import Melody.Proofs.Searches

/-!
# How deep blocks nest

The blocks of a command that was read hold at most one further level of blocks, because a block
is recognised only if the blocks within it hold none. Lines give no block at all, and a find gives
one command of the shape that was searched for. So the reader is called within itself twice at
most, and the commands that come out are trees of two levels at most.
-/

set_option autoImplicit false

namespace Melody.Command

open Melody.Text

def shape? : Command → Option Shape
  | .branch .. => some .branch
  | .forEach .. => some .forEach
  | .loop .. => some .loop
  | _ => none

def ofBlock : Block → List Command
  | .commands cs => cs
  | _ => []

def inner : Command → List Command
  | .branch _ whenTrue whenFalse => ofBlock whenTrue ++ ofBlock whenFalse
  | .forEach _ _ _ body => ofBlock body
  | .loop _ body => ofBlock body
  | _ => []

def NestsWithin : Nat → Command → Prop
  | 0, c => c.shape? = none
  | depth + 1, c => ∀ c' ∈ c.inner, NestsWithin depth c'

def Reading.Within (depth : Nat) (r : Reading) : Prop :=
  ∀ c ∈ r.commands, NestsWithin depth c

def isPlain : Command → Bool
  | .play .. | .playChord .. | .pause .. | .envelope .. | .waveform .. | .instrument .. => true
  | .call .. | .startParallel | .endParallel => true
  | _ => false

inductive Layered : Nat → Command → Prop where
  | plain {depth : Nat} {c : Command} (h : c.isPlain) : Layered depth c
  | branch {depth : Nat} (condition : Slot) {whenTrue : List Command}
      (htrue : ∀ c ∈ whenTrue, Layered depth c) :
      Layered (depth + 1) (.branch condition (.commands whenTrue) (.value .none))
  | choice {depth : Nat} (condition : Slot) {whenTrue whenFalse : List Command}
      (htrue : ∀ c ∈ whenTrue, Layered depth c) (hfalse : ∀ c ∈ whenFalse, Layered depth c) :
      Layered (depth + 1) (.branch condition (.commands whenTrue) (.commands whenFalse))
  | forEach {depth : Nat} (name collection reversed : Slot) {body : List Command}
      (hbody : ∀ c ∈ body, Layered depth c) :
      Layered (depth + 1) (.forEach name collection reversed (.commands body))
  | loop {depth : Nat} (times : Slot) {body : List Command}
      (hbody : ∀ c ∈ body, Layered depth c) :
      Layered (depth + 1) (.loop times (.commands body))

theorem nests_of_plain {c : Command} (h : c.isPlain) (depth : Nat) : NestsWithin depth c := by
  have hflat : c.shape? = none ∧ c.inner = [] := by
    cases c with
    | branch => contradiction
    | forEach => contradiction
    | loop => contradiction
    | _ => exact ⟨rfl, rfl⟩
  cases depth with
  | zero => exact hflat.1
  | succ depth => simp [NestsWithin, hflat.2]

theorem Layered.nests {depth : Nat} {c : Command} (h : Layered depth c) :
    NestsWithin depth c := by
  induction h with
  | plain h => exact nests_of_plain h _
  | branch condition htrue ih => simpa [NestsWithin, inner, ofBlock] using ih
  | choice condition htrue hfalse iht ihf =>
    intro c hc
    rcases List.mem_append.mp hc with hc | hc
    · exact iht c hc
    · exact ihf c hc
  | forEach name collection reversed hbody ih => exact ih
  | loop times hbody ih => exact ih

theorem Layered.succ {depth : Nat} {c : Command} (h : Layered depth c) :
    Layered (depth + 1) c := by
  induction h with
  | plain h => exact .plain h
  | branch condition htrue ih => exact .branch condition ih
  | choice condition htrue hfalse iht ihf => exact .choice condition iht ihf
  | forEach name collection reversed hbody ih => exact .forEach name collection reversed ih
  | loop times hbody ih => exact .loop times ih

theorem layered_builds (depth : Nat) : Builds (Layered depth) (Layered (depth + 1)) where
  within := Layered.succ
  start := .plain rfl
  stop := .plain rfl
  branch condition _ := .branch (textSlot condition)
  choice condition _ _ := .choice (textSlot condition)
  forEach name collection _ _ := .forEach (textSlot name) (textSlot collection) _
  loop _ _ := .loop _

inductive Line.Gives (ctx : Context) : Line → Command → Prop where
  | startParallel : Gives ctx .startParallel .startParallel
  | endParallel : Gives ctx .endParallel .endParallel
  | literalChord (notes duration : List Char) :
      Gives ctx (.literalChord notes duration)
        (.playChord none (some (.list ((words notes).map literalNote))) (textSlot duration))
  | chord {name : List Char} {notes : Value} (duration : List Char)
      (h : ctx.chords.find? (String.ofList name) = some notes) :
      Gives ctx (.named name duration)
        (.playChord (textSlot name) (some notes) (textSlot duration))
  | named (name duration : List Char) : Gives ctx (.named name duration) (ofNote name none duration)
  | note (name : List Char) (accidental : Option Char) (duration : List Char) :
      Gives ctx (.note name accidental duration) (ofNote name accidental duration)
  | pause (duration : List Char) : Gives ctx (.pause duration) (.pause (textSlot duration))
  | envelope (attack decay sustain release : List Char) (a d s r : Float) :
      Gives ctx (.envelope attack decay sustain release)
        (.envelope (some (.float a)) (some (.float d)) (some (.float s)) (some (.float r)))
  | waveform (name : List Char) : Gives ctx (.waveform name) (.waveform (textSlot name))
  | instrument (name : List Char) : Gives ctx (.instrument name) (.instrument (textSlot name))
  | call (name arguments : List Char) :
      Gives ctx (.call name arguments)
        (.call (textSlot name) (some (.list (callArguments arguments))))

section Lines

variable (ctx : Context)

theorem read_named_cases (name duration : List Char) :
    (∃ f, readNamed ctx name duration = .ofFault f) ∨
      ∃ c, Line.Gives ctx (.named name duration) c ∧
        (readNamed ctx name duration).commands = [c] := by
  unfold readNamed
  cases hchord : ctx.chords.find? (String.ofList name) with
  | none => exact .inr ⟨_, .named name duration, rfl⟩
  | some notes =>
    dsimp only
    cases notes.elements >>= fun vs => vs.mapM Value.noteSpelling with
    | error f => exact .inl ⟨f, rfl⟩
    | ok spellings => exact .inr ⟨_, .chord duration hchord, rfl⟩

theorem read_envelope_cases (attack decay sustain release : List Char) :
    (∃ f, readEnvelope attack decay sustain release = .ofFault f) ∨
      ∃ c, Line.Gives ctx (.envelope attack decay sustain release) c ∧
        (readEnvelope attack decay sustain release).commands = [c] := by
  unfold readEnvelope
  dsimp only
  split
  · rename_i c hc
    obtain ⟨a, -, hc⟩ := bind_ok hc
    obtain ⟨d, -, hc⟩ := bind_ok hc
    obtain ⟨s, -, hc⟩ := bind_ok hc
    obtain ⟨r, -, hc⟩ := bind_ok hc
    obtain rfl := Except.ok.inj hc
    exact .inr ⟨_, .envelope attack decay sustain release a d s r, rfl⟩
  · rename_i f _
    exact .inl ⟨f, rfl⟩

/-- A line gives no command, or the one of its form. -/
theorem read_line_cases (manner : Manner) (line : List Char) :
    (readLine manner ctx line).commands = [] ∨
      ∃ form c, Line.recognise line = some form ∧ Line.Gives ctx form c ∧
        (readLine manner ctx line).commands = [c] := by
  rw [read_line_eq]
  unfold lineReading
  cases hform : Line.recognise line with
  | none => exact .inl (unrecognised_silent manner line).1
  | some form =>
    cases form with
    | startParallel => exact .inr ⟨_, _, rfl, .startParallel, rfl⟩
    | endParallel => exact .inr ⟨_, _, rfl, .endParallel, rfl⟩
    | literalChord notes duration => exact .inr ⟨_, _, rfl, .literalChord notes duration, rfl⟩
    | named name duration =>
      rcases read_named_cases ctx name duration with ⟨f, hfault⟩ | ⟨c, hgives, hc⟩
      · exact .inl (congrArg Reading.commands hfault)
      · exact .inr ⟨_, c, rfl, hgives, hc⟩
    | note name accidental duration =>
      exact .inr ⟨_, _, rfl, .note name accidental duration, rfl⟩
    | pause duration => exact .inr ⟨_, _, rfl, .pause duration, rfl⟩
    | envelope attack decay sustain release =>
      rcases read_envelope_cases ctx attack decay sustain release with
        ⟨f, hfault⟩ | ⟨c, hgives, hc⟩
      · exact .inl (congrArg Reading.commands hfault)
      · exact .inr ⟨_, c, rfl, hgives, hc⟩
    | waveform name => exact .inr ⟨_, _, rfl, .waveform name, rfl⟩
    | instrument name => exact .inr ⟨_, _, rfl, .instrument name, rfl⟩
    | call name arguments =>
      dsimp only
      split_ifs
      · exact .inr ⟨_, _, rfl, .call name arguments, rfl⟩
      · cases manner with
        | plain => exact .inl rfl
        | diagnosing => exact .inl (unrecognised_silent .diagnosing line).1

/-- What holds of the command of every form holds of what is read from a line. -/
theorem all_line {P : Command → Prop} (manner : Manner) {line : List Char}
    (h : ∀ form c, Line.recognise line = some form → Line.Gives ctx form c → P c) :
    (readLine manner ctx line).All P := by
  intro c hc
  rcases read_line_cases ctx manner line with hnone | ⟨form, c', hform, hgives, hone⟩
  · rw [hnone] at hc
    contradiction
  · rw [hone, List.mem_singleton] at hc
    exact hc ▸ h form c' hform hgives

end Lines

theorem read_line_plain (manner : Manner) (ctx : Context) (line : List Char) :
    (readLine manner ctx line).All (·.isPlain) := by
  apply all_line
  intro form c _ hgives
  cases hgives
  all_goals rfl

theorem read_lines_layered (manner : Manner) (ctx : Context) (depth : Nat) (cs : List Char) :
    (readLines manner ctx cs).All (Layered depth) := by
  rw [read_lines_eq]
  apply Reading.all_sequence
  intro r hr c hc
  obtain ⟨line, -, rfl⟩ := List.mem_map.mp hr
  exact .plain (read_line_plain manner ctx line c hc)

theorem read_lines_flat (manner : Manner) (ctx : Context) (cs : List Char) :
    (readLines manner ctx cs).Within 0 :=
  fun c hc => (read_lines_layered manner ctx 0 cs c hc).nests

/-- A find gives one command of the shape that was searched for. -/
theorem seek_shape {rs : Readers} {shape : Shape} {cs rest : List Char} {r : Reading}
    (h : seek rs shape cs = some (r, rest)) (hf : r.fault = none) :
    ∃ c, r.commands = [c] ∧ c.shape? = some shape := by
  cases shape with
  | branch =>
    obtain ⟨⟨c, rest'⟩, hfound, hpair⟩ := Option.map_eq_some_iff.mp h
    obtain ⟨rfl, -⟩ := Prod.mk.inj hpair
    exact ⟨_, rfl, rfl⟩
  | forEach =>
    obtain ⟨⟨i, rest'⟩, hfound, hpair⟩ := Option.map_eq_some_iff.mp h
    obtain ⟨rfl, -⟩ := Prod.mk.inj hpair
    exact ⟨_, rfl, rfl⟩
  | loop =>
    obtain ⟨⟨i, rest'⟩, hfound, hpair⟩ := Option.map_eq_some_iff.mp h
    obtain ⟨rfl, -⟩ := Prod.mk.inj hpair
    unfold readRepetition at hf ⊢
    cases hn : parseInt i.times with
    | error f =>
      simp only [hn] at hf
      contradiction
    | ok n =>
      simp only [hn] at hf ⊢
      obtain ⟨b, hb, -⟩ := Reading.gives_whole.mp ⟨hf, rfl⟩
      exact ⟨_, hb, rfl⟩

section Texts

variable {rs : Readers} {cs : List Char}

/-- Nothing is found in a text without blocks. -/
theorem find_all_clear {α : Type} {recognise : List Char → Option (α × List Char)}
    (hs : Shrinks recognise)
    (he : ∀ v item rest, recognise v = some (item, rest) → ∃ body, Encloses v body)
    (h : '{' ∉ cs) : findAll recognise cs = [] := by
  refine List.eq_nil_iff_forall_not_mem.mpr fun found hfound => ?_
  obtain ⟨v, rest, hv, hitem⟩ := find_from_item hs hfound
  obtain ⟨body, hbody⟩ := he v found.item rest hitem
  exact h (hbody.of_suffix hv).mem_open

theorem stages_clear (h : '{' ∉ cs) (shapes : List Shape) : stages rs shapes cs = rs.lines cs := by
  induction shapes with
  | nil => rfl
  | cons shape shapes ih =>
    have hfinds : findAll (seek rs shape) cs = [] :=
      find_all_clear (seek_shrinks rs shape) (fun _ _ _ hv => (seek_encloses hv).1) h
    simp only [stages, sweep, hfinds, readFinds, List.drop_zero, Reading.empty_and_then, ih]

/-- A text without blocks is read line by line. -/
theorem searches_clear (h : '{' ∉ cs) : readSearches rs cs = rs.lines cs := by
  have hfinds : findAll parallel? cs = [] :=
    find_all_clear parallel_shrinks (fun _ _ _ hv => ⟨_, (parallel_encloses hv).1⟩) h
  simp only [read_searches_eq, hfinds, readParallels, List.drop_zero, Reading.empty_and_then,
    stages_clear h]

end Texts

theorem clear_strip {cs : List Char} (h : '{' ∉ cs) : '{' ∉ strip cs := by
  obtain ⟨before, after, heq, -⟩ := strip_parts cs
  intro hmem
  exact h (by rw [heq]; simp [hmem])

theorem read_clear (manner : Manner) (ctx : Context) {cs : List Char} (h : '{' ∉ cs) :
    read manner ctx cs = readLines manner ctx cs := by
  rw [read_eq]
  exact searches_clear h

theorem read_layered (manner : Manner) (ctx : Context) (cs : List Char) :
    (read manner ctx cs).All (Layered 2) := by
  -- within an enclosed body the blocks are clear of braces, and such a text gives only lines
  have hclear {v : List Char} (hv : '{' ∉ v) : (read manner ctx v).All (Layered 0) := by
    rw [read_clear manner ctx hv]
    exact read_lines_layered manner ctx 0 v
  have hinner {v : List Char} (hv : ∀ body, Encloses v body → '{' ∉ body) :
      (read manner ctx v).All (Layered 1) := by
    rw [read_eq]
    apply (layered_builds 0).searches (read_lines_layered manner ctx 1)
    intro body hbody
    exact ⟨hclear (hv body hbody), hclear (clear_strip (hv body hbody))⟩
  rw [read_eq]
  apply (layered_builds 1).searches (read_lines_layered manner ctx 2)
  intro body hbody
  exact ⟨hinner fun inner hin => hbody.clear hin, hinner fun inner hin => hbody.clear hin.of_strip⟩

theorem read_within (manner : Manner) (ctx : Context) (cs : List Char) :
    (read manner ctx cs).Within 2 :=
  fun c hc => (read_layered manner ctx cs c hc).nests

/-- A text read with `levels` calls of the reader within each other. A call that would be one too
many is left to `deeper`. -/
def readWithin (manner : Manner) (ctx : Context) (deeper : List Char → Reading) :
    Nat → List Char → Reading
  | 0, cs => deeper cs
  | levels + 1, cs =>
    readSearches ⟨readWithin manner ctx deeper levels, readLines manner ctx⟩ cs

section Within

variable (manner : Manner) (ctx : Context) (deeper : List Char → Reading) {cs : List Char}

/-- A text without blocks takes one call. -/
theorem within_clear (h : '{' ∉ cs) : readWithin manner ctx deeper 1 cs = read manner ctx cs := by
  rw [read_clear manner ctx h]
  exact searches_clear h

/-- A text whose blocks hold none takes two. -/
theorem within_inner (h : ∀ body, Encloses cs body → '{' ∉ body) :
    readWithin manner ctx deeper 2 cs = read manner ctx cs := by
  rw [read_eq]
  apply read_searches_congr
  intro body hbody
  have hbody := h body hbody
  exact ⟨within_clear manner ctx deeper hbody, within_clear manner ctx deeper (clear_strip hbody)⟩

theorem within_any (cs : List Char) : readWithin manner ctx deeper 3 cs = read manner ctx cs := by
  rw [read_eq]
  apply read_searches_congr
  intro body hbody
  exact ⟨within_inner manner ctx deeper fun inner hin => hbody.clear hin,
    within_inner manner ctx deeper fun inner hin => hbody.clear hin.of_strip⟩

end Within

/-- However deep the braces of a text are, and whether they are balanced or not, its commands have
two levels of blocks at most, and reading it takes two calls of the reader within the first one at
most: what a third one would answer does not matter. -/
theorem read_nests_twice (manner : Manner) (ctx : Context) (cs : List Char) :
    (∀ c ∈ (read manner ctx cs).commands, Layered 2 c) ∧
      ∀ deeper : List Char → Reading, readWithin manner ctx deeper 3 cs = read manner ctx cs :=
  ⟨read_layered manner ctx cs, fun deeper => within_any manner ctx deeper cs⟩

end Melody.Command
