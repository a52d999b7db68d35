import Melody.Proofs.Brackets
import Melody.Proofs.Typing

/-!
# Replacing variables in typed commands

A run of typed commands halts only for a reason in a given set `E`. `Covers` lists what the set and
the vocabulary of the commands have to satisfy for that: each partial operation that a typed command
can reach has one condition. All other partial operations, such as a missing field, a value of the
wrong kind or an index out of range, are out of reach. `Sane` is what typed commands need of the
performer and keep.

The first thing to show is that variables can be replaced in typed commands by what they hold, and
that the commands stay typed. For that the vocabulary has to be `Closed`.
-/

set_option autoImplicit false

namespace Melody

open Text Act

def Vocabulary.Held (V : Vocabulary) (v : Value) : Prop :=
  (∃ s, v = .text s ∧ V.argument s) ∨ (∃ n, v = .int n) ∨ V.IsChord v ∨ V.IsNote v

theorem Vocabulary.Held.note_or_plain {V : Vocabulary} {v : Value} (h : V.Held v) :
    V.IsNote v ∨ v.hasField "nota" = false := by
  rcases h with ⟨s, rfl, -⟩ | ⟨n, rfl⟩ | ⟨notes, rfl, -⟩ | hnote
  · exact .inr rfl
  · exact .inr rfl
  · exact .inr rfl
  · exact .inl hnote

namespace Performance

def sidesOf (condition : String) : Option (List (List Char)) :=
  if occurs ['=', '='] condition.toList then some (splitText ['=', '='] condition.toList)
  else if occurs ['!', '='] condition.toList then some (splitText ['!', '='] condition.toList)
  else none

structure Closed (program : Program) (V : Vocabulary) : Prop where
  fallback : V.note fallbackNote
  played : ∀ {s}, V.argument s → V.note s
  written : ∀ {v}, V.Held v → V.argument v.written
  pieces : ∀ {s}, V.argument s → isChordText s.toList = true →
    ∀ w ∈ words (Function.unquote s.toList), V.IsNote (Command.plainNote w)
  tempo : ∃ n, program.tempo = .int n
  chords : ∀ {name v}, program.chords.find? name = some v → V.IsChord v
  timbre : ∀ i : Sound.Instrument, V.envelope i.timbre.envelope
  settings : ∀ {e}, program.envelope = some e → V.envelope e

structure Covers (program : Program) (V : Vocabulary) (E : Halt → Prop) : Prop
    extends Closed program V where
  ready : ∀ {depth name parameters body}, V.callee depth name →
    program.functions.find? name = some (.user parameters body) →
    (Command.read .diagnosing program.context body).fault = none →
    Command.Ready V (Command.read .diagnosing program.context body).commands depth
  reported : E (.exit 1)
  stalled : E .stalled
  deep : V.deep → E .tooDeep
  beat : ∀ {f}, Theory.beatSeconds program.tempo = .error f → E (.fault f)
  pitch : ∀ {s}, V.note s → Theory.TooHigh s → E (.fault .integerOverflow)
  stages : ∀ {e name seconds f}, V.envelope e → Theory.seconds name program.tempo = .ok seconds →
    Sound.stageLengths e seconds = .error f → f.isBadValue = false → E (.fault f)
  sides : ∀ {s sides}, V.condition s → sidesOf s = some sides → 2 < sides.length →
    E (.fault .tooManyParts)
  body : ∀ {depth name parameters body f}, V.callee depth name →
    program.functions.find? name = some (.user parameters body) →
    (Command.read .diagnosing program.context body).fault = some f → E (.fault f)

structure Sane (V : Vocabulary) (program : Program) (p : Performer) : Prop where
  program : SameProgram program p
  globals : p.globals = []
  scope : ∀ entry ∈ p.scope, V.Held entry.2
  engine : ∃ shape, V.envelope shape ∧ p.engine.Tuned shape

theorem scope_find {scope : Scope} {name v : Value} (h : scope.find? name = some v) :
    ∃ entry ∈ scope, entry.2 = v := by
  induction scope with
  | nil => cases h
  | cons entry rest ih =>
    obtain ⟨key, w⟩ := entry
    rw [Scope.find?] at h
    split_ifs at h
    · exact ⟨(key, w), by simp, Option.some.inj h⟩
    · obtain ⟨e, he, hv⟩ := ih h
      exact ⟨e, by simp [he], hv⟩

theorem scope_bind {scope : Scope} {name v : Value} {P : Value → Prop}
    (h : ∀ entry ∈ scope, P entry.2) (hv : P v) : ∀ entry ∈ scope.bind name v, P entry.2 := by
  induction scope with
  | nil => simpa [Scope.bind] using hv
  | cons entry rest ih =>
    obtain ⟨key, w⟩ := entry
    have hrest := ih fun e he => h e (by simp [he])
    rw [Scope.bind]
    split_ifs
    · intro e he
      rcases List.mem_cons.mp he with rfl | he
      · exact hv
      · exact h e (by simp [he])
    · intro e he
      rcases List.mem_cons.mp he with rfl | he
      · exact h (key, w) (by simp)
      · exact hrest e he

section Sane

variable {program : Program} {V : Vocabulary} {E : Halt → Prop} {p : Performer} {α : Type}

theorem meets_need (name : String) (v : Value) {Q : Value → Performer → Prop} :
    (need name (some v)).Meets p E Q ↔ Q v p :=
  meets_answer v

theorem Sane.meets_lookup (hp : Sane V program p) (s : String)
    {Q : Option Value → Performer → Prop} :
    (lookup (.text s)).Meets p E Q ↔ Q (p.scope.find? (.text s)) p := by
  unfold lookup
  rw [meets_bind, meets_read, meets_bind]
  change (answer (some s)).Meets p E _ ↔ _
  rw [meets_answer, meets_pure, hp.globals]
  simp [Table.find?]

theorem Sane.held (hp : Sane V program p) {name v : Value} (h : p.scope.find? name = some v) :
    V.Held v := by
  obtain ⟨entry, hentry, rfl⟩ := scope_find h
  exact hp.scope entry hentry

theorem Sane.bind (hp : Sane V program p) (name : Value) {v : Value} (hv : V.Held v) :
    Sane V program { p with scope := p.scope.bind name v } :=
  ⟨hp.program, hp.globals, scope_bind hp.scope hv, hp.engine⟩

theorem Sane.tempo (hp : Sane V program p) : p.program.tempo = program.tempo := by
  obtain ⟨ms, hms⟩ := hp.program
  rw [hms]

theorem Sane.chords (hp : Sane V program p) : p.program.chords = program.chords := by
  obtain ⟨ms, hms⟩ := hp.program
  rw [hms]

/-- An action of the engine that leaves it in order. -/
theorem Sane.sound (hp : Sane V program p) {m : Act Sound.Engine α}
    (hm : ∀ shape, V.envelope shape → p.engine.Tuned shape →
      m.Meets p.engine E fun _ e => ∃ shape, V.envelope shape ∧ e.Tuned shape) :
    (sound m).Meets p E fun _ q => Sane V program q := by
  obtain ⟨shape, hshape, htuned⟩ := hp.engine
  rw [Performance.sound, meets_on_part]
  apply (hm shape hshape htuned).mono
  intro _ e he
  exact ⟨hp.program, hp.globals, hp.scope, he⟩

/-- An action of the engine that leaves the envelope as it is. -/
theorem Sane.sound_tuned (hp : Sane V program p) {m : Act Sound.Engine α}
    (hm : ∀ shape, p.engine.Tuned shape → m.Meets p.engine E fun _ e => e.Tuned shape) :
    (Performance.sound m).Meets p E fun _ q => Sane V program q := by
  apply hp.sound
  intro shape hshape htuned
  exact (hm shape htuned).mono fun _ e he => ⟨shape, hshape, he⟩

end Sane

section Substitution

open Command

variable {program : Program} {V : Vocabulary} {E : Halt → Prop} (hV : Closed program V)
  {p : Performer} (hp : Sane V program p)

theorem substitute_optional_eq {b : Block} {depth : Nat} (h : TypedBlock V b depth)
    (name : String) : substituteOptional name b = substituteBlock name b := by
  cases b with
  | commands cs => rw [substituteOptional, substituteBlock]
  | missing => cases h
  | value v => cases h

theorem fallback_meets (what fallback : String) (name : Value) (s : String)
    {Q : Value → Performer → Prop} (hs : Q (.text s) p) (hf : Q (.text fallback) p) :
    (orFallback what fallback name (.text s)).Meets p E Q := by
  unfold orFallback
  split
  case h_8 s' h =>
    cases h
    exact (meets_answer _).mpr hs
  all_goals exact meets_bind.mpr ((meets_say _).mpr ((meets_pure _).mpr hf))

include hp

theorem fill_duration_meets {duration : Slot} (h : IsText duration) :
    (fillDuration duration).Meets p E fun d q => p = q ∧ IsText d := by
  obtain ⟨s, rfl, -⟩ := h
  unfold fillDuration
  rw [meets_bind, meets_need, meets_bind, hp.meets_lookup, meets_bind]
  -- a variable gives its written form, which the fallback may replace in turn
  cases p.scope.find? (.text s)
  all_goals
    apply fallback_meets
    all_goals exact (meets_pure _).mpr ⟨rfl, _, rfl, trivial⟩

include hV

theorem fill_note_meets {s : String} {sign : Value} (hs : V.note s) (hsign : Theory.IsSign sign) :
    (fillNote (.text s) (some sign)).Meets p E fun r q =>
      p = q ∧ ∃ s' sign', r = (.text s', some sign') ∧ V.note s' ∧ Theory.IsSign sign' := by
  unfold fillNote
  rw [meets_bind, hp.meets_lookup]
  cases hfind : p.scope.find? (.text s) with
  | none => exact (meets_pure _).mpr ⟨rfl, s, sign, rfl, hs, hsign⟩
  | some v =>
    have hheld := hp.held hfind
    -- a note brings its own accidental; any other value is played as it is written
    rcases hheld.note_or_plain with ⟨name, accidental, rfl, hname⟩ | hplain
    · obtain ⟨sign, hfield, hsign⟩ := note_accidental name accidental
      change (ofExcept _ >>= _ : Performance _).Meets p E _
      rw [note_name, of_except_bind, hfield, of_except_bind]
      exact (meets_pure _).mpr ⟨rfl, _, sign, rfl, hname, hsign⟩
    · simp only [hplain]
      exact (meets_pure _).mpr ⟨rfl, _, sign, rfl, hV.played (hV.written hheld), hsign⟩

theorem fill_play_meets {note accidental duration : Slot} {depth : Nat}
    (h : Typed V (.play note accidental duration) depth) :
    (fillPlay note accidental duration).Meets p E fun c q => p = q ∧ Typed V c depth := by
  obtain ⟨⟨s, rfl, hs⟩, ⟨sign, rfl, hsign⟩, hduration⟩ := h
  unfold fillPlay
  rw [meets_bind, meets_need, meets_bind]
  apply (fill_note_meets hV hp hs hsign).mono
  rintro _ _ ⟨rfl, s', sign', rfl, hs', hsign'⟩
  have hrest (t : String) (ht : V.note t) :
      (fillDuration duration >>= fun d => pure (.play (some (.text t)) (some sign') d)).Meets p E
        fun c q => p = q ∧ Typed V c depth := by
    rw [meets_bind]
    apply (fill_duration_meets hp hduration).mono
    rintro d _ ⟨rfl, hd⟩
    exact (meets_pure _).mpr ⟨rfl, ⟨t, rfl, ht⟩, ⟨sign', rfl, hsign'⟩, hd⟩
  rw [meets_bind]
  exact fallback_meets _ _ _ s' (hrest s' hs') (hrest fallbackNote hV.fallback)

theorem fill_chord_meets {name notes : Slot} (hname : name = none ∨ IsText name)
    (hnotes : ∃ v, notes = some v ∧ V.IsChord v) :
    (fillChord name notes).Meets p E fun c q => p = q ∧ ∃ v, c = some v ∧ V.IsChord v := by
  rcases hname with rfl | ⟨s, rfl, -⟩
  · exact (meets_answer _).mpr ⟨rfl, hnotes⟩
  · unfold fillChord
    rw [meets_bind, hp.meets_lookup]
    cases hfind : p.scope.find? (.text s) with
    | none =>
      change (answer (some s) >>= _ : Performance Slot).Meets p E _
      rw [answer_bind]
      change (Act.read >>= _ : Performance Slot).Meets p E _
      rw [meets_bind, meets_read, meets_pure, hp.chords]
      cases hchord : program.chords.find? s with
      | none => exact ⟨rfl, hnotes⟩
      | some v => exact ⟨rfl, v, rfl, hV.chords hchord⟩
    | some v =>
      rw [meets_pure]
      refine ⟨rfl, ?_⟩
      rcases hp.held hfind with ⟨t, rfl, -⟩ | ⟨n, rfl⟩ | ⟨items, rfl, hitems⟩ | ⟨t, a, rfl, -⟩
      · exact hnotes
      · exact hnotes
      · exact ⟨_, rfl, items, rfl, hitems⟩
      · exact hnotes

theorem fill_play_chord_meets {name notes duration : Slot} {depth : Nat}
    (h : Typed V (.playChord name notes duration) depth) :
    (fillPlayChord name notes duration).Meets p E fun c q => p = q ∧ Typed V c depth := by
  obtain ⟨hname, hnotes, hduration⟩ := h
  unfold fillPlayChord
  rw [meets_bind]
  apply (fill_chord_meets hV hp hname hnotes).mono
  rintro c _ ⟨rfl, hc⟩
  rw [meets_bind]
  apply (fill_duration_meets hp hduration).mono
  rintro d _ ⟨rfl, hd⟩
  exact (meets_pure _).mpr ⟨rfl, hname, hc, hd⟩

theorem fill_arguments_meets {items : List Value}
    (h : ∀ a ∈ items, ∃ s, a = .text s ∧ V.argument s) :
    (fillArguments items).Meets p E fun items' q =>
      p = q ∧ ∀ a ∈ items', ∃ s, a = .text s ∧ V.argument s := by
  induction items with
  | nil => exact (meets_answer _).mpr ⟨rfl, h⟩
  | cons v rest ih =>
    obtain ⟨s, rfl, hs⟩ := h v (by simp)
    rw [fillArguments, meets_bind, hp.meets_lookup, meets_bind]
    apply (ih fun a ha => h a (by simp [ha])).mono
    rintro items' _ ⟨rfl, hitems⟩
    rw [meets_pure]
    refine ⟨rfl, ?_⟩
    intro a ha
    rcases List.mem_cons.mp ha with rfl | ha
    · cases hfind : p.scope.find? (.text s) with
      | none => exact ⟨s, rfl, hs⟩
      | some w => exact ⟨w.written, rfl, hV.written (hp.held hfind)⟩
    · exact hitems a ha

theorem fill_call_meets {function arguments : Slot} {depth : Nat}
    (h : Typed V (.call function arguments) depth) :
    (fillCall function arguments).Meets p E fun c q => p = q ∧ Typed V c depth := by
  obtain ⟨hfunction, _, rfl, items, rfl, hitems⟩ := h
  unfold fillCall
  rw [meets_bind, meets_need]
  dsimp only
  rw [meets_bind]
  apply (fill_arguments_meets hV hp hitems).mono
  rintro items' _ ⟨rfl, hitems'⟩
  exact (meets_pure _).mpr ⟨rfl, hfunction, _, rfl, items', rfl, hitems'⟩

end Substitution

section Substitution

open Command

variable {program : Program} {V : Vocabulary} {E : Halt → Prop} {p : Performer}

mutual
/-- Variables can be replaced in typed commands, which stay typed. -/
theorem substitute_meets (hV : Closed program V) (hp : Sane V program p) :
    ∀ (c : Command) {depth : Nat}, Typed V c depth →
      (substitute c).Meets p E fun c' q => p = q ∧ Typed V c' depth
  | .play _ _ _, _, h => fill_play_meets hV hp h
  | .playChord _ _ _, _, h => fill_play_chord_meets hV hp h
  | .call _ _, _, h => fill_call_meets hV hp h
  | .branch condition whenTrue whenFalse, depth, ⟨hcondition, htrue, hfalse⟩ => by
    rw [substitute, meets_bind]
    apply (substitute_block_meets hV hp "bloco_verdadeiro" whenTrue htrue).mono
    rintro t _ ⟨rfl, ht⟩
    rw [meets_bind]
    rcases hfalse with rfl | hfalse
    · exact (meets_answer _).mpr ((meets_pure _).mpr ⟨rfl, hcondition, ht, .inl rfl⟩)
    · rw [substitute_optional_eq hfalse]
      apply (substitute_block_meets hV hp "bloco_falso" whenFalse hfalse).mono
      rintro f _ ⟨rfl, hf⟩
      exact (meets_pure _).mpr ⟨rfl, hcondition, ht, .inr hf⟩
  | .loop times body, depth, ⟨⟨n, htimes⟩, hbody⟩ => by
    subst htimes
    rw [substitute]
    change (answer (some (Value.int n)) >>= _ : Performance Command).Meets p E _
    rw [answer_bind, meets_bind]
    apply (substitute_block_meets hV hp "comandos" body hbody).mono
    rintro b _ ⟨rfl, hb⟩
    exact (meets_pure _).mpr ⟨rfl, ⟨n, rfl⟩, hb⟩
  | .forEach name collection reversed body, depth, ⟨hname, hcollection, hreversed, hbody⟩ => by
    obtain ⟨s, rfl, hs⟩ := hcollection
    rw [substitute, meets_bind]
    apply (substitute_block_meets hV hp "comandos" body hbody).mono
    rintro b _ ⟨rfl, hb⟩
    rw [meets_bind, meets_need]
    exact (meets_pure _).mpr ⟨rfl, hname, ⟨s, rfl, hs⟩, hreversed, hb⟩
  | .pause _, _, h | .envelope _ _ _ _, _, h | .waveform _, _, h | .instrument _, _, h
  | .startParallel, _, h | .endParallel, _, h => (meets_answer _).mpr ⟨rfl, h⟩

theorem substitute_block_meets (hV : Closed program V) (hp : Sane V program p) (name : String) :
    ∀ (b : Block) {depth : Nat}, TypedBlock V b depth →
      (substituteBlock name b).Meets p E fun b' q => p = q ∧ TypedBlock V b' depth
  | .commands cs, depth, h => by
    rw [substituteBlock, meets_bind]
    apply (substitute_all_meets hV hp cs h.2).mono
    rintro cs' _ ⟨rfl, hcs⟩
    exact (meets_pure _).mpr ⟨rfl, h.1, hcs⟩

theorem substitute_all_meets (hV : Closed program V) (hp : Sane V program p) :
    ∀ (cs : List Command) {depth : Nat}, AllTyped V cs depth →
      (substituteAll cs).Meets p E fun cs' q => p = q ∧ AllTyped V cs' depth
  | [], _, h => (meets_answer _).mpr ⟨rfl, h⟩
  | c :: cs, depth, h => by
    rw [substituteAll, meets_bind]
    apply (substitute_meets hV hp c h.1).mono
    rintro c' _ ⟨rfl, hc⟩
    rw [meets_bind]
    apply (substitute_all_meets hV hp cs h.2).mono
    rintro cs' _ ⟨rfl, hcs⟩
    exact (meets_pure _).mpr ⟨rfl, hc, hcs⟩
end

end Substitution

end Performance

end Melody
