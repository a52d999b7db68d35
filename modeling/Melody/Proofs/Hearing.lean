import Melody.Proofs.Scoping

/-!
# What a run lets one hear

Of the events of a run, those that concern the sound device and the clock are heard; the printed
lines are not. `Silent` follows an action that answers and is not heard, `Audible` is one that is
heard, and `SoundsLike` compares two runs by what is heard, by their outcome and by the engine
they leave. The smallest thing to hear is a rest.
-/

set_option autoImplicit false

namespace Melody

def Event.isAudio : Event → Bool
  | .printed _ => false
  | _ => true

def Effect.audio {σ α : Type} (e : Effect σ α) : List Event :=
  e.events.filter Event.isAudio

def Performer.holding (p : Performer) (name : String) (v : Value) : Performer :=
  { p with scope := p.scope.bind (.text name) v }

namespace Act

variable {σ α β : Type}

structure Silent (m : Act σ α) (s : σ) (a : α) (t : σ) : Prop where
  answers : m.Answers s a t
  audio : (m s).audio = []

def Audible (m : Act σ α) (s : σ) : Prop :=
  (m s).audio ≠ []

section Bind

variable {m : Act σ α} {f : α → Act σ β} {s t u : σ} {a : α} {b : β}

theorem audio_bind (h : m.Silent s a t) : ((m >>= f) s).audio = (f a t).audio := by
  rw [bind_of_ok h.answers.outcome, h.answers.state, Effect.audio, List.filter_append]
  exact congrArg (· ++ (f a t).audio) h.audio

/-- An answer behind an action is not heard. -/
theorem audio_answer (m : Act σ α) (b : β) (s : σ) :
    ((do let _ ← m; return b : Act σ β) s).audio = (m s).audio := by
  cases h : (m s).outcome with
  | error e => rw [bind_of_error h, Effect.audio, Effect.audio]
  | ok a =>
    rw [bind_of_ok h, Effect.audio]
    exact congrArg (List.filter _) (List.append_nil _)

theorem Silent.bind (hm : m.Silent s a t) (hf : (f a).Silent t b u) : (m >>= f).Silent s b u :=
  ⟨hm.answers.bind hf.answers, (audio_bind hm).trans hf.audio⟩

theorem Silent.audible (hm : m.Silent s a t) (hf : (f a).Audible t) : (m >>= f).Audible s := by
  rw [Audible, audio_bind hm]
  exact hf

theorem Audible.bind (hm : m.Audible s) (f : α → Act σ β) : (m >>= f).Audible s := by
  unfold Audible Effect.audio at *
  cases h : (m s).outcome with
  | error e =>
    rw [bind_of_error h]
    exact hm
  | ok a =>
    rw [bind_of_ok h, List.filter_append]
    exact fun hnone => hm (List.append_eq_nil_iff.mp hnone).1

theorem silent_answer (a : α) (s : σ) : (answer a).Silent s a s :=
  ⟨⟨rfl, rfl⟩, rfl⟩

theorem silent_say (line : String) (s : σ) : (say line).Silent s () s :=
  ⟨⟨rfl, rfl⟩, rfl⟩

theorem silent_read (s : σ) : (read : Act σ σ).Silent s s s :=
  ⟨⟨rfl, rfl⟩, rfl⟩

theorem silent_of_except {e : Except Fault α} (h : e = .ok a) (s : σ) :
    (ofExcept e).Silent s a s := by
  rw [h]
  exact silent_answer a s

end Bind

end Act

namespace Performance

open Act

structure SoundsLike {α : Type} (e e' : Effect Performer α) : Prop where
  outcome : e.outcome = e'.outcome
  audio : e.audio = e'.audio
  engine : e.state.engine = e'.state.engine

section Alike

variable {α β : Type}

theorem SoundsLike.trans {e e' e'' : Effect Performer α} (h : SoundsLike e e')
    (h' : SoundsLike e' e'') : SoundsLike e e'' :=
  ⟨h.outcome.trans h'.outcome, h.audio.trans h'.audio, h.engine.trans h'.engine⟩

theorem Matches.sounds {e e' : Effect Performer α} (h : Matches e e') : SoundsLike e e' :=
  ⟨h.outcome, congrArg (List.filter Event.isAudio) h.events, h.engine⟩

/-- What comes behind a silent action is all there is to hear. -/
theorem sounds_behind {m : Performance α} {f : α → Performance β} {p q : Performer} {a : α}
    (h : m.Silent p a q) : SoundsLike ((m >>= f) p) (f a q) := by
  refine ⟨?_, audio_bind h, ?_⟩
  · rw [bind_of_ok h.answers.outcome, h.answers.state]
  · rw [bind_of_ok h.answers.outcome, h.answers.state]

/-- The scope may be put back behind one of two actions. -/
theorem SoundsLike.close {m m' : Performance Unit} {p q : Performer} (h : SoundsLike (m p) (m' q))
    (scope : Scope) (b : β) :
    SoundsLike ((do m; setScope scope; return b : Performance β) p)
      ((do m'; return b : Performance β) q) := by
  cases hp : (m p).outcome with
  | error r =>
    rw [bind_of_error hp, bind_of_error (m := m') (h.outcome ▸ hp)]
    exact ⟨rfl, h.audio, h.engine⟩
  | ok a =>
    rw [bind_of_ok hp, bind_of_ok (m := m') (h.outcome ▸ hp)]
    refine ⟨rfl, ?_, h.engine⟩
    change ((m p).events ++ []).filter _ = ((m' q).events ++ []).filter _
    rw [List.append_nil, List.append_nil]
    exact h.audio

end Alike

theorem silent_announce {c : Command} {kind : String} (h : kindOf c = .ok kind) (p : Performer) :
    (announce c).Silent p () p := by
  refine (silent_of_except h p).bind ((silent_read p).bind ?_)
  cases p.debug with
  | true => exact silent_say _ p
  | false => exact silent_answer () p

section Resolve

variable {p : Performer} {c c' : Command} {cs cs' : List Command}

theorem silent_resolve_nil : (substituteAll []).Silent p [] p := by
  rw [substituteAll]
  exact silent_answer [] p

theorem silent_resolve_cons (hc : (substitute c).Silent p c' p)
    (hcs : (substituteAll cs).Silent p cs' p) :
    (substituteAll (c :: cs)).Silent p (c' :: cs') p := by
  rw [substituteAll]
  exact hc.bind (hcs.bind (silent_answer _ p))

theorem silent_resolve_block (field : String) (hcs : (substituteAll cs).Silent p cs' p) :
    (substituteBlock field (.commands cs)).Silent p (.commands cs') p := by
  rw [substituteBlock]
  exact hcs.bind (silent_answer _ p)

end Resolve

def minimRest : Command :=
  .pause (some (.text "minima"))

theorem rest_resolved (p : Performer) : (substituteAll [minimRest]).Silent p [minimRest] p :=
  silent_resolve_cons (silent_answer minimRest p) silent_resolve_nil

/-- At the usual tempo a minim has a length that can be slept. -/
theorem minim_seconds : ∃ x : Float,
    Theory.durationSeconds (.text "minima") (.int 120) = .ok x ∧ ¬ x < 0.0 := by
  have hlength : (Theory.durationSeconds (.text "minima") (.int 120)).toOption.any
      (fun x => !decide (x < 0.0)) = true := by
    decide +kernel
  cases h : Theory.durationSeconds (.text "minima") (.int 120) with
  | error f =>
    rw [h] at hlength
    cases hlength
  | ok x =>
    rw [h] at hlength
    change (!decide (x < 0.0)) = true at hlength
    exact ⟨x, rfl, by simpa using hlength⟩

structure AtRest (p : Performer) : Prop where
  tempo : p.program.tempo = .int 120
  patience : p.engine.patience = none

theorem audible_stop {reason : String} {m : Performance Unit} {p : Performer} (h : m.Audible p) :
    (stopOnBadValue reason m).Audible p := by
  have hevents : ∃ more, (stopOnBadValue reason m p).events = (m p).events ++ more := by
    unfold stopOnBadValue
    dsimp only
    split
    · split
      · exact ⟨_, rfl⟩
      · exact ⟨[], (List.append_nil _).symm⟩
    · exact ⟨[], (List.append_nil _).symm⟩
  obtain ⟨more, hmore⟩ := hevents
  rw [Audible, Effect.audio, hmore, List.filter_append]
  exact fun hnone => h (List.append_eq_nil_iff.mp hnone).1

theorem rest_audible (inner : Inner) {p : Performer} (hp : AtRest p) :
    (step inner minimRest).Audible p := by
  obtain ⟨x, hx, hlength⟩ := minim_seconds
  have hseconds : (durationSeconds (.text "minima")).Silent p x p := by
    apply (silent_read p).bind
    rw [hp.tempo]
    exact silent_of_except hx p
  have hsleep : (Sound.Engine.sleep (.float x)).Audible p.engine := by
    apply (silent_of_except rfl p.engine).audible
    rw [if_neg hlength]
    apply (silent_read p.engine).audible
    rw [hp.patience]
    have hslept : (emit (.slept (.float x)) : Act Sound.Engine Unit).Audible p.engine :=
      List.cons_ne_nil _ _
    exact hslept.bind _
  change (stopOnBadValue _ _).Audible p
  apply audible_stop
  apply hseconds.audible
  apply (Silent.mk ⟨rfl, rfl⟩ rfl : instrumentName.Silent p _ p).audible
  apply (silent_say _ p).audible
  exact hsleep

theorem run_rest_audible (depth : Nat) {p : Performer} (hp : AtRest p) :
    (execute (depth + 1) [minimRest]).Audible p := by
  apply (silent_announce rfl p).audible
  exact (rest_audible (execute depth) hp).bind _

/-- Of an iteration over a variable that holds a list, as much is heard as of its rounds from the
first one on. -/
theorem for_each_audio (inner : Inner) {p : Performer} {name collection : String} {item : Value}
    {rest : List Value} {body resolved : List Command}
    (hfind : p.scope.find? (.text collection) = some (.list (item :: rest)))
    {shown : String} (hshown : showItem item = .ok shown)
    (hresolved : (substituteAll body).Silent (p.holding name item) resolved
      (p.holding name item)) :
    (forEach inner (some (.text name)) (some (.text collection)) (some (.bool false))
        (.commands body) p).audio =
      ((do
        inner resolved
        forItems inner (.text name) (.commands body) rest
        setScope p.scope : Performance Unit) (p.holding name item)).audio := by
  have hfound : (findCollection (.text collection)).Silent p (some (.list (item :: rest))) p := by
    apply (silent_read p).bind
    rw [hfind]
    exact ⟨⟨rfl, rfl⟩, rfl⟩
  have hround : (do
        bindItem (.text name) item
        let shown ← ofExcept (showItem item)
        say s!"  Iterando elemento: {shown}"
        let body' ← substituteBlock "comandos" (.commands body)
        blockCommands body' : Performance (List Command)).Silent p resolved
        (p.holding name item) := by
    apply (Silent.mk ⟨rfl, rfl⟩ rfl : (bindItem (.text name) item).Silent p () _).bind
    apply (silent_of_except hshown _).bind
    apply (silent_say _ _).bind
    exact (silent_resolve_block _ hresolved).bind (silent_answer _ _)
  have hrun : (do
        forItems inner (.text name) (.commands body) (item :: rest)
        setScope p.scope : Performance Unit) = (do
        let commands ← (do
          bindItem (.text name) item
          let shown ← ofExcept (showItem item)
          say s!"  Iterando elemento: {shown}"
          let body' ← substituteBlock "comandos" (.commands body)
          blockCommands body')
        inner commands
        forItems inner (.text name) (.commands body) rest
        setScope p.scope) := by
    rw [forItems]
    simp only [bind_assoc]
  calc (forEach inner (some (.text name)) (some (.text collection)) (some (.bool false))
        (.commands body) p).audio
      = (iterate inner (.text name) (.text collection) false (.commands body) (item :: rest)
          p).audio := audio_bind hfound
    _ = ((do
          forItems inner (.text name) (.commands body) (item :: rest)
          setScope p.scope : Performance Unit) p).audio := rfl
    _ = _ := by rw [hrun, audio_bind hround]

/-- A list of one command sounds like the command. -/
theorem run_one_sounds {depth : Nat} {c : Command} {kind : String} (hkind : kindOf c = .ok kind)
    (hone : execute (depth + 1) [c] = (do
      announce c
      step (execute depth) c
      return ())) (p : Performer) :
    SoundsLike (execute (depth + 1) [c] p) (step (execute depth) c p) := by
  rw [hone]
  apply (sounds_behind (silent_announce hkind p)).trans
  cases h : (step (execute depth) c p).outcome with
  | error e =>
    rw [bind_of_error h]
    exact ⟨h.symm, rfl, rfl⟩
  | ok a =>
    rw [bind_of_ok h]
    exact ⟨h.symm, congrArg (List.filter _) (List.append_nil _), rfl⟩

end Performance

end Melody
