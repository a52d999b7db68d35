import Melody.Proofs.Depth
import Melody.Proofs.Hearing
import Melody.Proofs.Marks

/-!
# Repetitions written out

A repetition runs its commands as a list of their own, one level further down, with parallel
blocks of its own. If none of the commands switches the parallel mode, nothing else tells the
repetition from its commands written out as often as it runs them: both leave the same state, end
the same way and are heard the same. Since one of them needs a level more, runs are compared by
`Begins`: the one with less room does what the other does, or it breaks off and what was heard
until then is how the other begins.
-/

set_option autoImplicit false

namespace Melody

namespace Effect

variable {σ α : Type}

structure HeardAs (e e' : Effect σ α) : Prop where
  outcome : e.outcome = e'.outcome
  audio : e.audio = e'.audio
  state : e.state = e'.state

/-- The first effect is the second one, apart from printed lines, or it breaks off because
commands nest too deep, and what is heard of it is the beginning of what is heard of the second. -/
def Begins (e e' : Effect σ α) : Prop :=
  e.HeardAs e' ∨ e.outcome = .error .tooDeep ∧ e.audio <+: e'.audio

section Order

variable {e e' e'' : Effect σ α}

theorem HeardAs.refl (e : Effect σ α) : e.HeardAs e :=
  ⟨rfl, rfl, rfl⟩

theorem HeardAs.symm (h : e.HeardAs e') : e'.HeardAs e :=
  ⟨h.outcome.symm, h.audio.symm, h.state.symm⟩

theorem HeardAs.trans (h : e.HeardAs e') (h' : e'.HeardAs e'') : e.HeardAs e'' :=
  ⟨h.outcome.trans h'.outcome, h.audio.trans h'.audio, h.state.trans h'.state⟩

theorem HeardAs.begins (h : e.HeardAs e') (h' : e'.Begins e'') : e.Begins e'' := by
  rcases h' with h' | ⟨hdeep, hstart⟩
  · exact .inl (h.trans h')
  · exact .inr ⟨h.outcome.trans hdeep, h.audio ▸ hstart⟩

theorem Begins.heard (h : e.Begins e') (h' : e'.HeardAs e'') : e.Begins e'' := by
  rcases h with h | ⟨hdeep, hstart⟩
  · exact h.begins (.inl h')
  · exact .inr ⟨hdeep, h'.audio ▸ hstart⟩

theorem Begins.audio (h : e.Begins e') : e.audio <+: e'.audio := by
  rcases h with h | ⟨-, hstart⟩
  · exact h.audio ▸ List.prefix_refl e.audio
  · exact hstart

/-- With room enough the two effects are heard the same. -/
theorem Begins.heard_of_room (h : e.Begins e') (hroom : e.outcome ≠ .error .tooDeep) :
    e.HeardAs e' :=
  h.resolve_right fun hdeep => hroom hdeep.1

end Order

end Effect

namespace Act

variable {σ α β : Type}

section Bind

variable {m m' : Act σ α} {f f' : α → Act σ β} {s t : σ}

theorem audio_of_ok {a : α} (h : (m s).outcome = .ok a) :
    ((m >>= f) s).audio = (m s).audio ++ (f a (m s).state).audio := by
  rw [bind_of_ok h]
  exact List.filter_append ..

theorem audio_of_error {e : Halt} (h : (m s).outcome = .error e) :
    ((m >>= f) s).audio = (m s).audio := by
  rw [bind_of_error h]
  rfl

theorem audio_start (m : Act σ α) (f : α → Act σ β) (s : σ) :
    (m s).audio <+: ((m >>= f) s).audio := by
  cases h : (m s).outcome with
  | error e =>
    exact ⟨[], by rw [List.append_nil, audio_of_error h]⟩
  | ok a =>
    rw [audio_of_ok h]
    exact List.prefix_append ..

/-- The second actions need to be heard the same only where the first ones lead. -/
theorem heard_bind (hm : (m s).HeardAs (m' s))
    (hf : ∀ a, (m s).outcome = .ok a → (f a (m s).state).HeardAs (f' a (m s).state)) :
    ((m >>= f) s).HeardAs ((m' >>= f') s) := by
  cases h : (m s).outcome with
  | error e =>
    have h' : (m' s).outcome = .error e := hm.outcome ▸ h
    constructor
    · rw [bind_of_error h, bind_of_error h']
    · rw [audio_of_error h, audio_of_error h', hm.audio]
    · rw [bind_of_error h, bind_of_error h', hm.state]
  | ok a =>
    have h' : (m' s).outcome = .ok a := hm.outcome ▸ h
    have hrest := hf a h
    constructor
    · rw [bind_of_ok h, bind_of_ok h', ← hm.state, hrest.outcome]
    · rw [audio_of_ok h, audio_of_ok h', ← hm.state, hm.audio, hrest.audio]
    · rw [bind_of_ok h, bind_of_ok h', ← hm.state, hrest.state]

theorem begins_bind (hm : ∀ s, (m s).Begins (m' s)) (hf : ∀ a s, (f a s).Begins (f' a s)) (s : σ) :
    ((m >>= f) s).Begins ((m' >>= f') s) := by
  rcases hm s with hheard | ⟨hdeep, hstart⟩
  · cases h : (m s).outcome with
    | error e =>
      refine .inl (heard_bind hheard ?_)
      intro a hok
      rw [h] at hok
      contradiction
    | ok a =>
      rcases hf a (m s).state with hrest | ⟨hdeep, hstart⟩
      · refine .inl (heard_bind hheard ?_)
        intro b hok
        rw [h] at hok
        cases hok
        exact hrest
      · right
        have h' : (m' s).outcome = .ok a := hheard.outcome ▸ h
        rw [audio_of_ok h, audio_of_ok h', ← hheard.state, hheard.audio, bind_of_ok h]
        exact ⟨hdeep, (List.prefix_append_right_inj _).mpr hstart⟩
  · right
    rw [audio_of_error hdeep, bind_of_error hdeep]
    exact ⟨rfl, hstart.trans (audio_start m' f' s)⟩

/-- What is not heard and changes nothing can be left out. -/
theorem heard_behind {a : α} (h : m.Silent s a s) : ((m >>= f) s).HeardAs (f a s) := by
  refine ⟨?_, audio_bind h, ?_⟩
  · rw [bind_of_ok h.answers.outcome, h.answers.state]
  · rw [bind_of_ok h.answers.outcome, h.answers.state]

end Bind

def hearing (σ : Type) : Congruence σ where
  rel m m' := ∀ s, (m s).HeardAs (m' s)
  refl m s := .refl (m s)
  bind hm hf s := heard_bind (hm s) fun a _ => hf a _

def beginning (σ : Type) : Congruence σ where
  rel m m' := ∀ s, (m s).Begins (m' s)
  refl m s := .inl (.refl (m s))
  bind hm hf := begins_bind hm hf

end Act

namespace Performance

open Act

theorem execute_begins (depth : Nat) (cs : List Command) (p : Performer) :
    (execute depth cs p).Begins (execute (depth + 1) cs p) :=
  execute_congr (beginning Performer) (fun _ _ => .inr ⟨rfl, _, rfl⟩) depth cs p

def Switchless (cs : List Command) : Prop :=
  ∀ c ∈ cs, c.mark ≠ .opening ∧ c.mark ≠ .closing

section Switchless

variable {one : Command → Performance Unit}

theorem run_other {c : Command} (h : c.mark ≠ .opening ∧ c.mark ≠ .closing) (isOpen : Bool)
    (cs : List Command) :
    runAll one isOpen (c :: cs) = (do announce c; one c.core; runAll one isOpen cs) := by
  rw [runAll]
  congr 1
  funext _
  split
  · exact absurd ((Command.mark_opening_iff c).mpr ‹_›) h.1
  · exact absurd ((Command.mark_closing_iff c).mpr ‹_›) h.2
  · rfl

/-- The commands run as they would in a list of their own, whether a block is open or not. -/
theorem run_switchless {body : List Command} (h : Switchless body) (isOpen : Bool)
    (rest : List Command) :
    runAll one isOpen (body ++ rest) = (do runAll one false body; runAll one isOpen rest) := by
  induction body with
  | nil => rfl
  | cons c body ih =>
    have hc := h c List.mem_cons_self
    rw [List.cons_append, run_other hc, run_other hc,
      ih fun d hd => h d (List.mem_cons_of_mem c hd)]
    simp only [Act.bind_assoc]

theorem run_copies {body : List Command} (h : Switchless body) (isOpen : Bool)
    (rest : List Command) (i n : Nat) :
    runAll one isOpen ((List.replicate n body).flatten ++ rest) =
      (do repeatFrom (fun _ => runAll one false body) i n; runAll one isOpen rest) := by
  induction n generalizing i with
  | zero => rfl
  | succ n ih =>
    rw [List.replicate_succ, List.flatten_cons, List.append_assoc, run_switchless h, ih (i + 1)]
    exact (Act.bind_assoc ..).symm

end Switchless

/-- A repetition is heard as its rounds, which only announce themselves. -/
theorem loop_heard (inner : Inner) (n : Nat) (body : List Command) (p : Performer) :
    (loop inner (some (.int n)) (.commands body) p).HeardAs
      (repeatFrom (fun _ => inner body) 0 n p) := by
  have hloop : loop inner (some (.int n)) (.commands body) = (do
      say s!"Repetindo bloco {(Value.int n).written} vezes"
      repeatFrom (round inner (Value.int n).written (.commands body)) 0 n) := rfl
  have hround (i : Nat) (q : Performer) :
      (round inner (Value.int n).written (.commands body) i q).HeardAs (inner body q) :=
    heard_behind (silent_say _ q)
  rw [hloop]
  exact (heard_behind (silent_say _ p)).trans ((hearing Performer).rounds hround 0 n p)

def looped (before body after : List Command) (n : Nat) : List Command :=
  before ++ .loop (some (.int n)) (.commands body) :: after

def unrolled (before body after : List Command) (n : Nat) : List Command :=
  before ++ ((List.replicate n body).flatten ++ after)

section Written

variable {body : List Command} (after : List Command) (n : Nat)

theorem run_loop_heard (inner : Inner) (isOpen : Bool) (p : Performer) :
    (runAll (step inner) isOpen (.loop (some (.int n)) (.commands body) :: after) p).HeardAs
      ((do
        repeatFrom (fun _ => inner body) 0 n
        runAll (step inner) isOpen after : Performance Unit) p) := by
  have hrun : runAll (step inner) isOpen (.loop (some (.int n)) (.commands body) :: after) = (do
      announce (.loop (some (.int n)) (.commands body))
      loop inner (some (.int n)) (.commands body)
      runAll (step inner) isOpen after) := rfl
  have hkind : kindOf (.loop (some (.int n)) (.commands body)) = .ok "repeticao" := rfl
  rw [hrun]
  exact (heard_behind (silent_announce hkind p)).trans
    ((hearing Performer).bind (loop_heard inner n body) (fun _ => (hearing Performer).refl _) p)

variable (h : Switchless body) (before : List Command)

include h

/-- With the same room, the repetition begins as what is written out: its commands have a level
less. -/
theorem looped_begins (depth : Nat) (p : Performer) :
    (execute depth (looped before body after n) p).Begins
      (execute depth (unrolled before body after n) p) := by
  cases depth with
  | zero => exact (beginning Performer).refl _ p
  | succ depth =>
    apply run_append_congr (beginning Performer) fun _ => (beginning Performer).refl _
    intro isOpen q
    rw [run_copies h isOpen after 0 n]
    apply (run_loop_heard after n (execute depth) isOpen q).begins
    exact (beginning Performer).bind
      ((beginning Performer).rounds (fun _ => execute_begins depth body) 0 n)
      (fun _ => (beginning Performer).refl _) q

/-- With one level more, the repetition gives its commands the room they have when written out. -/
theorem unrolled_begins (depth : Nat) (p : Performer) :
    (execute depth (unrolled before body after n) p).Begins
      (execute (depth + 1) (looped before body after n) p) := by
  cases depth with
  | zero => exact .inr ⟨rfl, _, rfl⟩
  | succ depth =>
    have hstep := step_congr (beginning Performer) (execute_begins depth)
    apply run_append_congr (beginning Performer) hstep
    intro isOpen q
    rw [run_copies h isOpen after 0 n]
    refine Effect.Begins.heard ?_ (run_loop_heard after n (execute (depth + 1)) isOpen q).symm
    exact (beginning Performer).behind _
      (fun _ => run_congr (beginning Performer) hstep isOpen after) q

end Written

/-- A repetition of commands that do not switch the parallel mode is heard as the commands written
out as often, wherever it stands: if either of them stays within its room, both end the same way,
are heard the same and leave the same state, where the repetition may take one level more. However
deep they nest, what is heard of the repetition is how the commands written out begin, and what is
heard of these is how the repetition begins that has a level more. -/
theorem repetition_unrolls {body : List Command} (h : Switchless body) (before after : List Command)
    (n depth : Nat) (p : Performer) :
    ((execute depth (looped before body after n) p).outcome ≠ .error .tooDeep →
      (execute depth (looped before body after n) p).HeardAs
        (execute depth (unrolled before body after n) p)) ∧
    ((execute depth (unrolled before body after n) p).outcome ≠ .error .tooDeep →
      (execute (depth + 1) (looped before body after n) p).HeardAs
        (execute depth (unrolled before body after n) p)) ∧
    (execute depth (looped before body after n) p).audio <+:
      (execute depth (unrolled before body after n) p).audio ∧
    (execute depth (unrolled before body after n) p).audio <+:
      (execute (depth + 1) (looped before body after n) p).audio := by
  have hlooped := looped_begins after n h before depth p
  have hunrolled := unrolled_begins after n h before depth p
  exact ⟨hlooped.heard_of_room, fun hroom => (hunrolled.heard_of_room hroom).symm,
    hlooped.audio, hunrolled.audio⟩

def couplet : List Command :=
  [.loop (some (.int 2)) (.commands [.startParallel, minimRest, .endParallel]),
   .call (some (.text "eco")) (some (.list [])),
   minimRest]

/-- Also in the midst of a parallel block. -/
theorem couplet_unrolls :
    (execute 3 (looped [.startParallel] couplet [.endParallel] 3) {}).outcome = .ok () ∧
      (execute 3 (looped [.startParallel] couplet [.endParallel] 3) {}).HeardAs
        (execute 3 (unrolled [.startParallel] couplet [.endParallel] 3) {}) := by
  have hswitchless : Switchless couplet := by
    unfold Switchless
    decide
  have hok : (execute 3 (looped [.startParallel] couplet [.endParallel] 3) {}).outcome = .ok () :=
    ok_of_option (by decide +kernel)
  refine ⟨hok, (repetition_unrolls hswitchless [.startParallel] [.endParallel] 3 3 {}).1 ?_⟩
  rw [hok]
  simp

end Performance

end Melody
