import Mathlib.Data.List.Basic
import Melody.CommandLine.Tool
import Melody.Proofs.Announcing
import Melody.Proofs.Scoping

/-!
# What a run records

While commands run, the program changes in one way only: a call of a user's function reads the
function's body and records the mistakes found there. Which bodies were read is seen in the
events, so the mistakes on record after a run can be told from what was seen and heard of it,
however it ends.
-/

set_option autoImplicit false

namespace Melody.Performance

open Act

def mistakesIn (program : Program) (name : String) : List Command.Mistake :=
  match program.functions.find? name with
  | some (.user _ body) => (Command.read .diagnosing program.context body).mistakes
  | _ => []

/-- The program changed in its mistakes only: those in the bodies that were read by the events are
new. A call that is announced last, before more can happen, has a body without mistakes. -/
structure Tells {α : Type} (p : Performer) (e : Effect Performer α) : Prop where
  program : e.state.program = { p.program with
    mistakes := p.program.mistakes ++ (bodiesRead e.events).flatMap (mistakesIn p.program) }
  ending : ∀ a, e.outcome = .ok a → ∀ name, e.events.getLast? = some (announcement name) →
    mistakesIn p.program name = []

def Telling {α : Type} (m : Performance α) : Prop :=
  ∀ p, Tells p (m p)

section Tells

variable {α β : Type} {p : Performer}

theorem not_announcement {e : Event} (h : called? e = none) (name : String) :
    e ≠ announcement name := by
  rintro rfl
  rw [called_announcement] at h
  cases h

theorem tells_quiet {e : Effect Performer α} (hquiet : ∀ d ∈ e.events, called? d = none)
    (hprogram : e.state.program = p.program) : Tells p e := by
  constructor
  · rw [bodies_read_none hquiet, List.flatMap_nil, List.append_nil, hprogram]
  · intro _ _ name hlast
    exact absurd rfl (not_announcement (hquiet _ (List.mem_of_getLast? hlast)) name)

theorem Uncalled.telling {m : Performance α} (hm : Uncalled m) : Telling m :=
  fun p => tells_quiet (hm.hushed p) (hm.program p)

theorem Tells.same_mistakes {e : Effect Performer α} (h : Tells p e) :
    mistakesIn e.state.program = mistakesIn p.program := by
  rw [h.program]
  rfl

theorem Tells.bind {m : Performance α} {f : α → Performance β} (hm : Tells p (m p))
    (hf : ∀ a, Tells (m p).state (f a (m p).state)) : Tells p ((m >>= f) p) := by
  cases h : (m p).outcome with
  | error e =>
    rw [bind_of_error h]
    exact ⟨hm.program, nofun⟩
  | ok a =>
    have hsame := hm.same_mistakes
    have hrest := hf a
    rw [bind_of_ok h]
    constructor
    · rw [read_mistakes_append (hm.ending a h), hrest.program, hsame, hm.program, List.append_assoc]
    · intro b hb name hlast
      cases hevents : (f a (m p).state).events with
      | nil =>
        rw [hevents, List.append_nil] at hlast
        exact hm.ending a h name hlast
      | cons d ds =>
        rw [List.getLast?_append_of_ne_nil _ (by rw [hevents]; nofun)] at hlast
        rw [← hsame]
        exact hrest.ending b hb name hlast

theorem Telling.bind {m : Performance α} {f : α → Performance β} (hm : Telling m)
    (hf : ∀ a, Telling (f a)) : Telling (m >>= f) :=
  fun p => (hm p).bind fun a => hf a _

theorem walk_telling : Walk fun _ m => Telling m where
  answer a := (walk_uncalled.answer a).telling
  fail f := (walk_uncalled.fail f).telling
  say line h := (walk_uncalled.say line h).telling
  read := walk_uncalled.read.telling
  bind := Telling.bind

theorem switching_telling : Switching fun _ m => Telling m where
  toWalk := walk_telling
  save := switching_uncalled.save.telling
  parallel mode := (switching_uncalled.parallel mode).telling
  restore := switching_uncalled.restore.telling
  await := switching_uncalled.await.telling

end Tells

section Call

variable {p : Performer} {name : String} {parameters : List String} {body : List Char}

/-- A call that does not get to its body. -/
theorem tells_broken {q : Performer} (hq : q.program = p.program) (h : Halt) :
    Tells p (⟨q, [announcement name], .error h⟩ : Effect Performer Unit) := by
  refine ⟨?_, nofun⟩
  rw [bodies_read_called (called_announcement name)]
  simp [bodiesRead, hq]

def refusal (name : String) (expected given : Nat) : Event :=
  .printed s!"Erro: Função '{name}' espera {expected} argumentos, mas recebeu {given}"

/-- A call that the next line turns down. -/
theorem tells_refused {q : Performer} (hq : q.program = p.program) (expected given : Nat) :
    Tells p (⟨q, [announcement name, refusal name expected given], .ok ()⟩ :
      Effect Performer Unit) := by
  have hordinary : called? (refusal name expected given) = none := by
    apply called_ordinary
    repeat with_reducible apply Unlike.append
    decide +kernel
  have hrefusal : isRefusal name (refusal name expected given) = true := by
    apply List.isPrefixOf_iff_prefix.mpr
    simp only [String.toList_append, List.append_assoc, List.prefix_append_right_inj]
    exact List.prefix_append _ _
  constructor
  · rw [bodies_read_called (called_announcement name), List.head?_cons, Option.all_some, hrefusal,
      if_pos rfl, bodies_read_other hordinary]
    simp [bodiesRead, hq]
  · intro _ _ other hlast
    exact absurd (Option.some.inj hlast) (not_announcement hordinary other)

/-- What happens from the reading of a body on goes on from the mistakes found in it. -/
theorem tells_body (hf : p.program.functions.find? name = some (.user parameters body))
    {q : Performer} (hq : q.program = p.program) {e : Effect Performer Unit}
    (he : Tells (readBody body q).state e) :
    Tells p ⟨e.state, announcement name :: ((readBody body q).events ++ e.events), e.outcome⟩ := by
  have htold := Command.told_read p.program.context body
  have hmistakes : mistakesIn p.program name =
      (Command.read .diagnosing p.program.context body).mistakes := by
    rw [mistakesIn, hf]
  have hevents : (readBody body q).events =
      (Command.read .diagnosing p.program.context body).printed.map .printed := by
    rw [← hq]
    rfl
  have hread : (readBody body q).state.program = { p.program with
      mistakes := p.program.mistakes ++ mistakesIn p.program name } := by
    rw [hmistakes, ← hq]
    rfl
  have hsame : mistakesIn (readBody body q).state.program = mistakesIn p.program := by
    rw [hread]
    rfl
  have hnil : (Command.read .diagnosing p.program.context body).printed = [] →
      mistakesIn p.program name = [] := fun h => hmistakes.trans (htold.mistakes h)
  constructor
  · rw [hevents, read_mistakes_body htold.lines hnil, he.program, hsame, hread, List.append_assoc]
  · intro a ha other hlast
    rw [hevents] at hlast
    cases hrest : e.events with
    | cons d ds =>
      rw [← List.cons_append, List.getLast?_append_of_ne_nil _ (by rw [hrest]; nofun)] at hlast
      rw [← hsame]
      exact he.ending a ha other hlast
    | nil =>
      rw [hrest, List.append_nil] at hlast
      cases hprinted : (Command.read .diagnosing p.program.context body).printed with
      | nil =>
        rw [hprinted] at hlast
        have hother : called? (announcement name) = called? (announcement other) :=
          congrArg called? (Option.some.inj hlast)
        rw [called_announcement, called_announcement] at hother
        rw [← Option.some.inj hother]
        exact hnil hprinted
      | cons line lines =>
        rw [hprinted, List.map_cons, List.getLast?_cons_cons, ← List.map_cons, ← hprinted] at hlast
        obtain ⟨last, hmem, hlast⟩ := List.mem_map.mp (List.mem_of_getLast? hlast)
        exact absurd hlast (not_announcement (called_ordinary (htold.lines last hmem).1) other)

def Unseen (p : Performer) (es : List Event) (q : Performer) : Prop :=
  es = [] ∧ q.program = p.program

theorem unseen_trans {p q r : Performer} {es es' : List Event} (h : Unseen p es q)
    (h' : Unseen q es' r) : Unseen p (es ++ es') r :=
  ⟨List.append_eq_nil_iff.mpr ⟨h.1, h'.1⟩, h'.2.trans h.2⟩

theorem unseen_of_except {α : Type} (e : Except Fault α) :
    (ofExcept e : Performance α).Always Unseen := by
  intro p
  cases e with
  | error f => exact ⟨rfl, rfl⟩
  | ok a => exact ⟨rfl, rfl⟩

theorem unseen_argument (argument : Value) : (argumentValue argument).Always Unseen := by
  have hread : (read : Performance Performer).Always Unseen := fun p => ⟨rfl, rfl⟩
  apply hread.bind _ unseen_trans
  intro p
  apply (unseen_of_except _).bind _ unseen_trans
  intro known
  split
  · exact fun p => ⟨rfl, rfl⟩
  · split
    all_goals exact fun p => ⟨rfl, rfl⟩

theorem unseen_parameters (arguments : Value) (parameters : List String) (i : Nat) :
    (bindParameters arguments i parameters).Always Unseen := by
  induction parameters generalizing i with
  | nil => exact fun p => ⟨rfl, rfl⟩
  | cons name rest ih =>
    apply (unseen_of_except _).bind _ unseen_trans
    intro argument
    apply (unseen_argument argument).bind _ unseen_trans
    intro v
    have hscope : (change fun p => { p with scope := p.scope.bind (.text name) v } :
        Performance Unit).Always Unseen := fun p => ⟨rfl, rfl⟩
    exact hscope.bind (fun _ => ih (i + 1)) unseen_trans

variable {inner : Inner} (hinner : ∀ cs, Telling (inner cs))

include hinner

theorem tells_run_body (hf : p.program.functions.find? name = some (.user parameters body))
    {q : Performer} (hq : q.program = p.program) :
    Tells p ⟨(runBody inner body q).state, announcement name :: (runBody inner body q).events,
      (runBody inner body q).outcome⟩ := by
  have hrest (cs : List Command) : Telling (do inner (← substituteAll cs)) :=
    (walk_substitute_all walk_telling cs).bind hinner
  unfold runBody
  cases hread : (readBody body q).outcome with
  | error h =>
    rw [bind_of_error hread]
    have hbody := tells_body hf hq (e := ⟨(readBody body q).state, [], .error h⟩)
      (tells_quiet nofun rfl)
    rwa [List.append_nil] at hbody
  | ok cs =>
    rw [bind_of_ok hread]
    exact tells_body hf hq (hrest cs _)

theorem tells_call_body (hf : p.program.functions.find? name = some (.user parameters body))
    (arguments : Value) {q : Performer} (hq : q.program = p.program) :
    Tells p ⟨(callBody inner name parameters body arguments q).state,
      announcement name :: (callBody inner name parameters body arguments q).events,
      (callBody inner name parameters body arguments q).outcome⟩ := by
  unfold callBody
  cases arguments.count with
  | error f => exact tells_broken hq (.fault f)
  | ok given =>
    rw [of_except_bind]
    by_cases hcount : given = parameters.length
    · rw [if_pos hcount]
      obtain ⟨hevents, hprogram⟩ := unseen_parameters arguments parameters 0 q
      cases hbound : (bindParameters arguments 0 parameters q).outcome with
      | error h =>
        rw [bind_of_error hbound, hevents]
        exact tells_broken (hprogram.trans hq) h
      | ok _ =>
        rw [bind_of_ok hbound, hevents]
        exact tells_run_body hinner hf (hprogram.trans hq)
    · rw [if_neg hcount]
      exact tells_refused hq parameters.length given

theorem tells_call_user (hf : p.program.functions.find? name = some (.user parameters body))
    (arguments : Value) : Tells p (callUser inner name parameters body arguments p) := by
  have hcall : callUser inner name parameters body arguments p =
      (do
        (do
          say s!"Executando função '{name}'"
          setScope []
          callBody inner name parameters body arguments : Performance Unit)
        setScope p.scope
        return .none : Performance Value) p := by
    rw [call_user_eq]
    simp only [inOwnScope, bind_assoc]
    rfl
  rw [hcall]
  apply Tells.bind
  · exact tells_call_body hinner hf arguments rfl
  · intro _
    exact (uncalled_scope fun _ => p.scope).telling.bind (fun _ => walk_telling.pure _) _

theorem telling_call (function arguments : Slot) : Telling (call inner function arguments) := by
  apply Telling.bind (walk_need walk_telling _ _)
  intro function
  apply Telling.bind (walk_need walk_telling _ _)
  intro arguments p
  cases hname : function.asName with
  | error f => exact walk_telling.fail f p
  | ok known =>
    rw [of_except_bind, read_bind]
    cases hfind : known.bind p.program.functions.find? with
    | none => exact walk_telling.bind (walk_telling.tell _) (fun _ => walk_telling.pure _) p
    | some f =>
      cases f with
      | builtin b => exact walk_builtin walk_telling _ _ _ p
      | user parameters body =>
        obtain ⟨name, rfl, hf⟩ := Option.bind_eq_some_iff.mp hfind
        obtain rfl := text_of_name hname
        exact tells_call_user hinner hf arguments

/-- A step tells of the bodies that it reads if the commands inside do. -/
theorem telling_step (c : Command) : Telling (step inner c) := by
  have hblock (b : Block) : Telling (runBlock inner b) :=
    (walk_block_commands walk_telling b).bind hinner
  rcases step_cases c with hplain | ⟨condition, whenTrue, whenFalse, hc⟩ | ⟨times, body, hc⟩ |
    ⟨name, collection, reversed, body, hc⟩ | ⟨function, arguments, hc⟩
  · exact (hplain (playing_uncalled.quieter rfl) inner).telling
  all_goals unfold step; rw [hc]
  · exact walk_branch walk_telling condition (hblock whenTrue) (hblock whenFalse)
  · exact walk_loop walk_telling times (hblock body)
  · apply walk_for_each walk_telling
    intro name collection backwards items
    apply walk_iterate walk_telling fun f => (uncalled_scope f).telling
    exact (walk_substitute_block walk_telling _ body).bind hblock
  · exact (telling_call hinner function arguments).bind fun _ => walk_telling.pure _

end Call

/-- The induction is on the depth: blocks and calls run one level below. -/
theorem telling_execute (depth : Nat) (cs : List Command) : Telling (execute depth cs) := by
  induction depth generalizing cs with
  | zero => exact fun p => tells_quiet nofun rfl
  | succ depth ih => exact walk_run switching_telling (fun c _ => telling_step ih c.core) false

theorem telling_perform (name : Value) : Telling (perform name) := by
  apply Telling.bind walk_telling.read
  intro p
  dsimp only
  apply Telling.bind (walk_telling.of_except _)
  intro known
  split
  · exact Telling.bind (walk_telling.tell _) fun _ => walk_telling.pure _
  · apply Telling.bind (walk_telling.tell _)
    intro _
    apply uncalled_settings.telling.bind
    intro _
    apply (telling_execute _ _).bind
    intro _
    apply Telling.bind walk_telling.read
    intro q
    split
    · apply Telling.bind (walk_telling.tell _)
      intro _
      apply Telling.bind switching_telling.await
      intro _
      exact Telling.bind (walk_telling.tell _) fun _ => walk_telling.pure _
    · exact Telling.bind (walk_telling.tell _) fun _ => walk_telling.pure _

end Melody.Performance

namespace Melody.CommandLine

open Act Performance

def playLoaded : Performance Unit := do
  say "\n🎼 Iniciando execução da música..."
  if ← perform .none then say "\n✅ Execução concluída com sucesso!"
  else
    say "\n❌ Erro durante a execução da melodia."
    halt (.exit 1)

theorem telling_loaded : Telling playLoaded := by
  apply Telling.bind (walk_telling.tell _)
  intro _
  apply (telling_perform _).bind
  intro found
  cases found with
  | true => exact walk_telling.tell _
  | false => exact Telling.bind (walk_telling.tell _) fun _ p => tells_quiet nofun rfl

def turnDown (line : String) : Performance Unit := do
  say line
  halt (.exit 1)

theorem load_turn_down (path : String) (file : Source.File) (line : String) (p : Performer) :
    ∀ b, Event.started b ∉
      ((do let _ ← load path file; turnDown line : Performance Unit) p).events := by
  have hevents : ((do let _ ← load path file; turnDown line : Performance Unit) p).events =
      (load path file p).events ++ [.printed line] := rfl
  rw [hevents]
  simp [load]

/-- A run makes no sound, or nothing is wrong after loading and the melody is played. -/
theorem play_file_cases (path : String) (file : Source.File) (p : Performer) :
    (∀ b, Event.started b ∉ (playFile path file p).events) ∨
      (load path file p).state.program.mistakes = [] ∧
        (load path file p).state.program.complaints = [] ∧
        playFile path file p = (do let _ ← load path file; playLoaded : Performance Unit) p := by
  cases haccepted : (Program.loadFile path file { p.program with debug := p.debug }).accepted with
  | false =>
    left
    have hplay : playFile path file p =
        (do let _ ← load path file; turnDown _ : Performance Unit) p :=
      bind_congr_rest (show (load path file p).outcome = .ok false from congrArg _ haccepted) rfl
    rw [hplay]
    exact load_turn_down _ _ _ _
  | true =>
    have hok : (load path file p).outcome = .ok true := congrArg _ haccepted
    by_cases hwrong : (!(load path file p).state.program.mistakes.isEmpty ||
        !(load path file p).state.program.complaints.isEmpty) = true
    · left
      obtain ⟨line, hplay⟩ : ∃ line, playFile path file p =
          (do let _ ← load path file; turnDown line : Performance Unit) p := by
        refine ⟨?_, bind_congr_rest hok ?_⟩
        rotate_left
        rw [if_neg (by decide)]
        change (Act.read >>= _) _ = _
        rw [read_bind, if_pos hwrong]
        rfl
      rw [hplay]
      exact load_turn_down _ _ _ _
    · right
      refine ⟨by simp_all, by simp_all, ?_⟩
      apply bind_congr_rest hok
      rw [if_neg (by decide)]
      change (Act.read >>= _) _ = _
      rw [read_bind, if_neg hwrong]
      rfl

theorem heard_while_playing {path : String} {debug : Bool} {file : Source.File}
    {patience : Option Nat} {b : Sound.Buffer}
    (h : .started b ∈ (play path debug file patience).events) :
    .started b ∈
      (playFile path file { debug := debug, engine := { patience := patience } }).events := by
  unfold play at h
  dsimp only at h
  split at h
  · simpa [printed, opening] using h
  · simpa [printed, opening] using h

/-- If a run makes a sound, then no token was complained about, loading found no mistake, and the
mistakes on record at its end, however it ends, are those in the bodies that were read, call by
call. A call reads the body of its function unless it is turned down for the number of its
arguments or breaks off before anything follows its announcement. -/
theorem mistakes_of_called_bodies (path : String) (debug : Bool) (file : Source.File)
    (patience : Option Nat) {b : Sound.Buffer}
    (hsound : .started b ∈ (play path debug file patience).events) :
    let p : Performer := { debug := debug, engine := { patience := patience } }
    let loading := load path file p
    let ending := playFile path file p
    ending.state.program.complaints = [] ∧
      ∃ played, ending.events = loading.events ++ played ∧
        ending.state.program.mistakes =
          (bodiesRead played).flatMap (mistakesIn loading.state.program) := by
  intro p loading ending
  have hheard : .started b ∈ ending.events := heard_while_playing hsound
  rcases play_file_cases path file p with hsilent | ⟨hmistakes, hcomplaints, hplay⟩
  · exact absurd hheard (hsilent b)
  · have htells := telling_loaded loading.state
    have hending : ending = ⟨(playLoaded loading.state).state,
        loading.events ++ (playLoaded loading.state).events, (playLoaded loading.state).outcome⟩ :=
      hplay.trans (bind_of_ok rfl)
    rw [hending]
    refine ⟨?_, (playLoaded loading.state).events, rfl, ?_⟩
    · rw [htells.program]
      exact hcomplaints
    · rw [htells.program, hmistakes, List.nil_append]

def echoText : Source.File :=
  .text "tempo = 1000000; funcao eco() \x7b reptir; \x7d melodia m \x7b tocar do minima; eco(); \x7d".toList

def isSound : Event → Bool
  | .started _ => true
  | _ => false

/-- The mistake comes to light after the sound. -/
theorem mistake_behind_sound :
    ∃ b, .started b ∈ (play "eco" false echoText none).events ∧
      (playFile "eco" echoText {}).state.program.complaints = [] ∧
      (playFile "eco" echoText {}).state.program.mistakes ≠ [] := by
  have hsound : (play "eco" false echoText none).events.any isSound = true := by decide +kernel
  obtain ⟨event, hevent, hstarted⟩ := List.any_eq_true.mp hsound
  have hmistakes : (playFile "eco" echoText {}).state.program.mistakes.isEmpty = false := by
    decide +kernel
  cases event with
  | started b =>
    refine ⟨b, hevent, (mistakes_of_called_bodies "eco" false echoText none hevent).1, ?_⟩
    simpa using hmistakes
  | printed | opened | stopped | slept => cases hstarted

end Melody.CommandLine
