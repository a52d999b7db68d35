import Mathlib.Tactic.SplitIfs
import Melody.Performance.Melody
import Melody.Proofs.Plain
import Melody.Proofs.Walks

/-!
# Calls and bodies in the events of a run

A call of a user's function is announced before anything else happens. If it has the wrong number
of arguments, the next line turns it down; otherwise the body is read, and every mistake in it is
told at once. So the events of a run show which bodies it read: those behind an announcement that
something other than a refusal follows. All other actions of a performance announce nothing.
-/

set_option autoImplicit false

namespace Melody

open Act

def announcement (name : String) : Event :=
  .printed s!"Executando função '{name}'"

def called? : Event → Option String
  | .printed line =>
    let name := String.ofList (line.toList.drop callWords.toList.length).dropLast
    if line = s!"Executando função '{name}'" then some name else none
  | _ => none

def refusalWords : String := "Erro: Função '"

def isRefusal (name : String) : Event → Bool
  | .printed line => (s!"Erro: Função '{name}' espera ").toList.isPrefixOf line.toList
  | _ => false

def bodiesRead : List Event → List String
  | [] => []
  | e :: es =>
    match called? e with
    | some name => if es.head?.all (isRefusal name) then bodiesRead es else name :: bodiesRead es
    | none => bodiesRead es

example :
    bodiesRead
      [announcement "eco", .printed "Erro: Função 'eco' espera 0 argumentos, mas recebeu 1",
       announcement "eco", .printed "Pausa (minima) - Instrumento: piano"] = ["eco"] := by
  decide +kernel

theorem called_announcement (name : String) : called? (announcement name) = some name := by
  have hname : String.ofList ((s!"Executando função '{name}'").toList.drop
      callWords.toList.length).dropLast = name := by
    have htext : (s!"Executando função '{name}'").toList =
        callWords.toList ++ (name.toList ++ ['\'']) := by
      change (callWords ++ name ++ "'").toList = _
      rw [String.toList_append, String.toList_append, List.append_assoc]
      rfl
    rw [htext, List.drop_left, List.dropLast_concat, String.ofList_toList]
  unfold announcement called?
  dsimp only
  rw [hname, if_pos rfl]

theorem eq_announcement {e : Event} {name : String} (h : called? e = some name) :
    e = announcement name := by
  cases e with
  | printed line =>
    unfold called? at h
    dsimp only at h
    split at h
    · rename_i hline
      rw [← Option.some.inj h]
      exact congrArg Event.printed hline
    · cases h
  | opened | started | stopped | slept => cases h

theorem called_ordinary {line : String} (h : Ordinary line) : called? (.printed line) = none := by
  cases hc : called? (.printed line) with
  | none => rfl
  | some name =>
    have hline := Event.printed.inj (eq_announcement hc)
    change line = callWords ++ name ++ "'" at hline
    rw [String.append_assoc] at hline
    exact absurd hline (h.ne_append _)

theorem not_refusal {line : String} (h : Unlike refusalWords line) (name : String) :
    isRefusal name (.printed line) = false := by
  unfold isRefusal
  rw [Bool.eq_false_iff]
  intro hstart
  obtain ⟨rest, hrest⟩ := List.isPrefixOf_iff_prefix.mp hstart
  have hline : line = refusalWords ++ (name ++ "' espera " ++ String.ofList rest) := by
    rw [← String.toList_inj, ← hrest]
    change (refusalWords ++ name ++ "' espera ").toList ++ rest = _
    simp only [String.toList_append, String.toList_ofList, List.append_assoc]
  exact absurd hline (h.ne_append _)

section Bodies

variable {es es' : List Event} {name : String}

theorem bodies_read_called {e : Event} (h : called? e = some name) :
    bodiesRead (e :: es) =
      if es.head?.all (isRefusal name) then bodiesRead es else name :: bodiesRead es := by
  rw [bodiesRead, h]

theorem bodies_read_other {e : Event} (h : called? e = none) :
    bodiesRead (e :: es) = bodiesRead es := by
  rw [bodiesRead, h]

theorem bodies_read_append (h : ∀ e ∈ es, called? e = none) :
    bodiesRead (es ++ es') = bodiesRead es' := by
  induction es with
  | nil => rfl
  | cons e es ih =>
    rw [List.cons_append, bodies_read_other (h e List.mem_cons_self)]
    exact ih fun d hd => h d (List.mem_cons_of_mem e hd)

theorem bodies_read_none (h : ∀ e ∈ es, called? e = none) : bodiesRead es = [] := by
  have hnil : bodiesRead (es ++ []) = [] := bodies_read_append h
  rwa [List.append_nil] at hnil

/-- The bodies are found in the announcements of their calls. -/
theorem bodies_read_announced (es : List Event) :
    ((bodiesRead es).map announcement).Sublist es := by
  induction es with
  | nil => exact List.Sublist.slnil
  | cons e es ih =>
    unfold bodiesRead
    split
    · rename_i name hname
      rw [eq_announcement hname]
      split
      · exact ih.cons _
      · exact ih.cons_cons _
    · exact ih.cons _

/-- A call at the end of the first events counts for nothing if its body is free of mistakes. -/
theorem read_mistakes_append {α : Type} {mistakes : String → List α}
    (h : ∀ name, es.getLast? = some (announcement name) → mistakes name = []) :
    (bodiesRead (es ++ es')).flatMap mistakes =
      (bodiesRead es).flatMap mistakes ++ (bodiesRead es').flatMap mistakes := by
  induction es with
  | nil => rfl
  | cons e es ih =>
    cases hcalled : called? e with
    | none =>
      have htail : ∀ name, es.getLast? = some (announcement name) → mistakes name = [] := by
        intro name hlast
        apply h
        rw [List.getLast?_cons, hlast]
        rfl
      rw [List.cons_append, bodies_read_other hcalled, bodies_read_other hcalled]
      exact ih htail
    | some name =>
      have hannounced := eq_announcement hcalled
      cases es with
      | nil =>
        have hnone : mistakes name = [] := h name (by rw [hannounced]; rfl)
        rw [List.cons_append, List.nil_append, bodies_read_called hcalled,
          bodies_read_called hcalled]
        split
        · rfl
        · rw [List.flatMap_cons, hnone]
          rfl
      | cons d ds =>
        have htail := ih fun name hlast => h name (by rw [List.getLast?_cons_cons]; exact hlast)
        rw [List.cons_append, bodies_read_called hcalled, bodies_read_called hcalled,
          List.cons_append, List.head?_cons, List.head?_cons, Option.all_some]
        split
        · exact htail
        · rw [List.flatMap_cons, List.flatMap_cons, List.append_assoc]
          exact congrArg _ htail

/-- A body that is read counts its mistakes, whether it tells of them or has none to tell. -/
theorem read_mistakes_body {α : Type} {mistakes : String → List α} {lines : List String}
    (hlines : ∀ line ∈ lines, Ordinary line ∧ Unlike refusalWords line)
    (hnil : lines = [] → mistakes name = []) :
    (bodiesRead (announcement name :: (lines.map .printed ++ es))).flatMap mistakes =
      mistakes name ++ (bodiesRead es).flatMap mistakes := by
  cases lines with
  | nil =>
    rw [hnil rfl, List.map_nil, List.nil_append, List.nil_append,
      bodies_read_called (called_announcement name)]
    split
    · rfl
    · rw [List.flatMap_cons, hnil rfl, List.nil_append]
  | cons line rest =>
    have hquiet : ∀ e ∈ (line :: rest).map Event.printed, called? e = none := by
      intro e he
      obtain ⟨other, hother, rfl⟩ := List.mem_map.mp he
      exact called_ordinary (hlines other hother).1
    have hhead : ((line :: rest).map Event.printed ++ es).head?.all (isRefusal name) = false :=
      not_refusal (hlines line List.mem_cons_self).2 name
    rw [bodies_read_called (called_announcement name), hhead, if_neg Bool.false_ne_true,
      bodies_read_append hquiet, List.flatMap_cons]

end Bodies

namespace Act

variable {σ α β : Type}

def Hushed (m : Act σ α) : Prop :=
  ∀ s, ∀ e ∈ (m s).events, called? e = none

theorem Hushed.bind {m : Act σ α} {f : α → Act σ β} (hm : m.Hushed) (hf : ∀ a, (f a).Hushed) :
    (m >>= f).Hushed := by
  intro s
  cases h : (m s).outcome with
  | error e =>
    rw [bind_of_error h]
    exact hm s
  | ok a =>
    rw [bind_of_ok h]
    intro e he
    rcases List.mem_append.mp he with he | he
    · exact hm s e he
    · exact hf a _ e he

theorem hushed_of_silent {m : Act σ α} (h : ∀ s, (m s).events = []) : m.Hushed := by
  intro s e he
  rw [h s] at he
  cases he

theorem walk_hushed : FreeWalk fun α (m : Act σ α) => m.Hushed where
  answer _ := hushed_of_silent fun _ => rfl
  fail _ := hushed_of_silent fun _ => rfl
  say line h s e he := by
    rw [List.mem_singleton.mp he]
    exact called_ordinary h
  read := hushed_of_silent fun _ => rfl
  bind := Hushed.bind
  halt _ _ := hushed_of_silent fun _ => rfl
  emit e h s d hd := by
    rw [List.mem_singleton.mp hd]
    cases e with
    | printed line => exact absurd rfl (h line)
    | opened | started | stopped | slept => rfl
  change _ := hushed_of_silent fun _ => rfl

end Act

namespace Performance

variable {α β : Type}

structure Uncalled (m : Performance α) : Prop where
  hushed : m.Hushed
  program : ∀ p, (m p).state.program = p.program

theorem Uncalled.bind {m : Performance α} {f : α → Performance β} (hm : Uncalled m)
    (hf : ∀ a, Uncalled (f a)) : Uncalled (m >>= f) := by
  refine ⟨hm.hushed.bind fun a => (hf a).hushed, ?_⟩
  intro p
  cases h : (m p).outcome with
  | error e =>
    rw [bind_of_error h]
    exact hm.program p
  | ok a =>
    rw [bind_of_ok h]
    exact ((hf a).program _).trans (hm.program p)

theorem walk_uncalled : Walk fun _ m => Uncalled m where
  answer a := ⟨walk_hushed.answer a, fun _ => rfl⟩
  fail f := ⟨walk_hushed.fail f, fun _ => rfl⟩
  say line h := ⟨walk_hushed.say line h, fun _ => rfl⟩
  read := ⟨walk_hushed.read, fun _ => rfl⟩
  bind := Uncalled.bind

theorem uncalled_sound {m : Act Sound.Engine α} (hm : m.Hushed) : Uncalled (sound m) :=
  ⟨fun p => hm p.engine, fun _ => rfl⟩

theorem uncalled_scope (f : Scope → Scope) :
    Uncalled (change fun p => { p with scope := f p.scope }) :=
  ⟨hushed_of_silent fun _ => rfl, fun _ => rfl⟩

theorem uncalled_stop (reason : String) {m : Performance Unit} (hm : Uncalled m) :
    Uncalled (stopOnBadValue reason m) := by
  have hred (line : String) : called? (.printed (Text.red line)) = none := by
    apply called_ordinary
    unfold Text.red
    repeat with_reducible apply Unlike.append
    decide +kernel
  constructor
  · intro p
    unfold stopOnBadValue
    dsimp only
    split
    · split
      · intro e he
        rcases List.mem_append.mp he with he | he
        · exact hm.hushed p e he
        · simp only [List.map_cons, List.map_nil, List.mem_cons, List.not_mem_nil, or_false] at he
          rcases he with rfl | rfl
          all_goals exact hred _
      · exact hm.hushed p
    · exact hm.hushed p
  · intro p
    unfold stopOnBadValue
    dsimp only
    split
    · split
      · exact hm.program p
      · exact hm.program p
    · exact hm.program p

theorem playing_uncalled : Playing true fun _ m => Uncalled m where
  toWalk := walk_uncalled
  stop := uncalled_stop
  play _ _ _ _ := uncalled_sound (Sound.Engine.walk_play walk_hushed _ _ _)
  sleep _ := uncalled_sound (Sound.Engine.walk_sleep walk_hushed _)
  instrument _ := uncalled_sound (Sound.Engine.walk_instrument walk_hushed _)
  waveform _ := uncalled_sound (Sound.Engine.walk_waveform walk_hushed _)
  envelope _ := uncalled_sound (walk_hushed.change _)

theorem switching_uncalled : Switching fun _ m => Uncalled m where
  toWalk := walk_uncalled
  save := uncalled_sound (walk_hushed.change _)
  parallel _ := uncalled_sound (Sound.Engine.walk_set_parallel walk_hushed _)
  restore := uncalled_sound (Sound.Engine.walk_restore walk_hushed)
  await := uncalled_sound (Sound.Engine.walk_await walk_hushed)

theorem uncalled_settings : Uncalled applySettings := by
  have hmode (mode : Value) (line : String) (hline : Ordinary line) :
      Uncalled (do
        sound (Sound.Engine.setParallel mode)
        sayIfDebug line) :=
    (switching_uncalled.parallel mode).bind fun _ => walk_debug walk_uncalled line hline
  have hwaveform (w : String) (mode : Value) (line : String) (hline : Ordinary line) :
      Uncalled (if w ≠ "" then do
          sound (Sound.Engine.chooseWaveform (.text w))
          sound (Sound.Engine.setParallel mode)
          sayIfDebug line
        else do
          sound (Sound.Engine.setParallel mode)
          sayIfDebug line) := by
    split
    · exact (playing_uncalled.waveform _).bind fun _ => hmode mode line hline
    · exact hmode mode line hline
  have hline (word : String) : Ordinary s!"DEBUG: Configurando modo paralelo: {word}" := by
    apply Unlike.append
    decide +kernel
  apply Uncalled.bind walk_uncalled.read
  intro p
  dsimp only
  split
  · apply Uncalled.bind (playing_uncalled.instrument _)
    intro _
    apply Uncalled.bind (walk_debug walk_uncalled _)
    intro _
    split
    · exact (playing_uncalled.envelope _).bind fun _ => hwaveform _ _ _ (hline _)
    · exact hwaveform _ _ _ (hline _)
  · split
    · exact (playing_uncalled.envelope _).bind fun _ => hwaveform _ _ _ (hline _)
    · exact hwaveform _ _ _ (hline _)

end Performance

namespace Command

open Melody.Text

namespace Reading

structure Told (r : Reading) : Prop where
  lines : ∀ line ∈ r.printed, Ordinary line ∧ Unlike refusalWords line
  mistakes : r.printed = [] → r.mistakes = []

theorem told_silent {r : Reading} (hprinted : r.printed = []) (hmistakes : r.mistakes = []) :
    r.Told :=
  ⟨by rw [hprinted]; nofun, fun _ => hmistakes⟩

theorem told_line {r : Reading} {line : String} (hprinted : r.printed = [line])
    (hcall : Ordinary line) (hrefusal : Unlike refusalWords line) : r.Told := by
  refine ⟨?_, ?_⟩
  · intro other hother
    rw [hprinted] at hother
    obtain rfl := List.mem_singleton.mp hother
    exact ⟨hcall, hrefusal⟩
  · intro hnil
    rw [hprinted] at hnil
    cases hnil

theorem Told.and_then {r s : Reading} (hr : r.Told) (hs : s.Told) : (r.andThen s).Told := by
  unfold andThen
  split
  · exact hr
  · constructor
    · intro line hline
      rcases List.mem_append.mp hline with hline | hline
      · exact hr.lines line hline
      · exact hs.lines line hline
    · intro hnil
      obtain ⟨hr', hs'⟩ := List.append_eq_nil_iff.mp hnil
      exact List.append_eq_nil_iff.mpr ⟨hr.mistakes hr', hs.mistakes hs'⟩

theorem Told.commands {r : Reading} (h : r.Told) (cs : List Command) :
    ({ r with commands := cs } : Reading).Told :=
  ⟨h.lines, h.mistakes⟩

theorem Told.whole {r : Reading} (h : r.Told) (f : List Command → List Command) :
    (r.whole f).Told := by
  unfold Reading.whole
  split
  · exact h.commands _
  · exact h.commands _

theorem told_sequence {rs : List Reading} (h : ∀ r ∈ rs, r.Told) : (sequence rs).Told := by
  induction rs with
  | nil => exact told_silent rfl rfl
  | cons r rs ih =>
    exact (h r List.mem_cons_self).and_then (ih fun s hs => h s (List.mem_cons_of_mem r hs))

end Reading

open Reading

theorem told_unrecognised (line : List Char) : (Diagnosing.readUnrecognised line).Told := by
  have hmistake (m : Mistake) : (ofMistake m).Told := by
    apply told_line rfl
    all_goals
      unfold Text.red
      repeat with_reducible apply Unlike.append
      decide +kernel
  unfold Diagnosing.readUnrecognised
  split
  · exact told_silent rfl rfl
  · unfold diagnose
    dsimp only
    split_ifs
    · exact hmistake _
    · exact hmistake _
    · exact hmistake _
    · exact told_silent rfl rfl
    · apply told_line rfl
      all_goals
        repeat with_reducible apply Unlike.append
        decide +kernel

theorem told_named (ctx : Context) (name duration : List Char) :
    (readNamed ctx name duration).Told := by
  unfold readNamed
  split
  · exact told_silent rfl rfl
  · split
    · exact told_silent rfl rfl
    · apply told_line rfl
      all_goals
        repeat with_reducible apply Unlike.append
        decide +kernel

theorem told_read_line (ctx : Context) (line : List Char) :
    (Diagnosing.readLine ctx line).Told := by
  unfold Diagnosing.readLine
  split
  case h_4 => exact told_named ctx _ _
  case h_7 =>
    unfold readEnvelope
    dsimp only
    split
    all_goals exact told_silent rfl rfl
  case h_10 =>
    split
    · apply told_line rfl
      all_goals
        repeat with_reducible apply Unlike.append
        decide +kernel
    · exact told_unrecognised line
  case h_11 => exact told_unrecognised line
  all_goals exact told_silent rfl rfl

section Searches

variable {rs : Readers} (hbody : ∀ cs, (rs.body cs).Told) (hlines : ∀ cs, (rs.lines cs).Told)

include hbody in
theorem told_conditional (c : Conditional) : (readConditional rs c).Told := by
  unfold readConditional
  apply Told.commands
  apply ((hbody _).commands []).and_then
  split
  · exact told_silent rfl rfl
  · exact hbody _

include hbody in
theorem told_repetition (r : Repetition) : (readRepetition rs r).Told := by
  unfold readRepetition
  split
  · exact told_silent rfl rfl
  · exact (hbody _).whole _

include hbody hlines in
theorem told_parallels (cs : List Char) (place : Nat) (finds : List (Found (List Char))) :
    (readParallels rs cs place finds).reading.Told := by
  induction finds generalizing place with
  | nil => exact told_silent rfl rfl
  | cons found rest ih =>
    have hstart : (ofCommand .startParallel).Told := told_silent rfl rfl
    exact (hlines _).and_then (hstart.and_then (((hbody _).whole _).and_then (ih _)))

include hlines in
theorem told_search {α : Type} {recognise : List Char → Option (α × List Char)}
    {read : α → Reading} (hread : ∀ a, (read a).Told) (cs : List Char) {p : Progress}
    (hp : p.reading.Told) : (search rs recognise read cs p).reading.Told := by
  have hfinds (place : Nat) (finds : List (Found α)) :
      (readFinds rs read cs place finds).reading.Told := by
    induction finds generalizing place with
    | nil => exact told_silent rfl rfl
    | cons found rest ih => exact (hlines _).and_then ((hread _).and_then (ih _))
  exact hp.and_then (hfinds _ _)

include hbody hlines in
theorem told_searches (cs : List Char) : (readSearches rs cs).Told := by
  have hiteration (i : Iteration) : (readIteration rs i).Told := (hbody i.body).commands _
  apply Told.and_then _ (hlines _)
  apply told_search hlines (told_repetition hbody)
  apply told_search hlines hiteration
  apply told_search hlines (told_conditional hbody)
  exact told_parallels hbody hlines cs 0 _

end Searches

/-- The induction is on the depth: the bodies of blocks are read one level below. -/
theorem told_read (ctx : Context) (cs : List Char) : (read .diagnosing ctx cs).Told := by
  have hlines (v : List Char) : (readLines .diagnosing ctx v).Told := by
    apply told_sequence
    intro r hr
    obtain ⟨line, -, rfl⟩ := List.mem_map.mp hr
    exact told_read_line ctx line
  have hnested (depth : Nat) (v : List Char) :
      (readNested (readLines .diagnosing ctx) depth v).Told := by
    induction depth generalizing v with
    | zero => exact told_silent rfl rfl
    | succ depth ih => exact told_searches ih hlines v
  rw [read_nested]
  exact hnested _ cs

end Command

end Melody
