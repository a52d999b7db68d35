import Melody.Proofs.Calls
import Melody.Proofs.Listening
import Melody.Proofs.Typing

/-!
# Passing a parameter on

A function whose body only calls another one with its own parameter hands on the text of what it
got, not the value. A text that names nothing arrives as it was, so the two functions sound alike.
A chord and the tempo arrive as their written form, and there is a function that hears the
difference.
-/

set_option autoImplicit false

namespace Melody.Command

open Melody.Text

def callLine (f argument : List Char) : List Char :=
  f ++ '(' :: (argument ++ [')'])

structure IsParameter (cs : List Char) : Prop where
  nonempty : cs ≠ []
  tight : Tight cs
  single : ',' ∉ cs
  inside : ')' ∉ cs

structure Forwards (f parameter : String) (body : List Char) : Prop where
  clear : '{' ∉ body
  line : statementLines body = [callLine f.toList parameter.toList]

example : Forwards "f" "p" " f(p); ".toList :=
  ⟨by decide, by decide⟩

section Line

variable {f p : List Char} (hf : IsWord f)

include hf

theorem recognise_call (hp : IsParameter p) (hmark : startsMark f = false) :
    Line.recognise (callLine f p) = some (.call f p) := by
  have hcall : Line.call? (callLine f p) = some (.call f p) := by
    have hword : word? (callLine f p) = some (f, '(' :: (p ++ [')'])) :=
      word_append hf (stops_cons (by decide))
    have hopen : dropText? ['('] (skipBlanks ('(' :: (p ++ [')']))) = some (p ++ [')']) := rfl
    simp only [Line.call?, hword, hopen, up_to_append hp.inside, strip_tight hp.tight,
      Option.bind_eq_bind, Option.bind_some, Option.pure_def]
  have hshape : CallShape f [] (p ++ [')']) := ⟨hf, by simp, by simp⟩
  exact (recognise_shape hshape hmark).trans hcall

omit hf in
theorem recognise_mark (h : startsMark f = true) (p : List Char) :
    Line.recognise (callLine f p) = some .startParallel ∨
      Line.recognise (callLine f p) = some .endParallel := by
  have hstart := drop_text_before (show '(' ∉ "inicio_paralelo".toList by decide) f (p ++ [')'])
  have hend := drop_text_before (show '(' ∉ "fim_paralelo".toList by decide) f (p ++ [')'])
  cases hfirst : dropText? "inicio_paralelo".toList f with
  | some rest =>
    rw [hfirst] at hstart
    left
    simp only [Line.recognise, Line.forms, List.findSome?_cons, callLine, hstart, Option.map_some]
  | none =>
    cases hsecond : dropText? "fim_paralelo".toList f with
    | none =>
      rw [startsMark, hfirst, hsecond] at h
      contradiction
    | some rest =>
      rw [hfirst] at hstart
      rw [hsecond] at hend
      right
      simp only [Line.recognise, Line.forms, List.findSome?_cons, callLine, hstart, hend,
        Option.map_some, Option.map_none]

end Line

section Body

variable {ctx : Context} {f p : String} {body : List Char} (h : Forwards f p body)

include h

theorem Forwards.read (ctx : Context) :
    Command.read .diagnosing ctx body =
      readLine .diagnosing ctx (callLine f.toList p.toList) := by
  rw [read_clear .diagnosing ctx h.clear, read_lines_eq, h.line]
  exact Reading.and_then_empty _

theorem Forwards.gives_call (hf : IsWord f.toList) (hp : IsParameter p.toList)
    (hmark : startsMark f.toList = false) (hknown : f ∈ ctx.functions) :
    Command.read .diagnosing ctx body =
      { commands := [.call (some (.text f)) (some (.list [.text p]))]
        printed := [s!"Chamada de função '{f}' adicionada como comando"] } := by
  have harguments : callArguments p.toList = [.text p] := by
    rw [callArguments, if_neg (by simpa using hp.nonempty), split_on_none hp.single, List.map_cons,
      List.map_nil, strip_tight hp.tight, String.ofList_toList]
  rw [h.read ctx]
  simp only [read_line_eq, lineReading, recognise_call hf hp hmark, String.ofList_toList,
    List.contains_iff_mem,
    hknown, if_true, readCall, harguments, textSlot]

theorem Forwards.gives_mark (hmark : startsMark f.toList = true) (ctx : Context) :
    Command.read .diagnosing ctx body = .ofCommand .startParallel ∨
      Command.read .diagnosing ctx body = .ofCommand .endParallel := by
  rw [h.read ctx]
  rcases recognise_mark hmark p.toList with hline | hline
  · left
    simp only [read_line_eq, lineReading, hline]
  · right
    simp only [read_line_eq, lineReading, hline]

end Body

end Melody.Command

namespace Melody.Performance

open Melody.Text
open Act

section Call

variable {q : Performer} {f x : String} {callee : List Char}
  (hf : q.program.functions.find? f = some (.user [x] callee))

include hf

/-- A call of a user's function answers nothing. -/
theorem call_answers_none (inner : Inner) (argument : String) :
    (do
      let _ ← call inner (some (.text f)) (some (.list [.text argument]))
      return .none : Performance Value) q =
      call inner (some (.text f)) (some (.list [.text argument])) q := by
  have hcall := call_enters hf inner argument
  rw [bind_congr_start hcall, hcall]
  simp only [Act.bind_assoc]
  rfl

/-- Of its argument a call takes only what the parameter gets from it. -/
theorem call_given (inner : Inner) {a b : String} (h : q.given a = q.given b) :
    call inner (some (.text f)) (some (.list [.text a])) q =
      call inner (some (.text f)) (some (.list [.text b])) q := by
  rw [call_enters hf, call_enters hf, Performer.entered, Performer.entered, h]

theorem known_function : f ∈ q.program.context.functions := by
  obtain ⟨before, after, heq, -⟩ := List.lookup_eq_some_iff.mp hf
  exact List.mem_map.mpr ⟨(f, .user [x] callee), by rw [heq]; simp, rfl⟩

end Call

theorem resolve_forwarding (q : Performer) (f parameter argument : String) :
    (substituteAll [.call (some (.text f)) (some (.list [.text parameter]))]).Silent
      (q.entered parameter argument)
      [.call (some (.text f)) (some (.list [.text (q.given argument).written]))]
      (q.entered parameter argument) := by
  have hlookup : (lookup (.text parameter)).Silent (q.entered parameter argument)
      (some (q.given argument)) (q.entered parameter argument) := by
    have hfound : ((q.entered parameter argument).scope.find? (.text parameter)).or
        (q.globals.find? parameter) = some (q.given argument) := by
      rw [find_entered, if_pos rfl, Option.some_or]
    rw [← hfound]
    exact ⟨⟨rfl, rfl⟩, rfl⟩
  have hfill : (fillArguments [.text parameter]).Silent (q.entered parameter argument)
      [.text (q.given argument).written] (q.entered parameter argument) :=
    hlookup.bind ((silent_answer [] _).bind (silent_answer _ _))
  have hcall : (substitute (.call (some (.text f)) (some (.list [.text parameter])))).Silent
      (q.entered parameter argument)
      (.call (some (.text f)) (some (.list [.text (q.given argument).written])))
      (q.entered parameter argument) := by
    rw [substitute, fillCall, need, answer_bind]
    exact hfill.bind (silent_answer (Command.call ..) _)
  exact silent_resolve_cons hcall silent_resolve_nil

section Forward

variable {q : Performer} {f g x parameter : String} {callee wrapper : List Char}
  (hf : q.program.functions.find? f = some (.user [x] callee))
  (hg : q.program.functions.find? g = some (.user [parameter] wrapper))
  (hword : IsWord f.toList) (hmark : Command.startsMark f.toList = false)
  (hparameter : Command.IsParameter parameter.toList)
  (hwrapper : Command.Forwards f parameter wrapper)

include hf hg hword hmark hparameter hwrapper

/-- The function that passes its parameter on sounds like the other one with the written form of
what the parameter got, one level further down. -/
theorem forward_sounds (depth : Nat) (argument : String) :
    SoundsLike
      (call (execute (depth + 1)) (some (.text g)) (some (.list [.text argument])) q)
      (call (execute depth) (some (.text f))
        (some (.list [.text (q.given argument).written])) q) := by
  have hread := hwrapper.gives_call hword hparameter hmark (known_function hf)
  have hbody : SoundsLike
      (runBody (execute (depth + 1)) wrapper (q.entered parameter argument))
      ((do
        let _ ← call (execute depth) (some (.text f))
          (some (.list [.text (q.given argument).written]))
        return () : Performance Unit) (q.entered parameter argument)) := by
    apply (sounds_behind (silent_read_body (p := q.entered _ _) hread rfl rfl)).trans
    apply (sounds_behind (resolve_forwarding q f parameter argument)).trans
    apply (sounds_behind (silent_announce rfl _)).trans
    change SoundsLike (((call _ _ _ >>= fun _ => answer ()) >>= fun _ => answer ()) _) _
    rw [Act.bind_assoc]
    exact ⟨rfl, rfl, rfl⟩
  -- the callee starts in a scope of its own, so the scope it is called from does not count
  have hsame := (call_closed (execute depth) hf
    (some (.list [.text (q.given argument).written]))
    (q.entered parameter argument).scope q.scope).answer Value.none
  apply (call_sounds hg hbody).trans
  rw [Act.bind_assoc, ← call_answers_none hf]
  exact hsame.sounds

/-- What arrives as it was sounds as it would have. -/
theorem forward_unchanged {depth : Nat} {argument : String}
    (hgiven : q.given (q.given argument).written = q.given argument)
    (hroom : (call (execute depth) (some (.text f)) (some (.list [.text argument])) q).outcome ≠
      .error .tooDeep) :
    SoundsLike
      (call (execute (depth + 1)) (some (.text g)) (some (.list [.text argument])) q)
      (call (execute (depth + 1)) (some (.text f)) (some (.list [.text argument])) q) := by
  have hdeeper := call_deepens (execute_deepens depth) (some (.text f))
    (some (.list [.text argument])) q hroom
  rw [hdeeper, ← call_given hf (execute depth) hgiven]
  exact forward_sounds hf hg hword hmark hparameter hwrapper depth argument

end Forward

/-- With these chords the function sounds the same whether it gets the argument from a function
that passes its parameter on or directly, whatever it does with it, as long as there is a level to
spare. -/
def ForwardedAlike (chords : Table Value) (f argument : String) : Prop :=
  ∀ (q : Performer) (g x parameter : String) (callee wrapper : List Char) (depth : Nat),
    q.program.chords = chords → q.globals.find? argument = none →
    q.program.functions.find? f = some (.user [x] callee) →
    q.program.functions.find? g = some (.user [parameter] wrapper) →
    Command.IsParameter parameter.toList → Command.Forwards f parameter wrapper →
    (call (execute depth) (some (.text f)) (some (.list [.text argument])) q).outcome ≠
      .error .tooDeep →
    SoundsLike
      (call (execute (depth + 1)) (some (.text g)) (some (.list [.text argument])) q)
      (call (execute (depth + 1)) (some (.text f)) (some (.list [.text argument])) q)

theorem forwarded_plain {chords : Table Value} {f argument : String} (hword : IsWord f.toList)
    (hmark : Command.startsMark f.toList = false) (hchord : chords.find? argument = none)
    (htempo : argument ≠ "tempo") : ForwardedAlike chords f argument := by
  rintro q g x parameter callee wrapper depth rfl hglobal hf hg hparameter hwrapper hroom
  have hgiven : q.given argument = .text argument := by
    rw [given_unbound hchord hglobal, if_neg htempo]
  have hagain : q.given (q.given argument).written = q.given argument := by
    rw [hgiven]
    exact hgiven
  exact forward_unchanged hf hg hword hmark hparameter hwrapper hagain hroom

def duet (chords : Table Value) (f : String) (callee : List Char) : Performer :=
  { program :=
      { chords := chords
        functions :=
          [(f, .user ["x"] callee), (f ++ "p", .user ["p"] (f.toList ++ "(p);".toList))] } }

section Duet

variable {chords : Table Value} {f : String}

theorem duet_rest (chords : Table Value) (f : String) (callee : List Char) :
    AtRest (duet chords f callee) :=
  ⟨rfl, rfl⟩

theorem duet_callee (chords : Table Value) (f : String) (callee : List Char) :
    (duet chords f callee).program.functions.find? f = some (.user ["x"] callee) := by
  simp [duet, Table.find?]

theorem duet_wrapper (chords : Table Value) (f : String) (callee : List Char) :
    (duet chords f callee).program.functions.find? (f ++ "p") =
      some (.user ["p"] (f.toList ++ "(p);".toList)) := by
  have hne : f ++ "p" ≠ f := by
    intro h
    have hlength := congrArg (fun s => s.toList.length) h
    simp at hlength
  exact List.lookup_eq_some_iff.mpr ⟨[(f, .user ["x"] callee)], [], rfl, by simp [hne]⟩

theorem p_parameter : Command.IsParameter "p".toList :=
  ⟨by decide, ⟨stops_cons (by decide), stops_cons (by decide)⟩, by decide, by decide⟩

theorem duet_forwards (hword : IsWord f.toList) :
    Command.Forwards f "p" (f.toList ++ "(p);".toList) := by
  constructor
  · intro hopen
    rcases List.mem_append.mp hopen with hmem | hmem
    · exact (Command.word_braceless hword '{' hmem).1 rfl
    · exact absurd hmem (by decide)
  · have hline : f.toList ++ "(p);".toList =
        Command.callLine f.toList "p".toList ++ ';' :: [] := by
      simp [Command.callLine]
    have huncut : ∀ c ∈ Command.callLine f.toList "p".toList, Command.isCut c = false := by
      intro c hc
      rcases List.mem_append.mp hc with hmem | hmem
      · exact Command.word_uncut (hword.chars c hmem)
      · exact (by decide : ∀ c ∈ '(' :: ("p".toList ++ [')']), Command.isCut c = false) c hmem
    have htight : Tight (Command.callLine f.toList "p".toList) := by
      constructor
      · exact stops_append (fun c hc => word_not_blank (hword.chars c (List.mem_of_mem_head? hc)))
          (stops_cons (by decide))
      · rw [Command.callLine, List.reverse_append]
        exact stops_cons (by decide)
    have hfilled : (Command.callLine f.toList "p".toList).isEmpty = false := by
      simp [Command.callLine]
    rw [hline, Command.lines_cut (by decide), Command.lines_uncut huncut,
      strip_tight htight, hfilled]
    rfl

/-- If the argument arrives alike, the function sounds the same with its written form. -/
theorem forwarded_audio {argument : String} (h : ForwardedAlike chords f argument)
    (hword : IsWord f.toList) (hmark : Command.startsMark f.toList = false) {callee : List Char}
    (hroom : (call (execute 2) (some (.text f)) (some (.list [.text argument]))
      (duet chords f callee)).outcome ≠ .error .tooDeep) :
    (call (execute 3) (some (.text f)) (some (.list [.text argument]))
        (duet chords f callee)).audio =
      (call (execute 2) (some (.text f))
        (some (.list [.text ((duet chords f callee).given argument).written]))
        (duet chords f callee)).audio := by
  have hf := duet_callee chords f callee
  have hg := duet_wrapper chords f callee
  have hsame := h _ _ _ _ _ _ 2 rfl rfl hf hg p_parameter (duet_forwards hword) hroom
  exact hsame.audio.symm.trans
    (forward_sounds hf hg hword hmark p_parameter (duet_forwards hword) 2 argument).audio

theorem switch_quiet {callee : List Char} {argument : String} {c : Command}
    (hc : c = .startParallel ∨ c = .endParallel)
    (hread : Command.read .diagnosing (duet chords f callee).program.context
      (f.toList ++ "(p);".toList) = .ofCommand c) :
    (call (execute 3) (some (.text (f ++ "p"))) (some (.list [.text argument]))
      (duet chords f callee)).audio = [] := by
  have hresolved (p : Performer) : (substitute c).Silent p c p := by
    rcases hc with rfl | rfl
    · exact silent_answer _ p
    · exact silent_answer _ p
  have hbody := body_sounds (p := (duet chords f callee).entered "p" argument) hread
    (hresolved _) (execute 3)
  rw [(call_sounds (duet_wrapper chords f callee) hbody).audio, audio_answer]
  rcases hc with rfl | rfl
  · rfl
  · rfl

/-- The line that should pass the parameter on switches the parallel mode instead. -/
theorem mark_not_forwarded (hword : IsWord f.toList) (hmark : Command.startsMark f.toList = true)
    (argument : String) : ¬ ForwardedAlike chords f argument := by
  intro h
  have hf := duet_callee chords f "pausa minima;".toList
  have hg := duet_wrapper chords f "pausa minima;".toList
  have hrest (depth : Nat) := call_sounds hf (body_sounds
    (p := (duet chords f "pausa minima;".toList).entered "x" argument) (read_rest _)
    (silent_answer minimRest _) (execute (depth + 1)))
  have hroom : (call (execute 2) (some (.text f)) (some (.list [.text argument]))
      (duet chords f "pausa minima;".toList)).outcome ≠ .error .tooDeep := by
    rw [(hrest 1).outcome]
    exact (run_rest_shallow 1).bind (fun _ => shallow_answer _) _
  have hheard : (call (execute 3) (some (.text f)) (some (.list [.text argument]))
      (duet chords f "pausa minima;".toList)).audio ≠ [] := by
    rw [(hrest 2).audio, audio_answer]
    exact run_rest_audible 2 ⟨rfl, rfl⟩
  have hquiet : (call (execute 3) (some (.text (f ++ "p"))) (some (.list [.text argument]))
      (duet chords f "pausa minima;".toList)).audio = [] := by
    rcases (duet_forwards hword).gives_mark hmark _ with hread | hread
    · exact switch_quiet (.inl rfl) hread
    · exact switch_quiet (.inr rfl) hread
  have hsame := h _ _ _ _ _ _ 2 rfl rfl hf hg p_parameter (duet_forwards hword) hroom
  exact hheard (hsame.audio.symm.trans hquiet)

end Duet

theorem list_written (items : List Value) :
    ∃ cs, (Value.list items).written.toList = '[' :: cs := by
  have hform : (Value.list items).written =
      "[" ++ String.intercalate ", " (Value.quotedItems items) ++ "]" := by
    simp [Value.written, Value.quoted]
  rw [hform, String.toList_append, String.toList_append]
  exact ⟨_, rfl⟩

theorem list_same_literal (items : List Value) (text : List Char) :
    (Value.list items).same (literal text) = false := by
  unfold literal
  split
  · simp [Value.same]
  · split
    · simp [Value.same]
    · simp [Value.same]

section Values

variable {chords : Table Value}
  (hchords : ∀ name v, chords.find? name = some v → IsWord name.toList ∧ Vocabulary.all.IsChord v)
  {f : String} (hword : IsWord f.toList) (hmark : Command.startsMark f.toList = false)

include hchords hword hmark

/-- The written form of a chord is no chord any more. -/
theorem chord_not_forwarded {argument : String} {v : Value}
    (hchord : chords.find? argument = some v) : ¬ ForwardedAlike chords f argument := by
  intro h
  obtain ⟨-, notes, rfl, hnotes⟩ := hchords argument v hchord
  have hgiven (callee : List Char) :
      (duet chords f callee).given argument = .list notes := by
    simp [Performer.given, duet, hchord]
  have hwritten (callee : List Char) : (duet chords f callee).given (Value.list notes).written =
      .text (Value.list notes).written := by
    obtain ⟨cs, hcs⟩ := list_written notes
    have hunnamed : chords.find? (Value.list notes).written = none := by
      cases hfind : chords.find? (Value.list notes).written with
      | none => rfl
      | some w =>
        have hname := (hchords _ w hfind).1
        rw [hcs] at hname
        exact absurd (hname.chars '[' List.mem_cons_self) (by decide)
    have htempo : (Value.list notes).written ≠ "tempo" := by
      intro heq
      rw [heq] at hcs
      exact absurd (List.cons.inj hcs).1 (by decide)
    rw [given_unbound (q := duet chords f callee) hunnamed rfl, if_neg htempo]
  cases notes with
  | nil =>
    have hf := duet_callee chords f (restIf "[]")
    have hsame := forwarded_audio h hword hmark (choice_shallow 0 brackets_operand rfl hf)
    rw [hgiven, choice_silent 1 brackets_operand rfl hf (by rw [hgiven]; decide +kernel)] at hsame
    apply choice_audible 0 brackets_operand rfl hf (duet_rest chords f _) _ hsame.symm
    rw [hwritten]
    decide +kernel
  | cons note notes =>
    have hf := duet_callee chords f restForEach
    obtain ⟨name, accidental, rfl, -⟩ := hnotes note List.mem_cons_self
    have hsame := forwarded_audio h hword hmark (each_shallow 0 hf)
    obtain ⟨cs, hcs⟩ := list_written (Command.noteValue name accidental :: notes)
    have hplain : isChordText
        (Value.list (Command.noteValue name accidental :: notes)).written.toList = false := by
      rw [hcs]
      rfl
    rw [hgiven, each_silent 0 hf (hwritten _) hplain] at hsame
    exact each_audible 1 hf (duet_rest chords f _) (hgiven _) rfl hsame

/-- The written form of the tempo is no number any more. -/
theorem tempo_not_forwarded (hchord : chords.find? "tempo" = none) :
    ¬ ForwardedAlike chords f "tempo" := by
  intro h
  have hf := duet_callee chords f (restIf "120")
  have hgiven : (duet chords f (restIf "120")).given "tempo" = .int 120 := by
    rw [given_unbound (q := duet chords f (restIf "120")) hchord rfl, if_pos rfl]
    rfl
  have hsame := forwarded_audio h hword hmark (choice_shallow 0 number_operand rfl hf)
  rw [hgiven] at hsame
  have hsilent : ((duet chords f (restIf "120")).given "120").same
      (literal "120".toList) = false := by
    cases hfind : chords.find? "120" with
    | none =>
      rw [given_unbound (q := duet chords f (restIf "120")) hfind rfl, if_neg (by decide)]
      decide +kernel
    | some v =>
      obtain ⟨-, notes, rfl, -⟩ := hchords "120" v hfind
      have hlist : (duet chords f (restIf "120")).given "120" = .list notes := by
        simp [Performer.given, duet, hfind]
      rw [hlist, list_same_literal]
  have hheard : ((duet chords f (restIf "120")).given "tempo").same
      (literal "120".toList) = true := by
    rw [hgiven]
    decide +kernel
  exact choice_audible 1 number_operand rfl hf (duet_rest chords f _) hheard
    (hsame.trans (choice_silent 0 number_operand rfl hf hsilent))

end Values

/-- A function that passes its parameter on sounds like the function it calls exactly if the name
of that function does not start like a switch of the parallel mode, and the argument is neither
the name of a chord nor the word for the tempo. -/
theorem forwarded_alike_iff {chords : Table Value}
    (hchords : ∀ name v, chords.find? name = some v →
      IsWord name.toList ∧ Vocabulary.all.IsChord v)
    {f : String} (hword : IsWord f.toList) (argument : String) :
    ForwardedAlike chords f argument ↔
      Command.startsMark f.toList = false ∧ chords.find? argument = none ∧ argument ≠ "tempo" := by
  constructor
  · intro h
    have hmark : Command.startsMark f.toList = false := by
      cases hstart : Command.startsMark f.toList with
      | false => rfl
      | true => exact absurd h (mark_not_forwarded hword hstart argument)
    have hchord : chords.find? argument = none := by
      cases hfind : chords.find? argument with
      | none => rfl
      | some v => exact absurd h (chord_not_forwarded hchords hword hmark hfind)
    refine ⟨hmark, hchord, ?_⟩
    rintro rfl
    exact tempo_not_forwarded hchords hword hmark hchord h
  · rintro ⟨hmark, hchord, htempo⟩
    exact forwarded_plain hword hmark hchord htempo

def majorChord : Table Value :=
  [("x", .list
    [Command.noteValue "do".toList none, Command.noteValue "mi".toList none,
      Command.noteValue "sol".toList none])]

/-- A chord is lost when it is passed on, and a note is not. -/
theorem major_chord_lost :
    ¬ ForwardedAlike majorChord "f" "x" ∧ ForwardedAlike majorChord "f" "do" := by
  have hword : IsWord "f".toList := ⟨by decide, by decide⟩
  have hchords : ∀ name v, majorChord.find? name = some v →
      IsWord name.toList ∧ Vocabulary.all.IsChord v := by
    intro name v hfind
    obtain ⟨before, after, heq, -⟩ := List.lookup_eq_some_iff.mp hfind
    have hmem : (name, v) ∈ majorChord := by rw [heq]; simp
    obtain ⟨rfl, rfl⟩ := Prod.mk.inj (List.mem_singleton.mp hmem)
    refine ⟨⟨by decide, by decide⟩, _, rfl, ?_⟩
    intro note hnote
    simp only [List.mem_cons, List.not_mem_nil, or_false] at hnote
    rcases hnote with rfl | rfl | rfl
    · exact ⟨_, _, rfl, trivial⟩
    · exact ⟨_, _, rfl, trivial⟩
    · exact ⟨_, _, rfl, trivial⟩
  rw [forwarded_alike_iff hchords hword, forwarded_alike_iff hchords hword]
  exact ⟨fun h => absurd h.2.1 (by decide), by decide, rfl, by decide⟩

end Melody.Performance
