import Melody.Proofs.Lines
import Melody.Proofs.Scoping

/-!
# Arguments and operands

A function's parameter gets the text of its argument, but the same text in a condition is read
again: a number becomes a double and quotes are dropped. So the two agree only on texts that are
read as themselves, and on the parameter's own name.
-/

set_option autoImplicit false

namespace Melody.Text

variable {sep cs : List Char} {c : Char}

theorem occurs_cons_false (h : occurs sep (c :: cs) = false) :
    dropText? sep (c :: cs) = none ∧ occurs sep cs = false := by
  simpa [occurs] using h

theorem occurs_append (before : List Char) (h : occurs sep cs = true) :
    occurs sep (before ++ cs) = true := by
  induction before with
  | nil => exact h
  | cons c before ih => simp [occurs, ih]

/-- A text does not occur in one that lacks a character of it. -/
theorem occurs_lacking (hsep : c ∈ sep) (hcs : c ∉ cs) : occurs sep cs = false := by
  induction cs with
  | nil => simpa [occurs] using List.ne_nil_of_mem hsep
  | cons d cs ih =>
    have hmissed : dropText? sep (d :: cs) = none := by
      cases hdrop : dropText? sep (d :: cs) with
      | none => rfl
      | some rest => exact absurd (drop_text_eq hdrop ▸ List.mem_append_left rest hsep) hcs
    have hrest := ih fun hmem => hcs (List.mem_cons_of_mem d hmem)
    simp [occurs, hmissed, hrest]

theorem split_none (h : occurs sep cs = false) : splitText sep cs = [cs] := by
  induction cs with
  | nil => rfl
  | cons c cs ih =>
    obtain ⟨hdrop, hrest⟩ := occurs_cons_false h
    simp [split_text_missed hdrop, ih hrest]

theorem split_length_pos (sep cs : List Char) (hsep : sep ≠ []) :
    0 < (splitText sep cs).length := by
  induction cs with
  | nil => exact Nat.zero_lt_one
  | cons c cs ih =>
    cases hdrop : dropText? sep (c :: cs) with
    | some rest => simp [split_text_found hsep hdrop]
    | none => simpa [split_text_missed hdrop] using ih

theorem split_occurs (hsep : sep ≠ []) (h : occurs sep cs = true) :
    1 < (splitText sep cs).length := by
  induction cs with
  | nil => simp [occurs, hsep] at h
  | cons c cs ih =>
    cases hdrop : dropText? sep (c :: cs) with
    | some rest =>
      simpa [split_text_found hsep hdrop] using split_length_pos sep rest hsep
    | none =>
      have hrest : occurs sep cs = true := by simpa [occurs, hdrop] using h
      simpa [split_text_missed hdrop] using ih hrest

/-- A character that a separator lacks keeps it from reaching into what follows. -/
theorem drop_text_before (h : c ∉ sep) (before rest : List Char) :
    dropText? sep (before ++ c :: rest) = (dropText? sep before).map (· ++ c :: rest) := by
  induction sep generalizing before with
  | nil => rfl
  | cons t sep ih =>
    obtain ⟨ht, hsep⟩ := not_or.mp (mt List.mem_cons.mpr h)
    cases before with
    | nil => simp [dropText?, Ne.symm ht]
    | cons d before =>
      by_cases htd : t = d
      · simp [dropText?, htd, ih hsep]
      · simp [dropText?, htd]

theorem split_before (h : c ∉ sep) {before : List Char} (hbefore : occurs sep before = false)
    (rest : List Char) :
    splitText sep (before ++ c :: rest) =
      (splitText sep (c :: rest)).modifyHead (before ++ ·) := by
  induction before with
  | nil =>
    rw [List.nil_append]
    cases splitText sep (c :: rest) <;> rfl
  | cons d before ih =>
    obtain ⟨hdrop, hrest⟩ := occurs_cons_false hbefore
    have hmissed : dropText? sep (d :: (before ++ c :: rest)) = none := by
      simpa [hdrop] using drop_text_before h (d :: before) rest
    rw [List.cons_append, split_text_missed hmissed, ih hrest, List.modifyHead_modifyHead]
    rfl

theorem drop_text_foreign (hsep : sep ≠ []) (h : c ∉ sep) (rest : List Char) :
    dropText? sep (c :: rest) = none := by
  have hstart := drop_text_before h [] rest
  cases sep with
  | nil => contradiction
  | cons t sep => exact hstart

/-- A separator between blanks is the only place to split at if neither side has one of its own. -/
theorem split_between (hsep : sep ≠ []) (hblank : ' ' ∉ sep) {left right : List Char}
    (hleft : occurs sep left = false) (hright : occurs sep right = false) :
    splitText sep (left ++ ' ' :: (sep ++ ' ' :: right)) = [left ++ [' '], ' ' :: right] := by
  have hend : occurs sep (' ' :: right) = false := by
    simp [occurs, drop_text_foreign hsep hblank, hright]
  rw [split_before hblank hleft, split_text_missed (drop_text_foreign hsep hblank _),
    split_text_found hsep (drop_text_append sep _), split_none hend]
  rfl

/-- A separator in the first part is one more place to split at. -/
theorem split_twice (hsep : sep ≠ []) (h : c ∉ sep) {before rest : List Char}
    (hbefore : occurs sep before = true) (hrest : occurs sep rest = true) :
    2 < (splitText sep (before ++ c :: rest)).length := by
  induction before with
  | nil => simp [occurs, hsep] at hbefore
  | cons d before ih =>
    have hdrop := drop_text_before h (d :: before) rest
    cases hfound : dropText? sep (d :: before) with
    | some more =>
      rw [hfound, Option.map_some] at hdrop
      have hlater : occurs sep (more ++ c :: rest) = true := by
        simpa using occurs_append (more ++ [c]) hrest
      rw [split_text_found hsep hdrop]
      exact Nat.succ_lt_succ (split_occurs hsep hlater)
    | none =>
      rw [hfound, Option.map_none] at hdrop
      have hlater : occurs sep before = true := by simpa [occurs, hfound] using hbefore
      rw [List.cons_append] at hdrop ⊢
      simpa [split_text_missed hdrop] using ih hlater

end Melody.Text

namespace Melody

def Performer.given (q : Performer) (argument : String) : Value :=
  ((q.program.chords.find? argument).or (q.globals.find? argument)).getD
    (if argument = "tempo" then q.program.tempo else .text argument)

def Performer.entered (q : Performer) (parameter argument : String) : Performer :=
  { q with scope := [(.text parameter, q.given argument)] }

namespace Performance

open Melody.Text
open Act

theorem argument_text (q : Performer) (argument : String) :
    argumentValue (.text argument) q = ⟨q, [], .ok (q.given argument)⟩ := by
  unfold argumentValue Performer.given
  rw [read_bind, Value.asName, of_except_bind]
  dsimp only
  cases q.program.chords.find? argument with
  | some v => rfl
  | none =>
    cases q.globals.find? argument with
    | some v => rfl
    | none => rfl

theorem call_body_enters (inner : Inner) (q : Performer) (name parameter argument : String)
    (body : List Char) :
    callBody inner name [parameter] body (.list [.text argument]) { q with scope := [] } =
      runBody inner body (q.entered parameter argument) := by
  have hbind : bindParameters (.list [.text argument]) 0 [parameter] { q with scope := [] } =
      ⟨q.entered parameter argument, [], .ok ()⟩ := by
    unfold bindParameters
    change (argumentValue (.text argument) >>= _) _ = _
    rw [bind_of_ok (by rw [argument_text]), argument_text]
    rfl
  change (bindParameters (.list [.text argument]) 0 [parameter] >>= fun _ => runBody inner body)
    { q with scope := [] } = _
  rw [bind_of_ok (by rw [hbind]), hbind]
  rfl

theorem call_enters {q : Performer} {f parameter : String} {body : List Char}
    (hf : q.program.functions.find? f = some (.user [parameter] body)) (inner : Inner)
    (argument : String) :
    call inner (some (.text f)) (some (.list [.text argument])) q =
      (do
        say s!"Executando função '{f}'"
        change fun _ => q.entered parameter argument
        runBody inner body
        setScope q.scope
        return .none : Performance Value) q := by
  unfold call
  rw [need, need, answer_bind, answer_bind, Value.asName, of_except_bind, read_bind,
    Option.bind_some, hf]
  change callUser inner f [parameter] body (.list [.text argument]) q = _
  rw [call_user_eq]
  have hown : inOwnScope (callBody inner f [parameter] body (.list [.text argument])) q =
      (do
        change fun _ => q.entered parameter argument
        runBody inner body
        setScope q.scope : Performance Unit) q :=
    bind_congr_start (call_body_enters inner q f parameter argument body) _
  have hcall := bind_congr_start hown fun _ => (pure .none : Performance Value)
  simp only [bind_assoc] at hcall
  exact congrArg (fun r => Effect.mk r.state (_ :: r.events) r.outcome) hcall

def literal (text : List Char) : Value :=
  match Number.readFloat? text with
  | some x => .float x
  | none =>
    if Function.isQuoted text then .text (String.ofList (Function.unquote text))
    else .text (String.ofList text)

theorem operand_value (q : Performer) {name : String} (hname : Tight name.toList) :
    operand name.toList q =
      ⟨q, [], .ok (((q.scope.find? (.text name)).or (q.globals.find? name)).getD
        (literal name.toList))⟩ := by
  have hlookup : lookup (.text name) q =
      ⟨q, [], .ok ((q.scope.find? (.text name)).or (q.globals.find? name))⟩ := rfl
  unfold operand
  simp only [strip_tight hname, String.ofList_toList]
  rw [bind_of_ok (by rw [hlookup]), hlookup]
  cases (q.scope.find? (.text name)).or (q.globals.find? name) with
  | some v => rfl
  | none =>
    simp only [literal, Option.getD_none, String.ofList_toList]
    cases Number.readFloat? name.toList with
    | some x => rfl
    | none =>
      cases Function.isQuoted name.toList with
      | true => rfl
      | false => rfl

/-- The blanks around an operand do not count. -/
theorem operand_congr {cs ds : List Char} (h : strip cs = strip ds) : operand cs = operand ds := by
  unfold operand
  rw [h]

/-- A sign between blanks compares what stands on its two sides. -/
theorem compare_between {sign left right : List Char} (hsign : sign ≠ []) (hblank : ' ' ∉ sign)
    (hleft : occurs sign left = false) (hright : occurs sign right = false) :
    compare sign (left ++ ' ' :: (sign ++ ' ' :: right)) = (do
      let a ← operand left
      let b ← operand right
      return a.same b) := by
  have hspace : isBlank ' ' = true := by decide
  simp only [compare, split_between hsign hblank hleft hright,
    operand_congr (strip_blank_end hspace left), operand_congr (strip_blank_cons hspace right)]

theorem compare_sides {left right : List Char} (hleft : occurs ['=', '='] left = false)
    (hright : '=' ∉ right) :
    compare ['=', '='] (left ++ (" == ".toList ++ right)) = (do
      let a ← operand left
      let b ← operand right
      return a.same b) :=
  compare_between (by decide) (by decide) hleft (occurs_lacking (by decide) hright)

/-- A text equals what it stands for as an operand only if it is neither a number nor quoted. -/
theorem same_literal (text : String) :
    (Value.text text).same (literal text.toList) =
      ((Number.readFloat? text.toList).isNone && !Function.isQuoted text.toList) := by
  unfold literal
  cases Number.readFloat? text.toList with
  | some x => simp [Value.same]
  | none =>
    cases hquoted : Function.isQuoted text.toList with
    | false => simp [Value.same]
    | true =>
      have hshorter : text ≠ String.ofList (Function.unquote text.toList) := by
        intro heq
        have hlength := congrArg (fun s => s.toList.length) heq
        cases hchars : text.toList with
        | nil => simp [Function.isQuoted, hchars] at hquoted
        | cons c cs =>
          simp [Function.unquote, hchars] at hlength
          omega
      simp [Value.same, hshorter]

theorem tempo_no_number : Number.readFloat? "tempo".toList = none := by decide +kernel

theorem literal_tempo : literal "tempo".toList = .text "tempo" := by
  unfold literal
  rw [tempo_no_number]
  rfl

theorem find_entered (q : Performer) (parameter argument name : String) :
    (q.entered parameter argument).scope.find? (.text name) =
      if parameter = name then some (q.given argument) else none := by
  simp [Performer.entered, Scope.find?, Value.same]

theorem holds_equation (left right : String) :
    holds (.text (left ++ " == " ++ right)) =
      compare ['=', '='] (left.toList ++ (" == ".toList ++ right.toList)) := by
  have htext : (left ++ " == " ++ right).toList =
      left.toList ++ (" == ".toList ++ right.toList) := by
    simp
  have hoccurs : occurs ['=', '='] (left.toList ++ (" == ".toList ++ right.toList)) = true :=
    occurs_append _ rfl
  simp only [holds, htext, hoccurs, if_true]

/-- The condition is decided by what the parameter got and what the operand is read as. -/
theorem holds_entered {q : Performer} {parameter argument : String}
    (hp : Tight parameter.toList) (ha : Tight argument.toList) (hequal : '=' ∉ argument.toList)
    (hsign : occurs ['=', '='] parameter.toList = false) :
    (holds (.text (parameter ++ " == " ++ argument)) (q.entered parameter argument)).outcome =
      .ok ((q.given argument).same
        (if parameter = argument then q.given argument
          else (q.globals.find? argument).getD (literal argument.toList))) := by
  rw [holds_equation, compare_sides hsign hequal, bind_of_ok (by rw [operand_value _ hp]),
    operand_value _ hp, bind_of_ok (by rw [operand_value _ ha]), operand_value _ ha, find_entered,
    find_entered, if_pos rfl]
  by_cases hsame : parameter = argument
  · rw [if_pos hsame, if_pos hsame]
    rfl
  · rw [if_neg hsame, if_neg hsame]
    rfl

theorem compare_many {sign cs : List Char} (h : 2 < (splitText sign cs).length) :
    compare sign cs = fail .tooManyParts := by
  unfold compare
  split
  · rename_i hparts
    simp [hparts] at h
  · rfl

/-- The sign within the left side leaves more than two sides. -/
theorem holds_split {left : String} (hsign : occurs ['=', '='] left.toList = true)
    (right : String) : holds (.text (left ++ " == " ++ right)) = fail .tooManyParts := by
  have hlength : 2 < (splitText ['=', '=']
      (left.toList ++ (" == ".toList ++ right.toList))).length :=
    split_twice (c := ' ') (by decide) (by decide) hsign rfl
  rw [holds_equation, compare_many hlength]

theorem given_unbound {q : Performer} {argument : String}
    (hchord : q.program.chords.find? argument = none) (hglobal : q.globals.find? argument = none) :
    q.given argument = if argument = "tempo" then q.program.tempo else .text argument := by
  simp [Performer.given, hchord, hglobal]

/-- A call binds the parameter to the text of its argument, and in the body the comparison of the
two holds only if the parameter's name has no sign of comparison in it and the argument is read as
it stands: it is no number, it has no quotes, and it is not the word for the tempo, unless the
tempo is that text. The parameter's own name is a variable there, which equals itself if its value
does. -/
theorem argument_equals_itself_iff {q : Performer} {f parameter argument : String}
    {body : List Char} (hf : q.program.functions.find? f = some (.user [parameter] body))
    (hp : Tight parameter.toList) (ha : Tight argument.toList) (hequal : '=' ∉ argument.toList)
    (hchord : q.program.chords.find? argument = none)
    (hglobal : parameter ≠ argument → q.globals.find? argument = none) :
    (∀ inner, call inner (some (.text f)) (some (.list [.text argument])) q =
        (do
          say s!"Executando função '{f}'"
          change fun _ => q.entered parameter argument
          runBody inner body
          setScope q.scope
          return .none : Performance Value) q) ∧
      ((holds (.text (parameter ++ " == " ++ argument)) (q.entered parameter argument)).outcome =
          .ok true ↔
        occurs ['=', '='] parameter.toList = false ∧
          if parameter = argument then (q.given argument).same (q.given argument) = true
          else Number.readFloat? argument.toList = none ∧
            Function.isQuoted argument.toList = false ∧
            (argument = "tempo" → q.program.tempo.same (.text "tempo") = true)) := by
  refine ⟨fun inner => call_enters hf inner argument, ?_⟩
  cases hsign : occurs ['=', '='] parameter.toList with
  | true =>
    rw [holds_split hsign]
    simp [fail, halt]
  | false =>
    rw [holds_entered hp ha hequal hsign]
    by_cases hsame : parameter = argument
    · simp [hsame]
    · rw [given_unbound hchord (hglobal hsame), hglobal hsame, if_neg hsame, if_neg hsame]
      by_cases htempo : argument = "tempo"
      · subst htempo
        rw [if_pos rfl, Option.getD_none, literal_tempo]
        constructor
        · intro h
          exact ⟨rfl, tempo_no_number, rfl, fun _ => Except.ok.inj h⟩
        · intro h
          exact congrArg Except.ok (h.2.2.2 rfl)
      · simp [htempo, same_literal]

def accompanist : Performer :=
  { program :=
      { functions :=
          [("f", .user ["n"] " se (n == 2) \x7b pausa minima; \x7d senao \x7b pausa seminima; \x7d ".toList)] } }

/-- The name of a note equals itself, and a number does not. -/
theorem number_differs_from_itself :
    (holds (.text ("n" ++ " == " ++ "do")) (accompanist.entered "n" "do")).outcome = .ok true ∧
      (holds (.text ("n" ++ " == " ++ "2")) (accompanist.entered "n" "2")).outcome ≠ .ok true := by
  have hf : accompanist.program.functions.find? "f" = some (.user ["n"] _) := rfl
  have hp : Tight "n".toList := ⟨stops_cons (by decide), stops_cons (by decide)⟩
  have hnote : Tight "do".toList := ⟨stops_cons (by decide), stops_cons (by decide)⟩
  have hnumber : Tight "2".toList := ⟨stops_cons (by decide), stops_cons (by decide)⟩
  constructor
  · rw [(argument_equals_itself_iff hf hp hnote (by decide) rfl fun _ => rfl).2]
    exact ⟨by decide, by decide +kernel⟩
  · rw [Ne, (argument_equals_itself_iff hf hp hnumber (by decide) rfl fun _ => rfl).2]
    decide +kernel

end Performance

end Melody
