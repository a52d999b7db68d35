import Melody.Proofs.Arguments
import Melody.Proofs.Faithful
import Melody.Proofs.Hearing
import Melody.Proofs.Shallows

/-!
# Functions that listen to their argument

Two functions of one parameter whose calls tell by their sound what the parameter got: one rests
if it equals an operand, the other one rests for each of its items. Neither of them nests deep.
-/

set_option autoImplicit false

namespace Melody.Performance

open Melody.Text
open Act

/-- A body without mistakes is read without a sound. -/
theorem silent_read_body {p : Performer} {body : List Char} {r : Command.Reading}
    (hread : Command.read .diagnosing p.program.context body = r) (hregular : r.fault = none)
    (hmistakes : r.mistakes = []) : (readBody body).Silent p r.commands p := by
  subst hread
  refine ⟨⟨?_, ?_⟩, ?_⟩
  · simp only [readBody, hregular]
  · simp only [readBody, hmistakes, List.append_nil]
  · change List.filter _ (List.map _ _) = []
    rw [List.filter_eq_nil_iff]
    intro event hevent
    obtain ⟨line, -, rfl⟩ := List.mem_map.mp hevent
    exact Bool.false_ne_true

/-- A call sounds like its body. -/
theorem call_sounds {q : Performer} {f x : String} {callee : List Char}
    (hf : q.program.functions.find? f = some (.user [x] callee)) {inner : Inner}
    {argument : String} {m : Performance Unit} {p : Performer}
    (h : SoundsLike (runBody inner callee (q.entered x argument)) (m p)) :
    SoundsLike (call inner (some (.text f)) (some (.list [.text argument])) q)
      ((do m; return .none : Performance Value) p) := by
  rw [call_enters hf]
  apply (sounds_behind (silent_say _ q)).trans
  apply (sounds_behind
    (Silent.mk ⟨rfl, rfl⟩ rfl : (change _ : Performance Unit).Silent q () _)).trans
  exact h.close q.scope Value.none

/-- A body of one command without variables sounds like the command. -/
theorem body_sounds {p : Performer} {body : List Char} {c : Command}
    (hread : Command.read .diagnosing p.program.context body = .ofCommand c)
    (hresolved : (substitute c).Silent p c p) (inner : Inner) :
    SoundsLike (runBody inner body p) (inner [c] p) := by
  apply (sounds_behind (silent_read_body hread rfl rfl)).trans
  exact sounds_behind (silent_resolve_cons hresolved silent_resolve_nil)

def restIf (right : String) : List Char :=
  "se (x == ".toList ++ (right.toList ++ ") \x7b pausa minima; \x7d".toList)

def restForEach : List Char :=
  "para cada n em x \x7b pausa minima; \x7d".toList

section Reading

open Command

variable (ctx : Context)

theorem read_rest : Command.read .diagnosing ctx "pausa minima;".toList = .ofCommand minimRest := by
  have hlines : statementLines "pausa minima;".toList = [pauseLine "minima".toList] := by decide
  have hword : IsWord "minima".toList := ⟨by decide, by decide⟩
  rw [read_clear .diagnosing ctx (by decide), read_lines_eq, hlines, List.map_cons, List.map_nil,
    read_pause .diagnosing ctx hword]
  rfl

/-- A text that is one block is read like the block, if no search before its own finds anything. -/
theorem read_one_block {shape : Shape} (skipped more : List Shape)
    (horder : searchOrder = skipped ++ shape :: more) {text : List Char} {r : Reading}
    (hparallel : findAll parallel? text = [])
    (hskipped : ∀ other ∈ skipped, findAll (seek (readers .diagnosing ctx) other) text = [])
    (hseek : seek (readers .diagnosing ctx) shape text = some (r, [])) :
    Command.read .diagnosing ctx text = r := by
  have hhit : stages (readers .diagnosing ctx) (shape :: more) ([] ++ (text ++ [])) =
      (readLines .diagnosing ctx []).andThen
        (r.andThen (stages (readers .diagnosing ctx) more [])) :=
    stages_hit trivial (by rwa [List.append_nil]) trivial
  have hmisses : ∀ other ∈ skipped, Misses (seek (readers .diagnosing ctx) other) text [] :=
    fun other h => misses_of_find_all (seek_shrinks _ other) (hskipped other h)
  have hnothing := read_lines_nil .diagnosing ctx
  have hbehind : stages (readers .diagnosing ctx) more [] = .empty :=
    (stages_clear List.not_mem_nil more).trans hnothing
  rw [List.nil_append, List.append_nil, hnothing, hbehind, Reading.empty_and_then,
    Reading.and_then_empty] at hhit
  calc Command.read .diagnosing ctx text
      = stages (readers .diagnosing ctx) searchOrder text := by
        rw [read_eq, ← readers, read_searches_eq, hparallel, readParallels, List.drop_zero,
          Reading.empty_and_then, searchOrder]
    _ = stages (readers .diagnosing ctx) (shape :: more) text := by
        rw [horder, stages_skip hmisses]
    _ = r := hhit

theorem read_choice {right : String} (hparallel : findAll parallel? (restIf right) = [])
    (hblock : conditional? (restIf right) =
      some (⟨("x" ++ " == " ++ right).toList, "pausa minima;".toList, []⟩, [])) :
    Command.read .diagnosing ctx (restIf right) =
      .ofCommand (.branch (some (.text ("x" ++ " == " ++ right))) (.commands [minimRest])
        (.value .none)) := by
  apply read_one_block ctx [] [.forEach, .loop] rfl hparallel (by simp)
  rw [seek, hblock, Option.map_some]
  simp only [readConditional, readers, read_rest, textSlot, String.ofList_toList]
  rfl

theorem read_for_each : Command.read .diagnosing ctx restForEach =
    .ofCommand (.forEach (some (.text "n")) (some (.text "x")) (some (.bool false))
      (.commands [minimRest])) := by
  have hblock : iteration? restForEach =
      some (⟨['n'], ['x'], false, "pausa minima;".toList⟩, []) := rfl
  have hskipped : findAll (seek (readers .diagnosing ctx) .branch) restForEach = [] := by
    have hnone : findAll conditional? restForEach = [] := rfl
    exact (find_all_map _ _).trans (by rw [hnone, List.map_nil])
  apply read_one_block ctx [.branch] [.loop] rfl rfl
  · intro other hother
    obtain rfl := List.mem_singleton.mp hother
    exact hskipped
  · rw [seek, hblock, Option.map_some]
    simp only [readIteration, readers, read_rest]
    rfl

end Reading

theorem run_rest_shallow (depth : Nat) : (execute (depth + 1) [minimRest]).Shallow := by
  apply walk_run switching_shallow
  intro c hc
  obtain rfl := List.mem_singleton.mp hc
  exact walk_pause playing_shallow _

theorem for_each_shallow (depth : Nat) (name collection : Value) :
    (forEach (execute (depth + 1)) (some name) (some collection) (some (.bool false))
      (.commands [minimRest])).Shallow := by
  apply walk_for_each walk_shallow.toWalk
  intro name collection backwards items
  apply walk_iterate walk_shallow.toWalk fun _ => shallow_change _
  -- a rest has no variables, so the body of every round is the same
  exact run_rest_shallow depth

structure IsOperand (right : String) : Prop where
  tight : Tight right.toList
  equal : '=' ∉ right.toList
  name : right ≠ "x"
  parallel : findAll Command.parallel? (restIf right) = []
  block : Command.conditional? (restIf right) =
    some (⟨("x" ++ " == " ++ right).toList, "pausa minima;".toList, []⟩, [])

theorem brackets_operand : IsOperand "[]" :=
  ⟨⟨stops_cons (by decide), stops_cons (by decide)⟩, by decide, by decide, rfl, rfl⟩

theorem number_operand : IsOperand "120" :=
  ⟨⟨stops_cons (by decide), stops_cons (by decide)⟩, by decide, by decide, rfl, rfl⟩

theorem holds_operand {q : Performer} {right : String} (hright : IsOperand right)
    (hglobal : q.globals.find? right = none) (argument : String) :
    (holds (.text ("x" ++ " == " ++ right))).Silent (q.entered "x" argument)
      ((q.given argument).same (literal right.toList)) (q.entered "x" argument) := by
  have hx : Tight "x".toList := ⟨stops_cons (by decide), stops_cons (by decide)⟩
  have hleft : (operand "x".toList).Silent (q.entered "x" argument) (q.given argument)
      (q.entered "x" argument) := by
    have hvalue := operand_value (q.entered "x" argument) hx
    rw [find_entered, if_pos rfl, Option.some_or, Option.getD_some] at hvalue
    exact ⟨⟨by rw [hvalue], by rw [hvalue]⟩, by rw [hvalue]; rfl⟩
  have hother : (operand right.toList).Silent (q.entered "x" argument) (literal right.toList)
      (q.entered "x" argument) := by
    have hvalue := operand_value (q.entered "x" argument) hright.tight
    have hnone : (q.entered "x" argument).globals.find? right = none := hglobal
    rw [find_entered, if_neg (Ne.symm hright.name), Option.none_or, hnone,
      Option.getD_none] at hvalue
    exact ⟨⟨by rw [hvalue], by rw [hvalue]⟩, by rw [hvalue]; rfl⟩
  rw [holds_equation, compare_sides (by decide) hright.equal]
  exact hleft.bind (hother.bind (silent_answer _ _))

def restWhen (depth : Nat) (b : Bool) : Performance Unit :=
  if b then execute (depth + 1) [minimRest] else answer ()

theorem rest_when_shallow (depth : Nat) (b : Bool) : (restWhen depth b).Shallow := by
  cases b with
  | true => exact run_rest_shallow depth
  | false => exact shallow_answer ()

section Heard

variable {q : Performer} {f argument : String} (depth : Nat)

section Choice

variable {right : String} (hright : IsOperand right) (hglobal : q.globals.find? right = none)
  (hf : q.program.functions.find? f = some (.user ["x"] (restIf right)))

include hright hglobal hf

theorem choice_sounds :
    SoundsLike
      (call (execute (depth + 2)) (some (.text f)) (some (.list [.text argument])) q)
      ((do
        restWhen depth ((q.given argument).same (literal right.toList))
        return .none : Performance Value) (q.entered "x" argument)) := by
  have hresolved : (substitute
    (.branch (some (.text ("x" ++ " == " ++ right))) (.commands [minimRest])
      (.value .none))).Silent (q.entered "x" argument)
      (.branch (some (.text ("x" ++ " == " ++ right))) (.commands [minimRest]) (.value .none))
      (q.entered "x" argument) := by
    rw [substitute]
    exact (silent_resolve_block _ (rest_resolved _)).bind ⟨⟨rfl, rfl⟩, rfl⟩
  apply call_sounds hf
  apply (body_sounds (read_choice _ hright.parallel hright.block) hresolved _).trans
  apply (run_one_sounds rfl rfl _).trans
  change SoundsLike (branch _ _ _ _ _) _
  simp only [branch, need, needBlock, answer_bind]
  apply (sounds_behind (holds_operand hright hglobal argument)).trans
  cases (q.given argument).same (literal right.toList) with
  | true => exact sounds_behind (silent_say _ _)
  | false => exact ⟨rfl, rfl, rfl⟩

theorem choice_shallow :
    (call (execute (depth + 2)) (some (.text f)) (some (.list [.text argument])) q).outcome ≠
      .error .tooDeep := by
  rw [(choice_sounds depth hright hglobal hf).outcome]
  exact (rest_when_shallow depth _).bind (fun _ => shallow_answer _) _

theorem choice_audible (hq : AtRest q)
    (hsame : (q.given argument).same (literal right.toList) = true) :
    (call (execute (depth + 2)) (some (.text f)) (some (.list [.text argument])) q).audio ≠ [] := by
  rw [(choice_sounds depth hright hglobal hf).audio, audio_answer, hsame]
  exact run_rest_audible depth ⟨hq.tempo, hq.patience⟩

theorem choice_silent (hsame : (q.given argument).same (literal right.toList) = false) :
    (call (execute (depth + 2)) (some (.text f)) (some (.list [.text argument])) q).audio = [] := by
  rw [(choice_sounds depth hright hglobal hf).audio, audio_answer, hsame]
  rfl

end Choice

section Each

variable (hf : q.program.functions.find? f = some (.user ["x"] restForEach))

include hf

theorem each_sounds :
    SoundsLike
      (call (execute (depth + 2)) (some (.text f)) (some (.list [.text argument])) q)
      ((do
        forEach (execute (depth + 1)) (some (.text "n")) (some (.text "x")) (some (.bool false))
          (.commands [minimRest])
        return .none : Performance Value) (q.entered "x" argument)) := by
  have hresolved : (substitute (.forEach (some (.text "n")) (some (.text "x")) (some (.bool false))
      (.commands [minimRest]))).Silent (q.entered "x" argument)
      (.forEach (some (.text "n")) (some (.text "x")) (some (.bool false)) (.commands [minimRest]))
      (q.entered "x" argument) := by
    rw [substitute]
    exact (silent_resolve_block _ (rest_resolved _)).bind ⟨⟨rfl, rfl⟩, rfl⟩
  apply call_sounds hf
  apply (body_sounds (read_for_each _) hresolved _).trans
  exact run_one_sounds rfl rfl _

theorem each_shallow :
    (call (execute (depth + 2)) (some (.text f)) (some (.list [.text argument])) q).outcome ≠
      .error .tooDeep := by
  rw [(each_sounds depth hf).outcome]
  exact (for_each_shallow depth _ _).bind (fun _ => shallow_answer _) _

theorem each_audible (hq : AtRest q) {item : Value} {rest : List Value} {shown : String}
    (hgiven : q.given argument = .list (item :: rest)) (hshown : showItem item = .ok shown) :
    (call (execute (depth + 2)) (some (.text f)) (some (.list [.text argument])) q).audio ≠ [] := by
  have hfind : (q.entered "x" argument).scope.find? (.text "x") = some (.list (item :: rest)) := by
    rw [find_entered, if_pos rfl, hgiven]
  have hrest : AtRest ((q.entered "x" argument).holding "n" item) := ⟨hq.tempo, hq.patience⟩
  have hrounds := for_each_audio (execute (depth + 1)) hfind hshown
    (rest_resolved ((q.entered "x" argument).holding "n" item))
  rw [(each_sounds depth hf).audio, audio_answer, hrounds]
  exact (run_rest_audible depth hrest).bind _

theorem each_silent {text : String} (hgiven : q.given argument = .text text)
    (hchord : isChordText text.toList = false) :
    (call (execute (depth + 2)) (some (.text f)) (some (.list [.text argument])) q).audio = [] := by
  have hfound : (findCollection (.text "x")).Silent (q.entered "x" argument) (some (.text text))
      (q.entered "x" argument) := by
    apply (silent_read _).bind
    rw [find_entered, if_pos rfl, hgiven]
    exact ⟨⟨rfl, rfl⟩, rfl⟩
  have hnone : collectionItems? (.text text) = none := by simp [collectionItems?, hchord]
  rw [(each_sounds depth hf).audio, audio_answer]
  apply (audio_bind hfound).trans
  dsimp only
  rw [hnone]
  rfl

end Each

end Heard

end Melody.Performance
