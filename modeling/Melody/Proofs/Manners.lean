import Mathlib.Tactic.SplitIfs
import Melody.Proofs.Plain

/-!
# The two readers agree

The diagnosing and the plain reader say different things about a line that is no command. They
agree on everything else: the commands at every level of nesting, and the fault that ends the
reading. Agreement is shown for one line, carried through the operations on readings, and then
through the four searches by induction over the nesting; what the plain reader leaves in a list
is the reading it is compared by.
-/

set_option autoImplicit false

namespace Melody.Command

open Melody.Text

def Reading.Agrees (r s : Reading) : Prop :=
  r.commands = s.commands ∧ r.fault = s.fault

namespace Reading.Agrees

theorem refl (r : Reading) : r.Agrees r := ⟨rfl, rfl⟩

theorem andThen {r r' s s' : Reading} (hr : r.Agrees r') (hs : s.Agrees s') :
    (r.andThen s).Agrees (r'.andThen s') := by
  obtain ⟨hc, hf⟩ := hr
  cases hf' : r'.fault with
  | none =>
    rw [hf'] at hf
    simp only [Reading.andThen, hf, hf']
    exact ⟨by rw [hc, hs.1], hs.2⟩
  | some f =>
    rw [hf'] at hf
    simp only [Reading.andThen, hf, hf']
    exact ⟨hc, by rw [hf, hf']⟩

theorem gather {r r' : Reading} (h : r.Agrees r') (f : List Command → List Command) :
    (r.gather f).Agrees (r'.gather f) :=
  ⟨congrArg f h.1, h.2⟩

theorem whole {r r' : Reading} (h : r.Agrees r') (f : List Command → List Command) :
    (r.whole f).Agrees (r'.whole f) := by
  cases hf : r'.fault with
  | none =>
    have hf' : r.fault = none := by rw [h.2, hf]
    simp only [Reading.whole, hf, hf']
    exact h.gather f
  | some e =>
    have hf' : r.fault = some e := by rw [h.2, hf]
    simp only [Reading.whole, hf, hf']
    exact ⟨rfl, rfl⟩

theorem sequence {α : Type} (items : List α) {f g : α → Reading}
    (h : ∀ a, (f a).Agrees (g a)) :
    (Reading.sequence (items.map f)).Agrees (Reading.sequence (items.map g)) := by
  induction items with
  | nil => exact refl _
  | cons a rest ih => exact (h a).andThen ih

end Reading.Agrees

theorem unrecognised_silent (manner : Manner) (line : List Char) :
    (unrecognisedReading manner line).Agrees .empty := by
  unfold unrecognisedReading
  split
  · exact .refl _
  · cases manner with
    | plain => exact ⟨rfl, rfl⟩
    | diagnosing =>
      simp only [diagnose]
      split_ifs <;> exact ⟨rfl, rfl⟩

theorem unrecognised_agrees (m m' : Manner) (line : List Char) :
    (unrecognisedReading m line).Agrees (unrecognisedReading m' line) := by
  have h := unrecognised_silent m line
  have h' := unrecognised_silent m' line
  exact ⟨h.1.trans h'.1.symm, h.2.trans h'.2.symm⟩

/-- The only forms on which the manners differ are an unknown call and a line of no form, and
neither gives a command. -/
theorem line_agrees (ctx : Context) (line : List Char) :
    (readLine .diagnosing ctx line).Agrees (readLine .plain ctx line) := by
  rw [read_line_eq, read_line_eq]
  unfold lineReading
  cases Line.recognise line with
  | none => exact unrecognised_agrees _ _ line
  | some form =>
    cases form with
    | call name arguments =>
      by_cases h : ctx.functions.contains (String.ofList name)
      · simp only [h, if_true]
        exact .refl _
      · simp only [h]
        exact unrecognised_silent .diagnosing line
    | _ => exact .refl _

theorem lines_agree (ctx : Context) (cs : List Char) :
    (readLines .diagnosing ctx cs).Agrees (readLines .plain ctx cs) := by
  rw [read_lines_eq, read_lines_eq]
  exact .sequence (statementLines cs) (line_agrees ctx)

structure Readers.Agree (a b : Readers) : Prop where
  body : ∀ cs, (a.body cs).Agrees (b.body cs)
  lines : ∀ cs, (a.lines cs).Agrees (b.lines cs)

structure Progress.Agree (p q : Progress) : Prop where
  reading : p.reading.Agrees q.reading
  place : p.place = q.place

section Searches

variable {a b : Readers}

theorem parallels_agree (h : a.Agree b) (cs : List Char) (place : Nat)
    (founds : List (Found (List Char))) :
    (readParallels a cs place founds).Agree (readParallels b cs place founds) := by
  induction founds generalizing place with
  | nil => exact ⟨.refl _, rfl⟩
  | cons found rest ih =>
    have hbody := (h.body (strip found.item)).whole fun c => c ++ [.endParallel]
    have hmore := ih found.stop
    exact ⟨(h.lines _).andThen ((Reading.Agrees.refl _).andThen (hbody.andThen hmore.reading)),
      hmore.place⟩

theorem conditional_agrees (h : a.Agree b) (c : Conditional) :
    (readConditional a c).Agrees (readConditional b c) := by
  have htrue := h.body c.whenTrue
  have hfalse : (if c.whenFalse.isEmpty then Reading.empty else a.body c.whenFalse).Agrees
      (if c.whenFalse.isEmpty then Reading.empty else b.body c.whenFalse) := by
    split
    · exact .refl _
    · exact h.body c.whenFalse
  have hfirst : ({ a.body c.whenTrue with commands := [] } : Reading).Agrees
      { b.body c.whenTrue with commands := [] } := ⟨rfl, htrue.2⟩
  have hboth := hfirst.andThen hfalse
  constructor
  · simp only [readConditional, htrue.1, hboth.1]
  · exact hboth.2

theorem iteration_agrees (h : a.Agree b) (i : Iteration) :
    (readIteration a i).Agrees (readIteration b i) :=
  (h.body i.body).gather _

theorem repetition_agrees (h : a.Agree b) (r : Repetition) :
    (readRepetition a r).Agrees (readRepetition b r) := by
  unfold readRepetition
  cases parseInt r.times with
  | error f => exact .refl _
  | ok n => exact (h.body r.body).whole _

theorem finds_agree {α : Type} (h : a.Agree b) {f g : α → Reading}
    (hr : ∀ x, (f x).Agrees (g x)) (cs : List Char) (place : Nat) (founds : List (Found α)) :
    (readFinds a f cs place founds).Agree (readFinds b g cs place founds) := by
  induction founds generalizing place with
  | nil => exact ⟨.refl _, rfl⟩
  | cons found rest ih =>
    have hmore := ih (found.stop + place)
    exact ⟨(h.lines _).andThen ((hr found.item).andThen hmore.reading), hmore.place⟩

theorem search_agrees {α : Type} (h : a.Agree b) {f g : α → Reading}
    (hr : ∀ x, (f x).Agrees (g x)) (recognise : List Char → Option (α × List Char))
    (cs : List Char) {p q : Progress} (hp : p.Agree q) :
    (search a recognise f cs p).Agree (search b recognise g cs q) := by
  have hmore := finds_agree h hr cs p.place (findAll recognise (cs.drop p.place))
  unfold search
  rw [← hp.place]
  exact ⟨hp.reading.andThen hmore.reading, hmore.place⟩

theorem searches_agree (h : a.Agree b) (cs : List Char) :
    (readSearches a cs).Agrees (readSearches b cs) := by
  have h₁ := parallels_agree h cs 0 (findAll parallel? cs)
  have h₂ := search_agrees h (conditional_agrees h) conditional? cs h₁
  have h₃ := search_agrees h (iteration_agrees h) iteration? cs h₂
  have h₄ := search_agrees h (repetition_agrees h) repetition? cs h₃
  simp only [readSearches]
  rw [h₄.place]
  exact h₄.reading.andThen (h.lines _)

end Searches

theorem nested_agree {lines lines' : List Char → Reading} (h : ∀ cs, (lines cs).Agrees (lines' cs))
    (depth : Nat) (cs : List Char) :
    (readNested lines depth cs).Agrees (readNested lines' depth cs) := by
  induction depth generalizing cs with
  | zero => exact .refl _
  | succ depth ih => exact searches_agree ⟨ih, h⟩ cs

/-- On every text, under all chords and functions, the plain reader that starts with an empty list
leaves the commands that the diagnosing reader gives, and both end in the same way. -/
theorem processors_agree (ctx : Context) (cs : List Char) :
    (Plain.processMelody ctx cs []).state = (Diagnosing.read ctx cs).commands ∧
      (Plain.processMelody ctx cs []).outcome = Plain.ending (Diagnosing.read ctx cs).fault () := by
  have hlines (v : List Char) : (Diagnosing.readLines ctx v).Agrees
      (.sequence ((statementLines v).map (lineReading .plain ctx))) := by
    have hagree := lines_agree ctx v
    rwa [show readLines .plain ctx v = _ from Plain.reading_of_writes (Plain.lines_write ctx v)]
      at hagree
  have hnested := nested_agree hlines (cs.length + 1) cs
  have hwrites := (Plain.nested_writes ctx (cs.length + 1) cs).effect []
  constructor
  · rw [Plain.processMelody, hwrites]
    exact hnested.1.symm
  · rw [Plain.processMelody, hwrites]
    exact congrArg (Plain.ending · ()) hnested.2.symm

end Melody.Command
