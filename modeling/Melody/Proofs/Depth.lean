import Melody.Proofs.Actions
import Melody.Performance.Run

/-!
# Room for nesting

Commands run with a bound on how deep blocks and calls may nest. How a list of commands runs
depends on the bound only through the commands inside its blocks and calls, so every `Congruence`
between actions carries over from these to the list. More room changes nothing for commands that
stay within their bound: they either nest too deep or do exactly what they do with more room. An
action is `Shallow` if it never nests too deep.
-/

set_option autoImplicit false

namespace Melody.Act

variable {σ α β : Type}

structure Congruence (σ : Type) where
  rel : {α : Type} → Act σ α → Act σ α → Prop
  refl {α : Type} (m : Act σ α) : rel m m
  bind {α β : Type} {m m' : Act σ α} {f f' : α → Act σ β} :
    rel m m' → (∀ a, rel (f a) (f' a)) → rel (m >>= f) (m' >>= f')

namespace Congruence

variable (R : Congruence σ)

/-- What starts with the same action. -/
theorem behind (m : Act σ α) {f f' : α → Act σ β} (hf : ∀ a, R.rel (f a) (f' a)) :
    R.rel (m >>= f) (m >>= f') :=
  R.bind (R.refl m) hf

theorem rounds {m m' : Nat → Act σ Unit} (h : ∀ i, R.rel (m i) (m' i)) (i n : Nat) :
    R.rel (repeatFrom m i n) (repeatFrom m' i n) := by
  induction n generalizing i with
  | zero => exact R.refl _
  | succ n ih => exact R.bind (h i) fun _ => ih (i + 1)

end Congruence

def Deepens (m m' : Act σ α) : Prop :=
  ∀ s, (m s).outcome ≠ .error .tooDeep → m' s = m s

theorem Deepens.refl (m : Act σ α) : m.Deepens m :=
  fun _ _ => rfl

theorem Deepens.bind {m m' : Act σ α} {f f' : α → Act σ β} (hm : m.Deepens m')
    (hf : ∀ a, (f a).Deepens (f' a)) : (m >>= f).Deepens (m' >>= f') := by
  intro s h
  cases hs : (m s).outcome with
  | error e =>
    rw [bind_of_error hs] at h ⊢
    have hroom : (m s).outcome ≠ .error .tooDeep := by
      rw [hs]
      exact fun he => h (congrArg Except.error (Except.error.inj he))
    have hsame := hm s hroom
    rw [bind_of_error (by rw [hsame, hs]), hsame]
  | ok a =>
    have hsame := hm s (by rw [hs]; simp)
    rw [bind_of_ok hs] at h ⊢
    rw [bind_of_ok (by rw [hsame, hs]), hsame, hf a _ h]

def deepening (σ : Type) : Congruence σ :=
  ⟨Deepens, Deepens.refl, Deepens.bind⟩

def Shallow (m : Act σ α) : Prop :=
  ∀ s, (m s).outcome ≠ .error .tooDeep

theorem Shallow.bind {m : Act σ α} {f : α → Act σ β} (hm : m.Shallow) (hf : ∀ a, (f a).Shallow) :
    (m >>= f).Shallow := by
  intro s
  cases hs : (m s).outcome with
  | error e =>
    rw [bind_of_error hs]
    exact fun he => hm s (hs.trans (congrArg Except.error (Except.error.inj he)))
  | ok a =>
    rw [bind_of_ok hs]
    exact hf a _

theorem shallow_answer (a : α) : (answer a : Act σ α).Shallow := by
  intro s h
  cases h

theorem shallow_read : (read : Act σ σ).Shallow := by
  intro s h
  cases h

theorem shallow_change (g : σ → σ) : (change g).Shallow := by
  intro s h
  cases h

theorem shallow_emit (e : Event) : (emit e : Act σ Unit).Shallow := by
  intro s h
  cases h

end Melody.Act

namespace Melody.Performance

open Act

section Inner

variable (R : Congruence Performer) {inner inner' : Inner} (h : ∀ cs, R.rel (inner cs) (inner' cs))

include h

theorem branch_congr (condition : Slot) (whenTrue whenFalse : Block) :
    R.rel (branch inner condition whenTrue whenFalse)
      (branch inner' condition whenTrue whenFalse) := by
  apply R.behind
  intro condition
  apply R.behind
  intro whenTrue
  apply R.behind
  intro whenFalse
  apply R.behind
  intro holding
  split
  · apply R.behind
    intro _
    exact R.behind _ h
  · split
    · apply R.behind
      intro _
      exact R.behind _ h
    · exact R.refl _

theorem loop_congr (times : Slot) (body : Block) :
    R.rel (loop inner times body) (loop inner' times body) := by
  apply R.behind
  intro times
  apply R.behind
  intro body
  apply R.behind
  intro _
  split
  · apply R.rounds
    intro i
    apply R.behind
    intro _
    exact R.behind _ h
  · exact R.refl _

theorem items_congr (name : Value) (body : Block) (items : List Value) :
    R.rel (forItems inner name body items) (forItems inner' name body items) := by
  induction items with
  | nil => exact R.refl _
  | cons item rest ih =>
    apply R.behind
    intro _
    apply R.behind
    intro shown
    apply R.behind
    intro _
    apply R.behind
    intro body'
    apply R.behind
    intro commands
    exact R.bind (h commands) fun _ => ih

theorem for_each_congr (name collection reversed : Slot) (body : Block) :
    R.rel (forEach inner name collection reversed body)
      (forEach inner' name collection reversed body) := by
  apply R.behind
  intro name
  apply R.behind
  intro collection
  apply R.behind
  intro reversed
  apply R.behind
  intro body
  apply R.behind
  intro found
  split
  · exact R.refl _
  · split
    · have hitems (items : List Value) := items_congr R h name body items
      unfold iterate
      dsimp only
      split
      all_goals
        repeat apply R.behind; intro _
        exact R.bind (hitems _) fun _ => R.refl _
    · exact R.refl _

theorem call_user_congr (name : String) (parameters : List String) (body : List Char)
    (arguments : Value) :
    R.rel (callUser inner name parameters body arguments)
      (callUser inner' name parameters body arguments) := by
  apply R.behind
  intro _
  apply R.behind
  intro p
  apply R.behind
  intro _
  apply R.behind
  intro given
  dsimp only
  split
  · apply R.behind
    intro _
    apply R.behind
    intro commands
    apply R.behind
    intro resolved
    exact R.bind (h resolved) fun _ => R.refl _
  · exact R.refl _

theorem call_congr (function arguments : Slot) :
    R.rel (call inner function arguments) (call inner' function arguments) := by
  apply R.behind
  intro function
  apply R.behind
  intro arguments
  apply R.behind
  intro known
  apply R.behind
  intro p
  split
  · exact R.refl _
  · exact call_user_congr R h _ _ _ _
  · exact R.refl _

theorem step_congr (c : Command) : R.rel (step inner c) (step inner' c) := by
  unfold step
  cases c.core with
  | branch condition whenTrue whenFalse => exact branch_congr R h condition whenTrue whenFalse
  | loop times body => exact loop_congr R h times body
  | forEach name collection reversed body => exact for_each_congr R h name collection reversed body
  | call function arguments => exact R.bind (call_congr R h function arguments) fun _ => R.refl _
  | play | playChord | pause | envelope | waveform | instrument | startParallel |
      endParallel | marked
  | other => exact R.refl _

end Inner

/-- The induction is on the commands in front: whatever they leave open, related commands stand
behind them. -/
theorem run_append_congr (R : Congruence Performer) {one one' : Command → Performance Unit}
    (hone : ∀ c, R.rel (one c) (one' c)) {rest rest' : List Command}
    (hrest : ∀ isOpen, R.rel (runAll one isOpen rest) (runAll one' isOpen rest'))
    (isOpen : Bool) (cs : List Command) :
    R.rel (runAll one isOpen (cs ++ rest)) (runAll one' isOpen (cs ++ rest')) := by
  induction cs generalizing isOpen with
  | nil => exact hrest isOpen
  | cons c cs ih =>
    rw [List.cons_append, List.cons_append]
    apply R.behind
    intro _
    split
    · exact R.behind _ fun _ => ih true
    · exact R.behind _ fun _ => ih false
    · exact R.bind (hone _) fun _ => ih isOpen

theorem run_congr (R : Congruence Performer) {one one' : Command → Performance Unit}
    (hone : ∀ c, R.rel (one c) (one' c)) (isOpen : Bool) (cs : List Command) :
    R.rel (runAll one isOpen cs) (runAll one' isOpen cs) := by
  have hend (isOpen : Bool) : R.rel (runAll one isOpen []) (runAll one' isOpen []) :=
    R.refl (runAll one isOpen [])
  have hrun := run_append_congr R hone hend isOpen cs
  rwa [List.append_nil] at hrun

/-- If too little room is related to every other one, so is each depth to the next. The induction
is on the depth. -/
theorem execute_congr (R : Congruence Performer)
    (hdeep : ∀ m : Performance Unit, R.rel (halt .tooDeep) m) (depth : Nat) (cs : List Command) :
    R.rel (execute depth cs) (execute (depth + 1) cs) := by
  induction depth generalizing cs with
  | zero => exact hdeep _
  | succ depth ih => exact run_congr R (step_congr R ih) false cs

theorem call_deepens {inner inner' : Inner} (h : ∀ cs, (inner cs).Deepens (inner' cs))
    (function arguments : Slot) :
    (call inner function arguments).Deepens (call inner' function arguments) :=
  call_congr (deepening Performer) h function arguments

theorem execute_deepens (depth : Nat) (cs : List Command) :
    (execute depth cs).Deepens (execute (depth + 1) cs) :=
  execute_congr (deepening Performer) (fun _ _ h => absurd rfl h) depth cs

end Melody.Performance
