import Melody.Event

/-!
# What actions leave behind

`Ensures` speaks about the runs of an action that answer: the answer and the state after it. The
lemmas below carry it through the ways of putting actions together, so that what a longer action
ensures is read off its parts. `Keeps` relates the state after an action to the state before it,
for a relation that can be passed on from one action to the next, and `Always` does so for runs that
halt as well. `Answers` says that an action does answer, and how. `Meets` looks at both ends of a
run: why it may halt and what it leaves if it answers.
-/

set_option autoImplicit false

namespace Melody.Act

variable {σ τ α β : Type}

section Bind

variable {γ : Type} {m : Act σ α} {f : α → Act σ β} {s : σ}

theorem bind_of_ok {a : α} (h : (m s).outcome = .ok a) :
    (m >>= f) s =
      ⟨(f a (m s).state).state, (m s).events ++ (f a (m s).state).events,
        (f a (m s).state).outcome⟩ := by
  change andThen m f s = _
  simp only [andThen, h]

theorem bind_of_error {e : Halt} (h : (m s).outcome = .error e) :
    (m >>= f) s = ⟨(m s).state, (m s).events, .error e⟩ := by
  change andThen m f s = _
  simp only [andThen, h]

theorem bind_assoc (m : Act σ α) (f : α → Act σ β) (g : β → Act σ γ) :
    m >>= f >>= g = m >>= fun a => f a >>= g := by
  funext s
  cases hm : (m s).outcome with
  | error e =>
    have hf := bind_of_error (f := f) hm
    rw [bind_of_error hm, bind_of_error (e := e) (by rw [hf]), hf]
  | ok a =>
    have hf := bind_of_ok (f := f) hm
    rw [bind_of_ok hm]
    cases hb : (f a (m s).state).outcome with
    | error e => rw [bind_of_error hb, bind_of_error (e := e) (by rw [hf, hb]), hf]
    | ok b =>
      rw [bind_of_ok hb, bind_of_ok (a := b) (by rw [hf, hb]), hf]
      simp only [List.append_assoc]

theorem bind_congr_start {m' : Act σ α} {s' : σ} (h : m s = m' s') (f : α → Act σ β) :
    (m >>= f) s = (m' >>= f) s' := by
  change andThen m f s = andThen m' f s'
  simp only [andThen, h]

theorem bind_congr_rest {g : α → Act σ β} {a : α} (h : (m s).outcome = .ok a)
    (hfg : f a (m s).state = g a (m s).state) : (m >>= f) s = (m >>= g) s := by
  rw [bind_of_ok h, bind_of_ok h, hfg]

theorem answer_bind (a : α) (f : α → Act σ β) : answer a >>= f = f a :=
  rfl

theorem of_except_bind (a : α) (f : α → Act σ β) : ofExcept (.ok a) >>= f = f a :=
  rfl

theorem read_bind (f : σ → Act σ β) (s : σ) : (read >>= f) s = f s s :=
  rfl

end Bind

theorem ok_of_option {ε : Type} {outcome : Except ε α} {a : α} (h : outcome.toOption = some a) :
    outcome = .ok a := by
  cases outcome with
  | error e => cases h
  | ok b =>
    cases h
    rfl

def Ensures (m : Act σ α) (s : σ) (Q : α → σ → Prop) : Prop :=
  ∀ a, (m s).outcome = .ok a → Q a (m s).state

section Ensures

variable {m : Act σ α} {f : α → Act σ β} {s : σ} {Q Q' : α → σ → Prop} {S : β → σ → Prop}

theorem Ensures.mono (h : m.Ensures s Q) (hq : ∀ a t, Q a t → Q' a t) : m.Ensures s Q' :=
  fun a ha => hq a _ (h a ha)

theorem ensures_bind : (m >>= f).Ensures s S ↔ m.Ensures s fun a t => (f a).Ensures t S := by
  unfold Ensures
  cases hm : (m s).outcome with
  | error h => simp [bind_of_error hm]
  | ok a => simp [bind_of_ok hm]

theorem ensures_answer (a : α) : (answer a).Ensures s Q ↔ Q a s := by
  constructor
  · intro h
    exact h a rfl
  · intro h b hb
    cases hb
    exact h

theorem ensures_pure (a : α) : (pure a : Act σ α).Ensures s Q ↔ Q a s :=
  ensures_answer a

theorem ensures_halt (h : Halt) : (halt h : Act σ α).Ensures s Q := by
  intro a ha
  cases ha

theorem ensures_fail (f : Fault) : (fail f : Act σ α).Ensures s Q :=
  ensures_halt (.fault f)

theorem ensures_of_except (e : Except Fault α) :
    (ofExcept e).Ensures s Q ↔ ∀ a, e = .ok a → Q a s := by
  cases e with
  | error f =>
    constructor
    · intro _ a ha
      cases ha
    · intro _
      exact ensures_fail f
  | ok a =>
    constructor
    · intro h b hb
      cases hb
      exact h a rfl
    · intro h
      exact (ensures_answer a).mpr (h a rfl)

theorem ensures_say (line : String) {Q : Unit → σ → Prop} : (say line).Ensures s Q ↔ Q () s :=
  ⟨fun h => h () rfl, fun h _ _ => h⟩

theorem ensures_emit (e : Event) {Q : Unit → σ → Prop} : (emit e).Ensures s Q ↔ Q () s :=
  ⟨fun h => h () rfl, fun h _ _ => h⟩

theorem ensures_read {Q : σ → σ → Prop} : (read : Act σ σ).Ensures s Q ↔ Q s s :=
  ensures_answer s

theorem ensures_change (g : σ → σ) {Q : Unit → σ → Prop} :
    (change g).Ensures s Q ↔ Q () (g s) :=
  ⟨fun h => h () rfl, fun h _ _ => h⟩

theorem ensures_on_part (get : σ → τ) (set : τ → σ → σ) (m : Act τ α) :
    (onPart get set m).Ensures s Q ↔ m.Ensures (get s) fun a t => Q a (set t s) :=
  Iff.rfl

end Ensures

def Keeps (R : σ → σ → Prop) (m : Act σ α) : Prop :=
  ∀ s, m.Ensures s fun _ t => R s t

section Keeps

variable {R : σ → σ → Prop} {m : Act σ α} {f : α → Act σ β}

theorem Keeps.bind (hm : m.Keeps R) (hf : ∀ a, (f a).Keeps R)
    (ht : ∀ {s t u}, R s t → R t u → R s u) : (m >>= f).Keeps R := by
  intro s
  rw [ensures_bind]
  intro a ha b hb
  exact ht (hm s a ha) (hf a _ b hb)

theorem Keeps.ensures_bind {s : σ} {S : β → σ → Prop} (hm : m.Keeps R)
    (hf : ∀ a t, R s t → (f a).Ensures t S) : (m >>= f).Ensures s S := by
  rw [Act.ensures_bind]
  exact (hm s).mono hf

end Keeps

def Still (m : Act σ α) : Prop :=
  ∀ s, (m s).state = s

section Still

variable {m : Act σ α} {f : α → Act σ β} {s : σ} {Q : α → σ → Prop}

theorem Still.bind (hm : m.Still) (hf : ∀ a, (f a).Still) : (m >>= f).Still := by
  intro s
  cases h : (m s).outcome with
  | error e =>
    rw [bind_of_error h]
    exact hm s
  | ok a =>
    rw [bind_of_ok h]
    exact (hf a _).trans (hm s)

theorem Still.keeps (hm : m.Still) : m.Keeps Eq :=
  fun s _ _ => (hm s).symm

theorem Still.ensures (hm : m.Still) (hq : ∀ a, Q a s) : m.Ensures s Q :=
  (hm.keeps s).mono fun a _ ht => ht ▸ hq a

theorem Still.ensures_bind {S : β → σ → Prop} (hm : m.Still)
    (hf : ∀ a t, s = t → (f a).Ensures t S) : (m >>= f).Ensures s S :=
  hm.keeps.ensures_bind hf

theorem still_answer (a : α) : (answer a : Act σ α).Still :=
  fun _ => rfl

theorem still_pure (a : α) : (pure a : Act σ α).Still :=
  still_answer a

theorem still_fail (f : Fault) : (fail f : Act σ α).Still :=
  fun _ => rfl

theorem still_of_except (e : Except Fault α) : (ofExcept e : Act σ α).Still := by
  cases e with
  | error f => exact still_fail f
  | ok a => exact still_answer a

theorem still_say (line : String) : (say line : Act σ Unit).Still :=
  fun _ => rfl

theorem still_read : (read : Act σ σ).Still :=
  fun _ => rfl

end Still

def Always (R : σ → List Event → σ → Prop) (m : Act σ α) : Prop :=
  ∀ s, R s (m s).events (m s).state

/-- What holds after the first of two actions and is kept by the second holds after both. -/
theorem trail_bind {T : List Event → σ → Prop} {m : Act σ α} {f : α → Act σ β} {s : σ}
    (hm : T (m s).events (m s).state)
    (hf : ∀ a, (m s).outcome = .ok a →
      T ((m s).events ++ (f a (m s).state).events) (f a (m s).state).state) :
    T ((m >>= f) s).events ((m >>= f) s).state := by
  cases h : (m s).outcome with
  | error e =>
    rw [bind_of_error h]
    exact hm
  | ok a =>
    rw [bind_of_ok h]
    exact hf a h

theorem Always.bind {R : σ → List Event → σ → Prop} {m : Act σ α} {f : α → Act σ β}
    (hm : m.Always R) (hf : ∀ a, (f a).Always R)
    (ht : ∀ {s es t es' u}, R s es t → R t es' u → R s (es ++ es') u) : (m >>= f).Always R :=
  fun s => trail_bind (hm s) fun a _ => ht (hm s) (hf a _)

structure Answers (m : Act σ α) (s : σ) (a : α) (t : σ) : Prop where
  outcome : (m s).outcome = .ok a
  state : (m s).state = t

section Answers

theorem Answers.bind {m : Act σ α} {f : α → Act σ β} {s t u : σ} {a : α} {b : β}
    (hm : m.Answers s a t) (hf : (f a).Answers t b u) : (m >>= f).Answers s b u := by
  obtain ⟨hok, rfl⟩ := hm
  constructor
  · rw [bind_of_ok hok]
    exact hf.outcome
  · rw [bind_of_ok hok]
    exact hf.state

theorem answers_of_except {e : Except Fault α} {a : α} {s : σ} (h : e = .ok a) :
    (ofExcept e).Answers s a s := by
  rw [h]
  exact ⟨rfl, rfl⟩

end Answers

def Meets (m : Act σ α) (s : σ) (E : Halt → Prop) (Q : α → σ → Prop) : Prop :=
  (∀ h, (m s).outcome = .error h → E h) ∧ m.Ensures s Q

section Meets

variable {m : Act σ α} {f : α → Act σ β} {s : σ} {E : Halt → Prop} {Q Q' : α → σ → Prop}
  {S : β → σ → Prop}

theorem Meets.mono (h : m.Meets s E Q) (hq : ∀ a t, Q a t → Q' a t) : m.Meets s E Q' :=
  ⟨h.1, h.2.mono hq⟩

theorem meets_bind : (m >>= f).Meets s E S ↔ m.Meets s E fun a t => (f a).Meets t E S := by
  unfold Meets Ensures
  cases hm : (m s).outcome with
  | error h => simp [bind_of_error hm]
  | ok a => simp [bind_of_ok hm]

theorem meets_of_ok {a : α} (h : (m s).outcome = .ok a) : m.Meets s E Q ↔ Q a (m s).state := by
  unfold Meets Ensures
  simp [h]

theorem meets_answer (a : α) : (answer a).Meets s E Q ↔ Q a s :=
  meets_of_ok rfl

theorem meets_pure (a : α) : (pure a : Act σ α).Meets s E Q ↔ Q a s :=
  meets_answer a

theorem meets_halt (h : Halt) : (halt h : Act σ α).Meets s E Q ↔ E h := by
  constructor
  · intro hm
    exact hm.1 h rfl
  · intro he
    refine ⟨?_, ensures_halt h⟩
    intro h' hh
    cases hh
    exact he

theorem meets_fail (f : Fault) : (fail f : Act σ α).Meets s E Q ↔ E (.fault f) :=
  meets_halt (.fault f)

theorem meets_of_except (e : Except Fault α) :
    (ofExcept e).Meets s E Q ↔ (∀ f, e = .error f → E (.fault f)) ∧ ∀ a, e = .ok a → Q a s := by
  cases e with
  | error f => simpa [ofExcept] using meets_fail f
  | ok a => simpa [ofExcept] using meets_answer a

theorem meets_say (line : String) {Q : Unit → σ → Prop} : (say line).Meets s E Q ↔ Q () s :=
  meets_of_ok rfl

theorem meets_emit (e : Event) {Q : Unit → σ → Prop} : (emit e).Meets s E Q ↔ Q () s :=
  meets_of_ok rfl

theorem meets_read {Q : σ → σ → Prop} : (read : Act σ σ).Meets s E Q ↔ Q s s :=
  meets_of_ok rfl

theorem meets_change (g : σ → σ) {Q : Unit → σ → Prop} :
    (change g).Meets s E Q ↔ Q () (g s) :=
  meets_of_ok rfl

theorem meets_on_part (get : σ → τ) (set : τ → σ → σ) (m : Act τ α) :
    (onPart get set m).Meets s E Q ↔ m.Meets (get s) E fun a t => Q a (set t s) :=
  Iff.rfl

/-- What holds before every round of a repetition holds after the last one. -/
theorem meets_repeat {m : Nat → Act σ Unit} {I : σ → Prop}
    (hm : ∀ i s, I s → (m i).Meets s E fun _ t => I t) (i n : Nat) (hs : I s) :
    (repeatFrom m i n).Meets s E fun _ t => I t := by
  induction n generalizing i s with
  | zero => exact (meets_answer ()).mpr hs
  | succ n ih =>
    apply meets_bind.mpr
    apply (hm i s hs).mono
    intro _ t ht
    exact ih (i + 1) ht

end Meets

end Melody.Act
