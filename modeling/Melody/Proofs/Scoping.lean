import Melody.Proofs.Frames

/-!
# Scopes

Only two things change the scope while commands run: an iteration binds its variable in the scope
that is there, and a call of a user's function replaces the scope by its own. Both put the old
scope back at their end, so commands that run to their end leave the scope as it was. What a call
does is decided by its arguments and not by the scope it comes from.
-/

set_option autoImplicit false

namespace Melody.Performance

open Act

def SameScope (p q : Performer) : Prop :=
  q.scope = p.scope

theorem same_scope_trans {p q r : Performer} (h : SameScope p q) (h' : SameScope q r) :
    SameScope p r :=
  Eq.trans h' h

theorem tolerant_scope (loud : Bool) : Tolerant loud SameScope :=
  ⟨fun _ => rfl, same_scope_trans, fun _ _ _ => rfl⟩

theorem walk_scope : Walk fun _ m => m.Keeps SameScope :=
  (tolerant_scope true).walk

theorem sound_scope {α : Type} (m : Act Sound.Engine α) : (sound m).Keeps SameScope :=
  fun _ _ _ => rfl

theorem switching_scope : Switching fun _ m => m.Keeps SameScope :=
  ⟨walk_scope, sound_scope _, fun _ => sound_scope _, sound_scope _, sound_scope _⟩

theorem ensures_set_scope (scope : Scope) {p : Performer} {Q : Unit → Performer → Prop} :
    (setScope scope).Ensures p Q ↔ Q () { p with scope := scope } :=
  ensures_change _

theorem iterate_scope (inner : Inner) (name collection : Value) (backwards : Bool) (body : Block)
    (items : List Value) :
    (iterate inner name collection backwards body items).Keeps SameScope := by
  have hitems (line : String) (order : List Value) :
      (do
        say line
        let before := (← read).scope
        forItems inner name body order
        setScope before : Performance Unit).Keeps SameScope := by
    intro p
    rw [ensures_bind, ensures_say, ensures_bind, ensures_read, ensures_bind]
    intro _ _
    rw [ensures_set_scope]
    rfl
  unfold iterate
  dsimp only
  split
  · exact walk_scope.bind (walk_scope.tell _) fun _ => hitems _ _
  · exact hitems _ _

def inOwnScope (m : Performance Unit) : Performance Unit := do
  let before := (← read).scope
  setScope []
  m
  setScope before

def runBody (inner : Inner) (body : List Char) : Performance Unit := do
  let commands ← readBody body
  inner (← substituteAll commands)

def callBody (inner : Inner) (name : String) (parameters : List String) (body : List Char)
    (arguments : Value) : Performance Unit := do
  let given ← ofExcept arguments.count
  let wanted := parameters.length
  if given = wanted then
    bindParameters arguments 0 parameters
    runBody inner body
  else say s!"Erro: Função '{name}' espera {wanted} argumentos, mas recebeu {given}"

theorem call_user_eq (inner : Inner) (name : String) (parameters : List String) (body : List Char)
    (arguments : Value) :
    callUser inner name parameters body arguments = (do
      say s!"Executando função '{name}'"
      inOwnScope (callBody inner name parameters body arguments)
      return .none) := by
  unfold callUser inOwnScope callBody runBody
  simp only [bind_assoc]
  congr 1
  funext _
  congr 1
  funext p
  congr 1
  funext _
  congr 1
  funext given
  split
  · simp only [bind_assoc]
  · rfl

theorem own_scope (m : Performance Unit) : (inOwnScope m).Keeps SameScope := by
  intro p
  unfold inOwnScope
  rw [ensures_bind, ensures_read, ensures_bind, ensures_set_scope, ensures_bind]
  intro _ _
  rw [ensures_set_scope]
  rfl

theorem call_scope (inner : Inner) (function arguments : Slot) :
    (call inner function arguments).Keeps SameScope := by
  intro p
  refine (walk_need walk_still _ _).ensures_bind ?_
  rintro function _ rfl
  refine (walk_need walk_still _ _).ensures_bind ?_
  rintro arguments _ rfl
  refine (still_of_except _).ensures_bind ?_
  rintro known _ rfl
  rw [ensures_bind, ensures_read]
  split
  · exact walk_builtin walk_scope _ _ _ p
  · rw [call_user_eq]
    refine (still_say _).ensures_bind ?_
    rintro _ _ rfl
    refine (own_scope _).ensures_bind ?_
    intro _ q hq
    exact (ensures_pure _).mpr hq
  · rw [ensures_bind, ensures_say]
    exact (ensures_pure _).mpr rfl

/-- A step keeps the scope if the commands inside do. -/
theorem step_scope {inner : Inner} (hinner : ∀ cs, (inner cs).Keeps SameScope) (c : Command) :
    (step inner c).Keeps SameScope := by
  have hblock (b : Block) : (runBlock inner b).Keeps SameScope :=
    walk_scope.bind (walk_block_commands walk_scope b) hinner
  rcases step_cases c with hplain | ⟨condition, whenTrue, whenFalse, hc⟩ | ⟨times, body, hc⟩ |
    ⟨name, collection, reversed, body, hc⟩ | ⟨function, arguments, hc⟩
  · exact hplain (tolerant_scope _).playing inner
  all_goals unfold step; rw [hc]
  · exact walk_branch walk_scope _ (hblock whenTrue) (hblock whenFalse)
  · exact walk_loop walk_scope _ (hblock body)
  · exact walk_for_each walk_scope _ _ _ fun _ _ _ _ => iterate_scope inner _ _ _ body _
  · exact walk_scope.bind (call_scope inner function arguments) fun _ => walk_scope.pure _

/-- The induction is on the depth: blocks and calls run one level below. -/
theorem execute_scope (depth : Nat) (cs : List Command) : (execute depth cs).Keeps SameScope := by
  induction depth generalizing cs with
  | zero =>
    intro p
    exact ensures_halt _
  | succ depth ih => exact walk_run switching_scope (fun c _ => step_scope ih c.core) false

structure Matches {α : Type} (e e' : Effect Performer α) : Prop where
  outcome : e.outcome = e'.outcome
  events : e.events = e'.events
  engine : e.state.engine = e'.state.engine

theorem own_scope_closed (m : Performance Unit) (p : Performer) (s t : Scope) :
    Matches (inOwnScope m { p with scope := s }) (inOwnScope m { p with scope := t }) := by
  have hempty (scope : Scope) :
      inOwnScope m { p with scope := scope } =
        (do m; setScope scope : Performance Unit) { p with scope := [] } := rfl
  rw [hempty s, hempty t]
  cases hm : (m { p with scope := [] }).outcome with
  | error h =>
    rw [bind_of_error hm, bind_of_error hm]
    exact ⟨rfl, rfl, rfl⟩
  | ok a =>
    rw [bind_of_ok hm, bind_of_ok hm]
    exact ⟨rfl, rfl, rfl⟩

theorem Matches.answer {α β : Type} {m : Performance α} {p q : Performer} (h : Matches (m p) (m q))
    (b : β) :
    Matches ((do let _ ← m; return b : Performance β) p)
      ((do let _ ← m; return b : Performance β) q) := by
  cases hp : (m p).outcome with
  | error f =>
    rw [bind_of_error hp, bind_of_error (h.outcome ▸ hp)]
    exact ⟨rfl, h.events, h.engine⟩
  | ok a =>
    rw [bind_of_ok hp, bind_of_ok (h.outcome ▸ hp)]
    exact ⟨rfl, congrArg (· ++ []) h.events, h.engine⟩

theorem Matches.say {α : Type} {m : Performance α} {p q : Performer} (h : Matches (m p) (m q))
    (line : String) :
    Matches ((do Act.say line; m : Performance α) p) ((do Act.say line; m : Performance α) q) :=
  ⟨h.outcome, congrArg (Event.printed line :: ·) h.events, h.engine⟩

theorem call_user_closed (inner : Inner) (name : String) (parameters : List String)
    (body : List Char) (arguments : Value) (p : Performer) (s t : Scope) :
    Matches (callUser inner name parameters body arguments { p with scope := s })
      (callUser inner name parameters body arguments { p with scope := t }) := by
  rw [call_user_eq]
  exact ((own_scope_closed _ p s t).answer Value.none).say _

theorem call_closed (inner : Inner) {name : String} {parameters : List String} {body : List Char}
    {p : Performer} (hf : p.program.functions.find? name = some (.user parameters body))
    (arguments : Slot) (s t : Scope) :
    Matches (call inner (some (.text name)) arguments { p with scope := s })
      (call inner (some (.text name)) arguments { p with scope := t }) := by
  cases arguments with
  | none => exact ⟨rfl, rfl, rfl⟩
  | some arguments =>
    have hcall (scope : Scope) :
        call inner (some (.text name)) (some arguments) { p with scope := scope } =
          callUser inner name parameters body arguments { p with scope := scope } := by
      unfold call
      rw [need, need, answer_bind, answer_bind, Value.asName, of_except_bind, read_bind,
        Option.bind_some, hf]
      rfl
    rw [hcall s, hcall t]
    exact call_user_closed inner name parameters body arguments p s t

/-- Commands that run to their end leave the scope as they found it, and a call of a user's function
does the same to the outside, whatever scope it is called from. -/
theorem scope_discipline (depth : Nat) (p : Performer) :
    (∀ cs, (execute depth cs p).outcome = .ok () →
        (execute depth cs p).state.scope = p.scope) ∧
      ∀ (name : String) (parameters : List String) (body : List Char) (arguments : Slot),
        p.program.functions.find? name = some (.user parameters body) → ∀ s t : Scope,
          Matches (call (execute depth) (some (.text name)) arguments { p with scope := s })
            (call (execute depth) (some (.text name)) arguments { p with scope := t }) := by
  constructor
  · intro cs hok
    exact execute_scope depth cs p () hok
  · intro name parameters body arguments hf s t
    exact call_closed (execute depth) hf arguments s t

def soloist : Performer :=
  { program :=
      { chords := [("c", .list [.text "do", .text "re"])]
        functions := [("f", .user ["x"] "para cada v em x \x7b \x7d".toList)] }
    scope := [(.text "v", .text "mi")] }

def exercise : List Command :=
  [.forEach (some (.text "v")) (some (.text "c")) (some (.bool true))
    (.commands
      [.call (some (.text "f")) (some (.list [.text "v"])),
       .call (some (.text "f")) (some (.list []))])]

theorem exercise_keeps_variable :
    (execute 4 exercise soloist).outcome = .ok () ∧
      (execute 4 exercise soloist).state.scope = [(.text "v", .text "mi")] ∧
      Matches (call (execute 4) (some (.text "f")) (some (.list [.text "c"])) soloist)
        (call (execute 4) (some (.text "f")) (some (.list [.text "c"]))
          { soloist with scope := [] }) := by
  have hok : (execute 4 exercise soloist).outcome = .ok () := ok_of_option (by decide +kernel)
  have h := scope_discipline 4 soloist
  exact ⟨hok, h.1 exercise hok, h.2 "f" _ _ _ rfl soloist.scope []⟩

end Melody.Performance
