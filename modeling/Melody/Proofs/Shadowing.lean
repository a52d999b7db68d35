import Melody.Proofs.Hearing

/-!
# Loop variables and the variables around them

An iteration binds its variable anew for every item, so on its own it does not depend on what the
variable was before. But the commands of a function or of an iteration are resolved as a whole
before they run, and that reaches into the bodies of the iterations inside: there the value from
outside takes the place of the loop variable wherever names are replaced. `mentions` lists these
names. The loop variable shadows the one outside exactly if the body does not mention it.
-/

set_option autoImplicit false

namespace Melody

theorem Value.same_text {v : Value} {name : String} :
    v.same (.text name) = true ↔ v = .text name := by
  cases v with
  | text s => simp [Value.same]
  | none | bool | int | float | list | record => simp [Value.same, Value.asInt?]

theorem Value.text_same {v : Value} {name : String} :
    (Value.text name).same v = true ↔ v = .text name := by
  cases v with
  | text s =>
    rw [Value.same, beq_iff_eq, Value.text.injEq]
    exact eq_comm
  | none | bool | int | float | list | record => simp [Value.same]

namespace Scope

variable {scope : Scope} {name : String} {v w other : Value}

theorem find_bind_self : (scope.bind (.text name) v).find? (.text name) = some v := by
  induction scope with
  | nil => simp [bind, find?, Value.same]
  | cons entry rest ih =>
    by_cases hkey : entry.1.same (.text name) = true
    · simp [bind, find?, hkey]
    · simp [bind, find?, hkey, ih]

theorem find_bind_other (h : other ≠ .text name) :
    (scope.bind (.text name) v).find? other = scope.find? other := by
  have hsame : ¬ (Value.text name).same other = true := fun hs => h (Value.text_same.mp hs)
  induction scope with
  | nil => simp [bind, find?, hsame]
  | cons entry rest ih =>
    by_cases hkey : entry.1.same (.text name) = true
    · have hother : ¬ entry.1.same other = true := by
        rw [Value.same_text.mp hkey]
        exact hsame
      simp [bind, find?, hkey, hother]
    · by_cases hother : entry.1.same other = true
      · simp [bind, find?, hkey, hother]
      · simp [bind, find?, hkey, hother, ih]

theorem bind_bind :
    (scope.bind (.text name) v).bind (.text name) w = scope.bind (.text name) w := by
  induction scope with
  | nil => simp [bind, Value.same]
  | cons entry rest ih =>
    by_cases hkey : entry.1.same (.text name) = true
    · simp [bind, hkey]
    · simp [bind, hkey, ih]

end Scope

def Value.names : Value → List String
  | .text s => [s]
  | _ => []

theorem Value.ne_of_unnamed {v : Value} {name : String} (h : name ∉ v.names) : v ≠ .text name := by
  rintro rfl
  simp [Value.names] at h

def Slot.names : Slot → List String
  | some v => v.names
  | none => []

def Slot.argumentNames : Slot → List String
  | some v => (v.elements.toOption.getD []).flatMap Value.names
  | none => []

mutual
def Command.mentions : Command → List String
  | .play note _ duration => Slot.names note ++ Slot.names duration
  | .playChord name _ duration => Slot.names name ++ Slot.names duration
  | .branch _ whenTrue whenFalse => whenTrue.mentions ++ whenFalse.mentions
  | .loop times body => Slot.names times ++ body.mentions
  | .forEach _ _ _ body => body.mentions
  | .call _ arguments => Slot.argumentNames arguments
  | .marked _ c => c.mentions
  | _ => []

def Block.mentions : Block → List String
  | .commands cs => Command.mentionsAll cs
  | _ => []

def Command.mentionsAll : List Command → List String
  | [] => []
  | c :: cs => c.mentions ++ Command.mentionsAll cs
end

namespace Act

variable {σ α β : Type}

def Alike (m : Act σ α) (s t : σ) : Prop :=
  ∃ events outcome, m s = ⟨s, events, outcome⟩ ∧ m t = ⟨t, events, outcome⟩

section Alike

variable {m : Act σ α} {f : α → Act σ β} {s t : σ}

theorem Alike.bind (hm : m.Alike s t) (hf : ∀ a, (f a).Alike s t) : (m >>= f).Alike s t := by
  obtain ⟨events, outcome, hs, ht⟩ := hm
  cases outcome with
  | error h =>
    rw [Alike, bind_of_error (by rw [hs]), bind_of_error (by rw [ht]), hs, ht]
    exact ⟨_, _, rfl, rfl⟩
  | ok a =>
    obtain ⟨events', outcome', hs', ht'⟩ := hf a
    rw [Alike, bind_of_ok (by rw [hs]), bind_of_ok (by rw [ht]), hs, ht, hs', ht']
    exact ⟨_, _, rfl, rfl⟩

theorem alike_answer (a : α) : (answer a).Alike s t :=
  ⟨_, _, rfl, rfl⟩

theorem alike_pure (a : α) : (pure a : Act σ α).Alike s t :=
  alike_answer a

theorem alike_fail (f : Fault) : (fail f : Act σ α).Alike s t :=
  ⟨_, _, rfl, rfl⟩

theorem alike_of_except (e : Except Fault α) : (ofExcept e).Alike s t := by
  cases e with
  | error f => exact alike_fail f
  | ok a => exact alike_answer a

theorem alike_say (line : String) : (say line).Alike s t :=
  ⟨_, _, rfl, rfl⟩

end Alike

end Act

namespace Performance

open Act

section Unmentioned

variable {name : String} {p : Performer} {x y : Value}

theorem alike_need (field : String) (slot : Slot) :
    (need field slot).Alike (p.holding name x) (p.holding name y) := by
  cases slot with
  | none => exact alike_fail _
  | some v => exact alike_answer v

/-- What a field is needed for is done with its value. -/
theorem alike_need_bind {α : Type} {field : String} {slot : Slot} {f : Value → Performance α}
    (h : ∀ v, slot = some v → (f v).Alike (p.holding name x) (p.holding name y)) :
    (need field slot >>= f).Alike (p.holding name x) (p.holding name y) := by
  cases slot with
  | none => exact ⟨_, _, rfl, rfl⟩
  | some v => exact h v rfl

theorem alike_lookup {v : Value} (h : name ∉ v.names) :
    (lookup v).Alike (p.holding name x) (p.holding name y) := by
  unfold Alike lookup
  rw [read_bind, read_bind]
  cases v.asName with
  | error f => exact ⟨_, _, rfl, rfl⟩
  | ok text =>
    refine ⟨_, _, rfl, ?_⟩
    have hfind (w : Value) : (p.holding name w).scope.find? v = p.scope.find? v :=
      Scope.find_bind_other (Value.ne_of_unnamed h)
    rw [of_except_bind, hfind, hfind]
    rfl

theorem alike_fallback (what fallback : String) (shown v : Value) :
    (orFallback what fallback shown v).Alike (p.holding name x) (p.holding name y) := by
  unfold orFallback
  split
  all_goals first
    | exact (alike_say _).bind fun _ => alike_pure _
    | exact alike_answer _

theorem alike_fill_duration {duration : Slot} (h : name ∉ Slot.names duration) :
    (fillDuration duration).Alike (p.holding name x) (p.holding name y) := by
  apply alike_need_bind
  rintro v rfl
  apply (alike_lookup h).bind
  intro found
  exact (alike_fallback _ _ _ _).bind fun _ => alike_pure _

theorem alike_fill_note {v : Value} (h : name ∉ v.names) (accidental : Slot) :
    (fillNote v accidental).Alike (p.holding name x) (p.holding name y) := by
  apply (alike_lookup h).bind
  intro found
  split
  · exact alike_pure _
  · split
    · exact (alike_of_except _).bind fun _ => (alike_of_except _).bind fun _ => alike_pure _
    · exact alike_pure _

theorem alike_fill_play {note duration : Slot} (hn : name ∉ Slot.names note)
    (hd : name ∉ Slot.names duration) (accidental : Slot) :
    (fillPlay note accidental duration).Alike (p.holding name x) (p.holding name y) := by
  apply alike_need_bind
  rintro v rfl
  apply (alike_fill_note hn accidental).bind
  intro filled
  apply (alike_fallback _ _ _ _).bind
  intro _
  exact (alike_fill_duration hd).bind fun _ => alike_pure _

theorem alike_fill_chord {chord : Slot} (h : name ∉ Slot.names chord) (notes : Slot) :
    (fillChord chord notes).Alike (p.holding name x) (p.holding name y) := by
  cases chord with
  | none => exact alike_answer _
  | some v =>
    apply (alike_lookup h).bind
    intro found
    split
    · exact alike_pure _
    · apply (alike_of_except _).bind
      intro text
      split
      · exact alike_pure _
      · exact ⟨_, _, rfl, rfl⟩

theorem alike_fill_times {times : Slot} (h : name ∉ Slot.names times) :
    (fillTimes times).Alike (p.holding name x) (p.holding name y) := by
  apply alike_need_bind
  rintro v rfl
  split
  · apply (alike_lookup h).bind
    intro found
    split
    · exact (alike_of_except _).bind fun _ => alike_pure _
    · exact alike_pure _
  · exact alike_pure _

theorem alike_fill_arguments {items : List Value} (h : name ∉ items.flatMap Value.names) :
    (fillArguments items).Alike (p.holding name x) (p.holding name y) := by
  induction items with
  | nil => exact alike_answer _
  | cons v rest ih =>
    rw [List.flatMap_cons, List.mem_append, not_or] at h
    apply (alike_lookup h.1).bind
    intro found
    exact (ih h.2).bind fun _ => alike_pure _

theorem alike_keep_all (otherwise : Fault) {items : List Value}
    (h : name ∉ items.flatMap Value.names) :
    (keepAll otherwise items).Alike (p.holding name x) (p.holding name y) := by
  induction items with
  | nil => exact alike_answer _
  | cons v rest ih =>
    rw [List.flatMap_cons, List.mem_append, not_or] at h
    apply (alike_lookup h.1).bind
    intro found
    split
    · exact (alike_fail _).bind fun _ => ih h.2
    · exact ih h.2

theorem alike_fill_call {arguments : Slot} (h : name ∉ Slot.argumentNames arguments)
    (function : Slot) :
    (fillCall function arguments).Alike (p.holding name x) (p.holding name y) := by
  apply alike_need_bind
  rintro v rfl
  split
  · exact (alike_fill_arguments h).bind fun _ => alike_pure _
  · change name ∉ (v.elements.toOption.getD []).flatMap Value.names at h
    cases hitems : v.elements with
    | error f => exact ⟨_, _, rfl, rfl⟩
    | ok items =>
      rw [hitems] at h
      exact (alike_keep_all _ h).bind fun _ => alike_pure _

theorem alike_kinds (items : List Value) :
    (items.forM needKind).Alike (p.holding name x) (p.holding name y) := by
  induction items with
  | nil => exact alike_pure _
  | cons v rest ih => exact ((alike_of_except _).bind fun _ => alike_pure _).bind fun _ => ih

theorem alike_elements (v : Value) :
    (do
      let items ← ofExcept v.elements
      items.forM needKind
      return Block.commands (items.map .other) : Performance Block).Alike (p.holding name x)
        (p.holding name y) :=
  (alike_of_except _).bind fun items => (alike_kinds items).bind fun _ => alike_pure _

mutual
/-- A command that does not mention a variable is resolved alike for all its values. -/
theorem alike_substitute : ∀ c : Command, name ∉ c.mentions →
    (substitute c).Alike (p.holding name x) (p.holding name y)
  | .play note accidental duration, h => by
    rw [Command.mentions, List.mem_append, not_or] at h
    exact alike_fill_play h.1 h.2 accidental
  | .playChord chord notes duration, h => by
    rw [Command.mentions, List.mem_append, not_or] at h
    apply (alike_fill_chord h.1 notes).bind
    intro _
    exact (alike_fill_duration h.2).bind fun _ => alike_pure _
  | .branch condition whenTrue whenFalse, h => by
    rw [Command.mentions, List.mem_append, not_or] at h
    rw [substitute]
    apply (alike_block _ whenTrue h.1).bind
    intro _
    exact (alike_optional _ whenFalse h.2).bind fun _ => alike_pure _
  | .loop times body, h => by
    rw [Command.mentions, List.mem_append, not_or] at h
    rw [substitute]
    apply (alike_fill_times h.1).bind
    intro _
    exact (alike_block _ body h.2).bind fun _ => alike_pure _
  | .forEach _ _ _ body, h => by
    rw [Command.mentions] at h
    rw [substitute]
    apply (alike_block _ body h).bind
    intro _
    exact (alike_need _ _).bind fun _ => alike_pure _
  | .call function arguments, h => alike_fill_call h function
  | .marked _ c, h => by
    rw [Command.mentions] at h
    rw [substitute]
    exact (alike_substitute c h).bind fun _ => alike_pure _
  | .other v, _ => by
    rw [substitute]
    exact ((alike_of_except _).bind fun _ => alike_pure _).bind fun _ => alike_pure _
  | .pause _, _ | .envelope _ _ _ _, _ | .waveform _, _ | .instrument _, _ | .startParallel, _
  | .endParallel, _ => alike_answer _

theorem alike_block (field : String) : ∀ b : Block, name ∉ b.mentions →
    (substituteBlock field b).Alike (p.holding name x) (p.holding name y)
  | .missing, _ => alike_fail _
  | .value v, _ => alike_elements v
  | .commands cs, h => by
    rw [Block.mentions] at h
    rw [substituteBlock]
    exact (alike_all cs h).bind fun _ => alike_pure _

theorem alike_optional (field : String) : ∀ b : Block, name ∉ b.mentions →
    (substituteOptional field b).Alike (p.holding name x) (p.holding name y)
  | .missing, _ => alike_fail _
  | .value v, _ => by
    cases v with
    | none => exact alike_answer _
    | bool | int | float | text | list | record => exact alike_elements _
  | .commands cs, h => by
    rw [Block.mentions] at h
    rw [substituteOptional]
    exact (alike_all cs h).bind fun _ => alike_pure _

theorem alike_all : ∀ cs : List Command, name ∉ Command.mentionsAll cs →
    (substituteAll cs).Alike (p.holding name x) (p.holding name y)
  | [], _ => alike_answer _
  | c :: cs, h => by
    rw [Command.mentionsAll, List.mem_append, not_or] at h
    rw [substituteAll]
    apply (alike_substitute c h.1).bind
    intro _
    exact (alike_all cs h.2).bind fun _ => alike_pure _
end

end Unmentioned

section Iterations

variable {p : Performer} {name : String} {x y : Value}

theorem matches_bind {α β : Type} {m : Performance α} {f : α → Performance β}
    (hm : m.Alike (p.holding name x) (p.holding name y))
    (hf : ∀ a, Matches (f a (p.holding name x)) (f a (p.holding name y))) :
    Matches ((m >>= f) (p.holding name x)) ((m >>= f) (p.holding name y)) := by
  obtain ⟨events, outcome, hx, hy⟩ := hm
  cases outcome with
  | error h =>
    rw [bind_of_error (by rw [hx]), bind_of_error (by rw [hy]), hx, hy]
    exact ⟨rfl, rfl, rfl⟩
  | ok a =>
    rw [bind_of_ok (by rw [hx]), bind_of_ok (by rw [hy]), hx, hy]
    exact ⟨(hf a).outcome, congrArg (events ++ ·) (hf a).events, (hf a).engine⟩

/-- Whatever scopes are put back at the end. -/
theorem Matches.set_scope {m : Performance Unit} {p q : Performer} (h : Matches (m p) (m q))
    (s t : Scope) :
    Matches ((do m; setScope s : Performance Unit) p)
      ((do m; setScope t : Performance Unit) q) := by
  cases hp : (m p).outcome with
  | error f =>
    rw [bind_of_error hp, bind_of_error (h.outcome ▸ hp)]
    exact ⟨rfl, h.events, h.engine⟩
  | ok a =>
    rw [bind_of_ok hp, bind_of_ok (h.outcome ▸ hp)]
    exact ⟨rfl, congrArg (· ++ []) h.events, h.engine⟩

theorem alike_collection {collection : Value} (h : collection ≠ .text name) :
    (findCollection collection).Alike (p.holding name x) (p.holding name y) := by
  have hfind (w : Value) : (p.holding name w).scope.find? collection = p.scope.find? collection :=
    Scope.find_bind_other h
  unfold Alike findCollection
  rw [read_bind, read_bind]
  cases collection.asName with
  | error f => exact ⟨_, _, rfl, rfl⟩
  | ok text =>
    rw [of_except_bind, of_except_bind, hfind, hfind]
    change (_ : Performance _).Alike (p.holding name x) (p.holding name y)
    split
    all_goals exact (alike_say _).bind fun _ => alike_pure _

/-- With the first item the variable is bound anew, and nothing is left of its old value. -/
theorem items_shadow (inner : Inner) (body : Block) (items : List Value) :
    Matches (forItems inner (.text name) body items (p.holding name x))
      (forItems inner (.text name) body items (p.holding name y)) := by
  cases items with
  | nil => exact ⟨rfl, rfl, rfl⟩
  | cons item rest =>
    have hbind (w : Value) : bindItem (.text name) item (p.holding name w) =
        ⟨p.holding name item, [], .ok ()⟩ := by
      change (⟨{ p with scope := (p.scope.bind (.text name) w).bind (.text name) item },
        [], .ok ()⟩ :
        Effect Performer Unit) = _
      rw [Scope.bind_bind]
      rfl
    have hsame : forItems inner (.text name) body (item :: rest) (p.holding name x) =
        forItems inner (.text name) body (item :: rest) (p.holding name y) :=
      bind_congr_start ((hbind x).trans (hbind y).symm) _
    rw [hsame]
    exact ⟨rfl, rfl, rfl⟩

theorem iterate_shadow (inner : Inner) (collection : Value) (backwards : Bool) (body : Block)
    (items : List Value) :
    Matches (iterate inner (.text name) collection backwards body items (p.holding name x))
      (iterate inner (.text name) collection backwards body items (p.holding name y)) := by
  have hitems (line : String) (order : List Value) :
      Matches
        ((do
          say line
          let before := (← read).scope
          forItems inner (.text name) body order
          setScope before : Performance Unit) (p.holding name x))
        ((do
          say line
          let before := (← read).scope
          forItems inner (.text name) body order
          setScope before : Performance Unit) (p.holding name y)) := by
    apply Matches.say
    apply Matches.set_scope
    exact items_shadow inner body order
  unfold iterate
  dsimp only
  split
  · apply Matches.say
    exact hitems _ _
  · exact hitems _ _

theorem for_each_shadow (inner : Inner) {collection : Slot} (h : collection ≠ some (.text name))
    (reversed : Slot) (body : Block) :
    Matches (forEach inner (some (.text name)) collection reversed body (p.holding name x))
      (forEach inner (some (.text name)) collection reversed body (p.holding name y)) := by
  cases collection with
  | none => exact ⟨rfl, rfl, rfl⟩
  | some collection =>
    have hcollection : collection ≠ .text name := fun heq => h (congrArg some heq)
    apply matches_bind (alike_need _ reversed)
    intro reversed
    have hblock : (needBlock "comandos" body).Alike (p.holding name x) (p.holding name y) := by
      cases body with
      | missing => exact alike_fail _
      | value v => exact alike_answer _
      | commands cs => exact alike_answer _
    apply matches_bind hblock
    intro body
    apply matches_bind (alike_collection hcollection)
    intro found
    cases found with
    | none => exact ⟨rfl, rfl, rfl⟩
    | some v =>
      dsimp only
      cases collectionItems? v with
      | none => exact ⟨rfl, rfl, rfl⟩
      | some items => exact iterate_shadow inner collection reversed.isTrue body items

/-- An iteration that runs on its own shadows the variable, whatever its body is. -/
theorem execute_shadow (depth : Nat) {collection : Slot} (h : collection ≠ some (.text name))
    (reversed : Slot) (body : Block) :
    Matches (execute depth [.forEach (some (.text name)) collection reversed body]
        (p.holding name x))
      (execute depth [.forEach (some (.text name)) collection reversed body]
        (p.holding name y)) := by
  cases depth with
  | zero => exact ⟨rfl, rfl, rfl⟩
  | succ depth =>
    have hannounce : (announce (.forEach (some (.text name)) collection reversed body)).Alike
        (p.holding name x) (p.holding name y) := by
      change (sayIfDebug _).Alike _ _
      unfold sayIfDebug Alike
      have hdebug (w : Value) : (p.holding name w).debug = p.debug := rfl
      rw [read_bind, read_bind, hdebug, hdebug]
      cases p.debug with
      | true => exact ⟨_, _, rfl, rfl⟩
      | false => exact ⟨_, _, rfl, rfl⟩
    apply matches_bind hannounce
    intro _
    exact (for_each_shadow (execute depth) h reversed body).answer ()

end Iterations

def runResolved (depth : Nat) (cs : List Command) : Performance Unit := do
  execute depth (← substituteAll cs)

/-- Iterations with the body over something else are heard alike, resolved and run, whatever value
their variable has outside. -/
def Shadowed (name : String) (body : Block) : Prop :=
  ∀ (depth : Nat) (collection reversed : Slot) (p : Performer) (x y : Value),
    collection ≠ some (.text name) →
      (runResolved depth [.forEach (some (.text name)) collection reversed body]
          (p.holding name x)).audio =
        (runResolved depth [.forEach (some (.text name)) collection reversed body]
          (p.holding name y)).audio

theorem run_resolved_for_each (depth : Nat) (name collection reversed : Slot) (body : Block) :
    runResolved depth [.forEach name collection reversed body] = (do
      let body ← substituteBlock "comandos" body
      let _ ← need "colecao" collection
      execute depth [.forEach name collection reversed body]) := by
  unfold runResolved
  rw [substituteAll, substitute]
  simp only [bind_assoc]
  rfl

theorem shadowed_of_unmentioned {name : String} {body : Block} (h : name ∉ body.mentions) :
    Shadowed name body := by
  intro depth collection reversed p x y hcollection
  rw [run_resolved_for_each]
  apply congrArg (List.filter Event.isAudio)
  apply Matches.events
  apply matches_bind (alike_block "comandos" body h)
  intro resolved
  apply matches_bind (alike_need "colecao" collection)
  intro _
  exact execute_shadow depth hcollection reversed resolved

def passedOver (names : List String) : Command :=
  .loop (some (.int 0)) (.commands [.call none (some (.list (names.map .text)))])

def restsBetween (times : Slot) (before after : List String) : List Command :=
  [passedOver before, .loop times (.commands [minimRest]), passedOver after]

theorem rests_mention (name : String) (before after : List String) :
    (Block.commands (restsBetween (some (.text name)) before after)).mentions =
      before ++ name :: after := by
  have hnames (names : List String) : (passedOver names).mentions = names := by
    have hall : (names.map Value.text).flatMap Value.names = names := by
      induction names with
      | nil => rfl
      | cons n names ih => rw [List.map_cons, List.flatMap_cons, ih]; rfl
    change [] ++ (Slot.argumentNames (some (.list (names.map .text))) ++ []) = names
    rw [List.nil_append, List.append_nil]
    exact hall
  change (passedOver before).mentions ++ (([name] ++ ([] ++ [])) ++
    ((passedOver after).mentions ++ [])) = _
  simp [hnames]

section Rests

variable {p : Performer}

theorem fill_arguments_silent (names : List String) (p : Performer) :
    ∃ others : List String, (fillArguments (names.map .text)).Silent p (others.map .text) p := by
  induction names with
  | nil => exact ⟨[], silent_answer [] p⟩
  | cons name names ih =>
    obtain ⟨others, hrest⟩ := ih
    have hlookup : (lookup (.text name)).Silent p
        ((p.scope.find? (.text name)).or (p.globals.find? name)) p :=
      ⟨⟨rfl, rfl⟩, rfl⟩
    cases hfound : (p.scope.find? (.text name)).or (p.globals.find? name) with
    | none =>
      rw [hfound] at hlookup
      exact ⟨name :: others, hlookup.bind (hrest.bind (silent_answer _ p))⟩
    | some v =>
      rw [hfound] at hlookup
      exact ⟨v.written :: others, hlookup.bind (hrest.bind (silent_answer _ p))⟩

theorem silent_resolve_loop {times filled : Slot} {cs cs' : List Command}
    (htimes : (fillTimes times).Silent p filled p) (hcs : (substituteAll cs).Silent p cs' p) :
    (substitute (.loop times (.commands cs))).Silent p (.loop filled (.commands cs')) p := by
  rw [substitute]
  exact htimes.bind ((silent_resolve_block _ hcs).bind (silent_answer _ p))

theorem passed_over_resolved (names : List String) (p : Performer) :
    ∃ others, (substitute (passedOver names)).Silent p (passedOver others) p := by
  obtain ⟨others, h⟩ := fill_arguments_silent names p
  have hcall : (substitute (.call none (some (.list (names.map .text))))).Silent p
      (.call none (some (.list (others.map .text)))) p :=
    h.bind (silent_answer _ p)
  have htimes : (fillTimes (some (.int 0))).Silent p (some (.int 0)) p := ⟨⟨rfl, rfl⟩, rfl⟩
  exact ⟨others, silent_resolve_loop htimes (silent_resolve_cons hcall silent_resolve_nil)⟩

theorem rests_resolved {times filled : Slot} (h : (fillTimes times).Silent p filled p)
    (before after : List String) : ∃ before' after',
      (substituteAll (restsBetween times before after)).Silent p
        (restsBetween filled before' after') p := by
  obtain ⟨before', hbefore⟩ := passed_over_resolved before p
  obtain ⟨after', hafter⟩ := passed_over_resolved after p
  have hrests := silent_resolve_loop h (rest_resolved p)
  exact ⟨before', after', silent_resolve_cons hbefore
    (silent_resolve_cons hrests (silent_resolve_cons hafter silent_resolve_nil))⟩

theorem no_rests_silent (depth : Nat) (before after : List String) :
    (execute (depth + 1) (restsBetween (some (.int 0)) before after)).Silent p () p := by
  have hloop (cs : List Command) :
      (loop (execute depth) (some (.int 0)) (.commands cs)).Silent p () p :=
    ⟨⟨rfl, rfl⟩, rfl⟩
  apply (silent_announce rfl p).bind
  apply (hloop _).bind
  apply (silent_announce rfl p).bind
  apply (hloop _).bind
  apply (silent_announce rfl p).bind
  exact (hloop _).bind (silent_answer () p)

theorem one_rest_audible (depth : Nat) (before after : List String) (hp : AtRest p) :
    (execute (depth + 2) (restsBetween (some (.int 1)) before after)).Audible p := by
  have hloop : (loop (execute (depth + 1)) (some (.int 1)) (.commands [minimRest])).Audible p := by
    have hround (shown : String) :
        (round (execute (depth + 1)) shown (.commands [minimRest]) 0).Audible p :=
      (silent_say _ p).audible (run_rest_audible depth hp)
    change ((say _ : Performance Unit) >>= fun _ => round _ _ _ 0 >>= fun _ => answer ()).Audible p
    apply (silent_say _ p).audible
    exact (hround _).bind _
  apply (silent_announce rfl p).audible
  apply (Silent.mk ⟨rfl, rfl⟩ rfl : (step (execute (depth + 1)) (passedOver before)).Silent p ()
    p).audible
  apply (silent_announce rfl p).audible
  exact hloop.bind _

end Rests

def gatherer (name : String) : Performer :=
  { scope := [(.text (name ++ "s"), .list [.none])] }

theorem plural_ne (name : String) : Value.text (name ++ "s") ≠ .text name := by
  intro h
  have hlength := congrArg (fun s => s.toList.length) (Value.text.inj h)
  simp at hlength

/-- The number outside becomes the number of rests, although the iteration binds the variable to
something else before they run. -/
theorem rests_captured (name : String) (before after : List String) (k : Int) :
    ∃ (q : Performer) (before' after' : List String), AtRest q ∧
      (runResolved 3 [.forEach (some (.text name)) (some (.text (name ++ "s")))
          (some (.bool false)) (.commands (restsBetween (some (.text name)) before after))]
          ((gatherer name).holding name (.int k))).audio =
        ((do
          execute 2 (restsBetween (some (.int k)) before' after')
          setScope ((gatherer name).holding name (.int k)).scope : Performance Unit) q).audio := by
  have hlookup : ((gatherer name).holding name (.int k)).scope.find? (.text name) =
      some (.int k) := Scope.find_bind_self
  have hfind : ((gatherer name).holding name (.int k)).scope.find? (.text (name ++ "s")) =
      some (.list [.none]) := by
    refine (Scope.find_bind_other (plural_ne name)).trans ?_
    simp [gatherer, Scope.find?, Value.same]
  have htimes : (fillTimes (some (.text name))).Silent ((gatherer name).holding name (.int k))
      (some (.int k)) ((gatherer name).holding name (.int k)) := by
    apply (silent_answer _ _).bind
    apply (Silent.mk ⟨rfl, rfl⟩ rfl : (lookup (.text name)).Silent _ _ _).bind
    rw [hlookup]
    exact ⟨⟨rfl, rfl⟩, rfl⟩
  obtain ⟨before', after', hfirst⟩ := rests_resolved htimes before after
  have hkept : (fillTimes (some (.int k))).Silent
      (((gatherer name).holding name (.int k)).holding name .none) (some (.int k))
      (((gatherer name).holding name (.int k)).holding name .none) := ⟨⟨rfl, rfl⟩, rfl⟩
  obtain ⟨before'', after'', hsecond⟩ := rests_resolved hkept before' after'
  refine ⟨((gatherer name).holding name (.int k)).holding name .none, before'', after'',
    ⟨rfl, rfl⟩, ?_⟩
  rw [run_resolved_for_each, audio_bind (silent_resolve_block _ hfirst), need, answer_bind,
    (run_one_sounds rfl rfl _).audio]
  have hrounds := for_each_audio (execute 2) hfind rfl hsecond
  simp only [forItems, answer_bind] at hrounds
  exact hrounds

theorem not_shadowed (name : String) (before after : List String) :
    ¬ Shadowed name (.commands (restsBetween (some (.text name)) before after)) := by
  intro h
  have hne : (some (.text (name ++ "s")) : Slot) ≠ some (.text name) := fun heq =>
    plural_ne name (Option.some.inj heq)
  have hsame := h 3 _ (some (.bool false)) (gatherer name) (.int 0) (.int 1) hne
  obtain ⟨p, before₀, after₀, -, hnone⟩ := rests_captured name before after 0
  obtain ⟨q, before₁, after₁, hq, hone⟩ := rests_captured name before after 1
  rw [hnone, hone, audio_bind (no_rests_silent 1 before₀ after₀)] at hsame
  exact (one_rest_audible 0 before₁ after₁ hq).bind _ hsame.symm

/-- The variable of an iteration that runs on its own shadows one of the same name outside,
whatever its body is. If the iteration is resolved first, as inside a function or another
iteration, it depends on the names that the body mentions: all bodies with the same names shadow
the variable exactly if it is not one of them. -/
theorem loop_variable_shadows_iff (name : String) (names : List String) :
    (∀ (depth : Nat) (collection reversed : Slot) (body : Block) (p : Performer) (x y : Value),
        collection ≠ some (.text name) →
          Matches
            (execute depth [.forEach (some (.text name)) collection reversed body]
              (p.holding name x))
            (execute depth [.forEach (some (.text name)) collection reversed body]
              (p.holding name y))) ∧
      ((∀ body : Block, body.mentions = names → Shadowed name body) ↔ name ∉ names) := by
  refine ⟨fun depth _ reversed body p x y h => execute_shadow depth h reversed body, ?_⟩
  constructor
  · intro h hmem
    obtain ⟨before, after, rfl⟩ := List.append_of_mem hmem
    exact not_shadowed name before after (h _ (rests_mention name before after))
  · rintro h body rfl
    exact shadowed_of_unmentioned h

def loopedNote : Block :=
  .commands [Command.ofNote ['d'] none "minima".toList]

def hurried : Performer :=
  { program :=
      { tempo := .int 1000000
        chords := [("q", .list
          [Command.noteValue "do".toList none, Command.noteValue "re".toList none])] } }

/-- If the variable outside is a note, that note sounds, and if it is none, nothing does. -/
theorem looped_note_captured :
    loopedNote.mentions = ["d", "minima"] ∧ ¬ Shadowed "d" loopedNote ∧
      ¬ ∀ body : Block, body.mentions = ["d", "minima"] → Shadowed "d" body := by
  refine ⟨rfl, ?_, fun h => (loop_variable_shadows_iff "d" _).2.mp h List.mem_cons_self⟩
  intro h
  have hsame := h 3 (some (.text "q")) (some (.bool false)) hurried (.text "mi") (.text "h")
    (by simp)
  have hlengths :
      (runResolved 3 [.forEach (some (.text "d")) (some (.text "q"))
        (some (.bool false)) loopedNote]
          (hurried.holding "d" (.text "mi"))).audio.length ≠
        (runResolved 3 [.forEach (some (.text "d")) (some (.text "q"))
          (some (.bool false)) loopedNote]
          (hurried.holding "d" (.text "h"))).audio.length := by
    decide +kernel
  exact hlengths (congrArg List.length hsame)

end Performance

end Melody
