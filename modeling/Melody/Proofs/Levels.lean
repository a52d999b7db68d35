import Mathlib.Data.Fintype.Order
import Melody.Proofs.Brackets
import Melody.Proofs.Shallows
import Melody.Program.Load

/-!
# Programs whose functions do not call themselves

A list of commands runs the lists of its blocks and those of the functions it calls. If no
function calls itself, directly or through others, every function has a rank: the number of levels
that a call of it needs. The levels of a list of commands are then known before it runs, since
replacing variables changes neither blocks nor names of functions, and a run that has these levels
never lacks one.
-/

set_option autoImplicit false

namespace Melody

namespace Command

mutual
/-- How many lists of commands are run within each other by a command, if a call of a function runs
as many as the rank of the function. -/
def levels (rank : String → Nat) : Command → Nat
  | .branch _ whenTrue whenFalse => max (blockLevels rank whenTrue) (blockLevels rank whenFalse)
  | .loop _ body => blockLevels rank body
  | .forEach _ _ _ body => blockLevels rank body
  | .call (some (.text name)) _ => rank name
  | .marked _ c => levels rank c
  | _ => 0

def blockLevels (rank : String → Nat) : Block → Nat
  | .commands cs => allLevels rank cs + 1
  | _ => 1

def allLevels (rank : String → Nat) : List Command → Nat
  | [] => 0
  | c :: cs => max (levels rank c) (allLevels rank cs)
end

mutual
def callees : Command → List String
  | .branch _ whenTrue whenFalse => blockCallees whenTrue ++ blockCallees whenFalse
  | .loop _ body => blockCallees body
  | .forEach _ _ _ body => blockCallees body
  | .call (some (.text name)) _ => [name]
  | .marked _ c => callees c
  | _ => []

def blockCallees : Block → List String
  | .commands cs => allCallees cs
  | _ => []

def allCallees : List Command → List String
  | [] => []
  | c :: cs => callees c ++ allCallees cs
end

section Levels

variable {rank rank' : String → Nat}

mutual
/-- Only the ranks of the functions that are called count. -/
theorem levels_congr : ∀ c : Command, (∀ f ∈ callees c, rank f = rank' f) →
    levels rank c = levels rank' c
  | .branch _ whenTrue whenFalse, h => by
    rw [callees] at h
    rw [levels, levels, block_levels_congr whenTrue fun f hf => h f (by simp [hf]),
      block_levels_congr whenFalse fun f hf => h f (by simp [hf])]
  | .loop _ body, h => block_levels_congr body h
  | .forEach _ _ _ body, h => block_levels_congr body h
  | .call (some (.text name)) _, h => h name (List.mem_singleton_self name)
  | .marked _ c, h => levels_congr c h
  | .call none _, _ | .call (some .none) _, _ | .call (some (.bool _)) _, _
  | .call (some (.int _)) _, _ | .call (some (.float _)) _, _ | .call (some (.list _)) _, _
  | .call (some (.record _)) _, _ | .play _ _ _, _ | .playChord _ _ _, _ | .pause _, _
  | .envelope _ _ _ _, _ | .waveform _, _ | .instrument _, _ | .startParallel, _
  | .endParallel, _ | .other _, _ => rfl

theorem block_levels_congr : ∀ b : Block, (∀ f ∈ blockCallees b, rank f = rank' f) →
    blockLevels rank b = blockLevels rank' b
  | .commands cs, h => by rw [blockLevels, blockLevels, all_levels_congr cs h]
  | .missing, _ | .value _, _ => rfl

theorem all_levels_congr : ∀ cs : List Command, (∀ f ∈ allCallees cs, rank f = rank' f) →
    allLevels rank cs = allLevels rank' cs
  | [], _ => rfl
  | c :: cs, h => by
    rw [allCallees] at h
    rw [allLevels, allLevels, levels_congr c fun f hf => h f (by simp [hf]),
      all_levels_congr cs fun f hf => h f (by simp [hf])]
end

theorem levels_le {cs : List Command} {c : Command} (hc : c ∈ cs) :
    levels rank c ≤ allLevels rank cs := by
  induction cs with
  | nil => cases hc
  | cons d ds ih =>
    rw [allLevels]
    rcases List.mem_cons.mp hc with rfl | hc
    · exact Nat.le_max_left _ _
    · exact (ih hc).trans (Nat.le_max_right _ _)

theorem levels_core (c : Command) : levels rank c.core = levels rank c := by
  cases c with
  | marked further c => exact levels_core c
  | _ => rfl

/-- Values that stand for commands run nothing. -/
theorem others_levels (items : List Value) : allLevels rank (items.map .other) = 0 := by
  induction items with
  | nil => rfl
  | cons v rest ih =>
    rw [List.map_cons, allLevels, ih]
    rfl

mutual
/-- Commands keep their blocks and the names of their functions when variables are replaced. -/
theorem Replaced.levels : ∀ {c c' : Command}, Replaced c c' →
    Command.levels rank c' = Command.levels rank c
  | _, _, .same _ | _, _, .play | _, _, .playChord => rfl
  | _, _, .branch ht hf => by rw [Command.levels, Command.levels, ht.levels, hf.levels]
  | _, _, .loop hb | _, _, .forEach hb => hb.levels
  | .call function _, _, .call => by
    cases function with
    | none => rfl
    | some v => cases v <;> rfl
  | _, _, .marked hc => hc.levels

theorem BlockReplaced.levels : ∀ {b b' : Block}, BlockReplaced b b' →
    blockLevels rank b' = blockLevels rank b
  | _, _, .same _ => rfl
  | _, _, .value _ items => by rw [blockLevels, others_levels, blockLevels]; simp
  | _, _, .commands hcs => by rw [blockLevels, blockLevels, hcs.levels]

theorem AllReplaced.levels : ∀ {cs cs' : List Command}, AllReplaced cs cs' →
    allLevels rank cs' = allLevels rank cs
  | _, _, .nil => rfl
  | _, _, .cons hc hcs => by rw [allLevels, allLevels, hc.levels, hcs.levels]
end

end Levels

end Command

namespace Program

open Command

def isUser (p : Program) (name : String) : Bool :=
  match p.functions.find? name with
  | some (.user _ _) => true
  | _ => false

def bodyOf (p : Program) (name : String) : List Command :=
  match p.functions.find? name with
  | some (.user _ body) =>
    let reading := Command.read .diagnosing p.context body
    if reading.fault.isSome then [] else reading.commands
  | _ => []

def Calls (p : Program) (f g : String) : Prop :=
  g ∈ allCallees (p.bodyOf f) ∧ p.isUser g = true

def Acyclic (p : Program) : Prop :=
  ∀ f, ¬ Relation.TransGen p.Calls f f

section Ranks

variable {p : Program}

theorem mem_of_user {name : String} (h : p.isUser name = true) :
    name ∈ p.functions.map Prod.fst := by
  unfold isUser at h
  split at h
  · rename_i hfind
    obtain ⟨before, after, hsplit, -⟩ := List.lookup_eq_some_iff.mp hfind
    rw [hsplit]
    simp
  · cases h

/-- The table of functions is finite, so calls that never return to a function come to an end. -/
theorem calls_end (h : p.Acyclic) : WellFounded fun g f => p.Calls f g := by
  let Name := { name // name ∈ p.functions.map Prod.fst }
  have : IsTrans Name fun g f => Relation.TransGen p.Calls f.1 g.1 :=
    ⟨fun _ _ _ hab hbc => hbc.trans hab⟩
  have : Std.Irrefl fun (g f : Name) => Relation.TransGen p.Calls f.1 g.1 := ⟨fun f => h f.1⟩
  have hfinite : WellFounded fun (g f : Name) => Relation.TransGen p.Calls f.1 g.1 :=
    Finite.wellFounded_of_trans_of_irrefl _
  have hname : ∀ f : Name, Acc (fun g f => p.Calls f g) f.1 := by
    intro f
    induction f using hfinite.induction with
    | _ f ih =>
      constructor
      intro g hg
      exact ih ⟨g, mem_of_user hg.2⟩ (.single hg)
  constructor
  intro f
  constructor
  intro g hg
  exact hname ⟨g, mem_of_user hg.2⟩

def IsRank (p : Program) (rank : String → Nat) : Prop :=
  ∀ f, p.isUser f = true → allLevels rank (p.bodyOf f) < rank f

theorem exists_rank (h : p.Acyclic) : ∃ rank, p.IsRank rank := by
  classical
  have hend := calls_end h
  -- the rank of a function is found from those of the functions it calls
  let rank : String → Nat := hend.fix fun f ranks =>
    if p.isUser f then
      allLevels (fun g => if hg : p.Calls f g then ranks g hg else 0) (p.bodyOf f) + 1
    else 0
  have hrank (f : String) : rank f =
      if p.isUser f then
        allLevels (fun g => if p.Calls f g then rank g else 0) (p.bodyOf f) + 1
      else 0 := hend.fix_eq _ f
  refine ⟨rank, ?_⟩
  intro f hf
  have hcalled : allLevels (fun g => if p.Calls f g then rank g else 0) (p.bodyOf f) =
      allLevels rank (p.bodyOf f) := by
    apply all_levels_congr
    intro g hg
    by_cases huser : p.isUser g = true
    · rw [if_pos ⟨hg, huser⟩]
    · rw [if_neg fun hcalls => huser hcalls.2, hrank g, if_neg huser]
  rw [hrank f, if_pos hf, hcalled]
  exact Nat.lt_succ_self _

/-- Functions with a number that goes down at every call do not call themselves. -/
theorem acyclic_of_descent (number : String → Nat)
    (h : ∀ f ∈ p.functions.map Prod.fst, ∀ g ∈ allCallees (p.bodyOf f), p.isUser g = true →
      number g < number f) : p.Acyclic := by
  have hcalls {f g : String} (hg : p.Calls f g) : number g < number f := by
    apply h f _ g hg.1 hg.2
    by_contra hf
    have hnone : p.functions.find? f = none := by
      rw [Table.find?, List.lookup_eq_none_iff]
      intro entry hentry
      rw [bne_iff_ne]
      rintro rfl
      exact hf (List.mem_map_of_mem hentry)
    have hbody : p.bodyOf f = [] := by simp only [bodyOf, hnone]
    rw [Calls, hbody] at hg
    cases hg.1
  have hchain {f g : String} (hg : Relation.TransGen p.Calls f g) : number g < number f := by
    induction hg with
    | single hg => exact hcalls hg
    | tail _ hg ih => exact (hcalls hg).trans ih
  exact fun f hf => Nat.lt_irrefl _ (hchain hf)

end Ranks

end Program

namespace Performance

open Act Command

def Ends (program : Program) {α : Type} (m : Performance α) : Prop :=
  ∀ p, SameProgram program p → m.Stays p fun _ => SameProgram program

section Ends

variable {program : Program} {α β : Type}

theorem Ends.bind {m : Performance α} {f : α → Performance β} (hm : Ends program m)
    (hf : ∀ a, Ends program (f a)) : Ends program (m >>= f) :=
  fun p hp => stays_bind.mpr ((hm p hp).mono fun a q hq => hf a q hq)

theorem ends_of_still {m : Performance α} (hs : m.Shallow) (hm : m.Still) : Ends program m :=
  fun _ hp => hs.stays (hm.ensures fun _ => hp)

theorem ends_sound {m : Act Sound.Engine α} (hs : m.Shallow) : Ends program (sound m) :=
  fun _ hp => (shallow_sound hs).stays fun _ _ => hp.engine _

theorem ends_scope (f : Scope → Scope) :
    Ends program (change fun p => { p with scope := f p.scope } : Performance Unit) :=
  fun _ hp => (shallow_change _).stays ((ensures_change _).mpr hp)

theorem ends_stop (reason : String) {m : Performance Unit} (hm : Ends program m) :
    Ends program (stopOnBadValue reason m) := by
  intro p hp
  refine ⟨?_, ensures_stop reason m (hm p hp).2⟩
  unfold stopOnBadValue
  dsimp only
  split
  · split
    · rintro _ hexit rfl
      cases hexit
    · exact (hm p hp).1
  · exact (hm p hp).1

theorem walk_ends (program : Program) : Walk fun _ m => Ends program m where
  answer a := ends_of_still (shallow_answer a) (still_answer a)
  fail f := ends_of_still (walk_shallow.fail f) (still_fail f)
  say line _ := ends_of_still (shallow_emit _) (still_say line)
  read := ends_of_still shallow_read still_read
  bind := Ends.bind

theorem playing_ends (program : Program) : Playing true fun _ m => Ends program m where
  toWalk := walk_ends program
  stop := ends_stop
  play _ _ _ _ := ends_sound (Sound.Engine.walk_play walk_shallow _ _ _)
  sleep _ := ends_sound (Sound.Engine.walk_sleep walk_shallow _)
  instrument _ := ends_sound (Sound.Engine.walk_instrument walk_shallow _)
  waveform _ := ends_sound (Sound.Engine.walk_waveform walk_shallow _)
  envelope _ := ends_sound (shallow_change _)

theorem switching_ends (program : Program) : Switching fun _ m => Ends program m where
  toWalk := walk_ends program
  save := ends_sound (shallow_change _)
  parallel _ := ends_sound (Sound.Engine.walk_set_parallel walk_shallow _)
  restore := ends_sound (Sound.Engine.walk_restore walk_shallow)
  await := ends_sound (Sound.Engine.walk_await walk_shallow)

theorem ends_parameters (arguments : Value) (parameters : List String) (i : Nat) :
    Ends program (bindParameters arguments i parameters) := by
  induction parameters generalizing i with
  | nil => exact (walk_ends program).answer ()
  | cons name rest ih =>
    apply Ends.bind ((walk_ends program).of_except _)
    intro argument
    apply Ends.bind (walk_argument (walk_ends program) argument)
    intro v
    exact (ends_scope fun s => s.bind (.text name) v).bind fun _ => ih (i + 1)

end Ends

section Step

variable {program : Program} {rank : String → Nat} {depth : Nat} {inner : Inner}
  (hinner : ∀ cs, allLevels rank cs < depth → Ends program (inner cs))

include hinner

theorem block_ends {b : Block} (hb : blockLevels rank b ≤ depth) :
    Ends program (runBlock inner b) := by
  cases b with
  | missing => exact hinner [] hb
  | value v =>
    unfold runBlock blockCommands
    rw [bind_assoc]
    apply Ends.bind ((walk_ends program).of_except _)
    intro items
    apply hinner
    rw [others_levels]
    exact hb
  | commands cs => exact hinner cs hb

theorem iterate_ends (name collection : Value) (backwards : Bool) {body : Block}
    (hb : blockLevels rank body ≤ depth) (items : List Value) :
    Ends program (iterate inner name collection backwards body items) := by
  apply walk_iterate (walk_ends program) ends_scope
  intro p hp
  rw [stays_bind]
  apply (walk_substitute_block walk_shallow.toWalk _ body).stays
  refine (substitute_block_replaced p "comandos" body).mono ?_
  rintro b _ ⟨rfl, hreplaced⟩
  exact block_ends hinner (hreplaced.levels.trans_le hb) _ hp

/-- The body of a function needs one level less than the call. -/
theorem body_ends {name : String} {parameters : List String} {body : List Char}
    (hfind : program.functions.find? name = some (.user parameters body))
    (hlevels : allLevels rank (program.bodyOf name) < depth) :
    Ends program (runBody inner body) := by
  intro p hp
  have hmild : Mild true fun _ _ => True := ⟨fun _ => trivial, fun _ _ => trivial, fun _ => trivial⟩
  rw [runBody, stays_bind]
  apply (shallow_read_body body).stays
  refine (hmild.read_body body hp).mono ?_
  rintro cs q ⟨rfl, hfault, hq⟩
  have hbody : program.bodyOf name = (Command.read .diagnosing program.context body).commands := by
    simp only [Program.bodyOf, hfind, hfault, Option.isSome_none, Bool.false_eq_true, if_false]
  rw [stays_bind]
  apply (walk_substitute_all walk_shallow.toWalk _).stays
  refine (substitute_all_replaced q _).mono ?_
  rintro cs' _ ⟨rfl, hreplaced⟩
  have hcs : allLevels rank cs' = _ := hreplaced.levels
  rw [← hbody] at hcs
  exact hinner cs' (hcs.trans_lt hlevels) _ (hq hp).1

theorem call_user_ends {name : String} {parameters : List String} {body : List Char}
    (hfind : program.functions.find? name = some (.user parameters body))
    (hlevels : allLevels rank (program.bodyOf name) < depth) (shown : String) (arguments : Value) :
    Ends program (callUser inner shown parameters body arguments) := by
  have hbody : Ends program (callBody inner shown parameters body arguments) := by
    apply Ends.bind ((walk_ends program).of_except _)
    intro given
    dsimp only
    split
    · exact (ends_parameters arguments parameters 0).bind fun _ => body_ends hinner hfind hlevels
    · exact (walk_ends program).tell _
  rw [call_user_eq]
  apply Ends.bind (ends_of_still (shallow_emit _) (still_say _))
  intro _
  have hscope : Ends program (inOwnScope (callBody inner shown parameters body arguments)) := by
    apply Ends.bind (walk_ends program).read
    intro p
    apply (ends_scope fun _ => []).bind
    intro _
    exact hbody.bind fun _ => ends_scope fun _ => p.scope
  exact hscope.bind fun _ => (walk_ends program).pure _

theorem call_ends (hrank : program.IsRank rank) {function : Slot} (arguments : Slot)
    (hc : levels rank (.call function arguments) ≤ depth) :
    Ends program (call inner function arguments) := by
  intro p hp
  cases function with
  | none => exact (walk_ends program).fail _ p hp
  | some function =>
    unfold call
    rw [need, answer_bind]
    apply (walk_need walk_shallow.toWalk _ _).stays_bind (walk_need walk_still _ _)
    intro arguments
    rw [stays_bind]
    apply (walk_shallow.of_except _).stays
    rw [ensures_of_except]
    intro known hknown
    rw [stays_bind]
    apply shallow_read.stays
    rw [ensures_read]
    split
    · exact walk_builtin (walk_ends program) _ _ _ p hp
    · rename_i parameters body hf
      obtain ⟨name, rfl, hfind⟩ := Option.bind_eq_some_iff.mp hf
      obtain rfl := text_of_name hknown
      rw [hp.functions] at hfind
      have huser : program.isUser name = true := by simp only [Program.isUser, hfind]
      exact call_user_ends hinner hfind ((hrank name huser).trans_le hc) _ arguments p hp
    · exact Ends.bind ((walk_ends program).tell _) (fun _ => (walk_ends program).pure _) p hp

theorem step_ends (hrank : program.IsRank rank) {c : Command} (hc : levels rank c ≤ depth) :
    Ends program (step inner c) := by
  rw [← levels_core] at hc
  rcases step_cases c with hplain | ⟨condition, whenTrue, whenFalse, h⟩ | ⟨times, body, h⟩ |
    ⟨name, collection, reversed, body, h⟩ | ⟨function, arguments, h⟩
  · exact hplain ((playing_ends program).quieter rfl) inner
  all_goals rw [h] at hc; unfold step; rw [h]
  · rw [levels, Nat.max_le] at hc
    exact walk_branch (walk_ends program) condition (block_ends hinner hc.1)
      (block_ends hinner hc.2)
  · exact walk_loop (walk_ends program) times (block_ends hinner hc)
  · exact walk_for_each (walk_ends program) name collection reversed fun _ _ _ _ =>
      iterate_ends hinner _ _ _ hc _
  · exact (call_ends hinner hrank arguments hc).bind fun _ => (walk_ends program).pure _

end Step

/-- The induction is on the depth: the lists that a command runs need one level less. -/
theorem execute_ends {program : Program} {rank : String → Nat} (hrank : program.IsRank rank)
    {depth : Nat} {cs : List Command} (h : allLevels rank cs < depth) :
    Ends program (execute depth cs) := by
  induction depth generalizing cs with
  | zero => omega
  | succ depth ih =>
    apply walk_run (switching_ends program)
    intro c hc
    have hlevels : levels rank c.core ≤ depth := by
      rw [levels_core]
      exact (levels_le hc).trans (Nat.le_of_lt_succ h)
    exact step_ends (fun _ hds => ih hds) hrank hlevels

/-- Beyond the depth that suffices, every depth gives the same run. -/
theorem execute_deeper {depth deeper : Nat} (hle : depth ≤ deeper) {cs : List Command}
    {p : Performer}
    (h : (execute depth cs p).outcome ≠ .error .tooDeep) :
    execute deeper cs p = execute depth cs p := by
  induction deeper, hle using Nat.le_induction with
  | base => rfl
  | succ deeper _ ih => rw [execute_deepens deeper cs p (by rw [ih]; exact h), ih]

/-- If no function calls itself, directly or through others, every list of commands comes to its
end, in every scope and with every engine: some depth suffices for it, and then no depth beyond it
changes the run. -/
theorem acyclic_execution_ends {program : Program} (h : program.Acyclic) (cs : List Command) :
    ∃ depth, ∀ p : Performer, p.program = program → ∀ deeper, depth ≤ deeper →
      (execute deeper cs p).outcome ≠ .error .tooDeep ∧
        execute deeper cs p = execute depth cs p := by
  obtain ⟨rank, hrank⟩ := Program.exists_rank h
  refine ⟨allLevels rank cs + 1, ?_⟩
  intro p hp deeper hdeeper
  have hstays := execute_ends hrank (Nat.lt_succ_self (allLevels rank cs)) p
    (hp ▸ SameProgram.refl p)
  have hroom : (execute (allLevels rank cs + 1) cs p).outcome ≠ .error .tooDeep :=
    fun hdeep => hstays.1 .tooDeep hdeep rfl
  have hsame := execute_deeper hdeeper hroom
  exact ⟨by rw [hsame]; exact hroom, hsame⟩

def echoProgram : Program :=
  (Program.process
    "funcao eco(n) \x7b repetir 2 vezes \x7b tocar n minima; \x7d \x7d
     funcao canto(n) \x7b eco(n); para cada m em c \x7b eco(m); \x7d \x7d".toList {}).program

def echoSong : List Command :=
  [.loop (some (.int 3)) (.commands [.call (some (.text "canto")) (some (.list [.text "do"]))])]

theorem echo_execution_ends :
    echoProgram.Calls "canto" "eco" ∧
      ∃ depth, ∀ p : Performer, p.program = echoProgram → ∀ deeper, depth ≤ deeper →
        (execute deeper echoSong p).outcome ≠ .error .tooDeep ∧
          execute deeper echoSong p = execute depth echoSong p := by
  have hacyclic : echoProgram.Acyclic := by
    apply Program.acyclic_of_descent fun f => if f = "canto" then 1 else 0
    decide +kernel
  exact ⟨by unfold Program.Calls; decide +kernel, acyclic_execution_ends hacyclic _⟩

end Performance

end Melody
