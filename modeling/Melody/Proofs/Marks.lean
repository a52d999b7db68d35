import Mathlib.Logic.Relation
import Melody.Proofs.Frames

/-!
# Lists of commands and the lists they run

A list of commands is looked at as a row of marks: which commands open and close a parallel block,
and which of the others can sound. The commands of a list run further lists: those of their blocks
and those of the functions they call. `Fits` says that all of these have a property of their marks,
and replacing variables by values changes nothing about it.
-/

set_option autoImplicit false

namespace Melody

namespace Command

inductive Mark where
  | opening
  | closing
  | sounding
  | silent
deriving DecidableEq, Repr

def mark (c : Command) : Mark :=
  match c.core with
  | .startParallel => .opening
  | .endParallel => .closing
  | .play _ _ _ | .playChord _ _ _ | .branch _ _ _ | .loop _ _ | .forEach _ _ _ _ | .call _ _ =>
    .sounding
  | _ => .silent

theorem core_core (c : Command) : c.core.core = c.core := by
  cases c with
  | marked further c => exact core_core c
  | _ => rfl

theorem mark_core (c : Command) : c.core.mark = c.mark := by
  unfold mark
  rw [core_core]

theorem mark_opening_iff (c : Command) : c.mark = .opening ↔ c.core = .startParallel := by
  unfold mark
  cases c.core with
  | startParallel => exact ⟨fun _ => rfl, fun _ => rfl⟩
  | _ =>
    constructor
    all_goals
      intro h
      cases h

theorem mark_closing_iff (c : Command) : c.mark = .closing ↔ c.core = .endParallel := by
  unfold mark
  cases c.core with
  | endParallel => exact ⟨fun _ => rfl, fun _ => rfl⟩
  | _ =>
    constructor
    all_goals
      intro h
      cases h

end Command

def Block.lists : Block → List (List Command)
  | .commands cs => [cs]
  | _ => []

namespace Command

def lists (c : Command) : List (List Command) :=
  match c.core with
  | .branch _ whenTrue whenFalse => whenTrue.lists ++ whenFalse.lists
  | .loop _ body => body.lists
  | .forEach _ _ _ body => body.lists
  | _ => []

def callee? (c : Command) : Option String :=
  match c.core with
  | .call (some (.text name)) _ => some name
  | _ => none

end Command

namespace Program

inductive Runs (p : Program) (cs : List Command) : List Command → Prop where
  | block {c : Command} {ds : List Command} : c ∈ cs → ds ∈ c.lists → Runs p cs ds
  | call {c : Command} {name : String} {parameters : List String} {body : List Char} :
      c ∈ cs → c.callee? = some name →
      p.functions.find? name = some (.user parameters body) →
      (Command.read .diagnosing p.context body).fault = none →
      Runs p cs (Command.read .diagnosing p.context body).commands

def Involves (p : Program) : List Command → List Command → Prop :=
  Relation.TransGen p.Runs

def AllInvolved (p : Program) (P : List Command.Mark → Prop) (cs : List Command) : Prop :=
  ∀ ds, p.Involves cs ds → P (ds.map Command.mark)

def CalleeFits (p : Program) (P : List Command.Mark → Prop) (name : String) : Prop :=
  ∀ parameters body, p.functions.find? name = some (.user parameters body) →
    (Command.read .diagnosing p.context body).fault = none →
    P ((Command.read .diagnosing p.context body).commands.map Command.mark) ∧
      p.AllInvolved P (Command.read .diagnosing p.context body).commands

end Program

namespace Command

variable (P : List Mark → Prop) (F : String → Prop)

mutual
def Fits : Command → Prop
  | .branch _ whenTrue whenFalse => BlockFits whenTrue ∧ BlockFits whenFalse
  | .loop _ body => BlockFits body
  | .forEach _ _ _ body => BlockFits body
  | .call (some (.text name)) _ => F name
  | .marked _ c => Fits c
  | _ => True

def BlockFits : Block → Prop
  | .commands cs => P (cs.map mark) ∧ AllFit cs
  | _ => True

def AllFit : List Command → Prop
  | [] => True
  | c :: cs => Fits c ∧ AllFit cs
end

variable {P F} in
theorem AllFit.mem {cs : List Command} (h : AllFit P F cs) {c : Command} (hc : c ∈ cs) :
    Fits P F c := by
  induction cs with
  | nil => cases hc
  | cons d ds ih =>
    cases hc with
    | head => exact h.1
    | tail _ hc => exact ih h.2 hc

variable {P F} in
theorem fits_core {c : Command} (h : Fits P F c) : Fits P F c.core := by
  cases c with
  | marked further c => exact fits_core (c := c) h
  | _ => exact h

end Command

namespace Program

open Command

variable {p : Program} {P : List Mark → Prop}

structure Guides (p : Program) (P : List Mark → Prop) (c : Command) : Prop where
  block : ∀ ds ∈ c.lists, P (ds.map mark) ∧ p.AllInvolved P ds
  call : ∀ name, c.callee? = some name → p.CalleeFits P name

theorem AllInvolved.guides {cs : List Command} (h : p.AllInvolved P cs) {c : Command}
    (hc : c ∈ cs) : p.Guides P c := by
  constructor
  · intro ds hds
    have hrun : p.Runs cs ds := .block hc hds
    exact ⟨h ds (.single hrun), fun es hes => h es (.head hrun hes)⟩
  · intro name hname parameters body hf hfault
    have hrun : p.Runs cs _ := .call hc hname hf hfault
    exact ⟨h _ (.single hrun), fun es hes => h es (.head hrun hes)⟩

/-- The property is shown for the blocks and for the calls of a list. -/
theorem all_involved {cs : List Command}
    (hblocks : ∀ ds ∈ cs.flatMap lists, P (ds.map mark) ∧ p.AllInvolved P ds)
    (hcalls : ∀ name ∈ cs.filterMap callee?, p.CalleeFits P name) : p.AllInvolved P cs := by
  have hrun : ∀ es, p.Runs cs es → P (es.map mark) ∧ p.AllInvolved P es := by
    rintro es (⟨hc, hes⟩ | ⟨hc, hname, hf, hfault⟩)
    · exact hblocks es (List.mem_flatMap.mpr ⟨_, hc, hes⟩)
    · exact hcalls _ (List.mem_filterMap.mpr ⟨_, hc, hname⟩) _ _ hf hfault
  intro ds hds
  obtain ⟨es, hes, hreach⟩ := Relation.TransGen.head'_iff.mp hds
  obtain rfl | hreach := Relation.reflTransGen_iff_eq_or_transGen.mp hreach
  · exact (hrun _ hes).1
  · exact (hrun es hes).2 ds hreach

/-- Commands without blocks and calls run nothing. -/
theorem all_involved_flat {cs : List Command} (hblocks : (cs.flatMap lists).isEmpty = true)
    (hcalls : (cs.filterMap callee?).isEmpty = true) : p.AllInvolved P cs := by
  rw [List.isEmpty_iff] at hblocks hcalls
  apply all_involved
  · intro ds hds
    rw [hblocks] at hds
    cases hds
  · intro name hname
    rw [hcalls] at hname
    cases hname

mutual
theorem Guides.fits : ∀ c : Command, p.Guides P c → Fits P (p.CalleeFits P) c
  | .branch _ whenTrue whenFalse, h =>
    ⟨block_fits whenTrue fun ds hds => h.block ds (List.mem_append_left _ hds),
      block_fits whenFalse fun ds hds => h.block ds (List.mem_append_right _ hds)⟩
  | .loop _ body, h => block_fits body h.block
  | .forEach _ _ _ body, h => block_fits body h.block
  | .call (some (.text name)) _, h => h.call name rfl
  | .marked _ c, h => Guides.fits c ⟨h.block, h.call⟩
  | .call none _, _ | .call (some .none) _, _ | .call (some (.bool _)) _, _
  | .call (some (.int _)) _, _ | .call (some (.float _)) _, _ | .call (some (.list _)) _, _
  | .call (some (.record _)) _, _ | .play _ _ _, _ | .playChord _ _ _, _ | .pause _, _
  | .envelope _ _ _ _, _ | .waveform _, _ | .instrument _, _ | .startParallel, _
  | .endParallel, _ | .other _, _ => trivial

theorem block_fits : ∀ b : Block,
    (∀ ds ∈ b.lists, P (ds.map mark) ∧ p.AllInvolved P ds) → BlockFits P (p.CalleeFits P) b
  | .commands cs, h =>
    have hcs := h cs (List.mem_singleton_self cs)
    ⟨hcs.1, all_fit cs fun _ hc => hcs.2.guides hc⟩
  | .missing, _ | .value _, _ => trivial

theorem all_fit : ∀ cs : List Command, (∀ c ∈ cs, p.Guides P c) → AllFit P (p.CalleeFits P) cs
  | [], _ => trivial
  | c :: cs, h =>
    ⟨Guides.fits c (h c List.mem_cons_self), all_fit cs fun d hd => h d (List.mem_cons_of_mem c hd)⟩
end

/-- All that a list runs fits if it has the property. -/
theorem AllInvolved.fits {cs : List Command} (h : p.AllInvolved P cs) :
    AllFit P (p.CalleeFits P) cs :=
  all_fit cs fun _ hc => h.guides hc

end Program

namespace Command

mutual
/-- What becomes of a command when values take the place of its variables: its blocks and the
function that it calls remain. -/
inductive Replaced : Command → Command → Prop where
  | same (c : Command) : Replaced c c
  | play {n a d n' a' d' : Slot} : Replaced (.play n a d) (.play n' a' d')
  | playChord {name n d n' d' : Slot} : Replaced (.playChord name n d) (.playChord name n' d')
  | branch {condition : Slot} {t f t' f' : Block} : BlockReplaced t t' → BlockReplaced f f' →
      Replaced (.branch condition t f) (.branch condition t' f')
  | loop {n n' : Slot} {b b' : Block} : BlockReplaced b b' → Replaced (.loop n b) (.loop n' b')
  | forEach {name collection reversed : Slot} {b b' : Block} : BlockReplaced b b' →
      Replaced (.forEach name collection reversed b) (.forEach name collection reversed b')
  | call {function a a' : Slot} : Replaced (.call function a) (.call function a')
  | marked {further : List (String × Value)} {c c' : Command} : Replaced c c' →
      Replaced (.marked further c) (.marked further c')

inductive BlockReplaced : Block → Block → Prop where
  | same (b : Block) : BlockReplaced b b
  | value (v : Value) (items : List Value) :
      BlockReplaced (.value v) (.commands (items.map .other))
  | commands {cs cs' : List Command} : AllReplaced cs cs' →
      BlockReplaced (.commands cs) (.commands cs')

inductive AllReplaced : List Command → List Command → Prop where
  | nil : AllReplaced [] []
  | cons {c c' : Command} {cs cs' : List Command} : Replaced c c' → AllReplaced cs cs' →
      AllReplaced (c :: cs) (c' :: cs')
end

section Fits

variable {P : List Mark → Prop} {F : String → Prop}

theorem others_fit (items : List Value) : AllFit P F (items.map .other) := by
  induction items with
  | nil => exact trivial
  | cons v rest ih => exact ⟨trivial, ih⟩

theorem marks_of_others (items : List Value) :
    (items.map Command.other).map mark = List.replicate items.length .silent := by
  induction items with
  | nil => rfl
  | cons v rest ih => rw [List.map_cons, List.map_cons, ih]; rfl

theorem Replaced.mark : ∀ {c c' : Command}, Replaced c c' → c'.mark = c.mark
  | _, _, .same _ => rfl
  | _, _, .play | _, _, .playChord | _, _, .branch _ _ | _, _, .loop _ | _, _, .forEach _
  | _, _, .call => rfl
  | _, _, .marked h => h.mark

theorem AllReplaced.marks : ∀ {cs cs' : List Command}, AllReplaced cs cs' →
    cs'.map Command.mark = cs.map Command.mark
  | _, _, .nil => rfl
  | _, _, .cons h hs => by rw [List.map_cons, List.map_cons, h.mark, hs.marks]

mutual
theorem Replaced.fits (hP : ∀ n, P (List.replicate n .silent)) :
    ∀ {c c' : Command}, Replaced c c' → Fits P F c → Fits P F c'
  | _, _, .same _, h => h
  | _, _, .play, _ | _, _, .playChord, _ => trivial
  | _, _, .branch ht hf, h => ⟨ht.fits hP h.1, hf.fits hP h.2⟩
  | _, _, .loop hb, h => hb.fits hP h
  | _, _, .forEach hb, h => hb.fits hP h
  | .call function _, _, .call, h => by
    cases function with
    | none => exact trivial
    | some v => cases v <;> exact h
  | _, _, .marked hc, h => hc.fits hP h

theorem BlockReplaced.fits (hP : ∀ n, P (List.replicate n .silent)) :
    ∀ {b b' : Block}, BlockReplaced b b' → BlockFits P F b → BlockFits P F b'
  | _, _, .same _, h => h
  | _, _, .value _ items, _ => ⟨marks_of_others items ▸ hP _, others_fit items⟩
  | _, _, .commands hcs, h => ⟨hcs.marks ▸ h.1, hcs.fits hP h.2⟩

theorem AllReplaced.fits (hP : ∀ n, P (List.replicate n .silent)) :
    ∀ {cs cs' : List Command}, AllReplaced cs cs' → AllFit P F cs → AllFit P F cs'
  | _, _, .nil, h => h
  | _, _, .cons hc hcs, h => ⟨hc.fits hP h.1, hcs.fits hP h.2⟩
end

end Fits

end Command

namespace Performance

open Act Command

section Substitution

variable {p : Performer}

theorem fill_play (note accidental duration : Slot) :
    (fillPlay note accidental duration).Ensures p fun c q =>
      q = p ∧ Replaced (.play note accidental duration) c := by
  refine (walk_need walk_still _ _).ensures_bind ?_
  rintro name _ rfl
  refine (walk_fill_note walk_still _ _).ensures_bind ?_
  rintro ⟨v, sign⟩ _ rfl
  refine (walk_fallback walk_still _ _ _ _).ensures_bind ?_
  rintro w _ rfl
  refine (walk_fill_duration walk_still _).ensures_bind ?_
  rintro d _ rfl
  exact (ensures_pure _).mpr ⟨rfl, .play⟩

theorem fill_play_chord (name notes duration : Slot) :
    (fillPlayChord name notes duration).Ensures p fun c q =>
      q = p ∧ Replaced (.playChord name notes duration) c := by
  refine (walk_fill_chord walk_still _ _).ensures_bind ?_
  rintro notes _ rfl
  refine (walk_fill_duration walk_still _).ensures_bind ?_
  rintro d _ rfl
  exact (ensures_pure _).mpr ⟨rfl, .playChord⟩

theorem fill_call (function arguments : Slot) :
    (fillCall function arguments).Ensures p fun c q =>
      q = p ∧ Replaced (.call function arguments) c := by
  refine (walk_need walk_still _ _).ensures_bind ?_
  rintro v _ rfl
  split
  · refine (walk_fill_arguments walk_still _).ensures_bind ?_
    rintro items _ rfl
    exact (ensures_pure _).mpr ⟨rfl, .call⟩
  · refine (walk_still.of_except _).ensures_bind ?_
    rintro items _ rfl
    refine (walk_keep_all walk_still _ _).ensures_bind ?_
    rintro _ _ rfl
    exact (ensures_pure _).mpr ⟨rfl, .call⟩

theorem elements_replaced (v : Value) :
    (do
      let items ← ofExcept v.elements
      items.forM needKind
      return Block.commands (items.map .other) : Performance Block).Ensures p fun b q =>
        q = p ∧ BlockReplaced (.value v) b := by
  refine (walk_still.of_except _).ensures_bind ?_
  rintro items _ rfl
  refine (walk_kinds walk_still items).ensures_bind ?_
  rintro _ _ rfl
  exact (ensures_pure _).mpr ⟨rfl, .value v items⟩

mutual
theorem substitute_replaced (p : Performer) : ∀ c : Command,
    (substitute c).Ensures p fun c' q => q = p ∧ Replaced c c'
  | .play note accidental duration => fill_play note accidental duration
  | .playChord name notes duration => fill_play_chord name notes duration
  | .branch condition whenTrue whenFalse => by
    rw [substitute, ensures_bind]
    refine (substitute_block_replaced p "bloco_verdadeiro" whenTrue).mono ?_
    rintro t _ ⟨rfl, ht⟩
    rw [ensures_bind]
    refine (substitute_optional_replaced _ "bloco_falso" whenFalse).mono ?_
    rintro f _ ⟨rfl, hf⟩
    exact (ensures_pure _).mpr ⟨rfl, .branch ht hf⟩
  | .loop times body => by
    rw [substitute]
    refine (walk_fill_times walk_still times).ensures_bind ?_
    rintro times _ rfl
    rw [ensures_bind]
    refine (substitute_block_replaced _ "comandos" body).mono ?_
    rintro b _ ⟨rfl, hb⟩
    exact (ensures_pure _).mpr ⟨rfl, .loop hb⟩
  | .forEach name collection reversed body => by
    rw [substitute, ensures_bind]
    refine (substitute_block_replaced p "comandos" body).mono ?_
    rintro b _ ⟨rfl, hb⟩
    refine (walk_need walk_still _ _).ensures_bind ?_
    rintro _ _ rfl
    exact (ensures_pure _).mpr ⟨rfl, .forEach hb⟩
  | .call function arguments => fill_call function arguments
  | .marked further c => by
    rw [substitute, ensures_bind]
    refine (substitute_replaced p c).mono ?_
    rintro c' _ ⟨rfl, hc⟩
    exact (ensures_pure _).mpr ⟨rfl, .marked hc⟩
  | .other v => by
    rw [substitute]
    refine (walk_kind walk_still v).ensures_bind ?_
    rintro _ _ rfl
    exact (ensures_pure _).mpr ⟨rfl, .same _⟩
  | .pause _ | .envelope _ _ _ _ | .waveform _ | .instrument _ | .startParallel | .endParallel =>
    (ensures_answer _).mpr ⟨rfl, .same _⟩

theorem substitute_block_replaced (p : Performer) (name : String) : ∀ b : Block,
    (substituteBlock name b).Ensures p fun b' q => q = p ∧ BlockReplaced b b'
  | .missing => ensures_fail _
  | .value v => elements_replaced v
  | .commands cs => by
    rw [substituteBlock, ensures_bind]
    refine (substitute_all_replaced p cs).mono ?_
    rintro cs' _ ⟨rfl, hcs⟩
    exact (ensures_pure _).mpr ⟨rfl, .commands hcs⟩

theorem substitute_optional_replaced (p : Performer) (name : String) : ∀ b : Block,
    (substituteOptional name b).Ensures p fun b' q => q = p ∧ BlockReplaced b b'
  | .missing => ensures_fail _
  | .value v => by
    cases v with
    | none => exact (ensures_answer _).mpr ⟨rfl, .same _⟩
    | bool | int | float | text | list | record => exact elements_replaced _
  | .commands cs => by
    rw [substituteOptional, ensures_bind]
    refine (substitute_all_replaced p cs).mono ?_
    rintro cs' _ ⟨rfl, hcs⟩
    exact (ensures_pure _).mpr ⟨rfl, .commands hcs⟩

theorem substitute_all_replaced (p : Performer) : ∀ cs : List Command,
    (substituteAll cs).Ensures p fun cs' q => q = p ∧ AllReplaced cs cs'
  | [] => (ensures_answer _).mpr ⟨rfl, .nil⟩
  | c :: cs => by
    rw [substituteAll, ensures_bind]
    refine (substitute_replaced p c).mono ?_
    rintro c' _ ⟨rfl, hc⟩
    rw [ensures_bind]
    refine (substitute_all_replaced _ cs).mono ?_
    rintro cs' _ ⟨rfl, hcs⟩
    exact (ensures_pure _).mpr ⟨rfl, .cons hc hcs⟩
end

end Substitution

end Performance

end Melody
