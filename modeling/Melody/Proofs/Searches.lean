import Melody.Proofs.Blocks
import Melody.Proofs.Plain

/-!
# The searches of a text

The three searches for blocks are one search with three recognisers, and reading a text is a walk
over what is left of it: each search reads what it finds and hands on the text behind its last
find. What holds of all commands of a text follows from what holds of its lines and its blocks.
A reader that has enough depth for a text reads it as the unbounded one does.
-/

set_option autoImplicit false

namespace Melody.Text

section Finds

variable {α β : Type} {recognise : List Char → Option (α × List Char)}

def Found.shift (k : Nat) (f : Found α) : Found α :=
  ⟨f.start + k, f.stop + k, f.item⟩

theorem Found.shift_zero : (Found.shift 0 : Found α → Found α) = id := rfl

theorem Found.shift_shift (j k : Nat) :
    (Found.shift k ∘ Found.shift j : Found α → Found α) = Found.shift (j + k) := by
  funext f
  simp only [Function.comp_apply, Found.shift, Nat.add_assoc]

def Found.map (g : α → β) (f : Found α) : Found β :=
  ⟨f.start, f.stop, g f.item⟩

def Misses (recognise : List Char → Option (α × List Char)) : List Char → List Char → Prop
  | [], _ => True
  | c :: w, rest => recognise (c :: (w ++ rest)) = none ∧ Misses recognise w rest

def Shrinks (recognise : List Char → Option (α × List Char)) : Prop :=
  ∀ cs item rest, recognise cs = some (item, rest) → Behind rest cs

theorem misses_append {u w rest : List Char} :
    Misses recognise (u ++ w) rest ↔ Misses recognise u (w ++ rest) ∧ Misses recognise w rest := by
  induction u with
  | nil => simp [Misses]
  | cons c u ih => simp only [List.cons_append, Misses, ih, List.append_assoc, and_assoc]

theorem find_from_offset (fuel k offset : Nat) (cs : List Char) :
    findFrom recognise fuel (offset + k) cs =
      (findFrom recognise fuel offset cs).map (Found.shift k) := by
  fun_induction findFrom recognise fuel offset cs with
  | case1 => rfl
  | case2 => rfl
  | case3 fuel offset c cs item rest h stop ih =>
    have hstop : offset + k + ((c :: cs).length - rest.length) = stop + k :=
      Nat.add_right_comm ..
    simp only [findFrom, h, List.map_cons, Found.shift, hstop, ih]
  | case4 fuel offset c cs h ih =>
    simp only [findFrom, h]
    rw [← ih, Nat.add_right_comm]

/-- Fuel beyond the length of the text changes nothing. -/
theorem find_from_fuel (hs : Shrinks recognise) {fuel fuel' : Nat} {cs : List Char}
    (h : cs.length ≤ fuel) (h' : cs.length ≤ fuel') (offset : Nat) :
    findFrom recognise fuel offset cs = findFrom recognise fuel' offset cs := by
  induction fuel generalizing fuel' cs offset with
  | zero =>
    obtain rfl : cs = [] := List.eq_nil_of_length_eq_zero (Nat.le_zero.mp h)
    cases fuel' with
    | zero => rfl
    | succ fuel' => rfl
  | succ fuel ih =>
    cases cs with
    | nil =>
      cases fuel' with
      | zero => rfl
      | succ fuel' => rfl
    | cons c cs =>
      cases fuel' with
      | zero => simp at h'
      | succ fuel' =>
        simp only [List.length_cons, Nat.add_le_add_iff_right] at h h'
        simp only [findFrom]
        split
        · rename_i item rest hfound
          have hlength := (hs _ _ _ hfound).length_lt
          simp only [List.length_cons] at hlength
          rw [ih (by omega) (by omega : rest.length ≤ fuel')]
        · exact ih h h' _

theorem find_all_cons_none {c : Char} {cs : List Char} (h : recognise (c :: cs) = none) :
    findAll recognise (c :: cs) = (findAll recognise cs).map (Found.shift 1) := by
  simp only [findAll, List.length_cons]
  rw [← find_from_offset, findFrom]
  simp only [h]

theorem find_all_misses {w rest : List Char} (h : Misses recognise w rest) :
    findAll recognise (w ++ rest) =
      (findAll recognise rest).map (Found.shift w.length) := by
  induction w with
  | nil => rw [List.nil_append, List.length_nil, Found.shift_zero, List.map_id]
  | cons c w ih =>
    rw [List.cons_append, find_all_cons_none h.1, ih h.2, List.map_map, Found.shift_shift,
      List.length_cons]

theorem find_all_hit (hs : Shrinks recognise) {w rest : List Char} {item : α}
    (h : recognise (w ++ rest) = some (item, rest)) :
    findAll recognise (w ++ rest) =
      ⟨0, w.length, item⟩ :: (findAll recognise rest).map (Found.shift w.length) := by
  cases w with
  | nil => exact absurd (hs _ _ _ h).length_lt (Nat.lt_irrefl _)
  | cons c w =>
    have hlength : 0 + ((c :: (w ++ rest)).length - rest.length) = 0 + (c :: w).length := by
      simp only [List.length_cons, List.length_append]
      omega
    rw [List.cons_append] at h ⊢
    simp only [findAll, List.length_cons, List.length_append]
    rw [findFrom]
    simp only [h]
    rw [hlength, find_from_fuel hs (by omega) (Nat.le_succ rest.length),
      find_from_offset]
    simp

theorem misses_of_find_all {cs : List Char} (hs : Shrinks recognise)
    (h : findAll recognise cs = []) : Misses recognise cs [] := by
  induction cs with
  | nil => trivial
  | cons c cs ih =>
    cases hc : recognise (c :: cs) with
    | none =>
      rw [find_all_cons_none hc, List.map_eq_nil_iff] at h
      exact ⟨by rw [List.append_nil]; exact hc, ih h⟩
    | some found =>
      obtain ⟨item, rest⟩ := found
      obtain ⟨⟨w, hw⟩, -⟩ := hs _ _ _ hc
      rw [← hw] at h hc
      rw [find_all_hit hs hc] at h
      contradiction

theorem find_from_congr {recognise' : List Char → Option (α × List Char)}
    (hs : Shrinks recognise) (fuel offset : Nat) {cs : List Char}
    (h : ∀ v, v <:+ cs → recognise v = recognise' v) :
    findFrom recognise fuel offset cs = findFrom recognise' fuel offset cs := by
  induction fuel generalizing offset cs with
  | zero => rfl
  | succ fuel ih =>
    cases cs with
    | nil => rfl
    | cons c cs =>
      simp only [findFrom, ← h _ List.suffix_rfl]
      split
      · rename_i item rest hfound
        rw [ih _ fun v hv => h v (hv.trans (hs _ _ _ hfound).1)]
      · rw [ih _ fun v hv => h v (hv.trans (List.suffix_cons c cs))]

theorem find_from_item (hs : Shrinks recognise) {fuel offset : Nat} {cs : List Char}
    {found : Found α} (h : found ∈ findFrom recognise fuel offset cs) :
    ∃ v rest, v <:+ cs ∧ recognise v = some (found.item, rest) := by
  induction fuel generalizing offset cs with
  | zero => contradiction
  | succ fuel ih =>
    cases cs with
    | nil => contradiction
    | cons c cs =>
      rw [findFrom] at h
      split at h
      · rename_i item rest hfound
        rcases List.mem_cons.mp h with rfl | h
        · exact ⟨c :: cs, rest, List.suffix_rfl, hfound⟩
        · obtain ⟨v, rest', hv, hitem⟩ := ih h
          exact ⟨v, rest', hv.trans (hs _ _ _ hfound).suffix, hitem⟩
      · obtain ⟨v, rest', hv, hitem⟩ := ih h
        exact ⟨v, rest', hv.trans (List.suffix_cons c cs), hitem⟩

theorem find_all_map (g : α → β) (cs : List Char) :
    findAll (fun v => (recognise v).map fun found => (g found.1, found.2)) cs =
      (findAll recognise cs).map (Found.map g) := by
  unfold findAll
  generalize cs.length + 1 = fuel
  generalize 0 = offset
  induction fuel generalizing offset cs with
  | zero => rfl
  | succ fuel ih =>
    cases cs with
    | nil => rfl
    | cons c cs =>
      cases h : recognise (c :: cs) with
      | none => simp only [findFrom, h, Option.map_none, ih]
      | some found => simp only [findFrom, h, Option.map_some, List.map_cons, ih, Found.map]

end Finds

end Melody.Text

namespace Melody.Command

open Melody.Text

namespace Reading

structure Gives (r : Reading) (cs : List Command) : Prop where
  regular : r.fault = none
  commands : r.commands = cs

theorem gives_and_then {r s : Reading} {cs : List Command} :
    (r.andThen s).Gives cs ↔ ∃ a b, cs = a ++ b ∧ r.Gives a ∧ s.Gives b := by
  obtain ⟨commands, printed, mistakes, fault⟩ := r
  constructor
  · rintro ⟨hfault, hcommands⟩
    cases fault with
    | some f => contradiction
    | none => exact ⟨commands, s.commands, hcommands.symm, ⟨rfl, rfl⟩, hfault, rfl⟩
  · rintro ⟨a, b, rfl, ⟨hfault, ha⟩, hs⟩
    obtain rfl : fault = none := hfault
    exact ⟨hs.regular, by rw [← ha, ← hs.commands]; rfl⟩

theorem Gives.and_then {r s : Reading} {a b : List Command} (hr : r.Gives a) (hs : s.Gives b) :
    (r.andThen s).Gives (a ++ b) :=
  gives_and_then.mpr ⟨a, b, rfl, hr, hs⟩

theorem gives_gather {r : Reading} {f : List Command → List Command} {cs : List Command} :
    (r.gather f).Gives cs ↔ ∃ b, cs = f b ∧ r.Gives b := by
  constructor
  · rintro ⟨hfault, hcommands⟩
    exact ⟨r.commands, hcommands.symm, hfault, rfl⟩
  · rintro ⟨b, rfl, hfault, rfl⟩
    exact ⟨hfault, rfl⟩

theorem gives_whole {r : Reading} {f : List Command → List Command} {cs : List Command} :
    (r.whole f).Gives cs ↔ ∃ b, cs = f b ∧ r.Gives b := by
  obtain ⟨commands, printed, mistakes, fault⟩ := r
  cases fault with
  | none => exact gives_gather
  | some f =>
    constructor
    · rintro ⟨hfault, -⟩
      contradiction
    · rintro ⟨b, -, hfault, -⟩
      contradiction

def All (P : Command → Prop) (r : Reading) : Prop :=
  ∀ c ∈ r.commands, P c

section All

variable {P : Command → Prop}

theorem all_of_none {r : Reading} (h : r.commands = []) : r.All P := by
  intro c hc
  rw [h] at hc
  contradiction

theorem all_of_command {c : Command} (h : P c) : (ofCommand c).All P := by
  intro c' hc
  obtain rfl := List.mem_singleton.mp hc
  exact h

theorem All.and_then {r s : Reading} (hr : r.All P) (hs : s.All P) : (r.andThen s).All P := by
  obtain ⟨commands, printed, mistakes, fault⟩ := r
  cases fault with
  | some f => exact hr
  | none =>
    intro c hc
    rcases List.mem_append.mp hc with hc | hc
    · exact hr c hc
    · exact hs c hc

theorem All.whole {r : Reading} {f : List Command → List Command}
    (h : ∀ c ∈ f r.commands, P c) : (r.whole f).All P := by
  obtain ⟨commands, printed, mistakes, fault⟩ := r
  cases fault with
  | none => exact h
  | some _ => exact all_of_none rfl

theorem all_sequence {rs : List Reading} (h : ∀ r ∈ rs, r.All P) : (sequence rs).All P := by
  induction rs with
  | nil => exact all_of_none rfl
  | cons r rs ih => exact (h r (by simp)).and_then (ih fun r hr => h r (by simp [hr]))

end All

end Reading

section All

variable {P : Command → Prop} {rs : Readers} {cs : List Char} (hl : ∀ v, (rs.lines v).All P)

include hl

theorem all_finds {α : Type} {read : α → Reading} (place : Nat) {finds : List (Found α)}
    (hf : ∀ found ∈ finds, (read found.item).All P) :
    (readFinds rs read cs place finds).reading.All P := by
  induction finds generalizing place with
  | nil => exact Reading.all_of_none rfl
  | cons found finds ih =>
    have hrest := ih (found.stop + place) fun f hmem => hf f (by simp [hmem])
    exact (hl _).and_then ((hf found (by simp)).and_then hrest)

theorem all_parallels (hstart : P .startParallel) (hend : P .endParallel) (place : Nat)
    {finds : List (Found (List Char))}
    (hf : ∀ found ∈ finds, (rs.body (strip found.item)).All P) :
    (readParallels rs cs place finds).reading.All P := by
  induction finds generalizing place with
  | nil => exact Reading.all_of_none rfl
  | cons found finds ih =>
    have hbody : ((rs.body (strip found.item)).whole fun b => b ++ [.endParallel]).All P := by
      apply Reading.All.whole
      intro c hc
      rcases List.mem_append.mp hc with hc | hc
      · exact hf found (by simp) c hc
      · obtain rfl := List.mem_singleton.mp hc
        exact hend
    have hrest := ih found.stop fun f hmem => hf f (by simp [hmem])
    exact (hl _).and_then ((Reading.all_of_command hstart).and_then (hbody.and_then hrest))

end All

inductive Shape where
  | branch
  | forEach
  | loop
deriving DecidableEq, Repr

def seek (rs : Readers) : Shape → List Char → Option (Reading × List Char)
  | .branch, cs => (conditional? cs).map fun found => (readConditional rs found.1, found.2)
  | .forEach, cs => (iteration? cs).map fun found => (readIteration rs found.1, found.2)
  | .loop, cs => (repetition? cs).map fun found => (readRepetition rs found.1, found.2)

def sweep (rs : Readers) (shape : Shape) (cs : List Char) : Progress :=
  readFinds rs id cs 0 (findAll (seek rs shape) cs)

def stages (rs : Readers) : List Shape → List Char → Reading
  | [], cs => rs.lines cs
  | shape :: more, cs =>
    (sweep rs shape cs).reading.andThen (stages rs more (cs.drop (sweep rs shape cs).place))

theorem read_finds_map {α : Type} (rs : Readers) (read : α → Reading) (cs : List Char)
    (place : Nat) (finds : List (Found α)) :
    readFinds rs read cs place finds =
      readFinds rs id cs place (finds.map (Found.map read)) := by
  induction finds generalizing place with
  | nil => rfl
  | cons f finds ih => simp only [readFinds, List.map_cons, Found.map, ih, id]

/-- Only the text behind a place counts for the finds there. -/
theorem read_finds_drop (rs : Readers) (cs : List Char) (k place : Nat)
    (finds : List (Found Reading)) :
    readFinds rs id cs (k + place) finds =
      ⟨(readFinds rs id (cs.drop k) place finds).reading,
        k + (readFinds rs id (cs.drop k) place finds).place⟩ := by
  induction finds generalizing place with
  | nil => rfl
  | cons f finds ih =>
    have hslice : slice cs (k + place) (f.start + (k + place)) =
        slice (cs.drop k) place (f.start + place) := by
      simp only [slice, List.drop_drop, Nat.add_sub_cancel]
    have hstop : f.stop + (k + place) = k + (f.stop + place) := by omega
    simp only [readFinds, hslice, hstop, ih]

theorem search_eq {α : Type} (rs : Readers) (recognise : List Char → Option (α × List Char))
    (read : α → Reading) (shape : Shape)
    (h : seek rs shape = fun v => (recognise v).map fun found => (read found.1, found.2))
    (cs : List Char) (p : Progress) :
    search rs recognise read cs p =
      ⟨p.reading.andThen (sweep rs shape (cs.drop p.place)).reading,
        p.place + (sweep rs shape (cs.drop p.place)).place⟩ := by
  have hfinds : readFinds rs read cs p.place (findAll recognise (cs.drop p.place)) =
      ⟨(sweep rs shape (cs.drop p.place)).reading,
        p.place + (sweep rs shape (cs.drop p.place)).place⟩ := by
    rw [read_finds_map, ← find_all_map, ← h]
    exact read_finds_drop rs cs p.place 0 _
  simp only [search, hfinds]

/-- Reading a text is reading its parallel blocks and then what is behind them in stages. -/
theorem read_searches_eq (rs : Readers) (cs : List Char) :
    readSearches rs cs =
      (readParallels rs cs 0 (findAll parallel? cs)).reading.andThen
        (stages rs [.branch, .forEach, .loop]
          (cs.drop (readParallels rs cs 0 (findAll parallel? cs)).place)) := by
  unfold readSearches
  simp only [search_eq rs conditional? _ .branch rfl, search_eq rs iteration? _ .forEach rfl,
    search_eq rs repetition? _ .loop rfl, stages, List.drop_drop, Reading.and_then_assoc]

theorem seek_encloses {rs : Readers} {shape : Shape} {cs rest : List Char} {r : Reading}
    (h : seek rs shape cs = some (r, rest)) : (∃ body, Encloses cs body) ∧ Behind rest cs := by
  cases shape with
  | branch =>
    obtain ⟨⟨c, rest'⟩, hfound, hpair⟩ := Option.map_eq_some_iff.mp h
    obtain ⟨-, rfl⟩ := Prod.mk.inj hpair
    obtain ⟨⟨⟨body, -, hbody⟩, -⟩, hrest⟩ := conditional_encloses hfound
    exact ⟨⟨body, hbody⟩, hrest⟩
  | forEach =>
    obtain ⟨⟨i, rest'⟩, hfound, hpair⟩ := Option.map_eq_some_iff.mp h
    obtain ⟨-, rfl⟩ := Prod.mk.inj hpair
    obtain ⟨⟨body, -, hbody⟩, hrest⟩ := iteration_encloses hfound
    exact ⟨⟨body, hbody⟩, hrest⟩
  | loop =>
    obtain ⟨⟨i, rest'⟩, hfound, hpair⟩ := Option.map_eq_some_iff.mp h
    obtain ⟨-, rfl⟩ := Prod.mk.inj hpair
    obtain ⟨hbody, hrest⟩ := repetition_encloses hfound
    exact ⟨⟨_, hbody⟩, hrest⟩

theorem seek_shrinks (rs : Readers) (shape : Shape) : Shrinks (seek rs shape) :=
  fun _ _ _ h => (seek_encloses h).2

theorem parallel_shrinks : Shrinks parallel? :=
  fun _ _ _ h => (parallel_encloses h).2

structure Builds (P Q : Command → Prop) : Prop where
  within {c : Command} : P c → Q c
  start : Q .startParallel
  stop : Q .endParallel
  branch (condition : List Char) {whenTrue : List Command} : (∀ c ∈ whenTrue, P c) →
    Q (.branch (textSlot condition) (.commands whenTrue) (.value .none))
  choice (condition : List Char) {whenTrue whenFalse : List Command} : (∀ c ∈ whenTrue, P c) →
    (∀ c ∈ whenFalse, P c) →
    Q (.branch (textSlot condition) (.commands whenTrue) (.commands whenFalse))
  forEach (name collection : List Char) (reversed : Bool) {body : List Command} :
    (∀ c ∈ body, P c) →
    Q (.forEach (textSlot name) (textSlot collection) (some (.bool reversed)) (.commands body))
  loop (times : Int) {body : List Command} : (∀ c ∈ body, P c) →
    Q (.loop (some (.int times)) (.commands body))

def AllWithin (P : Command → Prop) (rs : Readers) (cs : List Char) : Prop :=
  ∀ body, Encloses cs body → (rs.body body).All P ∧ (rs.body (strip body)).All P

theorem AllWithin.of_suffix {P : Command → Prop} {rs : Readers} {cs v : List Char}
    (h : AllWithin P rs cs) (hv : v <:+ cs) : AllWithin P rs v :=
  fun body hbody => h body (hbody.of_suffix hv)

namespace Builds

variable {P Q : Command → Prop} {rs : Readers} {cs : List Char} (hbuilds : Builds P Q)
include hbuilds

theorem seek {shape : Shape} {rest : List Char} {r : Reading}
    (h : seek rs shape cs = some (r, rest)) (hb : AllWithin P rs cs) : r.All Q := by
  cases shape with
  | branch =>
    obtain ⟨⟨c, rest'⟩, hfound, hpair⟩ := Option.map_eq_some_iff.mp h
    obtain ⟨rfl, -⟩ := Prod.mk.inj hpair
    obtain ⟨⟨⟨body, htrue, hbody⟩, hfalse⟩, -⟩ := conditional_encloses hfound
    have hfirst : (rs.body c.whenTrue).All P := htrue ▸ (hb body hbody).2
    apply Reading.all_of_command
    by_cases hempty : c.whenFalse.isEmpty
    · simp only [hempty, if_true]
      exact hbuilds.branch c.condition hfirst
    · have hsecond : (rs.body c.whenFalse).All P := by
        rcases hfalse with hnil | ⟨second, heq, hsecond⟩
        · simp [hnil] at hempty
        · exact heq ▸ (hb second hsecond).2
      -- the alternative is read behind the block, whose commands are set aside
      have haside : ({ rs.body c.whenTrue with commands := [] } : Reading).All P :=
        Reading.all_of_none rfl
      simp only [hempty, Bool.false_eq_true, if_false]
      exact hbuilds.choice c.condition hfirst (haside.and_then hsecond)
  | forEach =>
    obtain ⟨⟨i, rest'⟩, hfound, hpair⟩ := Option.map_eq_some_iff.mp h
    obtain ⟨rfl, -⟩ := Prod.mk.inj hpair
    obtain ⟨⟨body, heq, hbody⟩, -⟩ := iteration_encloses hfound
    apply Reading.all_of_command
    exact hbuilds.forEach i.name i.collection i.reversed (heq ▸ (hb body hbody).2)
  | loop =>
    obtain ⟨⟨i, rest'⟩, hfound, hpair⟩ := Option.map_eq_some_iff.mp h
    obtain ⟨rfl, -⟩ := Prod.mk.inj hpair
    obtain ⟨hbody, -⟩ := repetition_encloses hfound
    unfold readRepetition
    cases parseInt i.times with
    | error f => exact Reading.all_of_none rfl
    | ok n =>
      apply Reading.All.whole
      intro c hc
      obtain rfl := List.mem_singleton.mp hc
      exact hbuilds.loop n (hb i.body hbody).1

theorem sweep (hl : ∀ v, (rs.lines v).All Q) (hb : AllWithin P rs cs) (shape : Shape) :
    (sweep rs shape cs).reading.All Q := by
  apply all_finds hl 0
  intro found hfound
  obtain ⟨v, rest, hv, hitem⟩ := find_from_item (seek_shrinks rs shape) hfound
  exact hbuilds.seek hitem (hb.of_suffix hv)

theorem stages (hl : ∀ v, (rs.lines v).All Q) (hb : AllWithin P rs cs) (shapes : List Shape) :
    (stages rs shapes cs).All Q := by
  induction shapes generalizing cs with
  | nil => exact hl cs
  | cons shape shapes ih =>
    exact (hbuilds.sweep hl hb shape).and_then (ih (hb.of_suffix (List.drop_suffix _ cs)))

/-- The commands of a text have `Q` if those of its lines have it and those of its blocks have
`P`. -/
theorem searches (hl : ∀ v, (rs.lines v).All Q) (hb : AllWithin P rs cs) :
    (readSearches rs cs).All Q := by
  have hparallels : (readParallels rs cs 0 (findAll parallel? cs)).reading.All Q := by
    apply all_parallels hl hbuilds.start hbuilds.stop 0
    intro found hfound c hc
    obtain ⟨v, rest, hv, hitem⟩ := find_from_item parallel_shrinks hfound
    have hbody := (parallel_encloses hitem).1.of_suffix hv
    exact hbuilds.within ((hb found.item hbody).2 c hc)
  rw [read_searches_eq]
  exact hparallels.and_then (hbuilds.stages hl (hb.of_suffix (List.drop_suffix _ cs)) _)

end Builds

theorem Builds.read {P : Command → Prop} {manner : Manner} {ctx : Context} (hbuilds : Builds P P)
    (hl : ∀ v, (readLines manner ctx v).All P) (cs : List Char) :
    (Command.read manner ctx cs).All P := by
  have hnested (depth : Nat) (cs : List Char) :
      (readNested (readLines manner ctx) depth cs).All P := by
    induction depth generalizing cs with
    | zero => exact Reading.all_of_none rfl
    | succ depth ih =>
      apply hbuilds.searches hl
      intro body _
      exact ⟨ih body, ih (strip body)⟩
  rw [read_nested]
  exact hnested _ cs

def AgreeWithin (cs : List Char) (f g : List Char → Reading) : Prop :=
  ∀ body, Encloses cs body → f body = g body ∧ f (strip body) = g (strip body)

theorem AgreeWithin.of_suffix {cs v : List Char} {f g : List Char → Reading}
    (h : AgreeWithin cs f g) (hv : v <:+ cs) : AgreeWithin v f g :=
  fun body hbody => h body (hbody.of_suffix hv)

section Agreeing

variable {cs : List Char} {f g lines : List Char → Reading} (h : AgreeWithin cs f g)
include h

theorem seek_congr (shape : Shape) : seek ⟨f, lines⟩ shape cs = seek ⟨g, lines⟩ shape cs := by
  cases shape with
  | branch =>
    apply Option.map_congr
    rintro ⟨c, rest⟩ hfound
    obtain ⟨⟨⟨body, htrue, hbody⟩, hfalse⟩, -⟩ := conditional_encloses hfound
    rcases hfalse with hnil | ⟨second, heq, hsecond⟩
    · simp only [readConditional, htrue, (h body hbody).2, hnil, List.isEmpty_nil, if_true]
    · simp only [readConditional, htrue, (h body hbody).2, heq, (h second hsecond).2]
  | forEach =>
    apply Option.map_congr
    rintro ⟨i, rest⟩ hfound
    obtain ⟨⟨body, heq, hbody⟩, -⟩ := iteration_encloses hfound
    simp only [readIteration, heq, (h body hbody).2]
  | loop =>
    apply Option.map_congr
    rintro ⟨r, rest⟩ hfound
    obtain ⟨hbody, -⟩ := repetition_encloses hfound
    simp only [readRepetition, (h r.body hbody).1]

theorem sweep_congr (shape : Shape) :
    sweep ⟨f, lines⟩ shape cs = sweep ⟨g, lines⟩ shape cs := by
  have hfinds : findAll (seek ⟨f, lines⟩ shape) cs = findAll (seek ⟨g, lines⟩ shape) cs :=
    find_from_congr (seek_shrinks _ shape) _ _ fun v hv => seek_congr (h.of_suffix hv) shape
  have hread (place : Nat) (finds : List (Found Reading)) :
      readFinds ⟨f, lines⟩ id cs place finds = readFinds ⟨g, lines⟩ id cs place finds := by
    induction finds generalizing place with
    | nil => rfl
    | cons found finds ih => simp only [readFinds, ih]
  rw [sweep, sweep, hfinds, hread]

theorem stages_congr (shapes : List Shape) :
    stages ⟨f, lines⟩ shapes cs = stages ⟨g, lines⟩ shapes cs := by
  induction shapes generalizing cs with
  | nil => rfl
  | cons shape shapes ih =>
    rw [stages, stages, sweep_congr h, ih (h.of_suffix (List.drop_suffix _ cs))]

theorem parallels_congr (place : Nat) (finds : List (Found (List Char)))
    (hfinds : ∀ found ∈ finds, Encloses cs found.item) :
    readParallels ⟨f, lines⟩ cs place finds = readParallels ⟨g, lines⟩ cs place finds := by
  induction finds generalizing place with
  | nil => rfl
  | cons found finds ih =>
    have hbody := (h found.item (hfinds found (by simp))).2
    simp only [readParallels, hbody, ih _ fun found hf => hfinds found (by simp [hf])]

theorem read_searches_congr :
    readSearches ⟨f, lines⟩ cs = readSearches ⟨g, lines⟩ cs := by
  have hfinds : ∀ found ∈ findAll parallel? cs, Encloses cs found.item := by
    intro found hf
    obtain ⟨v, rest, hv, hfound⟩ := find_from_item parallel_shrinks hf
    exact (parallel_encloses hfound).1.of_suffix hv
  rw [read_searches_eq, read_searches_eq, parallels_congr h 0 _ hfinds,
    stages_congr (h.of_suffix (List.drop_suffix _ cs))]

end Agreeing

/-- Depth beyond the length of the text changes nothing. -/
theorem read_nested_eq (lines : List Char → Reading) {depth : Nat} {cs : List Char}
    (h : cs.length < depth) : readNested lines depth cs = readNested lines (cs.length + 1) cs := by
  induction depth using Nat.strongRecOn generalizing cs with
  | ind depth ih =>
    cases depth with
    | zero => omega
    | succ depth =>
      have hagree : AgreeWithin cs (readNested lines depth)
          (readNested lines cs.length) := by
        intro body hbody
        have hlt := hbody.length_lt
        have hle := strip_length_le body
        have hsame {v : List Char} (hv : v.length < cs.length) :
            readNested lines depth v = readNested lines cs.length v := by
          rw [ih depth (by omega) (by omega), ih cs.length h hv]
        exact ⟨hsame hlt, hsame (by omega)⟩
      exact read_searches_congr hagree

/-- Reading a text reads its blocks in the same way. -/
theorem read_eq (manner : Manner) (ctx : Context) (cs : List Char) :
    read manner ctx cs = readSearches ⟨read manner ctx, readLines manner ctx⟩ cs := by
  rw [read_nested]
  refine read_searches_congr fun body hbody => ?_
  have hlt := hbody.length_lt
  have hle := strip_length_le body
  rw [read_nested, read_nested]
  exact ⟨read_nested_eq _ hlt, read_nested_eq _ (by omega)⟩

end Melody.Command
