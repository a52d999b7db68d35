import Mathlib.Data.Rat.Floor
import Melody.Sound.Render

/-!
# The stages tile the note

Attack, decay, sustained level and release are written one after another into a list of full
levels. Stages that do not fit into the note are reduced in the ratio of the lengths, here an
exact one, and each product is rounded toward zero, so that together they are never longer than
the note. Then the four stretches lie side by side and cover it: every sample is written once, and
the levels are those of the stages in a row.
-/

set_option autoImplicit false

namespace Melody.Sound

variable {α : Type}

theorem place_from_start {n k : Nat} {i : Int} (hi : i = k) (h : k ≤ n) : place n i = k := by
  rw [place, if_neg (by omega)]
  omega

theorem place_from_end {n k : Nat} {i : Int} (hi : i = -k) (hk : 0 < k) (h : k ≤ n) :
    place n i = n - k := by
  rw [place, if_pos (by omega)]
  omega

theorem place_zero (n : Nat) : place n 0 = 0 :=
  place_from_start rfl (Nat.zero_le n)

theorem place_self (n : Nat) : place n n = n :=
  place_from_start rfl (Nat.le_refl n)

/-- What stands around the stretch is left alone. -/
theorem assign_frame {front middle back : List α} {start stop : Int}
    (hstart : place (front ++ (middle ++ back)).length start = front.length)
    (hstop : place (front ++ (middle ++ back)).length stop = front.length + middle.length)
    (new : Grid α) :
    assign start stop new (front ++ (middle ++ back)) =
      (assign 0 middle.length new middle).map fun written => front ++ (written ++ back) := by
  have htake : (front ++ (middle ++ back)).take front.length = front := List.take_left
  have hdrop : (front ++ (middle ++ back)).drop (front.length + middle.length) = back := by
    rw [← List.drop_drop, List.drop_left, List.drop_left]
  unfold assign
  dsimp only
  rw [hstart, hstop, place_zero, place_self, Nat.max_eq_right (Nat.le_add_right ..), Nat.zero_max,
    Nat.add_sub_cancel_left, Nat.sub_zero, htake, hdrop]
  cases Grid.dropSingles new.shape with
  | nil => rfl
  | cons k more =>
    cases more with
    | cons next more => rfl
    | nil =>
      dsimp only
      split
      · simp [Except.map]
      · split
        · simp [Except.map]
        · rfl

/-- The whole list is replaced by as many items. -/
theorem assign_row {new old : List α} (h : new.length = old.length) :
    assign 0 old.length (.row new) old = .ok new := by
  have hshape : Grid.dropSingles (Grid.row new).shape = [new.length] := by
    simp [Grid.row, Grid.dropSingles]
  unfold assign
  dsimp only
  rw [hshape, place_zero, place_self]
  simp [h, Grid.row]

/-- A single level fills the whole list. -/
theorem assign_level (level : α) (old : List α) :
    assign 0 old.length (.row [level]) old = .ok (List.replicate old.length level) := by
  by_cases hone : old.length = 1
  · have hlength : [level].length = old.length := hone.symm
    rw [assign_row hlength, hone]
    rfl
  · unfold assign
    dsimp only
    rw [place_zero, place_self]
    simp [Grid.row, Grid.dropSingles, Ne.symm hone]

structure Fills (g : Grid α) (k : Nat) (new : List α) : Prop where
  length : new.length = k
  assign : ∀ old : List α, old.length = k → assign 0 k g old = .ok new

theorem row_fills {new : List α} {k : Nat} (h : new.length = k) : Fills (.row new) k new := by
  refine ⟨h, ?_⟩
  rintro old rfl
  exact assign_row h

theorem level_fills (level : α) (k : Nat) : Fills (.row [level]) k (List.replicate k level) := by
  refine ⟨List.length_replicate, ?_⟩
  rintro old rfl
  exact assign_level level old

inductive Stage where
  | attack
  | decay
  | sustain
  | release
deriving DecidableEq, Repr

def Stage.all : List Stage :=
  [.attack, .decay, .sustain, .release]

namespace Stages

def samples (n : Nat) (s : Stages) : Stage → Int
  | .attack => s.attack
  | .decay => s.decay
  | .sustain => n - s.total
  | .release => s.release

def start (s : Stages) : Stage → Int
  | .attack => 0
  | .decay => s.attack
  | .sustain => s.attack + s.decay
  | .release => -s.release

def stop (n : Nat) (s : Stages) : Stage → Int
  | .release => n
  | stage => s.start stage + s.samples n stage

def Writes (n : Nat) (s : Stages) (stage : Stage) (i : Nat) : Prop :=
  0 < s.samples n stage ∧ place n (s.start stage) ≤ i ∧ i < place n (s.stop n stage)

def given (ramp : α → α → Nat → List α) (zero one : α) (sustained : Sustained α) (s : Stages) :
    Stage → Except Fault (Grid α)
  | .attack => .ok (.row (ramp zero one s.attack.toNat))
  | .decay => sustained.fall s.decay.toNat
  | .sustain => sustained.held
  | .release => sustained.fade s.release.toNat

def writeStage (n : Nat) (s : Stages) (levels : Except Fault (Grid α)) (old : List α)
    (stage : Stage) : Except Fault (List α) := do
  if 0 < s.samples n stage then assign (s.start stage) (s.stop n stage) (← levels) old else .ok old

def writeAll (n : Nat) (s : Stages) (given : Stage → Except Fault (Grid α)) (stages : List Stage)
    (old : List α) : Except Fault (List α) :=
  stages.foldlM (fun old stage => s.writeStage n (given stage) old stage) old

theorem levels_eq (ramp : α → α → Nat → List α) (zero one : α) (sustained : Sustained α) (n : Nat)
    (s : Stages) :
    s.levels ramp zero one sustained n =
      s.writeAll n (s.given ramp zero one sustained) Stage.all (List.replicate n one) := by
  simp only [writeAll, Stage.all, List.foldlM_cons, List.foldlM_nil, bind_pure]
  rfl

structure Stretch (n : Nat) (s : Stages) (stage : Stage) (first k : Nat) : Prop where
  samples : s.samples n stage = k
  start : 0 < k → place n (s.start stage) = first
  stop : 0 < k → place n (s.stop n stage) = first + k
  inside : first + k ≤ n

section

variable {n a d r : Nat}

theorem attack_stretch (h : a + d + r ≤ n) : Stretch n ⟨a, d, r⟩ .attack 0 a := by
  refine ⟨rfl, fun _ => place_zero n, fun _ => place_from_start ?_ ?_, ?_⟩
  · simp [stop, start, Stages.samples]
  · omega
  · omega

theorem decay_stretch (h : a + d + r ≤ n) : Stretch n ⟨a, d, r⟩ .decay a d := by
  refine ⟨rfl, fun _ => place_from_start rfl ?_, fun _ => place_from_start ?_ ?_, ?_⟩
  · omega
  · simp [stop, start, Stages.samples]
  · omega
  · omega

theorem sustain_stretch {k : Nat} (h : a + d + k + r = n) :
    Stretch n ⟨a, d, r⟩ .sustain (a + d) k := by
  have hsamples : (⟨a, d, r⟩ : Stages).samples n .sustain = k := by
    simp only [Stages.samples, total]
    omega
  refine ⟨hsamples, fun _ => place_from_start rfl ?_, fun _ => place_from_start ?_ ?_, ?_⟩
  · omega
  · simp [stop, hsamples, start]
  · omega
  · omega

theorem release_stretch {k : Nat} (h : a + d + k + r = n) :
    Stretch n ⟨a, d, r⟩ .release (a + d + k) r := by
  refine ⟨rfl, fun hr => ?_, fun _ => place_from_start ?_ ?_, ?_⟩
  · calc place n (-r) = n - r := place_from_end rfl hr (by omega)
      _ = a + d + k := by omega
  · simp only [stop]
    omega
  · omega
  · omega

end

/-- A stage writes what it is given behind the levels written before. -/
theorem write_next {n : Nat} {s : Stages} {stage : Stage} {front rest new : List α} {k : Nat}
    (hstretch : Stretch n s stage front.length k) {given : Stage → Except Fault (Grid α)}
    {g : Grid α}
    (hgiven : given stage = .ok g) (hg : Fills g k new) (hlength : front.length + rest.length = n)
    (stages : List Stage) :
    s.writeAll n given (stage :: stages) (front ++ rest) =
      s.writeAll n given stages (front ++ new ++ rest.drop k) := by
  suffices hwrite : s.writeStage n (.ok g) (front ++ rest) stage =
      .ok (front ++ new ++ rest.drop k) by
    rw [writeAll, List.foldlM_cons, hgiven, hwrite]
    rfl
  unfold writeStage
  rw [hstretch.samples]
  by_cases hnone : k = 0
  · subst hnone
    rw [if_neg (by omega), List.length_eq_zero_iff.mp hg.length, List.append_nil, List.drop_zero]
  · have hpos : 0 < k := Nat.pos_of_ne_zero hnone
    have hmiddle : (rest.take k).length = k := by
      have := hstretch.inside
      exact List.length_take_of_le (by omega)
    have hplaces : (front ++ (rest.take k ++ rest.drop k)).length = n := by
      rw [List.take_append_drop, List.length_append, hlength]
    rw [if_pos (by omega)]
    change assign _ _ g _ = _
    rw [← List.take_append_drop k rest, assign_frame (by rw [hplaces, hstretch.start hpos])
      (by rw [hplaces, hstretch.stop hpos, hmiddle]), hmiddle, hg.assign _ hmiddle,
      List.append_assoc,
      List.take_append_drop]
    rfl

/-- The samples that a stage writes are those of its stretch. -/
theorem Stretch.writes_iff {n : Nat} {s : Stages} {stage : Stage} {first k : Nat}
    (h : Stretch n s stage first k) {i : Nat} :
    s.Writes n stage i ↔ first ≤ i ∧ i < first + k := by
  unfold Writes
  rw [h.samples]
  by_cases hnone : k = 0
  · subst hnone
    simp
  · have hpos : 0 < k := Nat.pos_of_ne_zero hnone
    rw [h.start hpos, h.stop hpos]
    simp [hpos]

def stageAt (a d k i : Nat) : Stage :=
  if i < a then .attack
  else if i < a + d then .decay
  else if i < a + d + k then .sustain
  else .release

/-- The stages lie side by side and cover the note. -/
theorem writes_iff_at {n a d k r : Nat} (h : a + d + k + r = n) {i : Nat} (hi : i < n)
    (stage : Stage) : (⟨a, d, r⟩ : Stages).Writes n stage i ↔ stage = stageAt a d k i := by
  unfold stageAt
  cases stage with
  | attack =>
    rw [(attack_stretch (by omega)).writes_iff]
    split_ifs <;> simp <;> omega
  | decay =>
    rw [(decay_stretch (by omega)).writes_iff]
    split_ifs <;> simp <;> omega
  | sustain =>
    rw [(sustain_stretch h).writes_iff]
    split_ifs <;> simp <;> omega
  | release =>
    rw [(release_stretch h).writes_iff]
    split_ifs <;> simp <;> omega

/-- Stages that fit into the note leave their levels in a row, whatever the levels were before. -/
theorem write_all_row {ramp : α → α → Nat → List α} (hramp : ∀ x y k, (ramp x y k).length = k)
    (zero one level : α) {a d k r : Nat} {old : List α} (h : a + d + k + r = old.length) :
    (⟨a, d, r⟩ : Stages).writeAll old.length
        ((⟨a, d, r⟩ : Stages).given ramp zero one (.steady ramp zero one level)) Stage.all old =
      .ok (ramp zero one a ++ ramp one level d ++ List.replicate k level ++ ramp level zero r) := by
  let s : Stages := ⟨a, d, r⟩
  let write := s.writeAll old.length (s.given ramp zero one (.steady ramp zero one level))
  let rise := ramp zero one a
  let fall := ramp one level d
  let held := List.replicate k level
  let fade := ramp level zero r
  have hattack : Stretch old.length s .attack ([] : List α).length a := attack_stretch (by omega)
  have hrise : rise.length = a := hramp ..
  have hfall : (rise ++ fall).length = a + d := by
    rw [List.length_append, hrise, hramp]
  have hheld : (rise ++ fall ++ held).length = a + d + k := by
    rw [List.length_append, hfall, List.length_replicate]
  calc write [.attack, .decay, .sustain, .release] old
      = write [.decay, .sustain, .release] (rise ++ old.drop a) :=
        write_next hattack rfl (row_fills (hramp ..)) (Nat.zero_add _) _
    _ = write [.sustain, .release] (rise ++ fall ++ (old.drop a).drop d) := by
        apply write_next (hrise ▸ decay_stretch (by omega)) rfl (row_fills (hramp ..))
        rw [hrise, List.length_drop]
        omega
    _ = write [.release] (rise ++ fall ++ held ++ ((old.drop a).drop d).drop k) := by
        apply write_next (hfall ▸ sustain_stretch h) rfl (level_fills level k)
        rw [hfall, List.length_drop, List.length_drop]
        omega
    _ = .ok (rise ++ fall ++ held ++ fade ++ (((old.drop a).drop d).drop k).drop r) := by
        apply write_next (hheld ▸ release_stretch h) rfl (row_fills (hramp ..))
        rw [hheld, List.length_drop, List.length_drop, List.length_drop]
        omega
    _ = .ok (rise ++ fall ++ held ++ fade) := by
        rw [List.drop_drop, List.drop_drop, List.drop_drop, ← Nat.add_assoc, ← Nat.add_assoc, h,
          List.drop_length, List.append_nil]

def wholePart (q : ℚ) : Int :=
  q.num.tdiv q.den

theorem whole_part_eq_floor {q : ℚ} (h : 0 ≤ q) : wholePart q = ⌊q⌋ := by
  rw [wholePart, Int.tdiv_eq_ediv_of_nonneg (Rat.num_nonneg.mpr h), Rat.floor_def']

def scaleExactly (ratio : ℚ) (length : Int) : Int :=
  wholePart (length * ratio)

def fitExactly (n : Int) (s : Stages) : Stages :=
  s.fitBy (scaleExactly (n / s.total)) n

/-- If something is reduced, the products of the doubles have the whole parts of the exact ones. -/
def ScalesExactly (n : Int) (s : Stages) : Prop :=
  n < s.total → s.map (scale (Number.ofQuotient n s.total)) = s.map (scaleExactly (n / s.total))

theorem fit_eq_exactly {n : Int} {s t : Stages} (hscale : s.ScalesExactly n) (h : s.fit n = .ok t) :
    s.fitExactly n = t := by
  unfold fit at h
  dsimp only at h
  split_ifs at h with hlonger
  · cases h
    rw [fitExactly, fitBy, fitBy, if_pos hlonger, if_pos hlonger, hscale hlonger]
  · cases h
    exact if_neg hlonger

/-- Lengths that are at most shares of the note are together at most the note. -/
theorem shares_within {n a d r a' d' r' : Nat} (htotal : 0 < a + d + r)
    (ha : (a' : ℚ) ≤ a * (n / (a + d + r))) (hd : (d' : ℚ) ≤ d * (n / (a + d + r)))
    (hr : (r' : ℚ) ≤ r * (n / (a + d + r))) : a' + d' + r' ≤ n := by
  have hne : (a + d + r : ℚ) ≠ 0 := by
    norm_cast
    omega
  have hsum : (a' + d' + r' : ℚ) ≤ n := by
    calc (a' + d' + r' : ℚ)
        ≤ a * (n / (a + d + r)) + d * (n / (a + d + r)) + r * (n / (a + d + r)) := by linarith
      _ = (a + d + r) * (n / (a + d + r)) := by ring
      _ = n := mul_div_cancel₀ _ hne
  exact_mod_cast hsum

/-- Stages of which each keeps at most its share of the note fit into it. -/
theorem fit_by_within {reduce : Int → Int} {n a d r : Nat}
    (hreduce : ∀ l : Nat, ∃ l' : Nat, reduce l = l' ∧ (l' : ℚ) ≤ l * (n / (a + d + r))) :
    ∃ a' d' r' : Nat, (⟨a, d, r⟩ : Stages).fitBy reduce n = ⟨a', d', r'⟩ ∧ a' + d' + r' ≤ n := by
  by_cases hfits : a + d + r ≤ n
  · refine ⟨a, d, r, if_neg ?_, hfits⟩
    simp only [total]
    omega
  · have hlonger : (n : Int) < (⟨a, d, r⟩ : Stages).total := by
      simp only [total]
      omega
    obtain ⟨a', ha, hashare⟩ := hreduce a
    obtain ⟨d', hd, hdshare⟩ := hreduce d
    obtain ⟨r', hr, hrshare⟩ := hreduce r
    refine ⟨a', d', r', ?_, shares_within (by omega) hashare hdshare hrshare⟩
    rw [fitBy, if_pos hlonger, map, ha, hd, hr]

theorem scale_exactly_within {ratio : ℚ} (h : 0 ≤ ratio) (l : Nat) :
    ∃ l' : Nat, scaleExactly ratio l = l' ∧ (l' : ℚ) ≤ l * ratio := by
  have hshare : (0 : ℚ) ≤ (l : Int) * ratio := by positivity
  obtain ⟨l', hl'⟩ := Int.eq_ofNat_of_zero_le (Int.floor_nonneg.mpr hshare)
  refine ⟨l', (whole_part_eq_floor hshare).trans hl', ?_⟩
  have hfloor := Int.floor_le ((l : Int) * ratio)
  rw [hl'] at hfloor
  exact_mod_cast hfloor

theorem fit_exactly_within (n a d r : Nat) :
    ∃ a' d' r' : Nat, (⟨a, d, r⟩ : Stages).fitExactly n = ⟨a', d', r'⟩ ∧ a' + d' + r' ≤ n := by
  apply fit_by_within
  intro l
  have hratio : (0 : ℚ) ≤ n / (a + d + r) := by positivity
  simpa [total] using scale_exactly_within hratio l

end Stages

theorem ramp_length (first last : Float) (n : Nat) : (ramp first last n).length = n := by
  by_cases h : n ≤ 1
  · rw [ramp, if_pos h, List.length_replicate]
  · rw [ramp, if_neg h, List.length_append, List.length_map, List.length_range,
      List.length_singleton]
    omega

theorem rows_of_column {k : Nat} {column : List α} (h : column.length = k) :
    (Grid.rowsOf k [column]).flatten = column := by
  subst h
  induction column with
  | nil => rfl
  | cons x xs ih =>
    simpa [Grid.rowsOf, List.replicate_succ] using ih

/-- The ramps to a single level are one row. -/
theorem ramps_single {rampOf : Float → List Float} {x : Float} {k : Nat}
    (h : (rampOf x).length = k) : ramps rampOf ⟨[], [x]⟩ k = .row (rampOf x) := by
  rw [ramps, Grid.row, List.map_singleton, rows_of_column h, h]

theorem ramp_ends_number {v : Value} {x : Float} (h : asDouble notMultiple v = .ok x) :
    rampEnds v = .ok ⟨[], [x]⟩ := by
  have hgrid : gridOf v = .ok ⟨[], [v]⟩ := by
    cases v with
    | list items => cases h
    | _ => rfl
  have htext : isText v = false := by
    cases v with
    | text s => cases h
    | _ => rfl
  have hcell : [v].mapM (asDouble notMultiple) = .ok [x] := by
    simp [List.mapM_cons, h, bind, Except.bind, pure, Except.pure]
  by_cases hthing : isThing v = true
  · simp [rampEnds, hgrid, cellType, hthing, hcell, bind, Except.bind, pure, Except.pure]
  · simp [rampEnds, hgrid, cellType, hthing, htext, hcell, bind, Except.bind, pure, Except.pure]

theorem held_number {v : Value} {x : Float} (h : asDouble notMultiple v = .ok x) :
    heldLevels v = .ok (.row [x]) := by
  have hlevel : heldLevel v = .ok x := by
    cases v with
    | float y | int n | bool b => exact h
    | _ => cases h
  have hitems : heldLevels v = do return .row [← heldLevel v] := by
    cases v with
    | list items => cases h
    | _ => rfl
  rw [hitems, hlevel]
  rfl

/-- A sustained level that is a number is the same for all samples. -/
theorem sustained_number {v : Value} {x : Float} (h : asDouble notMultiple v = .ok x) :
    sustainedOf v = .steady ramp 0.0 1.0 x := by
  have hends := ramp_ends_number h
  have hheld := held_number h
  have hfall (k : Nat) : ramps (fun x => ramp 1.0 x k) ⟨[], [x]⟩ k = .row (ramp 1.0 x k) :=
    ramps_single (ramp_length ..)
  have hfade (k : Nat) : ramps (fun x => ramp x 0.0 k) ⟨[], [x]⟩ k = .row (ramp x 0.0 k) :=
    ramps_single (ramp_length ..)
  unfold sustainedOf
  split
  · cases h
    rfl
  · rw [hends, hheld]
    simp [Sustained.steady, hfall, hfade, bind, Except.bind, pure, Except.pure]

namespace Stages

/-- For a note of any length, stages of any length and a sustained level that is any number, the
stages reduced in the exact ratio fit into the note; they are those that the engine uses if its
doubles give the same whole parts. Their levels in a row are the levels of the note, each sample
is written by exactly one stage, and no sample keeps the level that it had before. -/
theorem stages_tile {v : Value} {level : Float} (hv : asDouble notMultiple v = .ok level)
    (n attack decay release : Nat) :
    ∃ a d r : Nat, (⟨attack, decay, release⟩ : Stages).fitExactly n = ⟨a, d, r⟩ ∧ a + d + r ≤ n ∧
      (∀ s, (⟨attack, decay, release⟩ : Stages).ScalesExactly n →
        (⟨attack, decay, release⟩ : Stages).fit n = .ok s → s = ⟨a, d, r⟩) ∧
      ∃ gains : List Float,
        gains = ramp 0.0 1.0 a ++ ramp 1.0 level d ++ List.replicate (n - a - d - r) level ++
          ramp level 0.0 r ∧
        gains.length = n ∧
        (⟨a, d, r⟩ : Stages).levels ramp 0.0 1.0 (sustainedOf v) n = .ok gains ∧
        (∀ i < n, ∃! stage, (⟨a, d, r⟩ : Stages).Writes n stage i) ∧
        ∀ old : List Float, old.length = n →
          (⟨a, d, r⟩ : Stages).writeAll n
            ((⟨a, d, r⟩ : Stages).given ramp 0.0 1.0 (sustainedOf v)) Stage.all old =
            .ok gains := by
  obtain ⟨a, d, r, hfit, hwithin⟩ := fit_exactly_within n attack decay release
  have hsum : a + d + (n - a - d - r) + r = n := by omega
  have hall (old : List Float) (hold : old.length = n) :
      (⟨a, d, r⟩ : Stages).writeAll n ((⟨a, d, r⟩ : Stages).given ramp 0.0 1.0 (sustainedOf v))
        Stage.all old = .ok (ramp 0.0 1.0 a ++ ramp 1.0 level d ++
          List.replicate (n - a - d - r) level ++ ramp level 0.0 r) := by
    rw [sustained_number hv]
    subst hold
    exact write_all_row ramp_length 0.0 1.0 level hsum
  refine ⟨a, d, r, hfit, hwithin, ?_, _, rfl, ?_, ?_, ?_, hall⟩
  · intro s hscale hs
    rw [← fit_eq_exactly hscale hs, hfit]
  · simp only [List.length_append, List.length_replicate, ramp_length]
    exact hsum
  · rw [levels_eq]
    exact hall _ List.length_replicate
  · intro i hi
    exact ⟨stageAt a d (n - a - d - r) i, (writes_iff_at hsum hi _).mpr rfl,
      fun stage => (writes_iff_at hsum hi stage).mp⟩

/-- The stages of a piano in a note that is too short for them; the sustained level is left with
one sample. -/
theorem short_note_tiled :
    (⟨441, 4410, 13230⟩ : Stages).fitExactly 3000 = ⟨73, 731, 2195⟩ ∧
      (⟨73, 731, 2195⟩ : Stages).levels ramp 0.0 1.0 (sustainedOf (.float 0.7)) 3000 =
        .ok (ramp 0.0 1.0 73 ++ ramp 1.0 0.7 731 ++ [0.7] ++ ramp 0.7 0.0 2195) := by
  have hfit : (⟨441, 4410, 13230⟩ : Stages).fitExactly 3000 = ⟨73, 731, 2195⟩ := by decide +kernel
  obtain ⟨a, d, r, hreduced, -, -, gains, hgains, -, hlevels, -⟩ :=
    stages_tile (v := .float 0.7) rfl 3000 441 4410 13230
  have hstages : (⟨a, d, r⟩ : Stages) = ⟨73, 731, 2195⟩ := hreduced.symm.trans hfit
  obtain ⟨ha, hd, hr⟩ : a = 73 ∧ d = 731 ∧ r = 2195 := by
    injection hstages with ha hd hr
    omega
  subst ha hd hr
  exact ⟨hfit, hgains ▸ hlevels⟩

example : ((⟨441, 4410, 13230⟩ : Stages).fit 3000).toOption = some ⟨73, 731, 2195⟩ := by
  decide +kernel

end Stages

end Melody.Sound
