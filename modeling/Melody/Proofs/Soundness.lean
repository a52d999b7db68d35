import Melody.Proofs.Playing
import Melody.Proofs.Waiting

/-!
# Why typed commands halt

Blocks, iterations and calls of typed commands halt for the reasons of the commands inside, of a
condition, or of the body that a call reads. So a step halts only for a reason that is covered, a
list of commands does, by induction on the depth its blocks and calls do, and so does a whole
melody.
-/

set_option autoImplicit false

namespace Melody.Performance

open Text Act

section Step

open Command

variable {program : Program} {V : Vocabulary} {E : Halt → Prop} (hV : Covers program V E)
  {inner : Inner} {depth : Nat}
  (hinner : ∀ {cs p}, Ready V cs depth → Sane V program p →
    (inner cs).Meets p E fun _ q => Sane V program q)
  {p : Performer} (hp : Sane V program p)

theorem meets_need_block {name : String} {b : Block} {Q : Block → Performer → Prop}
    (hb : b ≠ .missing) : (needBlock name b).Meets p E Q ↔ Q b p := by
  cases b with
  | missing => exact absurd rfl hb
  | value v => exact meets_answer _
  | commands cs => exact meets_answer _

theorem typed_not_missing {b : Block} (h : TypedBlock V b depth) : b ≠ .missing := by
  rintro rfl
  cases h

include hp

theorem Sane.set_scope {q : Performer} (hq : Sane V program q) :
    (setScope p.scope).Meets q E fun _ r => Sane V program r :=
  (meets_change _).mpr ⟨hq.program, hq.globals, hp.scope, hq.engine⟩

theorem own_scope_meets {m : Performance Unit}
    (hm : ∀ {q}, Sane V program q → m.Meets q E fun _ r => Sane V program r) :
    (inOwnScope m).Meets p E fun _ q => Sane V program q := by
  unfold inOwnScope
  rw [meets_bind, meets_read, meets_bind]
  apply (meets_change _).mpr
  rw [meets_bind]
  have hempty : Sane V program { p with scope := [] } :=
    ⟨hp.program, hp.globals, fun _ h => (by cases h), hp.engine⟩
  apply (hm hempty).mono
  intro _ q hq
  exact hp.set_scope hq

include hinner

theorem block_meets {b : Block} (hb : TypedBlock V b depth) :
    (runBlock inner b).Meets p E fun _ q => Sane V program q := by
  cases b with
  | commands cs => exact meets_bind.mpr ((meets_answer cs).mpr (hinner hb hp))
  | missing => cases hb
  | value v => cases hb

theorem loop_meets {times : Slot} {body : Block} (h : Typed V (.loop times body) depth) :
    (loop inner times body).Meets p E fun _ q => Sane V program q := by
  obtain ⟨⟨n, rfl⟩, hbody⟩ := h
  unfold loop
  rw [meets_bind, meets_need, meets_bind, meets_need_block (typed_not_missing hbody)]
  dsimp only
  rw [meets_bind, meets_say]
  apply meets_repeat _ 0 n.toNat hp
  intro i q hq
  unfold round
  dsimp only
  rw [meets_bind, meets_say]
  exact block_meets hinner hq hbody

include hV

theorem branch_meets {condition : Slot} {whenTrue whenFalse : Block}
    (h : Typed V (.branch condition whenTrue whenFalse) depth) :
    (branch inner condition whenTrue whenFalse).Meets p E fun _ q => Sane V program q := by
  obtain ⟨⟨s, rfl, hs⟩, htrue, hfalse⟩ := h
  have hpresent : whenFalse ≠ .missing := by
    rcases hfalse with rfl | hfalse
    · intro h
      cases h
    · exact typed_not_missing hfalse
  unfold branch
  rw [meets_bind, meets_need, meets_bind, meets_need_block (typed_not_missing htrue), meets_bind,
    meets_need_block hpresent]
  dsimp only
  rw [meets_bind]
  apply (holds_meets hV hp hs).mono
  rintro holding _ rfl
  split
  · rw [meets_bind, meets_say]
    exact block_meets hinner hp htrue
  · split
    · rename_i hfilled
      rw [meets_bind, meets_say]
      rcases hfalse with rfl | hfalse
      · cases hfilled
      · exact block_meets hinner hp hfalse
    · exact (meets_say _).mpr hp

omit hV hp hinner in
theorem show_note (name : List Char) (accidental : Option Char) :
    ∃ shown, showItem (noteValue name accidental) = .ok shown :=
  ⟨_, rfl⟩

theorem items_meets (name : String) {body : Block} (hbody : TypedBlock V body depth)
    {items : List Value} (hitems : ∀ v ∈ items, V.IsNote v) :
    (forItems inner (.text name) body items).Meets p E fun _ q => Sane V program q := by
  induction items generalizing p with
  | nil => exact (meets_answer ()).mpr hp
  | cons item rest ih =>
    have hitem := hitems item (by simp)
    -- the item is bound before the body is replaced, and stays bound for the rounds that follow
    have hp' := hp.bind (.text name) (.inr (.inr (.inr hitem)))
    obtain ⟨note, accidental, rfl, -⟩ := hitem
    obtain ⟨shown, hshown⟩ := show_note note accidental
    unfold forItems
    change (change (fun p =>
      { p with scope := p.scope.bind (.text name) (noteValue note accidental) })
      >>= _ : Performance Unit).Meets p E _
    rw [meets_bind, meets_change, hshown, of_except_bind, meets_bind, meets_say, meets_bind]
    apply (substitute_block_meets hV.toClosed hp' "comandos" body hbody).mono
    rintro body' _ ⟨rfl, hbody'⟩
    cases body' with
    | missing => cases hbody'
    | value v => cases hbody'
    | commands cs =>
      change (inner cs >>= _ : Performance Unit).Meets _ E _
      rw [meets_bind]
      apply (hinner hbody' hp').mono
      intro _ q hq
      exact ih hq fun v hv => hitems v (by simp [hv])

theorem iterate_meets (name : String) (collection : Value) (backwards : Bool) {body : Block}
    (hbody : TypedBlock V body depth) {items : List Value} (hitems : ∀ v ∈ items, V.IsNote v) :
    (iterate inner (.text name) collection backwards body items).Meets p E fun _ q =>
      Sane V program q := by
  have horder (line : String) {order : List Value} (horder : ∀ v ∈ order, V.IsNote v) :
      (do
        say line
        let before := (← read).scope
        forItems inner (.text name) body order
        setScope before : Performance Unit).Meets p E fun _ q => Sane V program q := by
    rw [meets_bind, meets_say, meets_bind, meets_read, meets_bind]
    apply (items_meets hV hinner hp name hbody horder).mono
    intro _ q hq
    exact hp.set_scope hq
  unfold iterate
  dsimp only
  split
  · rw [meets_bind, meets_say]
    exact horder _ fun v hv => hitems v (by simpa using hv)
  · exact horder _ hitems

omit hinner hp in
/-- The items of a collection that a variable or a chord gives are notes. -/
theorem collection_notes {v : Value} (hv : V.Held v) {items : List Value}
    (h : collectionItems? v = some items) : ∀ w ∈ items, V.IsNote w := by
  rcases hv with ⟨s, rfl, hs⟩ | ⟨n, rfl⟩ | ⟨notes, rfl, hnotes⟩ | ⟨name, accidental, rfl, -⟩
  · unfold collectionItems? at h
    dsimp only at h
    split_ifs at h with hchord
    cases h
    intro w hw
    obtain ⟨piece, hpiece, rfl⟩ := List.mem_map.mp hw
    exact hV.pieces hs hchord piece hpiece
  · cases h
  · cases h
    exact hnotes
  · cases h

omit hinner in
theorem collection_meets (name : String) :
    (findCollection (.text name)).Meets p E fun found q =>
      p = q ∧ ∀ v, found = some v → V.Held v := by
  unfold findCollection
  rw [meets_bind, meets_read]
  dsimp only
  change (ofExcept (.ok (some name)) >>= _ : Performance _).Meets p E _
  rw [of_except_bind, hp.globals, hp.chords]
  split
  · rename_i v hfind
    rw [meets_bind, meets_say, meets_pure]
    refine ⟨rfl, ?_⟩
    intro w hw
    cases hw
    exact hp.held hfind
  · rename_i v _ hfind
    rw [meets_bind, meets_say, meets_pure]
    refine ⟨rfl, ?_⟩
    intro w hw
    cases hw
    exact .inr (.inr (.inl (hV.chords hfind)))
  · contradiction
  · rw [meets_bind, meets_say, meets_pure]
    refine ⟨rfl, ?_⟩
    intro w hw
    cases hw

theorem for_each_meets {name collection reversed : Slot} {body : Block}
    (h : Typed V (.forEach name collection reversed body) depth) :
    (forEach inner name collection reversed body).Meets p E fun _ q => Sane V program q := by
  obtain ⟨⟨s, rfl, -⟩, ⟨c, rfl, -⟩, ⟨b, rfl⟩, hbody⟩ := h
  unfold forEach
  rw [meets_bind, meets_need, meets_bind, meets_need, meets_bind, meets_need, meets_bind,
    meets_need_block (typed_not_missing hbody), meets_bind]
  apply (collection_meets hV hp c).mono
  rintro found _ ⟨rfl, hfound⟩
  split
  · exact (meets_pure ()).mpr hp
  · rename_i v
    split
    · rename_i items hitems
      exact iterate_meets hV hinner hp s _ _ hbody (collection_notes hV (hfound v rfl) hitems)
    · exact (meets_say _).mpr hp

omit hinner in
theorem argument_meets {s : String} (hs : V.argument s) :
    (argumentValue (.text s)).Meets p E fun v q => p = q ∧ V.Held v := by
  have htext : V.Held (.text s) := .inl ⟨s, rfl, hs⟩
  unfold argumentValue
  rw [meets_bind, meets_read]
  change (ofExcept (.ok (some s)) >>= _ : Performance Value).Meets p E _
  rw [of_except_bind, hp.globals, hp.chords, hp.tempo]
  dsimp only
  split
  · rename_i v _ hfind
    exact (meets_pure _).mpr ⟨rfl, .inr (.inr (.inl (hV.chords hfind)))⟩
  · contradiction
  · rw [meets_pure]
    refine ⟨rfl, ?_⟩
    split
    · exact .inr (.inl hV.tempo)
    · exact htext

omit hinner in
theorem bind_parameters_meets {items : List Value}
    (hitems : ∀ a ∈ items, ∃ s, a = .text s ∧ V.argument s) (parameters : List String) (i : Nat)
    (hcount : i + parameters.length = items.length) :
    (bindParameters (.list items) i parameters).Meets p E fun _ q => Sane V program q := by
  induction parameters generalizing p i with
  | nil => exact (meets_answer ()).mpr hp
  | cons name rest ih =>
    have hi : i < items.length := by simp at hcount; omega
    obtain ⟨s, hs, hnote⟩ := hitems items[i] (List.getElem_mem hi)
    have hitem : (Value.list items).item i = .ok (.text s) := by
      simp [Value.item, List.getElem?_eq_getElem hi, hs]
    rw [bindParameters, hitem, of_except_bind, meets_bind]
    apply (argument_meets hV hp hnote).mono
    rintro v _ ⟨rfl, hv⟩
    rw [meets_bind, meets_change]
    apply ih (hp.bind (.text name) hv) (i + 1)
    simp at hcount
    omega

section Body

variable {name : String} {parameters : List String} {body : List Char}
  (hcallee : V.callee depth name)
  (hfind : program.functions.find? name = some (.user parameters body))

include hcallee hfind

omit hinner in
theorem read_body_meets :
    (readBody body).Meets p E fun cs q => Sane V program q ∧ Ready V cs depth := by
  have hcontext := hp.program.context
  cases hfault : (Command.read .diagnosing program.context body).fault with
  | some f =>
    have houtcome : (readBody body p).outcome = .error (.fault f) := by
      simp only [readBody, hcontext, hfault]
    refine ⟨?_, ?_⟩
    · intro r hr
      cases houtcome.symm.trans hr
      exact hV.body hcallee hfind hfault
    · intro cs hcs
      cases houtcome.symm.trans hcs
  | none =>
    have houtcome : (readBody body p).outcome =
        .ok (Command.read .diagnosing program.context body).commands := by
      simp only [readBody, hcontext, hfault]
    rw [meets_of_ok houtcome]
    -- of the program only the list of mistakes grows
    have hprogram : SameProgram program (readBody body p).state := by
      obtain ⟨ms, hms⟩ := hp.program
      exact ⟨(readBody body p).state.program.mistakes, by simp only [readBody, hms]⟩
    exact ⟨⟨hprogram, hp.globals, hp.scope, hp.engine⟩, hV.ready hcallee hfind hfault⟩

theorem run_body_meets : (runBody inner body).Meets p E fun _ q => Sane V program q := by
  unfold runBody
  rw [meets_bind]
  apply (read_body_meets hV hp hcallee hfind).mono
  rintro cs q ⟨hq, hcs⟩
  rw [meets_bind]
  apply (substitute_all_meets hV.toClosed hq cs hcs.2).mono
  rintro cs' _ ⟨rfl, hcs'⟩
  exact hinner ⟨hcs.1, hcs'⟩ hq

theorem call_body_meets {items : List Value}
    (hitems : ∀ a ∈ items, ∃ s, a = .text s ∧ V.argument s) :
    (callBody inner name parameters body (.list items)).Meets p E fun _ q =>
      Sane V program q := by
  unfold callBody
  change (ofExcept (.ok items.length) >>= _ : Performance Unit).Meets p E _
  rw [of_except_bind]
  dsimp only
  split
  · rename_i hcount
    rw [meets_bind]
    apply (bind_parameters_meets hV hp hitems parameters 0 (by omega)).mono
    intro _ q hq
    exact run_body_meets hV hinner hq hcallee hfind
  · exact (meets_say _).mpr hp

end Body

theorem call_meets {function arguments : Slot} (h : Typed V (.call function arguments) depth) :
    (call inner function arguments).Meets p E fun _ q => Sane V program q := by
  obtain ⟨⟨name, rfl, hcallee⟩, _, rfl, items, rfl, hitems⟩ := h
  unfold call
  rw [meets_bind, meets_need, meets_bind, meets_need]
  dsimp only
  change (ofExcept (.ok (some name)) >>= _ : Performance Value).Meets p E _
  rw [of_except_bind, meets_bind, meets_read, hp.program.functions, Option.bind_some]
  split
  · rename_i b _
    unfold callBuiltin
    rw [meets_bind, meets_read]
    dsimp only
    split
    · rw [meets_bind, meets_say]
      exact (meets_pure _).mpr hp
    · rw [meets_bind, meets_say]
      exact (meets_pure _).mpr hp
  · rename_i parameters body hfind
    rw [call_user_eq, meets_bind, meets_say, meets_bind]
    apply (own_scope_meets hp fun hq => call_body_meets hV hinner hq hcallee hfind hitems).mono
    intro _ q hq
    exact (meets_pure _).mpr hq
  · rw [meets_bind, meets_say]
    exact (meets_pure _).mpr hp

/-- A step of a typed command halts only for a reason in the set, if the commands inside do. -/
theorem step_meets {c : Command} (h : Typed V c depth) :
    (step inner c).Meets p E fun _ q => Sane V program q := by
  cases c with
  | play note accidental duration => exact play_note_meets hV hp h
  | playChord name notes duration => exact play_chord_meets hV hp h
  | pause duration => exact pause_meets hV hp h
  | envelope attack decay sustain release => exact set_envelope_meets hp h
  | waveform name => exact set_waveform_meets hp h
  | instrument name => exact set_instrument_meets hV hp h
  | branch condition whenTrue whenFalse => exact branch_meets hV hinner hp h
  | loop times body => exact loop_meets hinner hp h
  | forEach name collection reversed body => exact for_each_meets hV hinner hp h
  | call function arguments =>
    apply meets_bind.mpr
    apply (call_meets hV hinner hp h).mono
    intro _ q hq
    exact (meets_pure _).mpr hq
  | startParallel | endParallel =>
    apply meets_bind.mpr
    exact (meets_answer _).mpr ((meets_say _).mpr hp)
  | marked | other => cases h

end Step

section Run

open Command

variable {program : Program} {V : Vocabulary} {E : Halt → Prop} (hV : Covers program V E)
  {p : Performer} (hp : Sane V program p)

theorem announce_meets {c : Command} {depth : Nat} (h : Typed V c depth)
    {Q : Unit → Performer → Prop} (hq : Q () p) : (announce c).Meets p E Q := by
  have hkind : ∃ kind, kindOf c = .ok kind := by
    cases c with
    | marked | other => cases h
    | _ => exact ⟨_, rfl⟩
  obtain ⟨kind, hkind⟩ := hkind
  rw [announce, hkind, of_except_bind, meets_debug]
  exact hq

include hp

theorem open_meets : openParallel.Meets p E fun _ q => Sane V program q := by
  unfold openParallel
  rw [meets_bind, meets_debug, meets_bind]
  apply (hp.sound_tuned fun _ htuned => htuned.save).mono
  intro _ q hq
  exact hq.sound_tuned fun _ htuned => htuned.parallel _

theorem restore_meets : (sound Sound.Engine.restoreMode).Meets p E fun _ q => Sane V program q :=
  hp.sound_tuned fun _ htuned => htuned.restore

/-- The settings of a program never halt. -/
theorem settings_meets (hclosed : Closed program V) :
    applySettings.Meets p E fun _ q => Sane V program q := by
  have hmode {q : Performer} (hq : Sane V program q) (mode : Value) (line : String) :
      (do
        sound (Sound.Engine.setParallel mode)
        sayIfDebug line : Performance Unit).Meets q E fun _ r => Sane V program r := by
    rw [meets_bind]
    apply (hq.sound_tuned fun _ htuned => htuned.parallel mode).mono
    intro _ r hr
    exact meets_debug line |>.mpr hr
  have hwaveform {q : Performer} (hq : Sane V program q) (w line : String) (mode : Value) :
      (if w ≠ "" then do
          sound (Sound.Engine.chooseWaveform (.text w))
          sound (Sound.Engine.setParallel mode)
          sayIfDebug line
        else do
          sound (Sound.Engine.setParallel mode)
          sayIfDebug line : Performance Unit).Meets q E fun _ r => Sane V program r := by
    split
    · rw [meets_bind]
      apply (hq.sound_tuned fun _ htuned => htuned.waveform w).mono
      intro _ r hr
      exact hmode hr mode line
    · exact hmode hq mode line
  have henvelope {q : Performer} (hq : Sane V program q) {e : Envelope Float}
      (he : p.program.envelope = some e) :
      (sound (Sound.Engine.chooseEnvelope (e.map fun x => some (.float x)))).Meets q E fun _ r =>
        Sane V program r := by
    apply hq.sound
    intro shape _ htuned
    apply (htuned.envelope_given e).mono
    intro _ t ht
    obtain ⟨ms, hms⟩ := hp.program
    rw [hms] at he
    exact ⟨e, hclosed.settings he, ht⟩
  unfold applySettings
  rw [meets_bind, meets_read]
  dsimp only
  split
  · rw [meets_bind]
    apply (choose_instrument_meets hp hclosed _).mono
    intro _ q hq
    rw [meets_bind, meets_debug]
    split
    · rename_i e he
      rw [meets_bind]
      exact (henvelope hq he).mono fun _ r hr => hwaveform hr _ _ _
    · exact hwaveform hq _ _ _
  · split
    · rename_i e he
      rw [meets_bind]
      exact (henvelope hp he).mono fun _ r hr => hwaveform hr _ _ _
    · exact hwaveform hp _ _ _

/-- Beyond the run of its commands, a melody halts only while it waits for its sounds. -/
theorem perform_run {name : Value} {melody : List Command} (hclosed : Closed program V)
    (hplays : Plays program name melody) {R : Performer → Prop}
    (hrun : ∀ {q}, Sane V program q → (run melody).Meets q E fun _ r => R r)
    (hawait : ∀ {r}, R r → (sound Sound.Engine.awaitSounds).Meets r E fun _ t => R t) :
    (perform name).Meets p E fun found q => found = true ∧ R q := by
  obtain ⟨chosen, hname, hfind⟩ := hplays
  obtain ⟨ms, hms⟩ := hp.program
  have hmelodies : p.program.melodies = program.melodies := by rw [hms]
  unfold perform
  rw [meets_bind, meets_read, hmelodies]
  dsimp only
  rw [hname, of_except_bind, Option.bind_some, hfind]
  dsimp only
  rw [meets_bind, meets_say, meets_bind]
  apply (settings_meets hp hclosed).mono
  intro _ q hq
  rw [meets_bind]
  apply (hrun hq).mono
  intro _ r hr
  rw [meets_bind, meets_read]
  split
  · rw [meets_bind, meets_say, meets_bind]
    apply (hawait hr).mono
    intro _ t ht
    rw [meets_bind, meets_say]
    exact (meets_pure _).mpr ⟨rfl, ht⟩
  · rw [meets_bind, meets_say]
    exact (meets_pure _).mpr ⟨rfl, hr⟩

include hV

theorem finish_meets :
    (do awaitBlock; sound Sound.Engine.restoreMode : Performance Unit).Meets p E fun _ q =>
      Sane V program q := by
  unfold awaitBlock
  rw [meets_bind, meets_bind, meets_say]
  apply (hp.sound_tuned fun _ htuned => htuned.await hV.stalled).mono
  intro _ q hq
  exact restore_meets hq

theorem close_meets (isOpen : Bool) :
    (closeParallel isOpen).Meets p E fun _ q => Sane V program q := by
  unfold closeParallel
  rw [meets_bind, meets_debug]
  cases isOpen with
  | true => exact finish_meets hV hp
  | false => exact restore_meets hp

theorem run_meets {inner : Inner} {depth : Nat}
    (hinner : ∀ {cs p}, Ready V cs depth → Sane V program p →
      (inner cs).Meets p E fun _ q => Sane V program q)
    {cs : List Command} (hcs : ∀ c ∈ cs, Typed V c depth) (isOpen : Bool) :
    (runAll (step inner) isOpen cs).Meets p E fun _ q => Sane V program q := by
  induction cs generalizing p isOpen with
  | nil =>
    cases isOpen with
    | true => exact finish_meets hV hp
    | false => exact (meets_pure ()).mpr hp
  | cons c cs ih =>
    have hc := hcs c (by simp)
    have hrest {q : Performer} (hq : Sane V program q) (isOpen : Bool) :
        (runAll (step inner) isOpen cs).Meets q E fun _ r => Sane V program r :=
      ih hq (fun d hd => hcs d (by simp [hd])) isOpen
    rw [runAll, meets_bind]
    apply announce_meets hc
    split
    · rw [meets_bind]
      exact (open_meets hp).mono fun _ q hq => hrest hq true
    · rw [meets_bind]
      exact (close_meets hV hp isOpen).mono fun _ q hq => hrest hq false
    · have hcore : c.core = c := by
        cases c with
        | marked => cases hc
        | _ => rfl
      rw [meets_bind, hcore]
      exact (step_meets hV hinner hp hc).mono fun _ q hq => hrest hq isOpen

/-- Typed commands with some depth left halt only for a reason in the set. The induction is on the
depth: blocks and calls run one level below. -/
theorem execute_meets {depth : Nat} {cs : List Command} (hcs : Ready V cs depth) :
    (execute depth cs).Meets p E fun _ q => Sane V program q := by
  induction depth generalizing p cs with
  | zero => exact (meets_halt _).mpr (hV.deep (hcs.1 rfl))
  | succ depth ih =>
    exact run_meets hV hp (fun hds hq => ih hq hds) (ready_iff.mp hcs).2 false

/-- A melody of typed commands halts only for a reason in the set. -/
theorem perform_meets {name : Value} {melody : List Command} (hplays : Plays program name melody)
    (hready : Ready V melody depthLimit) :
    (perform name).Meets p E fun found _ => found = true := by
  apply (perform_run hp hV.toClosed hplays (fun hq => execute_meets hV hq hready) ?_).mono
  · intro _ _ h
    exact h.1
  · intro r hr
    exact hr.sound_tuned fun _ htuned => htuned.await hV.stalled

end Run

end Melody.Performance
