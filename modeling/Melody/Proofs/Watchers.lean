import Mathlib.Data.List.Nodup
import Melody.Proofs.Frames

/-!
# Active sounds and their watchers

The program and the watchers share the list of active sounds, and nothing decides in which order
they get to it. So the engine is looked at as a step relation: an operation of the program, during
which no watcher fires, or one watcher that is still pending, whichever it is. A history records
what happened to sounds on the way. The active sounds are those that the history leaves unsettled,
each of them has exactly one watcher pending, and the engine with its own clock, which lets
watchers fire when their time has come, does nothing that these steps cannot do.
-/

set_option autoImplicit false

namespace Melody.Sound

inductive Operation where
  | play (frequencies : List Value) (seconds volume : Value)
  | pause (seconds : Value)
  | setParallel (mode : Value)
  | saveMode
  | restoreMode
  | setTemporary (on : Bool)
  | chooseInstrument (name : Value)
  | chooseWaveform (name : Value)
  | chooseEnvelope (stages : Envelope (Option Value))
  | stopSounds

inductive Happening where
  | started (id : Nat)
  | fired (id : Nat)
  | cleared
deriving DecidableEq, Repr

namespace Operation

open Act

def act : Operation → Act Engine Unit
  | play frequencies seconds volume => Engine.play frequencies seconds volume
  | pause seconds => Engine.sleep seconds
  | setParallel mode => Engine.setParallel mode
  | saveMode => Engine.saveMode
  | restoreMode => Engine.restoreMode
  | setTemporary on => Engine.setTemporary on
  | chooseInstrument name => do
    let _ ← Engine.chooseInstrument name
  | chooseWaveform name => Engine.chooseWaveform name
  | chooseEnvelope stages => Engine.chooseEnvelope stages
  | stopSounds => Engine.stopSounds

def effect (op : Operation) (e : Engine) : Effect Engine Unit :=
  op.act { e with watchers := [] }

def alone (op : Operation) (e : Engine) : Engine :=
  { (op.effect e).state with watchers := e.watchers ++ (op.effect e).state.watchers }

def noted (overlapping : Bool) : Event → Option Happening
  | .started b => if overlapping then some (.started b.id) else none
  | _ => none

def happenings (op : Operation) (e : Engine) : List Happening :=
  match op with
  | stopSounds => [.cleared]
  | op => (op.effect e).events.filterMap (noted e.overlaps)

end Operation

namespace Engine

inductive Step (e : Engine) : List Happening → Engine → Prop where
  | operate (op : Operation) : Step e (op.happenings e) (op.alone e)
  | fire {w : Watcher} : w ∈ e.watchers → Step e [.fired w.sound] (e.fire w)

inductive Reaches : List Happening → Engine → Prop where
  | silence {e : Engine} : e.active = [] → e.watchers = [] → Reaches [] e
  | step {history more : List Happening} {e e' : Engine} :
      Reaches history e → Step e more e' → Reaches (history ++ more) e'

structure Quiet (e t : Engine) (more : List Happening) : Prop where
  active : t.active = e.active
  watchers : t.watchers = e.watchers
  sounds : e.sounds ≤ t.sounds
  none : more = []

structure Starts (e t : Engine) (more : List Happening) : Prop where
  active : t.active = e.active ++ [e.sounds + 1]
  watchers : ∃ due, t.watchers = e.watchers ++ [⟨e.sounds + 1, due⟩]
  sounds : t.sounds = e.sounds + 1
  one : more = [.started (e.sounds + 1)]

structure Clears (e t : Engine) (more : List Happening) : Prop where
  active : t.active = []
  watchers : t.watchers = e.watchers
  sounds : t.sounds = e.sounds
  one : more = [.cleared]

def Settles (e t alone : Engine) : Prop :=
  ∃ due : List Watcher, due.Sublist e.watchers ∧
    t = due.foldl Engine.fire { alone with watchers := e.watchers ++ alone.watchers }

theorem Settles.fires {e t alone : Engine} {due : List Watcher} (hdue : due.Sublist e.watchers)
    (hnone : alone.watchers = [])
    (h : t = due.foldl Engine.fire { alone with watchers := e.watchers }) :
    Settles e t alone := by
  refine ⟨due, hdue, ?_⟩
  rw [hnone, List.append_nil]
  exact h

theorem Settles.quiet {e t alone : Engine} (hnone : alone.watchers = [])
    (h : t = { alone with watchers := e.watchers }) : Settles e t alone :=
  .fires (List.nil_sublist _) hnone h

section Operations

open Act Operation

/-- A sleep either comes to nothing or lets time pass, whichever watchers are pending. -/
theorem sleep_cases (seconds : Value) (e : Engine) :
    (∀ ws, (sleep seconds { e with watchers := ws }).state = { e with watchers := ws } ∧
        (sleep seconds { e with watchers := ws }).events = []) ∨
      ∃ stop patience, ∀ ws,
        (sleep seconds { e with watchers := ws }).state =
            { passUntil stop { e with watchers := ws } with patience := patience } ∧
          (sleep seconds { e with watchers := ws }).events = [.slept seconds] := by
  unfold sleep
  cases sleepLength seconds with
  | error f => exact .inl fun ws => ⟨rfl, rfl⟩
  | ok length =>
    simp only [of_except_bind]
    split
    · exact .inl fun ws => ⟨rfl, rfl⟩
    · simp only [read_bind]
      cases e.patience with
      | none => exact .inr ⟨e.now + length, none, fun ws => ⟨rfl, rfl⟩⟩
      | some left =>
        cases left with
        | zero => exact .inl fun ws => ⟨rfl, rfl⟩
        | succ left => exact .inr ⟨e.now + length, some left, fun ws => ⟨rfl, rfl⟩⟩

/-- With no watcher pending, only time passes. -/
theorem sleep_alone (seconds : Value) {e : Engine} (h : e.watchers = []) (overlapping : Bool) :
    Quiet e (sleep seconds e).state ((sleep seconds e).events.filterMap (noted overlapping)) := by
  rcases sleep_cases seconds e with hsleep | ⟨stop, patience, hsleep⟩
  · obtain ⟨hstate, hevents⟩ := hsleep e.watchers
    rw [hstate, hevents]
    exact ⟨rfl, rfl, Nat.le_refl _, rfl⟩
  · obtain ⟨hstate, hevents⟩ := hsleep e.watchers
    have hpass : passUntil stop { e with watchers := e.watchers } = { e with now := stop } := by
      simp [passUntil, h]
    rw [hstate, hevents, hpass]
    exact ⟨rfl, rfl, Nat.le_refl _, rfl⟩

theorem start_alone (channels : List Int16 × List Int16) (seconds : Value) {e : Engine}
    (h : e.watchers = []) :
    Quiet e (start channels seconds e).state
        ((start channels seconds e).events.filterMap (noted e.overlaps)) ∨
      Starts e (start channels seconds e).state
        ((start channels seconds e).events.filterMap (noted e.overlaps)) := by
  unfold start
  rw [read_bind]
  cases sleepLength seconds with
  | error f => exact .inl ⟨rfl, rfl, Nat.le_refl _, rfl⟩
  | ok length =>
    rw [of_except_bind]
    cases hmode : e.overlaps with
    | true =>
      rw [if_pos (show (e.parallel.isTrue || e.temporary) = true from hmode)]
      exact .inr ⟨rfl, ⟨_, rfl⟩, rfl, rfl⟩
    | false =>
      rw [if_neg (by rw [show (e.parallel.isTrue || e.temporary) = false from hmode]; decide)]
      have hsleep := sleep_alone seconds (e := { e with sounds := e.sounds + 1 }) h false
      exact .inl ⟨hsleep.active, hsleep.watchers, Nat.le_of_succ_le hsleep.sounds, hsleep.none⟩

theorem rendered_alone (rendered : Except Fault (List Int16 × List Int16)) (seconds : Value)
    {e : Engine} (h : e.watchers = []) (r : Effect Engine Unit)
    (hr : r = (do start (← ofExcept rendered) seconds : Act Engine Unit) e) :
    Quiet e r.state (r.events.filterMap (noted e.overlaps)) ∨
      Starts e r.state (r.events.filterMap (noted e.overlaps)) := by
  subst hr
  cases rendered with
  | error f => exact .inl ⟨rfl, rfl, Nat.le_refl _, rfl⟩
  | ok channels => exact start_alone channels seconds h

theorem play_alone (frequencies : List Value) (seconds volume : Value) {e : Engine}
    (h : e.watchers = []) :
    Quiet e (play frequencies seconds volume e).state
        ((play frequencies seconds volume e).events.filterMap (noted e.overlaps)) ∨
      Starts e (play frequencies seconds volume e).state
        ((play frequencies seconds volume e).events.filterMap (noted e.overlaps)) := by
  rw [play_eq]
  exact rendered_alone _ seconds h _ rfl

structure Calm (m : Act Engine Unit) (e : Engine) : Prop where
  quiet : ∀ overlapping, Quiet { e with watchers := [] } (m { e with watchers := [] }).state
    ((m { e with watchers := [] }).events.filterMap (noted overlapping))
  settles : Settles e (m e).state (m { e with watchers := [] }).state

theorem calm_instrument (name : Value) (e : Engine) :
    Calm ((chooseInstrument name).andThen fun _ => answer ()) e := by
  unfold chooseInstrument
  cases instrument? name with
  | error f => exact ⟨fun _ => ⟨rfl, rfl, Nat.le_refl _, rfl⟩, .quiet rfl rfl⟩
  | ok found =>
    cases found with
    | none => exact ⟨fun _ => ⟨rfl, rfl, Nat.le_refl _, rfl⟩, .quiet rfl rfl⟩
    | some i => exact ⟨fun _ => ⟨rfl, rfl, Nat.le_refl _, rfl⟩, .quiet rfl rfl⟩

theorem calm_waveform (name : Value) (e : Engine) : Calm (chooseWaveform name) e := by
  unfold chooseWaveform
  cases name with
  | text s =>
    dsimp only
    cases Waveform.ofName? s with
    | none => exact ⟨fun _ => ⟨rfl, rfl, Nat.le_refl _, rfl⟩, .quiet rfl rfl⟩
    | some w => exact ⟨fun _ => ⟨rfl, rfl, Nat.le_refl _, rfl⟩, .quiet rfl rfl⟩
  | _ => exact ⟨fun _ => ⟨rfl, rfl, Nat.le_refl _, rfl⟩, .quiet rfl rfl⟩

theorem calm_restore (e : Engine) : Calm restoreMode e := by
  have hsaved (saved : List Value) : Calm restoreMode { e with saved := saved } := by
    cases saved with
    | nil => exact ⟨fun _ => ⟨rfl, rfl, Nat.le_refl _, rfl⟩, .quiet rfl rfl⟩
    | cons mode rest => exact ⟨fun _ => ⟨rfl, rfl, Nat.le_refl _, rfl⟩, .quiet rfl rfl⟩
  exact hsaved e.saved

theorem Quiet.alone {op : Operation} {e : Engine} {more : List Happening}
    (h : Quiet { e with watchers := [] } (op.effect e).state more) :
    Quiet e (op.alone e) more := by
  refine ⟨h.active, ?_, h.sounds, h.none⟩
  rw [Operation.alone, h.watchers, List.append_nil]

theorem Starts.alone {op : Operation} {e : Engine} {more : List Happening}
    (h : Starts { e with watchers := [] } (op.effect e).state more) :
    Starts e (op.alone e) more := by
  obtain ⟨due, hdue⟩ := h.watchers
  refine ⟨h.active, ⟨due, ?_⟩, h.sounds, h.one⟩
  rw [Operation.alone, hdue, List.nil_append]

theorem operate_cases (op : Operation) (e : Engine) :
    Quiet e (op.alone e) (op.happenings e) ∨ Starts e (op.alone e) (op.happenings e) ∨
      Clears e (op.alone e) (op.happenings e) := by
  cases op with
  | play frequencies seconds volume =>
    rcases play_alone frequencies seconds volume (e := { e with watchers := [] }) rfl with h | h
    · exact .inl (Quiet.alone h)
    · exact .inr (.inl (Starts.alone h))
  | pause seconds => exact .inl (Quiet.alone (sleep_alone seconds rfl e.overlaps))
  | restoreMode => exact .inl (Quiet.alone ((calm_restore e).quiet e.overlaps))
  | chooseInstrument name => exact .inl (Quiet.alone ((calm_instrument name e).quiet e.overlaps))
  | chooseWaveform name => exact .inl (Quiet.alone ((calm_waveform name e).quiet e.overlaps))
  | setParallel | saveMode | setTemporary | chooseEnvelope =>
    exact .inl (Quiet.alone ⟨rfl, rfl, Nat.le_refl _, rfl⟩)
  | stopSounds => exact .inr (.inr ⟨rfl, List.append_nil _, rfl, rfl⟩)

end Operations

end Engine

/-- The sound was started, and since then neither has its watcher fired nor were all sounds
stopped. -/
def Unsettled (history : List Happening) (id : Nat) : Prop :=
  ∃ before after, history = before ++ .started id :: after ∧
    .fired id ∉ after ∧ .cleared ∉ after

theorem unsettled_append (history : List Happening) (last : Happening) (id : Nat) :
    Unsettled (history ++ [last]) id ↔
      last = .started id ∨ Unsettled history id ∧ last ≠ .fired id ∧ last ≠ .cleared := by
  constructor
  · rintro ⟨before, after, heq, hfired, hcleared⟩
    rcases List.eq_nil_or_concat after with rfl | ⟨more, last', rfl⟩
    · exact .inl (List.append_inj_right' heq rfl |> List.singleton_inj.mp)
    · rw [List.concat_eq_append] at heq hfired hcleared
      rw [← List.cons_append, ← List.append_assoc] at heq
      obtain ⟨rfl, hlast⟩ := List.append_inj' heq rfl
      obtain rfl := List.singleton_inj.mp hlast
      simp only [List.mem_append, List.mem_singleton, not_or] at hfired hcleared
      exact .inr ⟨⟨before, more, rfl, hfired.1, hcleared.1⟩, Ne.symm hfired.2, Ne.symm hcleared.2⟩
  · rintro (rfl | ⟨⟨before, after, rfl, hfired, hcleared⟩, hne⟩)
    · exact ⟨history, [], rfl, List.not_mem_nil, List.not_mem_nil⟩
    · refine ⟨before, after ++ [last], by simp, ?_, ?_⟩
      · simpa [hfired] using Ne.symm hne.1
      · simpa [hcleared] using Ne.symm hne.2

namespace Engine

/-- The account of sounds: what is active is what the history leaves unsettled, and every active
sound is watched. Each sound has one watcher at most, and no watcher is ahead of the sounds. -/
structure Accounted (history : List Happening) (e : Engine) : Prop where
  nodup : e.active.Nodup
  active : ∀ id, id ∈ e.active ↔ Unsettled history id
  watched : ∀ id ∈ e.active, id ∈ e.watchers.map Watcher.sound
  distinct : (e.watchers.map Watcher.sound).Nodup
  known : ∀ id ∈ e.watchers.map Watcher.sound, id ≤ e.sounds

section Accounted

variable {history more : List Happening} {e t : Engine}

theorem Accounted.quiet (h : Accounted history e) (hstep : Quiet e t more) :
    Accounted (history ++ more) t := by
  obtain ⟨hactive, hwatchers, hsounds, rfl⟩ := hstep
  rw [List.append_nil]
  refine ⟨hactive ▸ h.nodup, hactive ▸ h.active, ?_, hwatchers ▸ h.distinct, ?_⟩
  · rw [hactive, hwatchers]
    exact h.watched
  · rw [hwatchers]
    exact fun id hid => Nat.le_trans (h.known id hid) hsounds

theorem Accounted.fresh (h : Accounted history e) :
    e.sounds + 1 ∉ e.watchers.map Watcher.sound :=
  fun hmem => Nat.not_succ_le_self _ (h.known _ hmem)

theorem Accounted.starts (h : Accounted history e) (hstep : Starts e t more) :
    Accounted (history ++ more) t := by
  obtain ⟨hactive, ⟨due, hwatchers⟩, hsounds, rfl⟩ := hstep
  have hnew : e.sounds + 1 ∉ e.active := fun hmem => h.fresh (h.watched _ hmem)
  constructor
  · rw [hactive, List.nodup_append]
    refine ⟨h.nodup, List.nodup_singleton _, ?_⟩
    rintro id hid _ hnext rfl
    exact hnew (List.mem_singleton.mp hnext ▸ hid)
  · intro id
    rw [hactive, unsettled_append, ← h.active id, List.mem_append, List.mem_singleton]
    simp [or_comm, eq_comm]
  · intro id hid
    rw [hactive, List.mem_append, List.mem_singleton] at hid
    rw [hwatchers, List.map_append, List.mem_append]
    rcases hid with hid | rfl
    · exact .inl (h.watched id hid)
    · exact .inr List.mem_cons_self
  · rw [hwatchers, List.map_append, List.nodup_append]
    refine ⟨h.distinct, List.nodup_singleton _, ?_⟩
    rintro id hid _ hnext rfl
    obtain rfl : id = e.sounds + 1 := List.mem_singleton.mp hnext
    exact h.fresh hid
  · intro id hid
    rw [hwatchers, List.map_append, List.mem_append] at hid
    rcases hid with hid | hid
    · exact hsounds ▸ Nat.le_succ_of_le (h.known id hid)
    · exact Nat.le_of_eq (hsounds ▸ List.mem_singleton.mp hid)

theorem Accounted.clears (h : Accounted history e) (hstep : Clears e t more) :
    Accounted (history ++ more) t := by
  obtain ⟨hactive, hwatchers, hsounds, rfl⟩ := hstep
  refine ⟨hactive ▸ List.nodup_nil, ?_, ?_, hwatchers ▸ h.distinct, ?_⟩
  · intro id
    rw [hactive, unsettled_append]
    simp
  · rw [hactive]
    exact fun id hid => absurd hid List.not_mem_nil
  · rw [hwatchers, hsounds]
    exact h.known

/-- Its watcher is the only one of a sound, so firing it takes no other away. -/
theorem fire_watchers (e : Engine) (w : Watcher) (id : Nat) :
    id ∈ (e.fire w).watchers.map Watcher.sound ↔
      id ∈ e.watchers.map Watcher.sound ∧ id ≠ w.sound := by
  simp only [fire, List.mem_map, List.mem_filter, bne_iff_ne]
  constructor
  · rintro ⟨v, ⟨hv, hne⟩, rfl⟩
    exact ⟨⟨v, hv, rfl⟩, hne⟩
  · rintro ⟨⟨v, hv, rfl⟩, hne⟩
    exact ⟨v, ⟨hv, hne⟩, rfl⟩

theorem Accounted.fire (h : Accounted history e) (w : Watcher) :
    Accounted (history ++ [.fired w.sound]) (e.fire w) := by
  have hactive (id : Nat) : id ∈ (e.fire w).active ↔ id ∈ e.active ∧ id ≠ w.sound := by
    rw [and_comm]
    exact h.nodup.mem_erase_iff
  constructor
  · exact h.nodup.erase _
  · intro id
    rw [hactive, unsettled_append, ← h.active id]
    simp [eq_comm]
  · intro id hid
    rw [hactive] at hid
    exact (fire_watchers e w id).mpr ⟨h.watched id hid.1, hid.2⟩
  · exact h.distinct.sublist (List.Sublist.map _ List.filter_sublist)
  · intro id hid
    exact h.known id ((fire_watchers e w id).mp hid).1

theorem Accounted.step (h : Accounted history e) (hstep : Step e more t) :
    Accounted (history ++ more) t := by
  cases hstep with
  | operate op =>
    rcases operate_cases op e with hop | hop | hop
    · exact h.quiet hop
    · exact h.starts hop
    · exact h.clears hop
  | fire hw => exact h.fire _

theorem Reaches.accounted (h : Reaches history e) : Accounted history e := by
  induction h with
  | silence hactive hwatchers =>
    refine ⟨hactive ▸ List.nodup_nil, ?_, ?_, ?_, ?_⟩
    · intro id
      simp [hactive, Unsettled]
    · simp [hactive]
    · simp [hwatchers]
    · simp [hwatchers]
  | step _ hstep ih => exact ih.step hstep

/-- A sound that is active after some watchers fired was active before, and none of them was its
own. -/
theorem active_after_fires (hnodup : e.active.Nodup) (ws : List Watcher) {id : Nat}
    (hid : id ∈ (ws.foldl Engine.fire e).active) :
    id ∈ e.active ∧ id ∉ ws.map Watcher.sound := by
  induction ws generalizing e with
  | nil => exact ⟨hid, List.not_mem_nil⟩
  | cons w ws ih =>
    obtain ⟨hmem, hlater⟩ := ih (hnodup.erase w.sound) hid
    obtain ⟨hne, hmem⟩ := hnodup.mem_erase_iff.mp hmem
    refine ⟨hmem, ?_⟩
    rw [List.map_cons, List.mem_cons, not_or]
    exact ⟨hne, hlater⟩

theorem Accounted.silent_after (h : Accounted history e) {ws : List Watcher}
    (hws : e.watchers.Perm ws) : (ws.foldl Engine.fire e).active = [] := by
  rw [List.eq_nil_iff_forall_not_mem]
  intro id hid
  obtain ⟨hmem, hnone⟩ := active_after_fires h.nodup ws hid
  exact hnone ((hws.map _).mem_iff.mp (h.watched id hmem))

/-- Watchers of different sounds that are pending can fire one after another. -/
theorem Reaches.fires (h : Reaches history e) {ws : List Watcher} (hws : ∀ w ∈ ws, w ∈ e.watchers)
    (hdistinct : (ws.map Watcher.sound).Nodup) :
    Reaches (history ++ ws.map fun w => .fired w.sound) (ws.foldl Engine.fire e) := by
  induction ws generalizing history e with
  | nil =>
    rw [List.map_nil, List.append_nil]
    exact h
  | cons w ws ih =>
    rw [List.map_cons, List.nodup_cons] at hdistinct
    have hfire := h.step (.fire (hws w List.mem_cons_self))
    have hrest : ∀ v ∈ ws, v ∈ (e.fire w).watchers := by
      intro v hv
      rw [Engine.fire, List.mem_filter, bne_iff_ne]
      refine ⟨hws v (List.mem_cons_of_mem w hv), ?_⟩
      rintro heq
      exact hdistinct.1 (heq ▸ List.mem_map_of_mem hv)
    have hall := ih hfire hrest hdistinct.2
    rwa [List.append_assoc] at hall

/-- Firing does not look at the clock. -/
theorem fires_clock (ws : List Watcher) (e : Engine) (now : Float) (patience : Option Nat) :
    ws.foldl Engine.fire { e with now := now, patience := patience } =
      { ws.foldl Engine.fire e with now := now, patience := patience } := by
  induction ws generalizing e with
  | nil => rfl
  | cons w ws ih => exact ih (e.fire w)

theorem sleep_settles (seconds : Value) (e : Engine) :
    Settles e (sleep seconds e).state (sleep seconds { e with watchers := [] }).state := by
  rcases sleep_cases seconds e with hsleep | ⟨stop, patience, hsleep⟩
  · rw [(hsleep []).1]
    exact .quiet rfl (hsleep e.watchers).1
  · rw [(hsleep []).1]
    have hdue : (e.watchers.filter fun w => w.due ≤ stop).Sublist e.watchers := List.filter_sublist
    exact .fires hdue rfl ((hsleep e.watchers).1.trans (fires_clock _ e stop patience).symm)

theorem start_settles (channels : List Int16 × List Int16) (seconds : Value) (e : Engine) :
    Settles e (start channels seconds e).state
      (start channels seconds { e with watchers := [] }).state := by
  unfold start
  rw [Act.read_bind, Act.read_bind]
  cases sleepLength seconds with
  | error f => exact .quiet rfl rfl
  | ok length =>
    rw [Act.of_except_bind]
    split
    · exact ⟨[], List.nil_sublist _, rfl⟩
    · exact sleep_settles seconds { e with sounds := e.sounds + 1 }

theorem rendered_settles (rendered : Except Fault (List Int16 × List Int16)) (seconds : Value)
    {e : Engine} (r t : Effect Engine Unit)
    (hr : r = (do start (← Act.ofExcept rendered) seconds : Act Engine Unit) e)
    (ht : t = (do start (← Act.ofExcept rendered) seconds : Act Engine Unit)
      { e with watchers := [] }) :
    Settles e r.state t.state := by
  subst hr ht
  cases rendered with
  | error f => exact .quiet rfl rfl
  | ok channels => exact start_settles channels seconds e

theorem play_settles (frequencies : List Value) (seconds volume : Value) (e : Engine) :
    Settles e (play frequencies seconds volume e).state
      (play frequencies seconds volume { e with watchers := [] }).state := by
  rw [play_eq]
  exact rendered_settles _ seconds _ _ rfl rfl

theorem act_settles (op : Operation) (e : Engine) :
    Settles e (op.act e).state (op.effect e).state := by
  cases op with
  | play frequencies seconds volume => exact play_settles frequencies seconds volume e
  | pause seconds => exact sleep_settles seconds e
  | restoreMode => exact (calm_restore e).settles
  | chooseInstrument name => exact (calm_instrument name e).settles
  | chooseWaveform name => exact (calm_waveform name e).settles
  | setParallel | saveMode | setTemporary | chooseEnvelope | stopSounds => exact .quiet rfl rfl

theorem Reaches.act (h : Reaches history e) (op : Operation) :
    ∃ more, Reaches (history ++ more) (op.act e).state := by
  obtain ⟨due, hdue, hstate⟩ := act_settles op e
  have halone : Reaches (history ++ op.happenings e) (op.alone e) := h.step (.operate op)
  have hpending : ∀ w ∈ due, w ∈ (op.alone e).watchers :=
    fun w hw => List.mem_append_left _ (hdue.subset hw)
  have hdistinct : (due.map Watcher.sound).Nodup := h.accounted.distinct.sublist (hdue.map _)
  refine ⟨op.happenings e ++ due.map fun w => .fired w.sound, ?_⟩
  rw [hstate, ← List.append_assoc]
  exact halone.fires hpending hdistinct

theorem Reaches.wait (n : Nat) (h : Reaches history e) :
    ∃ more, Reaches (history ++ more) (waitWithin n e).state := by
  induction n generalizing history e with
  | zero => exact ⟨[], by rwa [List.append_nil]⟩
  | succ n ih =>
    unfold waitWithin
    rw [Act.read_bind]
    split
    · exact ⟨[], by rwa [List.append_nil]⟩
    · obtain ⟨more, hsleep⟩ := h.act (.pause glance)
      cases hok : (sleep glance e).outcome with
      | error halt =>
        rw [Act.bind_of_error hok]
        exact ⟨more, hsleep⟩
      | ok _ =>
        rw [Act.bind_of_ok hok]
        obtain ⟨later, hlater⟩ := ih hsleep
        refine ⟨more ++ later, ?_⟩
        rw [← List.append_assoc]
        exact hlater

/-- However operations and watchers are interleaved, the list of active sounds has each sound once
and holds exactly those that were started to overlap and have not been settled since: neither has
their watcher fired nor were all sounds stopped. Each has one watcher pending, so that once the
pending watchers have fired, in whichever order, nothing is left to wait for. The engine with its
own clock stays within these steps, in each operation and in a wait. -/
theorem active_sounds_unsettled {history : List Happening} {e : Engine} (h : Reaches history e) :
    e.active.Nodup ∧
      (∀ id, id ∈ e.active ↔ Unsettled history id) ∧
      (∀ id ∈ e.active, (e.watchers.map Watcher.sound).count id = 1) ∧
      (∀ ws, e.watchers.Perm ws → (ws.foldl Engine.fire e).active = []) ∧
      (∀ op : Operation, ∃ more, Reaches (history ++ more) (op.act e).state) ∧
      ∃ more, Reaches (history ++ more) (awaitSounds e).state := by
  have haccount := h.accounted
  refine ⟨haccount.nodup, haccount.active, ?_, fun ws => haccount.silent_after, h.act, ?_⟩
  · intro id hid
    exact List.count_eq_one_of_mem haccount.distinct (haccount.watched id hid)
  · exact h.wait e.enoughGlances

def brief : Operation :=
  .play [.float 440.0] (.float 0.0001) usualVolume

def overlapping : Engine :=
  brief.alone (brief.alone { parallel := .bool true })

/-- The watcher of the later sound fires first, and only the earlier sound is left. -/
theorem active_sounds_unsettled_out_of_order : ∃ e,
    Reaches [.started 1, .started 2, .fired 2] e ∧ e.active = [1] ∧
      (e.watchers.map Watcher.sound).count 1 = 1 ∧
      Unsettled [.started 1, .started 2, .fired 2] 1 := by
  have hactive : overlapping.active = [1, 2] := by decide +kernel
  have hfirst : brief.happenings { parallel := .bool true } = [.started 1] := by decide +kernel
  have hsecond : brief.happenings (brief.alone { parallel := .bool true }) = [.started 2] := by
    decide +kernel
  have hstarted : Reaches [.started 1, .started 2] overlapping := by
    have hrun := ((Reaches.silence (e := { parallel := .bool true }) rfl rfl).step
      (.operate brief)).step (.operate brief)
    rwa [hfirst, hsecond] at hrun
  obtain ⟨w, hw, hsound⟩ := List.mem_map.mp
    (show 2 ∈ overlapping.watchers.map Watcher.sound by decide +kernel)
  have hreach := hstarted.step (.fire hw)
  rw [hsound] at hreach
  have hone : (overlapping.fire w).active = [1] := by
    rw [Engine.fire, hactive, hsound]
    rfl
  have hmem : 1 ∈ (overlapping.fire w).active := hone ▸ List.mem_cons_self
  obtain ⟨-, hunsettled, hwatched, -⟩ := active_sounds_unsettled hreach
  exact ⟨_, hreach, hone, hwatched 1 hmem, (hunsettled 1).mp hmem⟩

end Accounted

end Engine

end Melody.Sound
