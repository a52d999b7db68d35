import Melody.Proofs.Keywords
import Melody.Proofs.OneLine
import Melody.Proofs.Passage

/-!
# Global declarations

A program may open with declarations of the tempo, the instrument, the waveform and the envelope,
with blanks and line ends as one likes between their parts. On one line they are declarations
again. A search for the tempo, the waveform or the envelope finds the first declaration of its
kind, and every other search passes over it.
-/

set_option autoImplicit false

namespace Melody.Program

open Melody.Text Melody.Source
open Melody.Command.Line (blockSetting? isAnyDecimal)

abbrev Spacing := { gap : List Char // ∀ c ∈ gap, isBlank c }

def noGap : Spacing :=
  ⟨[], by simp⟩

abbrev Separation := { gap : List Char // gap ≠ [] ∧ ∀ c ∈ gap, isBlank c }

abbrev Digits := { cs : List Char // cs ≠ [] ∧ ∀ c ∈ cs, isDecimal c }

abbrev Decimal := { cs : List Char // cs ≠ [] ∧ ∀ c ∈ cs, isAnyDecimal c }

def stageNames : List String :=
  ["attack", "decay", "sustain", "release"]

theorem stage_word {name : String} (h : name ∈ stageNames) : IsWord name.toList := by
  have hall : ∀ n ∈ stageNames, n.toList ≠ [] ∧ ∀ c ∈ n.toList, isWordChar c := by decide
  exact ⟨(hall name h).1, (hall name h).2⟩

structure Stage where
  before : Spacing
  beforeSign : Spacing
  afterSign : Spacing
  number : Decimal
  beforeEnd : Spacing

inductive Declaration where
  | tempo (beforeSign afterSign : Spacing) (digits : Digits) (beforeEnd : Spacing)
  | instrument (between : Separation) (name : Word) (beforeEnd : Spacing)
  | waveform (between : Separation) (name : Word) (beforeEnd : Spacing)
  | envelope (beforeOpen : Spacing) (attack decay sustain release : Stage) (beforeClose : Spacing)

def Stage.text (name : String) (s : Stage) (rest : List Char) : List Char :=
  s.before.1 ++ (name.toList ++ (s.beforeSign.1 ++ '=' ::
    (s.afterSign.1 ++ (s.number.1 ++ (s.beforeEnd.1 ++ ';' :: rest)))))

def Declaration.text (rest : List Char) : Declaration → List Char
  | tempo beforeSign afterSign digits beforeEnd =>
    "tempo".toList ++ (beforeSign.1 ++ '=' ::
      (afterSign.1 ++ (digits.1 ++ (beforeEnd.1 ++ ';' :: rest))))
  | instrument between name beforeEnd =>
    "instrumento".toList ++ (between.1 ++ (name.1 ++ (beforeEnd.1 ++ ';' :: rest)))
  | waveform between name beforeEnd =>
    "forma_onda".toList ++ (between.1 ++ (name.1 ++ (beforeEnd.1 ++ ';' :: rest)))
  | envelope beforeOpen attack decay sustain release beforeClose =>
    "envelope".toList ++ (beforeOpen.1 ++ '{' :: attack.text "attack" (decay.text "decay"
      (sustain.text "sustain" (release.text "release" (beforeClose.1 ++ '}' :: rest)))))

def written : List (Spacing × Declaration) → List Char → List Char
  | [], rest => rest
  | (before, d) :: ds, rest => before.1 ++ d.text (written ds rest)

inductive Saying where
  | tempo (digits : List Char)
  | instrument (name : List Char)
  | waveform (name : List Char)
  | envelope (stages : EnvelopeText)

def Declaration.saying : Declaration → Saying
  | tempo _ _ digits _ => .tempo digits.1
  | instrument _ name _ => .instrument name.1
  | waveform _ name _ => .waveform name.1
  | envelope _ attack decay sustain release _ =>
    .envelope ⟨attack.number.1, decay.number.1, sustain.number.1, release.number.1⟩

def sayings (ds : List (Spacing × Declaration)) : List Saying :=
  ds.map fun d => d.2.saying

inductive Kind where
  | tempo
  | instrument
  | waveform
  | envelope
deriving DecidableEq

namespace Saying

def kind : Saying → Kind
  | tempo _ => .tempo
  | instrument _ => .instrument
  | waveform _ => .waveform
  | envelope _ => .envelope

def tempo? : Saying → Option (List Char)
  | tempo digits => some digits
  | _ => none

def waveform? : Saying → Option (List Char)
  | waveform name => some name
  | _ => none

def envelope? : Saying → Option EnvelopeText
  | envelope stages => some stages
  | _ => none

theorem tempo_none_iff (s : Saying) : s.tempo? = none ↔ s.kind ≠ .tempo := by
  cases s <;> simp [tempo?, kind]

theorem waveform_none_iff (s : Saying) : s.waveform? = none ↔ s.kind ≠ .waveform := by
  cases s <;> simp [waveform?, kind]

theorem envelope_none_iff (s : Saying) : s.envelope? = none ↔ s.kind ≠ .envelope := by
  cases s <;> simp [envelope?, kind]

end Saying

section OneLine

def Spacing.onLine (gap : Spacing) : Spacing :=
  ⟨oneGap gap.1, blank_of_one_gap gap.2⟩

def Separation.onLine (gap : Separation) : Separation :=
  ⟨oneGap gap.1, mt one_gap_nil_iff.mp gap.2.1, blank_of_one_gap gap.2.2⟩

def Stage.onLine (s : Stage) : Stage :=
  ⟨s.before.onLine, s.beforeSign.onLine, s.afterSign.onLine, s.number, s.beforeEnd.onLine⟩

def Declaration.onLine : Declaration → Declaration
  | tempo beforeSign afterSign digits beforeEnd =>
    .tempo beforeSign.onLine afterSign.onLine digits beforeEnd.onLine
  | instrument between name beforeEnd => .instrument between.onLine name beforeEnd.onLine
  | waveform between name beforeEnd => .waveform between.onLine name beforeEnd.onLine
  | envelope beforeOpen attack decay sustain release beforeClose =>
    .envelope beforeOpen.onLine attack.onLine decay.onLine sustain.onLine release.onLine
      beforeClose.onLine

theorem on_line_saying (d : Declaration) : d.onLine.saying = d.saying := by
  cases d <;> rfl

theorem solid_word {c : Char} (h : isWordChar c = true) : Solid c := by
  refine ⟨word_not_blank h, ?_, ?_⟩ <;>
  · rintro rfl
    cases h

theorem decimal_not_blank {c : Char} (h : isAnyDecimal c = true) : isBlank c = false := by
  have hall : ∀ n ∈ blankCodes, isAnyDecimal (Char.ofNat n) = false := by decide +kernel
  cases hb : isBlank c with
  | false => rfl
  | true =>
    have hnone := hall c.toNat (code_of_blank hb)
    rw [Char.ofNat_toNat, h] at hnone
    cases hnone

theorem solid_decimal {c : Char} (h : isAnyDecimal c = true) : Solid c := by
  refine ⟨decimal_not_blank h, ?_, ?_⟩ <;>
  · rintro rfl
    cases h

/-- A run of solid characters stays as it is. -/
theorem behind_run {gap w : List Char} (hg : ∀ c ∈ gap, isBlank c) (hne : w ≠ [])
    (hw : ∀ c ∈ w, Solid c) (rest : List Char) :
    behind (gap ++ (w ++ rest)) = oneGap gap ++ (w ++ behind rest) := by
  induction w generalizing gap with
  | nil => exact absurd rfl hne
  | cons c w ih =>
    rw [List.cons_append, behind_step hg (hw c List.mem_cons_self)]
    cases w with
    | nil => rfl
    | cons d w =>
      have hrest := ih (show ∀ b ∈ [], isBlank b by simp) (List.cons_ne_nil d w)
        fun e he => hw e (List.mem_cons_of_mem c he)
      rw [List.nil_append] at hrest
      rw [hrest]
      rfl

theorem behind_word {gap w : List Char} (hg : ∀ c ∈ gap, isBlank c) (hw : IsWord w)
    (rest : List Char) : behind (gap ++ (w ++ rest)) = oneGap gap ++ (w ++ behind rest) :=
  behind_run hg hw.nonempty (fun c hc => solid_word (hw.chars c hc)) rest

theorem behind_stage {name : String} (h : name ∈ stageNames) (s : Stage) (rest : List Char) :
    behind (s.text name rest) = s.onLine.text name (behind rest) := by
  have hnumber : ∀ c ∈ s.number.1, Solid c := fun c hc => solid_decimal (s.number.2.2 c hc)
  unfold Stage.text
  rw [behind_word s.before.2 (stage_word h), behind_step s.beforeSign.2 (by decide),
    behind_run s.afterSign.2 s.number.2.1 hnumber, behind_step s.beforeEnd.2 (by decide)]
  rfl

theorem behind_declaration (before : Spacing) (d : Declaration) (rest : List Char) :
    behind (before.1 ++ d.text rest) = before.onLine.1 ++ d.onLine.text (behind rest) := by
  cases d with
  | tempo beforeSign afterSign digits beforeEnd =>
    have hdigits : ∀ c ∈ digits.1, Solid c := by
      intro c hc
      apply solid_decimal
      simp [isAnyDecimal, digits.2.2 c hc]
    unfold Declaration.text
    rw [behind_word before.2 ⟨by decide, by decide⟩, behind_step beforeSign.2 (by decide),
      behind_run afterSign.2 digits.2.1 hdigits, behind_step beforeEnd.2 (by decide)]
    rfl
  | instrument between name beforeEnd | waveform between name beforeEnd =>
    unfold Declaration.text
    rw [behind_word before.2 ⟨by decide, by decide⟩, behind_word between.2.2 name.2,
      behind_step beforeEnd.2 (by decide)]
    rfl
  | envelope beforeOpen attack decay sustain release beforeClose =>
    unfold Declaration.text
    rw [behind_word before.2 ⟨by decide, by decide⟩, behind_step beforeOpen.2 (by decide),
      behind_stage (by decide), behind_stage (by decide), behind_stage (by decide),
      behind_stage (by decide),
      behind_step beforeClose.2 (by decide)]
    rfl

def onLines (ds : List (Spacing × Declaration)) : List (Spacing × Declaration) :=
  ds.map fun d => (d.1.onLine, d.2.onLine)

theorem behind_written (ds : List (Spacing × Declaration)) (rest : List Char) :
    behind (written ds rest) = written (onLines ds) (behind rest) := by
  induction ds with
  | nil => rfl
  | cons d ds ih =>
    rw [written, behind_declaration, ih]
    rfl

theorem declaration_start (d : Declaration) (rest : List Char) :
    ∃ c cs, d.text rest = c :: cs ∧ Solid c := by
  cases d <;> exact ⟨_, _, rfl, by decide⟩

def oneLine : List (Spacing × Declaration) → List (Spacing × Declaration)
  | [] => []
  | (_, d) :: ds => (noGap, d.onLine) :: onLines ds

theorem flatten_written {ds : List (Spacing × Declaration)} (h : ds ≠ []) (rest : List Char) :
    flatten (written ds rest) = written (oneLine ds) (behind rest) := by
  obtain ⟨⟨before, d⟩, ds, rfl⟩ := List.exists_cons_of_ne_nil h
  obtain ⟨c, cs, hstart, hc⟩ := declaration_start d (written ds rest)
  have hline := behind_declaration noGap d (written ds rest)
  have hfirst := behind_step (show ∀ b ∈ [], isBlank b by simp) hc cs
  rw [noGap, List.nil_append] at hline
  rw [List.nil_append] at hfirst
  rw [hstart, hfirst] at hline
  rw [written, hstart, flatten_gap before.2 hc]
  refine hline.trans ?_
  rw [behind_written]
  rfl

theorem sayings_one_line (ds : List (Spacing × Declaration)) :
    sayings (oneLine ds) = sayings ds := by
  cases ds with
  | nil => rfl
  | cons d ds =>
    simp only [sayings, oneLine, onLines, List.map_cons, List.map_map, on_line_saying,
      Function.comp_def]

end OneLine

def Ignores (keyword : List Char) (follow : Follow) : Kind → Prop
  | .tempo => keyword <:+ "tempo".toList → follow.accepts '=' = false
  | .instrument => ¬ keyword <:+ "instrumento".toList
  | .waveform => ¬ keyword <:+ "forma_onda".toList
  | .envelope => (keyword <:+ "envelope".toList → follow.accepts '{' = false) ∧
      ∀ name ∈ stageNames, keyword <:+ name.toList → follow.accepts '=' = false

instance (keyword : List Char) (follow : Follow) : (kind : Kind) →
    Decidable (Ignores keyword follow kind)
  | .tempo => inferInstanceAs (Decidable (_ → _))
  | .instrument | .waveform => inferInstanceAs (Decidable (¬ _))
  | .envelope => inferInstanceAs (Decidable (_ ∧ _))

section Skip

variable {α : Type} {recognise : List Char → Option (α × List Char)} {keyword : List Char}
  {follow : Follow} (hk : Keyed keyword follow.Sees recognise)

include hk

theorem skips_stage {name : String} (hname : name ∈ stageNames)
    (h : keyword <:+ name.toList → follow.accepts '=' = false) (s : Stage) (rest : List Char) :
    Skips recognise (s.text name rest) rest := by
  unfold Stage.text
  refine (skips_gap hk s.before.2 _).trans ?_
  refine (skips_word_sign hk (stage_word hname).chars s.beforeSign.2 (by decide) (by decide) h
    _).trans ?_
  refine (skips_gap hk s.afterSign.2 _).trans ?_
  refine (skips_number hk s.number.2.2 _).trans ?_
  exact (skips_gap hk s.beforeEnd.2 _).trans (skips_sign hk (by decide) rest)

variable (hend : follow.accepts ';' = false)

include hend

theorem skips_named {word : List Char} (hword : IsWord word) (h : ¬ keyword <:+ word)
    (between : Separation) (name : Word) (beforeEnd : Spacing) (rest : List Char) :
    Skips recognise (word ++ (between.1 ++ (name.1 ++ (beforeEnd.1 ++ ';' :: rest)))) rest := by
  have hstops : Stops isWordChar (between.1 ++ (name.1 ++ (beforeEnd.1 ++ ';' :: rest))) := by
    obtain ⟨b, gap, hgap⟩ := List.exists_cons_of_ne_nil between.2.1
    rw [hgap]
    exact stops_cons (blank_not_word (between.2.2 b (by rw [hgap]; exact List.mem_cons_self)))
  refine (skips_word hk hword.chars hstops fun hsuffix => absurd hsuffix h).trans ?_
  refine (skips_gap hk between.2.2 _).trans ?_
  exact skips_word_sign hk name.2.chars beforeEnd.2 (by decide) (by decide) (fun _ => hend) rest

theorem skips_declaration {d : Declaration} (h : Ignores keyword follow d.saying.kind)
    (rest : List Char) : Skips recognise (d.text rest) rest := by
  cases d with
  | tempo beforeSign afterSign digits beforeEnd =>
    have hdigits : ∀ c ∈ digits.1, isAnyDecimal c := by
      intro c hc
      simp [isAnyDecimal, digits.2.2 c hc]
    refine (skips_word_sign hk (by decide) beforeSign.2 (by decide) (by decide) h _).trans ?_
    refine (skips_gap hk afterSign.2 _).trans ?_
    refine (skips_number hk hdigits _).trans ?_
    exact (skips_gap hk beforeEnd.2 _).trans (skips_sign hk (by decide) rest)
  | instrument between name beforeEnd | waveform between name beforeEnd =>
    exact skips_named hk hend ⟨by decide, by decide⟩ h between name beforeEnd rest
  | envelope beforeOpen attack decay sustain release beforeClose =>
    obtain ⟨hopen, hstages⟩ := h
    have hstage {name : String} (hname : name ∈ stageNames) (s : Stage) (rest : List Char) :
        Skips recognise (s.text name rest) rest :=
      skips_stage hk hname (hstages name hname) s rest
    refine (skips_word_sign hk (by decide) beforeOpen.2 (by decide) (by decide) hopen _).trans ?_
    refine (hstage (by decide) attack _).trans ((hstage (by decide) decay _).trans ?_)
    refine (hstage (by decide) sustain _).trans ((hstage (by decide) release _).trans ?_)
    exact (skips_gap hk beforeClose.2 _).trans (skips_sign hk (by decide) rest)

theorem skips_written (h : ∀ kind, Ignores keyword follow kind) (ds : List (Spacing × Declaration))
    (rest : List Char) : Skips recognise (written ds rest) rest := by
  induction ds with
  | nil => exact .refl rest
  | cons d ds ih =>
    exact (skips_gap hk d.1.2 _).trans ((skips_declaration hk hend (h _) _).trans ih)

/-- A search finds the first declaration of its kind, or else something behind the declarations. -/
theorem search_written {pick : Saying → Option α} {k : Kind}
    (hpick : ∀ s, pick s = none ↔ s.kind ≠ k)
    (hhit : ∀ d rest item, pick d.saying = some item →
      ∃ more, recognise (Declaration.text rest d) = some (item, more))
    (hskip : ∀ kind, kind ≠ k → Ignores keyword follow kind)
    (ds : List (Spacing × Declaration)) (rest : List Char) :
    searchFirst recognise (written ds rest) =
      ((sayings ds).findSome? pick).or (searchFirst recognise rest) := by
  induction ds with
  | nil => rfl
  | cons d ds ih =>
    rw [written, (skips_gap hk d.1.2 _).search]
    have hsayings : sayings (d :: ds) = d.2.saying :: sayings ds := rfl
    rw [hsayings, List.findSome?_cons]
    cases hsaid : pick d.2.saying with
    | some item =>
      obtain ⟨more, hmore⟩ := hhit d.2 (written ds rest) item hsaid
      rw [search_hit hmore]
      rfl
    | none => rw [(skips_declaration hk hend (hskip _ ((hpick _).mp hsaid)) _).search, ih]

end Skip

section Hits

variable (rest : List Char)

theorem stops_gap {p : Char → Bool} (hp : ∀ c, isBlank c = true → p c = false) {gap : List Char}
    (hg : ∀ c ∈ gap, isBlank c) {s : Char} (hs : p s = false) : Stops p (gap ++ s :: rest) := by
  cases gap with
  | nil => exact stops_cons hs
  | cons b gap => exact stops_cons (hp b (hg b List.mem_cons_self))

theorem stops_run {p : Char → Bool} {w : List Char} (hne : w ≠ []) (hw : ∀ c ∈ w, p c = false) :
    Stops p (w ++ rest) := by
  obtain ⟨c, w, rfl⟩ := List.exists_cons_of_ne_nil hne
  exact stops_cons (hw c List.mem_cons_self)

theorem blank_not_decimal (c : Char) (h : isBlank c = true) : isAnyDecimal c = false := by
  by_contra hdecimal
  rw [decimal_not_blank (by simpa using hdecimal)] at h
  cases h

theorem stage_found {name : String} (h : name ∈ stageNames) (s : Stage) :
    blockSetting? name (s.text name rest) = some (s.number.1, rest) := by
  have hname := stage_word h
  have hstart : Stops isBlank (name.toList ++ (s.beforeSign.1 ++ '=' ::
      (s.afterSign.1 ++ (s.number.1 ++ (s.beforeEnd.1 ++ ';' :: rest))))) :=
    stops_run _ hname.nonempty fun c hc => word_not_blank (hname.chars c hc)
  have hnumber : Stops isBlank (s.number.1 ++ (s.beforeEnd.1 ++ ';' :: rest)) :=
    stops_run _ s.number.2.1 fun c hc => decimal_not_blank (s.number.2.2 c hc)
  have hrun := run_append s.number.2.1 s.number.2.2
    (stops_gap rest blank_not_decimal s.beforeEnd.2 (show isAnyDecimal ';' = false by decide))
  unfold blockSetting? Stage.text
  rw [skip_gap s.before.2 hstart, drop_text_append]
  simp only [Option.bind_eq_bind, Option.bind_some]
  rw [skip_gap s.beforeSign.2 (stops_cons (by decide)), dropText?, if_pos rfl, dropText?,
    Option.bind_some, skip_gap s.afterSign.2 hnumber, hrun, Option.bind_some,
    skip_gap s.beforeEnd.2 (stops_cons (by decide)), dropText?, if_pos rfl, dropText?]
  rfl

theorem tempo_found {d : Declaration} {digits : List Char} (h : d.saying.tempo? = some digits) :
    ∃ more, tempoEquals? (d.text rest) = some (digits, more) := by
  cases d with
  | tempo beforeSign afterSign digits beforeEnd =>
    cases h
    have hblank (c : Char) (hc : isBlank c = true) : isDecimal c = false := by
      have hnone := blank_not_decimal c hc
      simp only [isAnyDecimal, Bool.or_eq_false_iff] at hnone
      exact hnone.1
    have hdigits : Stops isBlank (digits.1 ++ (beforeEnd.1 ++ ';' :: rest)) := by
      apply stops_run _ digits.2.1
      intro c hc
      by_contra hb
      have hnone := hblank c (by simpa using hb)
      rw [digits.2.2 c hc] at hnone
      cases hnone
    have hrun := run_append digits.2.1 digits.2.2
      (stops_gap rest hblank beforeEnd.2 (show isDecimal ';' = false by decide))
    refine ⟨beforeEnd.1 ++ ';' :: rest, ?_⟩
    unfold tempoEquals? Declaration.text
    rw [drop_text_append]
    simp only [Option.bind_eq_bind, Option.bind_some]
    rw [skip_gap beforeSign.2 (stops_cons (by decide)), dropText?, if_pos rfl, dropText?,
      Option.bind_some, skip_gap afterSign.2 hdigits]
    exact hrun
  | instrument | waveform | envelope => cases h

/-- A keyword, blanks and a word. -/
theorem named_found (word : List Char) (between : Separation) (name : Word) (beforeEnd : Spacing) :
    (dropText? word (word ++ (between.1 ++ (name.1 ++ (beforeEnd.1 ++ ';' :: rest))))
      >>= fun more =>
      blanks? more >>= word?) = some (name.1, beforeEnd.1 ++ ';' :: rest) := by
  have hname : Stops isBlank (name.1 ++ (beforeEnd.1 ++ ';' :: rest)) :=
    stops_run _ name.2.nonempty fun c hc => word_not_blank (name.2.chars c hc)
  have hblanks : blanks? (between.1 ++ (name.1 ++ (beforeEnd.1 ++ ';' :: rest))) =
      some (name.1 ++ (beforeEnd.1 ++ ';' :: rest)) := by
    obtain ⟨b, gap, hgap⟩ := List.exists_cons_of_ne_nil between.2.1
    have hblank := between.2.2
    rw [hgap] at hblank ⊢
    rw [List.cons_append, blanks?, if_pos (hblank b List.mem_cons_self),
      skip_gap (fun c hc => hblank c (List.mem_cons_of_mem b hc)) hname]
  rw [drop_text_append]
  simp only [Option.bind_eq_bind, Option.bind_some]
  rw [hblanks, Option.bind_some]
  exact word_append name.2
    (stops_gap rest (fun _ => blank_not_word) beforeEnd.2 (show isWordChar ';' = false by decide))

theorem waveform_found {d : Declaration} {name : List Char} (h : d.saying.waveform? = some name) :
    ∃ more, waveform? (d.text rest) = some (name, more) := by
  cases d with
  | waveform between name beforeEnd =>
    cases h
    exact ⟨_, named_found rest _ between name beforeEnd⟩
  | tempo | instrument | envelope => cases h

theorem envelope_found {d : Declaration} {stages : EnvelopeText}
    (h : d.saying.envelope? = some stages) :
    ∃ more, envelope? (d.text rest) = some (stages, more) := by
  cases d with
  | envelope beforeOpen attack decay sustain release beforeClose =>
    cases h
    have hclose : Stops isBlank ('}' :: rest) := stops_cons (by decide)
    refine ⟨rest, ?_⟩
    rw [envelope_eq]
    unfold Declaration.text inside? settings?
    rw [drop_text_append]
    simp only [Option.bind_eq_bind, Option.bind_some]
    rw [skip_gap beforeOpen.2 (stops_cons (by decide)), dropText?, if_pos rfl, dropText?,
      Option.bind_some]
    rw [stage_found _ (by decide), Option.bind_some, stage_found _ (by decide), Option.bind_some,
      stage_found _ (by decide), Option.bind_some, stage_found _ (by decide), Option.bind_some,
      Option.pure_def, Option.bind_some, skip_gap beforeClose.2 hclose]
    rfl
  | tempo | instrument | waveform => cases h

end Hits

end Melody.Program
