import Melody.Proofs.Spread

/-!
# Which passages are read as they are written

A passage is read faithfully if every text of it gives its commands. The searches go through a
text one after the other, so a passage is read faithfully exactly if its blocks nest to a depth of
two at most and stand in the order of the searches, and its chords and numbers can be read.
-/

set_option autoImplicit false

namespace Melody.Command

open Melody.Text

def readers (manner : Manner) (ctx : Context) : Readers :=
  ⟨read manner ctx, readLines manner ctx⟩

variable {manner : Manner} {ctx : Context}

theorem read_written {after : Bool} {p : Passage} {cs : List Char} (h : Written after p cs) :
    read manner ctx cs = stages (readers manner ctx) searchOrder cs := by
  rw [read_eq, ← readers, read_searches_eq, no_parallels h, readParallels, List.drop_zero,
    Reading.empty_and_then, searchOrder]

theorem written_shape_trim {p : Passage} {cs : List Char} (h : Written false p cs) (shape : Shape) :
    Written false p (shape.trim cs) := by
  cases shape with
  | branch => exact (written_strip h).1
  | forEach => exact (written_strip h).1
  | loop => exact h

/-- Behind lines, the searches from some stage on give the commands of an ordered passage. -/
theorem stages_faithful {p : Passage} (hf : p.Filled) (hd : p.depth ≤ 2)
    (hr : p.readable ctx) {stage : Nat} (ho : p.ordered stage) {after : Bool}
    {cs front : List Char} {fs : List Command} (hw : Written after p cs)
    (hfront : Front manner ctx front fs) :
    (stages (readers manner ctx) (searchOrder.drop stage) (front ++ cs)).Gives
      (fs ++ p.commands ctx) := by
  -- a line moves to the front; a block ends the stage of its shape and starts a new front
  induction p using Passage.deep generalizing stage after cs front fs with
  | stop =>
    cases hw with
    | stop hgap =>
      have hfront := hfront.gap hgap.blank
      have hskip : stages (readers manner ctx) (searchOrder.drop stage ++ []) (front ++ cs) =
          readLines manner ctx (front ++ cs) := stages_skip fun shape _ => hfront.misses _ shape []
      rw [List.append_nil] at hskip
      rw [hskip, Passage.commands, List.append_nil]
      exact hfront.gives
  | line s rest ih =>
    cases hw with
    | @line _ gap tail _ _ hgap hrest =>
      have hmove : front ++ (gap ++ s.text tail) = front ++ gap ++ s.text [] ++ tail := by
        rw [(statement_puts s).split, List.append_assoc, List.append_assoc]
      rw [hmove, Passage.commands, ← List.singleton_append, ← List.append_assoc]
      obtain ⟨hs, hr⟩ := Bool.and_eq_true_iff.mp hr
      exact ih hf hd hr ho hrest ((hfront.gap hgap.blank).line hs)
  | block p shape inners rest hopens ihs ih =>
    obtain ⟨hstage, hoi, hor⟩ := (hopens.ordered stage).mp ho
    obtain ⟨hcounted, hri, hrr⟩ := (hopens.readable ctx).mp hr
    obtain ⟨hdi, hdr⟩ := (hopens.depth 1).mp hd
    obtain ⟨hfi, hfr⟩ := hopens.filled hf
    obtain ⟨skipped, hsplit, hskipped⟩ := order_split shape stage hstage
    have hskip : ∀ other ∈ skipped, Misses (seek (readers manner ctx) other) (front ++ cs) [] := by
      intro other hother
      have hlacks : p.has other = false :=
        lacks_of_ordered ((hopens.ordered _).mpr ⟨le_rfl, hoi, hor⟩) ((hskipped other).mp hother).2
      exact misses_append.mpr ⟨hfront.misses _ other _, written_misses hw hlacks []⟩
    rw [hsplit, stages_skip hskip]
    obtain ⟨gap, texts, tail, rfl, hgap, htexts, htail⟩ := hopens.written hw
    obtain ⟨r, c, hseek, hcommands, hgives⟩ :=
      hopens.seek htexts (readers manner ctx) ctx hdi fun inner hmem => (hfi inner hmem).1
    have hbody : ∀ inner ∈ inners, ∀ text, Written false inner text →
        (read manner ctx (shape.trim text)).Gives (inner.commands ctx) := by
      intro inner hmem text htext
      have htrim := written_shape_trim htext shape
      rw [read_written htrim]
      exact ihs inner hmem (hfi inner hmem).2 (Nat.le_succ_of_le (hdi inner hmem))
        (hri inner hmem) (ordered_earlier (hoi inner hmem) (Nat.zero_le _)) htrim front_nil
    have hown : r.Gives [c] := hgives.mpr ⟨hcounted, ((List.forall₂_and_left _ _).mpr
      ⟨hbody, htexts⟩).imp fun inner text h => h.1 text h.2⟩
    have hfront := hfront.gap hgap.blank
    have hseek := hseek tail
    rw [(hopens.puts htexts).split] at hseek ⊢
    rw [← List.append_assoc front, stages_hit (hfront.misses _ shape _) hseek
      (written_misses htail (lacks_of_ordered hor (Nat.lt_succ_self _)) []), hcommands]
    exact hfront.gives.and_then (hown.and_then (ih hfr hdr hrr hor htail front_nil))

/-- A sequence of commands has one first block. -/
theorem first_block {front front' behind behind' : List Command} {c c' : Command}
    (h : front ++ c :: behind = front' ++ c' :: behind')
    (hfront : ∀ c ∈ front, c.shape? = none) (hfront' : ∀ c ∈ front', c.shape? = none)
    (hc : c.shape? ≠ none) (hc' : c'.shape? ≠ none) :
    front = front' ∧ c = c' ∧ behind = behind' := by
  induction front generalizing front' with
  | nil =>
    cases front' with
    | nil => exact ⟨rfl, List.cons.inj h⟩
    | cons d front' =>
      rw [(List.cons.inj h).1] at hc
      exact absurd (hfront' d (by simp)) hc
  | cons d front ih =>
    cases front' with
    | nil =>
      rw [← (List.cons.inj h).1] at hc'
      exact absurd (hfront d (by simp)) hc'
    | cons d' front' =>
      obtain ⟨hd, htail⟩ := List.cons.inj h
      obtain ⟨hsame, hblock⟩ := ih htail (fun c hmem => hfront c (by simp [hmem]))
        fun c hmem => hfront' c (by simp [hmem])
      exact ⟨by rw [hd, hsame], hblock⟩

theorem gives_flat {cs : List Char} {given : List Command}
    (h : (readLines manner ctx cs).Gives given) : ∀ c ∈ given, c.shape? = none := by
  rw [← h.commands]
  exact read_lines_flat manner ctx cs

/-- A find gives the lines in front of it and then a block of its shape. -/
theorem finds_give {shape : Shape} {cs : List Char} {place : Nat} {found : Found Reading}
    {finds : List (Found Reading)} {after : Reading} {given : List Command}
    (h : ((readFinds (readers manner ctx) id cs place (found :: finds)).reading.andThen
      after).Gives given)
    (hitem : ∃ v rest, seek (readers manner ctx) shape v = some (found.item, rest)) :
    ∃ front c behind, given = front ++ c :: behind ∧
      (readLines manner ctx (slice cs place (found.start + place))).Gives front ∧
      c.shape? = some shape ∧
      ((readFinds (readers manner ctx) id cs (found.stop + place) finds).reading.andThen
        after).Gives behind := by
  obtain ⟨v, rest, hseek⟩ := hitem
  simp only [readFinds, Reading.and_then_assoc] at h
  obtain ⟨front, given, rfl, hfront, h⟩ := Reading.gives_and_then.mp h
  obtain ⟨own, behind, rfl, hown, hbehind⟩ := Reading.gives_and_then.mp h
  obtain ⟨c, hc, hshape⟩ := seek_shape hseek hown.regular
  obtain rfl : own = [c] := hown.commands.symm.trans hc
  exact ⟨front, c, behind, rfl, hfront, hshape, hbehind⟩

theorem written_finds (rs : Readers) {shape : Shape} {after : Bool} {p : Passage} {cs : List Char}
    (h : Written after p cs) (hp : p.has shape) (hd : p.depth ≤ 2) (front : List Char) :
    ∃ found finds, findAll (seek rs shape) (front ++ cs) = found :: finds ∧
      ∃ v rest, seek rs shape v = some (found.item, rest) := by
  cases hfinds : findAll (seek rs shape) (front ++ cs) with
  | nil =>
    have hmisses := misses_of_find_all (seek_shrinks rs shape) hfinds
    exact absurd (misses_append.mp hmisses).2 (written_hits rs h hp hd [])
  | cons found finds =>
    have hmem : found ∈ findAll (seek rs shape) (front ++ cs) := by simp [hfinds]
    obtain ⟨v, rest, -, hitem⟩ := find_from_item (seek_shrinks rs shape) hmem
    exact ⟨found, finds, rfl, v, rest, hitem⟩

/-- What stands in front of all finds is read as lines. -/
theorem stages_front {shapes : List Shape} {front cs : List Char} {given : List Command}
    (hfront : ∀ shape, Misses (seek (readers manner ctx) shape) front cs)
    (h : (stages (readers manner ctx) shapes (front ++ cs)).Gives given) :
    ∃ rest given', (readLines manner ctx (front ++ rest)).Gives given' := by
  induction shapes with
  | nil => exact ⟨cs, given, h⟩
  | cons shape shapes ih =>
    rw [stages, sweep, find_all_misses (hfront shape)] at h
    cases hfinds : findAll (seek (readers manner ctx) shape) cs with
    | nil =>
      rw [hfinds] at h
      exact ih h
    | cons found finds =>
      rw [hfinds, List.map_cons] at h
      simp only [readFinds, Reading.and_then_assoc] at h
      obtain ⟨lines, -, -, hlines, -⟩ := Reading.gives_and_then.mp h
      have hslice : slice (front ++ cs) 0 (found.start + front.length + 0) =
          front ++ cs.take found.start := by
        rw [slice, List.drop_zero, Nat.sub_zero, Nat.add_zero, Nat.add_comm,
          List.take_length_add_append]
      rw [Found.shift, hslice] at hlines
      exact ⟨_, _, hlines⟩

theorem stages_spelled {shapes : List Shape} {front tail : List Char} {fs given : List Command}
    (hfront : Front manner ctx front fs) {s : Statement}
    (h : (stages (readers manner ctx) shapes (front ++ s.text tail)).Gives given) :
    s.spelled ctx := by
  have hmisses (shape : Shape) :
      Misses (seek (readers manner ctx) shape) (front ++ s.text []) tail :=
    misses_append.mpr ⟨hfront.misses _ shape _, statement_misses s trivial⟩
  rw [(statement_puts s).split, ← List.append_assoc] at h
  obtain ⟨rest, given', hlines⟩ := stages_front hmisses h
  obtain ⟨r, -, hreads⟩ := hfront.reads
  rw [List.append_assoc, ← (statement_puts s).split, hreads, read_lines_text] at hlines
  obtain ⟨-, others, -, -, hothers⟩ := Reading.gives_and_then.mp hlines
  obtain ⟨own, -, -, hown, -⟩ := Reading.gives_and_then.mp hothers
  exact ((gives_statement manner ctx s).mp hown).1

/-- If a text is found that is longer than all that follows it, and there is another find behind
it, then all that follows is read as lines. -/
theorem twice_found {shape : Shape} {front w tail : List Char} {r : Reading}
    {found : Found Reading} {finds : List (Found Reading)} {after : Reading}
    {given : List Command} (hlong : tail.length ≤ w.length)
    (hfront : Misses (seek (readers manner ctx) shape) front (w ++ tail))
    (hseek : seek (readers manner ctx) shape (w ++ tail) = some (r, tail))
    (hfinds : findAll (seek (readers manner ctx) shape) tail = found :: finds)
    (hitem : ∃ v rest, seek (readers manner ctx) shape v = some (found.item, rest))
    (h : ((sweep (readers manner ctx) shape (front ++ (w ++ tail))).reading.andThen
      after).Gives given) :
    ∃ lines c lines' c' behind, given = lines ++ c :: (lines' ++ c' :: behind) ∧
      (∀ c ∈ lines, c.shape? = none) ∧ c.shape? = some shape ∧
      (readLines manner ctx tail).Gives lines' ∧ c'.shape? = some shape := by
  rw [sweep, find_all_front hfront hseek, hfinds, List.map_cons] at h
  obtain ⟨lines, c, given, rfl, hlines, hc, h⟩ := finds_give h ⟨_, _, hseek⟩
  obtain ⟨lines', c', behind, rfl, hlines', hc', -⟩ := finds_give h hitem
  -- both ends of the second find are counted twice, so its front is the whole tail
  have htail : slice (front ++ (w ++ tail)) (w.length + front.length + 0)
      (found.start + (w.length + front.length) + (w.length + front.length + 0)) = tail := by
    rw [slice, ← List.append_assoc, List.drop_left' (by simp [Nat.add_comm])]
    exact List.take_of_length_le (by omega)
  rw [Found.shift, htail] at hlines'
  exact ⟨lines, c, lines', c', behind, rfl, gives_flat hlines, hc, hlines', hc'⟩

def Reads (manner : Manner) (ctx : Context) (shapes : List Shape) (front : List Char)
    (fs : List Command) (p : Passage) : Prop :=
  ∀ cs, Written false p cs → Tight cs →
    (stages (readers manner ctx) shapes (front ++ cs)).Gives (fs ++ p.commands ctx)

theorem tight_spread (p : Passage) : Written false p (strip p.spread) ∧ Tight (strip p.spread) :=
  ⟨(written_strip (written_spread p false)).1, (written_strip (written_spread p false)).2.1⟩

/-- Every passage has a text without blanks at its ends, and any can be chosen for one of them. -/
theorem exists_layout {p : Passage} {cs : List Char} (hw : Written false p cs) (ht : Tight cs) :
    ∃ layout : Passage → List Char, layout p = cs ∧
      ∀ q, Written false q (layout q) ∧ Tight (layout q) := by
  classical
  refine ⟨Function.update (fun q => strip q.spread) p cs, Function.update_self .., fun q => ?_⟩
  by_cases hq : q = p
  · subst hq
    rw [Function.update_self]
    exact ⟨hw, ht⟩
  · rw [Function.update_of_ne hq]
    exact tight_spread q

/-- A text that is put behind a statement on a new line ends without a blank. -/
theorem stops_break {p : Passage} {cs : List Char} (hp : p ≠ .stop) (hw : Written false p cs)
    (ht : Tight cs) : Stops isBlank ('\n' :: cs).reverse := by
  have hne : cs ≠ [] := strip_tight ht ▸ (written_strip hw).2.2 hp
  obtain ⟨c, u, hrev⟩ := List.exists_cons_of_ne_nil (List.reverse_ne_nil_iff.mpr hne)
  have hstop := ht.stop
  rw [hrev] at hstop
  rw [List.reverse_cons, hrev]
  exact stops_cons (hstop c rfl)

section Reads

variable {front : List Char} {fs : List Command} (hfront : Front manner ctx front fs)
  {p rest : Passage} {shape : Shape} {inners : List Passage} (hopens : Opens p shape inners rest)
  (hd : p.depth ≤ 2) {more : List Shape}
include hfront hopens hd

/-- A search for another shape than that of the first block finds nothing. -/
theorem reads_lacks {other : Shape} (hother : other ≠ shape)
    (h : Reads manner ctx (other :: more) front fs p) : p.has other = false := by
  refine Bool.eq_false_iff.mpr fun hhas => ?_
  obtain ⟨hwritten, htight⟩ := tight_spread p
  obtain ⟨found, finds, hfinds, hitem⟩ :=
    written_finds (readers manner ctx) hwritten hhas hd front
  have hgives := h _ hwritten htight
  rw [stages, sweep, hfinds] at hgives
  obtain ⟨lines, c, behind, hgiven, hlines, hc, -⟩ := finds_give hgives hitem
  obtain ⟨own, hcommands, hshape, -⟩ := hopens.commands ctx
  rw [hcommands] at hgiven
  obtain ⟨-, rfl, -⟩ := first_block hgiven hfront.flat (gives_flat hlines) (by simp [hshape])
    (by simp [hc])
  exact hother (Option.some.inj (hc.symm.trans hshape))

theorem reads_skip {skipped : List Shape} (hskipped : ∀ other ∈ skipped, other ≠ shape)
    (h : Reads manner ctx (skipped ++ more) front fs p) :
    (∀ other ∈ skipped, p.has other = false) ∧ Reads manner ctx more front fs p := by
  induction skipped with
  | nil => exact ⟨nofun, h⟩
  | cons other skipped ih =>
    have hlacks := reads_lacks hfront hopens hd (hskipped other (by simp)) h
    have hnext : Reads manner ctx (skipped ++ more) front fs p := by
      intro cs hw htight
      have hmisses : ∀ shape ∈ [other],
          Misses (seek (readers manner ctx) shape) (front ++ cs) [] := by
        simpa using misses_append.mpr ⟨hfront.misses _ other _, written_misses hw hlacks []⟩
      rw [← stages_skip hmisses]
      exact h cs hw htight
    obtain ⟨hskip, hmore⟩ := ih (fun other hmem => hskipped other (by simp [hmem])) hnext
    exact ⟨by simpa using ⟨hlacks, hskip⟩, hmore⟩

/-- A second find of the same search is read together with what it is in front of. -/
theorem reads_once (hf : p.Filled) (h : Reads manner ctx (shape :: more) front fs p) :
    rest.has shape = false := by
  refine Bool.eq_false_iff.mpr fun hhas => ?_
  obtain ⟨hdi, hdr⟩ := (hopens.depth 1).mp hd
  obtain ⟨hfi, hfr⟩ := hopens.filled hf
  obtain ⟨texts, htexts, hlong⟩ := hopens.long rest.spread.length
  have hputs := hopens.puts htexts
  obtain ⟨r, -, hseek, -⟩ := hopens.seek htexts (readers manner ctx) ctx hdi
    fun inner hmem => (hfi inner hmem).1
  have hseek := hseek rest.spread
  have hgives := h _ (hopens.write htexts gap_nil (written_spread rest true))
    ⟨hputs.start _, hputs.stop (spread_stop rest) []⟩
  obtain ⟨found, finds, hfinds, hitem⟩ :=
    written_finds (readers manner ctx) (written_spread rest true) hhas hdr []
  rw [List.nil_append] at hfinds hgives
  rw [hputs.split] at hseek hgives
  obtain ⟨lines, c, lines', c', behind, hgiven, hlines, hc, hlines', hc'⟩ :=
    twice_found hlong (hfront.misses _ shape _) hseek hfinds hitem hgives
  obtain ⟨own, hcommands, hshape, -⟩ := hopens.commands ctx
  rw [hcommands] at hgiven
  obtain ⟨-, -, hrest⟩ := first_block hgiven hfront.flat hlines (by simp [hshape]) (by simp [hc])
  have hlt := front_lt_leaves hfr hrest (gives_flat hlines') (by simp [hc'])
  have hyields : Yields manner ctx (rest.leaves + 0) (rest.spread ++ []) :=
    spread_yields rest fun _ _ _ => Nat.zero_le _
  rw [List.append_nil] at hyields
  have hle := hyields [] lines' hlines'
  omega

/-- The only find gives the block, and what is behind it is left to the later searches. -/
theorem reads_hit (hf : p.Filled) (hrest : rest.has shape = false)
    (h : Reads manner ctx (shape :: more) front fs p) {layout : Passage → List Char}
    (hlayout : ∀ q, Written false q (layout q) ∧ Tight (layout q)) {tail : List Char}
    (htail : Written true rest tail) (hstop : Stops isBlank tail.reverse) :
    p.Counted ∧ (∀ inner ∈ inners, (read manner ctx (layout inner)).Gives (inner.commands ctx)) ∧
      (stages (readers manner ctx) more tail).Gives (rest.commands ctx) := by
  have htexts : List.Forall₂ (Written false) inners (inners.map layout) :=
    List.forall₂_map_right_iff.mpr <| List.forall₂_same.mpr fun inner _ => (hlayout inner).1
  have hputs := hopens.puts htexts
  obtain ⟨r, c, hseek, hcommands, hread⟩ := hopens.seek htexts (readers manner ctx) ctx
    ((hopens.depth 1).mp hd).1 fun inner hmem => ((hopens.filled hf).1 inner hmem).1
  have hseek := hseek tail
  have hgives := h _ (hopens.write htexts gap_nil htail) ⟨hputs.start _, hputs.stop hstop []⟩
  rw [List.nil_append, hputs.split] at hgives
  rw [hputs.split] at hseek
  rw [stages_hit (hfront.misses _ shape _) hseek (written_misses htail hrest []), hcommands]
    at hgives
  obtain ⟨lines, given, hgiven, hlines, hgives⟩ := Reading.gives_and_then.mp hgives
  obtain ⟨own, behind, rfl, hown, hbehind⟩ := Reading.gives_and_then.mp hgives
  obtain ⟨c', hc', -⟩ := seek_shape hseek hown.regular
  obtain rfl : own = [c'] := hown.commands.symm.trans hc'
  obtain rfl : fs = lines := hfront.gives.commands.symm.trans hlines.commands
  obtain ⟨rfl, rfl⟩ := List.cons.inj (List.append_cancel_left hgiven)
  obtain ⟨hcounted, hbodies⟩ := hread.mp hown
  refine ⟨hcounted, fun inner hmem => ?_, hbehind⟩
  have hbody := List.forall₂_same.mp (List.forall₂_map_right_iff.mp hbodies) inner hmem
  have htrim : shape.trim (layout inner) = layout inner := by
    cases shape with
    | branch => exact strip_tight (hlayout inner).2
    | forEach => exact strip_tight (hlayout inner).2
    | loop => rfl
  rw [htrim] at hbody
  exact hbody

theorem reads_inner (hf : p.Filled) (hrest : rest.has shape = false)
    (h : Reads manner ctx (shape :: more) front fs p) {inner : Passage} (hmem : inner ∈ inners) :
    Reads manner ctx searchOrder [] [] inner := by
  intro cs hw ht
  obtain ⟨layout, rfl, hlayout⟩ := exists_layout hw ht
  obtain ⟨-, hread, -⟩ :=
    reads_hit hfront hopens hd hf hrest h hlayout (written_spread rest true) (spread_stop rest)
  have hgives := hread inner hmem
  rw [read_written hw] at hgives
  exact hgives

theorem reads_rest (hf : p.Filled) (hrest : rest.has shape = false) (hne : rest ≠ .stop)
    (h : Reads manner ctx (shape :: more) front fs p) : Reads manner ctx more ['\n'] [] rest := by
  intro cs hw ht
  obtain ⟨-, -, hgives⟩ := reads_hit hfront hopens hd hf hrest h tight_spread
    (written_lead hw (gap_break true)) (stops_break hne hw ht)
  exact hgives

end Reads

theorem ordered_of_reads {p : Passage} (hf : p.Filled) (hd : p.depth ≤ 2)
    {stage : Nat} {front : List Char} {fs : List Command} (hfront : Front manner ctx front fs)
    (hlacks : ∀ other : Shape, other.rank < stage → p.has other = false)
    (h : Reads manner ctx (searchOrder.drop stage) front fs p) :
    p.ordered stage ∧ p.readable ctx := by
  -- texts without blanks at their ends suffice, because bodies are stripped before they are read
  induction p using Passage.deep generalizing stage front fs with
  | stop => exact ⟨rfl, rfl⟩
  | line s rest ih =>
    have hputs := statement_puts s
    have hfirst := h _ (.line gap_nil (written_spread rest true))
      ⟨hputs.start _, hputs.stop (spread_stop rest) []⟩
    have hs : s.spelled ctx := stages_spelled hfront hfirst
    have hreadable : (Passage.line s rest).readable ctx ↔ rest.readable ctx := by
      rw [Passage.readable, hs, Bool.true_and]
    rw [hreadable]
    by_cases hrest : rest = .stop
    · subst hrest
      exact ⟨rfl, rfl⟩
    refine ih hf hd ((hfront.line hs).gap (gap_break true).blank) hlacks fun cs hw ht => ?_
    have hgives := h _ (.line gap_nil (written_lead hw (gap_break true)))
      ⟨hputs.start _, hputs.stop (stops_break hrest hw ht) []⟩
    rw [List.nil_append, hputs.split, ← List.append_assoc, ← List.append_assoc, Passage.commands,
      List.append_cons fs] at hgives
    exact hgives
  | block p shape inners rest hopens ihs ih =>
    obtain ⟨hdi, hdr⟩ := (hopens.depth 1).mp hd
    obtain ⟨hfi, hfr⟩ := hopens.filled hf
    have hstage := hopens.rank_le hlacks
    obtain ⟨skipped, hsplit, hskipped⟩ := order_split shape stage hstage
    have hother : ∀ other ∈ skipped, other ≠ shape := by
      rintro other hmem rfl
      exact Nat.lt_irrefl _ ((hskipped other).mp hmem).2
    rw [hsplit] at h
    obtain ⟨hskip, h⟩ := reads_skip hfront hopens hd hother h
    have hbefore (other : Shape) (hlt : other.rank < shape.rank) : p.has other = false := by
      by_cases hearly : other.rank < stage
      · exact hlacks other hearly
      · exact hskip other ((hskipped other).mpr ⟨Nat.le_of_not_lt hearly, hlt⟩)
    have honce := reads_once hfront hopens hd hf h
    have hinner : ∀ inner ∈ inners, inner.ordered shape.rank ∧ inner.readable ctx := by
      intro inner hmem
      have hreads := reads_inner hfront hopens hd hf honce h hmem
      obtain ⟨hordered, hreadable⟩ := @ihs inner hmem (hfi inner hmem).2
        (Nat.le_succ_of_le (hdi inner hmem)) 0 _ _ front_nil (by simp) hreads
      have hin (other : Shape) (hlt : other.rank < shape.rank) : inner.has other = false :=
        (hopens.lacks (hbefore other hlt)).1 inner hmem
      exact ⟨ordered_later hordered hin, hreadable⟩
    have hrest : rest.ordered (shape.rank + 1) ∧ rest.readable ctx := by
      by_cases hne : rest = .stop
      · subst hne
        exact ⟨rfl, rfl⟩
      refine ih hfr hdr (front_nil.gap (gap_break true).blank) (fun other hlt => ?_)
        (reads_rest hfront hopens hd hf honce hne h)
      rcases Nat.lt_or_eq_of_le (Nat.le_of_lt_succ hlt) with hlt | heq
      · exact (hopens.lacks (hbefore other hlt)).2
      · exact rank_injective heq ▸ honce
    obtain ⟨hcounted, -⟩ := reads_hit hfront hopens hd hf honce h tight_spread
      (written_spread rest true) (spread_stop rest)
    exact ⟨(hopens.ordered stage).mpr ⟨hstage, fun inner hmem => (hinner inner hmem).1, hrest.1⟩,
      (hopens.readable ctx).mpr ⟨hcounted, fun inner hmem => (hinner inner hmem).2, hrest.2⟩⟩

theorem depth_of_nests {p : Passage} {d : Nat} (h : ∀ c ∈ p.commands ctx, NestsWithin d c) :
    p.depth ≤ d := by
  induction p using Passage.deep generalizing d with
  | stop => exact Nat.zero_le d
  | line s rest ih => exact ih fun c hc => h c (List.mem_cons_of_mem _ hc)
  | block p shape inners rest hopens ihs ih =>
    obtain ⟨own, hcommands, hshape, hinner⟩ := hopens.commands ctx
    rw [hcommands, List.forall_mem_cons] at h
    obtain ⟨hown, hrest⟩ := h
    cases d with
    | zero =>
      have hflat : own.shape? = none := hown
      rw [hshape] at hflat
      contradiction
    | succ d =>
      refine (hopens.depth d).mpr ⟨fun inner hmem => ihs inner hmem fun c hc => hown c ?_, ih hrest⟩
      rw [hinner]
      exact List.mem_flatMap.mpr ⟨inner, hmem, hc⟩

def Passage.Faithful (manner : Manner) (ctx : Context) (p : Passage) : Prop :=
  ∀ cs, Written false p cs → (read manner ctx cs).Gives (p.commands ctx)

/-- Exactly the passages are read faithfully whose blocks nest to a depth of two at most and stand
in the order of the searches, and whose chords and numbers can be read. -/
theorem faithful_iff_ordered (manner : Manner) (ctx : Context) (p : Passage) (hf : p.Filled) :
    p.Faithful manner ctx ↔ p.depth ≤ 2 ∧ p.ordered 0 ∧ p.readable ctx := by
  constructor
  · intro h
    have hd : p.depth ≤ 2 := by
      have hgives := h _ (written_spread p false)
      have hwithin := read_within manner ctx p.spread
      rw [Reading.Within, hgives.commands] at hwithin
      exact depth_of_nests hwithin
    have hreads : Reads manner ctx searchOrder [] [] p := by
      intro cs hw _
      have hgives := h cs hw
      rw [read_written hw] at hgives
      exact hgives
    exact ⟨hd, @ordered_of_reads manner ctx p hf hd 0 [] [] front_nil (by simp) hreads⟩
  · rintro ⟨hd, ho, hr⟩ cs hw
    rw [read_written hw]
    exact stages_faithful hf hd hr ho hw front_nil

def noteDo : Word := ⟨"do".toList, by decide, by decide⟩

def noteRe : Word := ⟨"re".toList, by decide, by decide⟩

def noteMi : Word := ⟨"mi".toList, by decide, by decide⟩

def oneNote (name : Word) : Passage :=
  .line (.play name .minima) .stop

def repeated (rest : Passage) : Passage :=
  .loop 2 (oneNote noteDo) rest

def chosen (rest : Passage) : Passage :=
  .branch noteRe noteMi (oneNote noteRe) (oneNote noteMi) rest

/-- The same two blocks are read faithfully in one order and not in the other. -/
theorem branch_behind_loop_unfaithful :
    ((repeated (chosen .stop)).Filled ∧ ¬ (repeated (chosen .stop)).Faithful .plain {}) ∧
      (chosen (repeated .stop)).Filled ∧ (chosen (repeated .stop)).Faithful .plain {} := by
  have hloop : (repeated (chosen .stop)).Filled :=
    ⟨⟨nofun, trivial⟩, ⟨nofun, trivial⟩, ⟨nofun, trivial⟩, trivial⟩
  have hbranch : (chosen (repeated .stop)).Filled :=
    ⟨⟨nofun, trivial⟩, ⟨nofun, trivial⟩, ⟨nofun, trivial⟩, trivial⟩
  refine ⟨⟨hloop, fun h => ?_⟩, hbranch, (faithful_iff_ordered .plain {} _ hbranch).mpr (by decide)⟩
  have hordered := ((faithful_iff_ordered .plain {} _ hloop).mp h).2.1
  exact absurd hordered (by decide)

end Melody.Command
