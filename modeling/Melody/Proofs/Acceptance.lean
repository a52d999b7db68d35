import Mathlib.Tactic.SplitIfs
import Melody.Program.Load

/-!
# What the token check accepts

The check looks for wrong tokens first, then walks the `tocar` commands four tokens at a time,
and last keeps two stacks of open braces and parentheses. Accepted are exactly the token lists
in which every token is right at its place, every `tocar` has its note, its duration and its
semicolon, and braces and parentheses are balanced, each kind on its own.
-/

set_option autoImplicit false

namespace Melody.Token

def PlaysComplete (tokens : List Token) : Prop :=
  ∀ (i : Nat) (t : Token), tokens[i]? = some t → t.isKeyword "tocar" →
    ∃ note duration close, tokens[i + 1]? = some note ∧ tokens[i + 2]? = some duration ∧
      tokens[i + 3]? = some close ∧ note.kind = .note ∧ duration.kind = .duration ∧
      close.kind = .symbol ∧ close.isText ';'

/-- With `pending` pairs open before the first token, no beginning of the list closes more than
was opened, and at the end everything is closed. -/
structure BalancedAfter (opening closing : Char) (pending : Nat) (tokens : List Token) :
    Prop where
  beginnings : ∀ n, (tokens.take n).countP (·.isText closing) ≤
    pending + (tokens.take n).countP (·.isText opening)
  total : tokens.countP (·.isText closing) = pending + tokens.countP (·.isText opening)

def Balanced (opening closing : Char) (tokens : List Token) : Prop :=
  BalancedAfter opening closing 0 tokens

structure Acceptable (tokens : List Token) : Prop where
  known : ∀ t ∈ tokens, t.kind ≠ .unknown
  unsuspected : ∀ (i : Nat) (t : Token), tokens[i]? = some t → t.kind = .identifier →
    checkIdentifier tokens i t = []
  plays : PlaysComplete tokens
  braces : Balanced '{' '}' tokens
  parentheses : Balanced '(' ')' tokens

theorem check_token_nil (tokens : List Token) (i : Nat) (t : Token) :
    checkToken tokens i t = [] ↔
      t.kind ≠ .unknown ∧ (t.kind = .identifier → checkIdentifier tokens i t = []) := by
  unfold checkToken
  cases t.kind <;> simp

theorem check_tokens_from_nil (tokens : List Token) (start : Nat) (rest : List Token) :
    checkTokensFrom noteNames tokens start rest = [] ↔
      ∀ (i : Nat) (t : Token), rest[i]? = some t → checkToken tokens (start + i) t = [] := by
  induction rest generalizing start with
  | nil => simp [checkTokensFrom]
  | cons t rest ih =>
    rw [checkTokensFrom, List.append_eq_nil_iff, ih]
    constructor
    · rintro ⟨ht, hrest⟩ i u hu
      cases i with
      | zero =>
        obtain rfl : t = u := by simpa using hu
        exact ht
      | succ i =>
        have := hrest i u (by simpa using hu)
        rwa [Nat.add_assoc, Nat.add_comm 1 i] at this
    · intro h
      refine ⟨h 0 t (by simp), fun i u hu => ?_⟩
      have := h (i + 1) u (by simpa using hu)
      rwa [Nat.add_comm i 1, ← Nat.add_assoc] at this

theorem check_tokens_nil (tokens : List Token) :
    checkTokens tokens = [] ↔
      (∀ t ∈ tokens, t.kind ≠ .unknown) ∧
        ∀ (i : Nat) (t : Token), tokens[i]? = some t → t.kind = .identifier →
          checkIdentifier tokens i t = [] := by
  rw [checkTokens, check_tokens_from_nil]
  simp only [check_token_nil, Nat.zero_add]
  constructor
  · intro h
    constructor
    · intro t ht
      obtain ⟨i, hi⟩ := List.mem_iff_getElem?.mp ht
      exact (h i t hi).1
    · exact fun i t hi => (h i t hi).2
  · rintro ⟨hk, hs⟩ i t hi
    exact ⟨hk t (List.mem_of_getElem? hi), hs i t hi⟩

theorem check_play_nil (note duration close : Token) :
    checkPlay note duration close = [] ↔ note.kind = .note ∧ duration.kind = .duration ∧
      close.kind = .symbol ∧ close.isText ';' := by
  unfold checkPlay
  split_ifs <;> simp_all

theorem keyword_kind {t : Token} {word : String} (h : t.isKeyword word) : t.kind = .keyword := by
  simp only [isKeyword, Bool.and_eq_true, decide_eq_true_eq] at h
  exact h.1

theorem plays_complete_cons (t : Token) (rest : List Token) (ht : ¬ t.isKeyword "tocar") :
    PlaysComplete (t :: rest) ↔ PlaysComplete rest := by
  constructor
  · intro h i u hu hk
    simpa using h (i + 1) u (by simpa using hu) hk
  · intro h i u hu hk
    cases i with
    | zero =>
      obtain rfl : t = u := by simpa using hu
      exact absurd hk ht
    | succ i => simpa using h i u (by simpa using hu) hk

/-- The jump over a complete command skips no other one: what it passes over is no keyword. -/
theorem plays_complete_jump (t note duration close : Token) (rest : List Token)
    (hn : note.kind = .note) (hd : duration.kind = .duration) (hs : close.kind = .symbol)
    (hc : close.isText ';') :
    PlaysComplete (t :: note :: duration :: close :: rest) ↔ PlaysComplete rest := by
  have skip : ∀ (u : Token) (us : List Token), u.kind ≠ .keyword →
      (PlaysComplete (u :: us) ↔ PlaysComplete us) := fun u us hu =>
    plays_complete_cons u us fun hk => hu (keyword_kind hk)
  have hskip : PlaysComplete (note :: duration :: close :: rest) ↔ PlaysComplete rest := by
    rw [skip note _ (by simp [hn]), skip duration _ (by simp [hd]), skip close _ (by simp [hs])]
  rw [← hskip]
  constructor
  · intro h i u hu hk
    simpa using h (i + 1) u (by simpa using hu) hk
  · intro h i u hu hk
    cases i with
    | zero => exact ⟨note, duration, close, rfl, rfl, rfl, hn, hd, hs, hc⟩
    | succ i => simpa using h i u (by simpa using hu) hk

theorem check_plays_nil (tokens : List Token) :
    checkPlays tokens = [] ↔ PlaysComplete tokens := by
  fun_induction checkPlays tokens with
  | case1 => simp [PlaysComplete]
  | case2 t ht note duration close rest ih =>
    rw [List.append_eq_nil_iff, check_play_nil, ih]
    -- nothing is missed in the jump: the three tokens are no keywords if the command is complete
    constructor
    · rintro ⟨⟨hn, hd, hs, hc⟩, h⟩
      exact (plays_complete_jump t note duration close rest hn hd hs hc).2 h
    · intro h
      obtain ⟨n, d, c, hn, hd, hc, kinds⟩ := h 0 t rfl ht
      simp only [Nat.zero_add, List.getElem?_cons_succ, List.getElem?_cons_zero,
        Option.some.injEq] at hn hd hc
      obtain ⟨kn, kd, ks, kc⟩ := kinds
      subst hn hd hc
      exact ⟨⟨kn, kd, ks, kc⟩, (plays_complete_jump t _ _ _ rest kn kd ks kc).1 h⟩
  | case3 t ht rest short ih =>
    simp only [reduceCtorEq, false_iff]
    intro h
    obtain ⟨n, d, c, hn, hd, hc, -⟩ := h 0 t rfl ht
    match rest, short with
    | n :: d :: c :: rest, short => exact short n d c rest rfl
    | [], _ | [_], _ | [_, _], _ => simp at hc
  | case4 t rest ht ih => rw [ih, plays_complete_cons t rest ht]

section Balance

variable {opening closing : Char} {pending : Nat} {t : Token} {rest : List Token}

theorem text_unique {c d : Char} (hc : t.isText c) (hne : c ≠ d) : t.isText d = false := by
  simp only [isText, beq_iff_eq] at hc
  simp [isText, hc, hne]

theorem balanced_nil : BalancedAfter opening closing pending [] ↔ pending = 0 := by
  constructor
  · intro h
    simpa using h.total.symm
  · rintro rfl
    exact ⟨by simp, by simp⟩

/-- One token moves the number of open pairs, and the rest is balanced from there. -/
theorem balanced_step {next : Nat}
    (h : pending + (if t.isText opening then 1 else 0) =
      next + (if t.isText closing then 1 else 0)) :
    BalancedAfter opening closing pending (t :: rest) ↔
      BalancedAfter opening closing next rest := by
  constructor
  · rintro ⟨hb, hs⟩
    constructor
    · intro n
      have hn := hb (n + 1)
      rw [List.take_succ_cons, List.countP_cons, List.countP_cons] at hn
      omega
    · rw [List.countP_cons, List.countP_cons] at hs
      omega
  · rintro ⟨hb, hs⟩
    constructor
    · intro n
      cases n with
      | zero => simp
      | succ n =>
        have hn := hb n
        rw [List.take_succ_cons, List.countP_cons, List.countP_cons]
        omega
    · rw [List.countP_cons, List.countP_cons]
      omega

theorem balanced_open (ht : t.isText opening) (hne : opening ≠ closing) :
    BalancedAfter opening closing pending (t :: rest) ↔
      BalancedAfter opening closing (pending + 1) rest :=
  balanced_step (by simp [ht, text_unique ht hne])

theorem balanced_close (ht : t.isText closing) (hne : opening ≠ closing) :
    BalancedAfter opening closing (pending + 1) (t :: rest) ↔
      BalancedAfter opening closing pending rest :=
  balanced_step (by simp [ht, text_unique ht hne.symm])

theorem not_balanced_close (ht : t.isText closing) (hne : opening ≠ closing) :
    ¬ BalancedAfter opening closing 0 (t :: rest) := by
  intro h
  have := h.beginnings 1
  simp [ht, text_unique ht hne.symm] at this

theorem balanced_other (ho : t.isText opening = false) (hc : t.isText closing = false) :
    BalancedAfter opening closing pending (t :: rest) ↔
      BalancedAfter opening closing pending rest :=
  balanced_step (by simp [ho, hc])

end Balance

/-- The stacks hold as many tokens as pairs are open, and nothing is reported exactly when both
kinds are balanced from there. -/
theorem check_balance_from_nil (braces parens tokens : List Token) :
    checkBalanceFrom braces parens tokens = [] ↔
      BalancedAfter '{' '}' braces.length tokens ∧
        BalancedAfter '(' ')' parens.length tokens := by
  fun_induction checkBalanceFrom braces parens tokens with
  | case1 braces parens => simp [balanced_nil]
  | case2 braces parens t rest ht ih =>
    rw [ih, balanced_open ht (by decide),
      balanced_other (text_unique ht (by decide)) (text_unique ht (by decide))]
    rfl
  | case3 parens t rest _ ht ih =>
    simp [not_balanced_close ht (show '{' ≠ '}' by decide)]
  | case4 parens t rest _ ht b braces ih =>
    rw [ih, List.length_cons, balanced_close ht (by decide),
      balanced_other (text_unique ht (by decide)) (text_unique ht (by decide))]
  | case5 braces parens t rest _ _ ht ih =>
    rw [ih, balanced_open ht (by decide),
      balanced_other (text_unique ht (by decide)) (text_unique ht (by decide))]
    rfl
  | case6 braces t rest _ _ _ ht ih =>
    simp [not_balanced_close ht (show '(' ≠ ')' by decide)]
  | case7 braces t rest _ _ _ ht b parens ih =>
    rw [ih, List.length_cons, balanced_close ht (by decide),
      balanced_other (text_unique ht (by decide)) (text_unique ht (by decide))]
  | case8 braces parens t rest h₁ h₂ h₃ h₄ ih =>
    rw [ih, balanced_other (by simpa using h₁) (by simpa using h₂),
      balanced_other (by simpa using h₃) (by simpa using h₄)]

theorem check_nil (tokens : List Token) : check tokens = [] ↔ Acceptable tokens := by
  have hshape : checkShape tokens = [] ↔
      PlaysComplete tokens ∧ Balanced '{' '}' tokens ∧ Balanced '(' ')' tokens := by
    rw [checkShape, List.append_eq_nil_iff, check_plays_nil, checkBalance, check_balance_from_nil]
    rfl
  unfold check
  constructor
  · intro h
    split at h
    · rename_i hlexical
      obtain ⟨hk, hs⟩ := (check_tokens_nil tokens).1 hlexical
      obtain ⟨hp, hb, hr⟩ := hshape.1 h
      exact ⟨hk, hs, hp, hb, hr⟩
    · contradiction
  · rintro ⟨hk, hs, hp, hb, hr⟩
    rw [(check_tokens_nil tokens).2 ⟨hk, hs⟩]
    exact hshape.2 ⟨hp, hb, hr⟩

theorem validate_of_scan {cs : List Char} {tokens : List Token} (h : scan cs = .ok tokens) :
    validate cs = .ok (check tokens) := by
  simp only [validate, h]
  rfl

end Melody.Token

namespace Melody.Program

open Melody.Text

def Keeps {β : Type} (part : Program → β) (step : Program → Loaded) : Prop :=
  ∀ p, part (step p).program = part p

/-- What every step preserves holds after the last one. -/
theorem run_preserves {Q : Program → Prop} {steps : List (Program → Loaded)}
    (h : ∀ step ∈ steps, ∀ p, Q p → Q (step p).program) {p : Program} (hp : Q p) :
    Q (Loaded.run steps p).program := by
  induction steps generalizing p with
  | nil => exact hp
  | cons step rest ih =>
    have hstep := h step (by simp) p hp
    simp only [Loaded.run, Loaded.andThen]
    split
    · exact hstep
    · exact ih (fun s hs => h s (by simp [hs])) hstep

theorem keeps_run {β : Type} {part : Program → β} (steps : List (Program → Loaded))
    (h : ∀ step ∈ steps, Keeps part step) : Keeps part (Loaded.run steps) := by
  intro p
  apply run_preserves (Q := fun q => part q = part p)
  · intro step hstep q hq
    rw [h step hstep q, hq]
  · rfl

def aside (p : Program) : String × List String :=
  (p.instrument, p.complaints)

theorem keeps_define {β : Type} (part : String × List String → β) (cs : List Char)
    (h : Keeps (part ∘ aside) (setInstrument cs)) : Keeps (part ∘ aside) (define cs) := by
  apply keeps_run
  intro step hstep
  simp only [List.mem_cons, List.not_mem_nil, or_false] at hstep
  rcases hstep with rfl | rfl | rfl | rfl | rfl | rfl | rfl | rfl | rfl
  · exact fun p => rfl
  · exact fun p => rfl
  · intro p
    unfold setTempo
    repeat' split
    all_goals rfl
  · exact h
  · intro p
    unfold setEnvelope
    repeat' split
    all_goals rfl
  · intro p
    unfold setWaveform
    split <;> rfl
  · apply keeps_run
    intro step hstep
    obtain ⟨found, -, rfl⟩ := List.mem_map.mp hstep
    exact fun p => rfl
  · apply keeps_run
    intro step hstep
    obtain ⟨found, -, rfl⟩ := List.mem_map.mp hstep
    exact fun p => rfl
  · apply keeps_run
    intro step hstep
    obtain ⟨found, -, rfl⟩ := List.mem_map.mp hstep
    intro p
    unfold addMelody
    split <;> rfl

theorem keeps_complaints (cs : List Char) : Keeps complaints (define cs) := by
  apply keeps_define Prod.snd
  intro p
  unfold setInstrument
  split <;> rfl

theorem accept_complaints (cs : List Char) (p : Program) :
    (acceptText cs p).program.complaints = p.complaints := by
  have h : (process cs { p with mistakes := [] }).program.complaints = p.complaints :=
    keeps_complaints _ _
  unfold acceptText
  dsimp only
  split
  · exact h
  · split <;> exact h

/-- Whatever was on record before, the complaints of a program after loading are those of the
check of its text. -/
theorem load_complaints (cs : List Char) (p : Program) {complaints : List Token.Complaint}
    (h : Token.validate cs = .ok complaints) :
    (loadText cs p).program.complaints = complaints.map Token.Complaint.message := by
  unfold loadText
  simp only [h]
  split
  · exact accept_complaints _ _
  · rfl

end Melody.Program

namespace Melody.Token

/-- A text whose tokens can be read is accepted, by the check itself and by a program with any
history, exactly when its tokens are acceptable. -/
theorem accepted_iff_acceptable (cs : List Char) (tokens : List Token) (p : Program)
    (h : scan cs = .ok tokens) :
    (validate cs = .ok [] ↔ Acceptable tokens) ∧
      ((Program.loadText cs p).program.complaints = [] ↔ Acceptable tokens) := by
  have hv := validate_of_scan h
  constructor
  · rw [hv, Except.ok.injEq, check_nil]
  · rw [Program.load_complaints cs p hv, List.map_eq_nil_iff, check_nil]

def flatMelody : List Char := "melodia m \x7b tocar reb4 minima; \x7d".toList

def flatMelodyTokens : List Token :=
  [⟨.keyword, "melodia".toList, 1, 1⟩, ⟨.identifier, "m".toList, 1, 9⟩, ⟨.symbol, ['{'], 1, 11⟩,
   ⟨.keyword, "tocar".toList, 1, 13⟩, ⟨.note, "reb4".toList, 1, 19⟩,
   ⟨.duration, "minima".toList, 1, 24⟩, ⟨.symbol, [';'], 1, 30⟩, ⟨.symbol, ['}'], 1, 32⟩]

theorem scan_flat_melody : scan flatMelody = .ok flatMelodyTokens := by
  have h : (scan flatMelody).toOption = some flatMelodyTokens := by decide +kernel
  revert h
  cases scan flatMelody with
  | error f => exact fun h => nomatch h
  | ok tokens => exact fun h => congrArg Except.ok (Option.some.inj h)

theorem flat_melody_accepted :
    scan flatMelody = .ok flatMelodyTokens ∧ Acceptable flatMelodyTokens ∧
      (Program.loadText flatMelody { complaints := ["?"] }).program.complaints = [] := by
  have hc : check flatMelodyTokens = [] := by decide +kernel
  have hv : validate flatMelody = .ok [] := by rw [validate_of_scan scan_flat_melody, hc]
  have h := accepted_iff_acceptable flatMelody flatMelodyTokens { complaints := ["?"] }
    scan_flat_melody
  exact ⟨scan_flat_melody, h.1.1 hv, h.2.2 (h.1.1 hv)⟩

end Melody.Token
