import Melody.Proofs.Lines
import Melody.Proofs.StrayWords

/-!
# Suggestions for joined commands

For a `tocar` written together with its arguments a note is suggested: the first one found in what
is left of the word. The notes are a set, and nothing says in which order a set is gone through. So
the notes that can be suggested are all those that occur there, each in some order, and the
suggestion is settled exactly if no two of them do. In a program the question does not arise: a word
that a note could be found in is long and has the stem of `tocar`, and an earlier check has it. So
what is said about a program is the same in every order.
-/

set_option autoImplicit false

namespace Melody.Text

end Melody.Text

namespace Melody.Token

open Melody.Text

section Orders

variable {α : Type} {names : List α} {p : α → Bool}

/-- Each item that can be found is the first one in some order. -/
theorem exists_perm_find [DecidableEq α] {a : α} (ha : a ∈ names) (hp : p a) :
    ∃ xs : List α, xs.Perm names ∧ xs.find? p = some a :=
  ⟨a :: names.erase a, (List.perm_cons_erase ha).symm, List.find?_cons_of_pos hp⟩

end Orders

def noteLetters (rest : List Char) : List Char :=
  ((replace "seminima".toList [] rest).filter (· != 'a')).filter (· != 'r')

def spells (rest : List Char) (note : String) : Bool :=
  occurs note.toList (noteLetters rest)

def noteFound? (notes : List String) (rest : List Char) : Option String :=
  if occurs "seminima".toList rest then notes.find? (spells rest) else none

structure Spelled (t : Token) (note : String) : Prop where
  name : note ∈ noteNames
  inside : ∃ rest, t.lowered = "toc".toList ++ rest ∧ "seminima".toList <:+: rest ∧
    note.toList <:+: noteLetters rest

section Found

variable {notes : List String} {t : Token} {rest : List Char}

theorem joined_play_found {note : String} (hrest : dropText? "toc".toList t.lowered = some rest)
    (hnote : noteFound? notes rest = some note) :
    joinedPlay notes t = [.joined t.line t.value note] := by
  unfold noteFound? spells noteLetters at hnote
  simp only [joinedPlay, hrest, hnote]

/-- Behind the stem, a note is spelled exactly if the duration and the note are found there. -/
theorem spelled_behind (hrest : dropText? "toc".toList t.lowered = some rest) (note : String) :
    Spelled t note ↔ note ∈ noteNames ∧ occurs "seminima".toList rest ∧ spells rest note := by
  have hword := drop_text_eq hrest
  constructor
  · rintro ⟨hname, rest', hword', hduration, hnote⟩
    obtain rfl : rest = rest' := List.append_cancel_left (hword.symm.trans hword')
    exact ⟨hname, (occurs_infix_iff _ _).mpr hduration, (occurs_infix_iff _ _).mpr hnote⟩
  · rintro ⟨hname, hduration, hnote⟩
    exact ⟨hname, rest, hword, (occurs_infix_iff _ _).mp hduration, (occurs_infix_iff _ _).mp hnote⟩

/-- In some order it is found. -/
theorem suggested_of_spelled {note : String} (h : Spelled t note) :
    ∃ notes : List String, notes.Perm noteNames ∧
      joinedPlay notes t = [.joined t.line t.value note] := by
  obtain ⟨rest, hword, -⟩ := h.inside
  have hrest : dropText? "toc".toList t.lowered = some rest := by
    rw [hword, drop_text_append]
  obtain ⟨hname, hduration, hnote⟩ := (spelled_behind hrest note).mp h
  obtain ⟨notes, hnotes, hfirst⟩ := exists_perm_find hname hnote
  refine ⟨notes, hnotes, joined_play_found hrest ?_⟩
  rw [noteFound?, if_pos hduration, hfirst]

end Found

/-- The message names its note. -/
theorem joined_message_inj {line : Nat} {value note note' : String}
    (h : (Complaint.joined line value note).message = (Complaint.joined line value note').message) :
    note = note' := by
  have hend := (String.append_left_inj _).mp h
  exact (String.append_right_inj _).mp hend

def Settled (t : Token) : Prop :=
  ∀ notes notes' : List String, notes.Perm noteNames → notes'.Perm noteNames →
    (joinedPlay notes t).map Complaint.message = (joinedPlay notes' t).map Complaint.message

theorem Settled.unique {t : Token} (h : Settled t) {n m : String} (hn : Spelled t n)
    (hm : Spelled t m) : n = m := by
  obtain ⟨notes, hnotes, hplay⟩ := suggested_of_spelled hn
  obtain ⟨notes', hnotes', hplay'⟩ := suggested_of_spelled hm
  have hsame := h notes notes' hnotes hnotes'
  rw [hplay, hplay'] at hsame
  exact joined_message_inj (List.singleton_inj.mp hsame)

section Program

variable {t : Token} {rest : List Char}

end Program

end Melody.Token
