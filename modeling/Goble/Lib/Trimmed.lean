import Mathlib.Data.List.Basic
import Goble.Lib.Text

/-!
# Trimmed texts

A text is trimmed when no white space stands at its ends.
-/

namespace Goble.Text

variable {text a b : List Char}

def Trimmed (text : List Char) : Prop := trim text = text

instance : Decidable (Trimmed text) := inferInstanceAs (Decidable (trim text = text))

theorem dropWhile_eq_self {p : Char → Bool} (h : ∀ c ∈ text.head?, p c = false) :
    text.dropWhile p = text := by
  cases text with
  | nil => rfl
  | cons c text => exact List.dropWhile_cons_of_neg (by simp [h c rfl])

theorem eq_false_of_head?_dropWhile {p : Char → Bool} {c : Char}
    (h : c ∈ (text.dropWhile p).head?) : p c = false := by
  have hnot := List.head?_dropWhile_not p text
  rw [Option.mem_def.mp h] at hnot
  exact hnot

theorem trimmed_of_ends (hfirst : ∀ c ∈ text.head?, isWhitespace c = false)
    (hlast : ∀ c ∈ text.getLast?, isWhitespace c = false) : Trimmed text := by
  have hreverse : text.reverse.dropWhile isWhitespace = text.reverse :=
    dropWhile_eq_self (by rwa [List.head?_reverse])
  rw [Trimmed, trim, trimMatches, dropWhile_eq_self hfirst, hreverse, List.reverse_reverse]

theorem isWhitespace_getLast?_trim {c : Char} (h : c ∈ (trim text).getLast?) :
    isWhitespace c = false := by
  rw [trim, trimMatches, List.getLast?_reverse] at h
  exact eq_false_of_head?_dropWhile h

theorem isWhitespace_head?_trim {c : Char} (h : c ∈ (trim text).head?) :
    isWhitespace c = false := by
  rw [trim, trimMatches, List.head?_reverse] at h
  -- what is dropped at the end leaves the beginning
  obtain ⟨dropped, hdropped⟩ :=
    List.dropWhile_suffix (l := (text.dropWhile isWhitespace).reverse) isWhitespace
  have hlast : c ∈ (text.dropWhile isWhitespace).reverse.getLast? := by
    rw [← hdropped, List.getLast?_append, Option.mem_def.mp h]
    rfl
  rw [List.getLast?_reverse] at hlast
  exact eq_false_of_head?_dropWhile hlast

theorem trimmed_trim (text : List Char) : Trimmed (trim text) :=
  trimmed_of_ends (fun _ => isWhitespace_head?_trim) fun _ => isWhitespace_getLast?_trim

theorem Trimmed.append (ha : Trimmed a) (hb : Trimmed b) (hane : a ≠ []) (hbne : b ≠ [])
    (between : List Char) : Trimmed (a ++ (between ++ b)) := by
  refine trimmed_of_ends ?_ ?_
  · intro c hc
    rw [List.head?_append_of_ne_nil _ hane, ← show trim a = a from ha] at hc
    exact isWhitespace_head?_trim hc
  · intro c hc
    rw [← List.append_assoc, List.getLast?_append_of_ne_nil _ hbne, ← show trim b = b from hb] at hc
    exact isWhitespace_getLast?_trim hc

end Goble.Text
