import Escrow.Text.Blank
import Mathlib.Data.List.TakeWhile

/-!
# Text without the blank characters at its ends

A text keeps whatever is not blank (`isEmpty_trim`), and a word with blank characters
around it is all that is left of them (`trim_ofList`).
-/

namespace Escrow.Text

theorem dropBlank_append {front : List Char} (h : ∀ c ∈ front, isBlank c = true)
    (cs : List Char) : dropBlank (front ++ cs) = dropBlank cs :=
  List.dropWhile_append_of_pos h

theorem dropBlank_of_forall {word : List Char} (hne : word ≠ [])
    (h : ∀ c ∈ word, isBlank c = false) (rest : List Char) :
    dropBlank (word ++ rest) = word ++ rest := by
  cases word with
  | nil => exact absurd rfl hne
  | cons c word => exact List.dropWhile_cons_of_neg (by simp [h c List.mem_cons_self])

/-- A word loses the blank characters around it and nothing else. -/
theorem trim_ofList {front word back : List Char} (hfront : ∀ c ∈ front, isBlank c = true)
    (hne : word ≠ []) (hword : ∀ c ∈ word, isBlank c = false)
    (hback : ∀ c ∈ back, isBlank c = true) :
    trim (String.ofList (front ++ word ++ back)) = String.ofList word := by
  have hforward : dropBlank (front ++ word ++ back) = word ++ back := by
    rw [List.append_assoc, dropBlank_append hfront, dropBlank_of_forall hne hword]
  have hbackward : dropBlank (back.reverse ++ word.reverse) = word.reverse := by
    have hdrop := dropBlank_of_forall (mt List.reverse_eq_nil_iff.1 hne)
      (fun c hc => hword c (List.mem_reverse.1 hc)) []
    rw [List.append_nil] at hdrop
    rw [dropBlank_append fun c hc => hback c (List.mem_reverse.1 hc), hdrop]
  rw [trim, String.toList_ofList, hforward, List.reverse_append, hbackward, List.reverse_reverse]

/-- A text without blank characters keeps them all. -/
theorem trim_of_forall {s : String} (h : ∀ c ∈ s.toList, isBlank c = false) : trim s = s := by
  by_cases hne : s.toList = []
  · rw [trim, hne, ← String.ofList_toList (s := s), hne]
    rfl
  · have htrim := trim_ofList (List.forall_mem_nil _) hne h (List.forall_mem_nil _)
    rwa [List.nil_append, List.append_nil, String.ofList_toList] at htrim

/-- Something is left of a text in which not all is blank. -/
theorem isEmpty_trim {s : String} {c : Char} (hc : c ∈ s.toList) (h : isBlank c = false) :
    (trim s).isEmpty = false := by
  have hdrop : ∀ cs : List Char, c ∈ cs → c ∈ dropBlank cs := by
    intro cs hcs
    rw [← List.takeWhile_append_dropWhile (p := isBlank) (l := cs), List.mem_append] at hcs
    refine hcs.resolve_left fun htake => ?_
    rw [List.mem_takeWhile_imp htake] at h
    cases h
  have hmem : c ∈ (trim s).toList := by
    rw [trim, String.toList_ofList, List.mem_reverse]
    exact hdrop _ (List.mem_reverse.2 (hdrop _ hc))
  rw [Bool.eq_false_iff]
  intro hempty
  rw [String.isEmpty_iff.1 hempty] at hmem
  cases hmem

end Escrow.Text
