import Mathlib

/-!
# Tokens in slots and hands

Tokens are kept in slots and may be taken out of a slot into a hand; hands form a
stack.  `Custody` says that every token is in one place only, that each place has its
tokens in ascending order, and that the tokens handed out so far are those below `next`.
There is one lemma for each thing that may be done: tokens are thrown away (`shrink`), the
next one comes into a slot (`add`), a slot is taken into a new hand (`take`), and the last
hand is put back into its slot (`put`).
-/

namespace FcGpui

variable {K ι : Type} [LinearOrder ι]

structure Custody (slots : K → List ι) (hands : List (List ι)) (next : ι) : Prop where
  slots_lt : ∀ k, ∀ i ∈ slots k, i < next
  hands_lt : ∀ h ∈ hands, ∀ i ∈ h, i < next
  slots_sorted : ∀ k, (slots k).Pairwise (· < ·)
  hands_sorted : ∀ h ∈ hands, h.Pairwise (· < ·)
  slots_apart : ∀ j k, ∀ i ∈ slots j, i ∈ slots k → j = k
  hands_out : ∀ h ∈ hands, ∀ i ∈ h, ∀ k, i ∉ slots k
  hands_apart : hands.Pairwise List.Disjoint

namespace Custody

variable {slots slots' : K → List ι} {hands hands' : List (List ι)} {next next' : ι}

theorem empty (next : ι) : Custody (fun _ : K => []) [] next where
  slots_lt _ _ hi := absurd hi List.not_mem_nil
  hands_lt _ hh := absurd hh List.not_mem_nil
  slots_sorted _ := List.Pairwise.nil
  hands_sorted _ hh := absurd hh List.not_mem_nil
  slots_apart _ _ _ hi := absurd hi List.not_mem_nil
  hands_out _ hh := absurd hh List.not_mem_nil
  hands_apart := List.Pairwise.nil

/-- Some tokens leave the slots. -/
theorem shrink (h : Custody slots hands next) (hsorted : ∀ k, (slots' k).Pairwise (· < ·))
    (hslots : ∀ k, ∀ i ∈ slots' k, i ∈ slots k) : Custody slots' hands next where
  slots_lt k i hi := h.slots_lt k i (hslots k i hi)
  hands_lt := h.hands_lt
  slots_sorted := hsorted
  hands_sorted := h.hands_sorted
  slots_apart j k i hj hk := h.slots_apart j k i (hslots j i hj) (hslots k i hk)
  hands_out g hg i hi k hk := h.hands_out g hg i hi k (hslots k i hk)
  hands_apart := h.hands_apart

/-- Some tokens leave the last hand. -/
theorem shrinkHand {g g' : List ι} (h : Custody slots (g :: hands) next) (hg : g'.Sublist g) :
    Custody slots (g' :: hands) next where
  slots_lt := h.slots_lt
  hands_lt f hf i hi := by
    rcases List.mem_cons.mp hf with rfl | hf
    · exact h.hands_lt g List.mem_cons_self i (hg.subset hi)
    · exact h.hands_lt f (List.mem_cons_of_mem _ hf) i hi
  slots_sorted := h.slots_sorted
  hands_sorted f hf := by
    rcases List.mem_cons.mp hf with rfl | hf
    · exact (h.hands_sorted g List.mem_cons_self).sublist hg
    · exact h.hands_sorted f (List.mem_cons_of_mem _ hf)
  slots_apart := h.slots_apart
  hands_out f hf i hi := by
    rcases List.mem_cons.mp hf with rfl | hf
    · exact h.hands_out g List.mem_cons_self i (hg.subset hi)
    · exact h.hands_out f (List.mem_cons_of_mem _ hf) i hi
  hands_apart := by
    obtain ⟨hhead, htail⟩ := List.pairwise_cons.mp h.hands_apart
    refine List.pairwise_cons.mpr ⟨fun f hf => ?_, htail⟩
    exact fun i hi hif => hhead f hf (hg.subset hi) hif

/-- The next token comes into a slot. -/
theorem add (h : Custody slots hands next) {k : K} (hnext : next < next')
    (hsorted : ∀ k, (slots' k).Pairwise (· < ·))
    (hslots : ∀ j, ∀ i ∈ slots' j, (j = k ∧ i = next) ∨ i ∈ slots j) :
    Custody slots' hands next' where
  slots_lt j i hi := by
    rcases hslots j i hi with ⟨-, rfl⟩ | hi
    · exact hnext
    · exact (h.slots_lt j i hi).trans hnext
  hands_lt g hg i hi := (h.hands_lt g hg i hi).trans hnext
  slots_sorted := hsorted
  hands_sorted := h.hands_sorted
  slots_apart j l i hj hl := by
    rcases hslots j i hj with ⟨rfl, rfl⟩ | hj
    · rcases hslots l i hl with ⟨rfl, -⟩ | hl
      · rfl
      · exact absurd (h.slots_lt l i hl) (lt_irrefl _)
    · rcases hslots l i hl with ⟨rfl, rfl⟩ | hl
      · exact absurd (h.slots_lt j i hj) (lt_irrefl _)
      · exact h.slots_apart j l i hj hl
  hands_out g hg i hi j hj := by
    rcases hslots j i hj with ⟨-, rfl⟩ | hj
    · exact absurd (h.hands_lt g hg i hi) (lt_irrefl _)
    · exact h.hands_out g hg i hi j hj
  hands_apart := h.hands_apart

/-- A slot is taken into a new hand. -/
theorem take (h : Custody slots hands next) {k : K} (hself : slots' k = [])
    (hother : ∀ j, j ≠ k → slots' j = slots j) : Custody slots' (slots k :: hands) next := by
  have hslots : ∀ j, ∀ i ∈ slots' j, j ≠ k ∧ i ∈ slots j := by
    intro j i hi
    have hj : j ≠ k := by
      rintro rfl
      rw [hself] at hi
      exact List.not_mem_nil hi
    exact ⟨hj, hother j hj ▸ hi⟩
  refine ⟨fun j i hi => h.slots_lt j i (hslots j i hi).2, fun g hg => ?_, fun j => ?_, fun g hg => ?_,
    fun j l i hj hl => h.slots_apart j l i (hslots j i hj).2 (hslots l i hl).2, fun g hg i hi j hj => ?_,
    List.pairwise_cons.mpr ⟨fun g hg i hi hig => h.hands_out g hg i hig k hi, h.hands_apart⟩⟩
  · rcases List.mem_cons.mp hg with rfl | hg
    · exact h.slots_lt k
    · exact h.hands_lt g hg
  · by_cases hj : j = k
    · rw [hj, hself]
      exact List.Pairwise.nil
    · rw [hother j hj]
      exact h.slots_sorted j
  · rcases List.mem_cons.mp hg with rfl | hg
    · exact h.slots_sorted k
    · exact h.hands_sorted g hg
  · obtain ⟨hne, hj⟩ := hslots j i hj
    rcases List.mem_cons.mp hg with rfl | hg
    · exact hne (h.slots_apart j k i hj hi)
    · exact h.hands_out g hg i hi j hj

/-- The last hand is put into a slot. -/
theorem put {g : List ι} (h : Custody slots (g :: hands) next) {k : K}
    (hsorted : ∀ k, (slots' k).Pairwise (· < ·))
    (hslots : ∀ j, ∀ i ∈ slots' j, i ∈ slots j ∨ (j = k ∧ i ∈ g)) : Custody slots' hands next where
  slots_lt j i hi := by
    rcases hslots j i hi with hi | ⟨-, hi⟩
    · exact h.slots_lt j i hi
    · exact h.hands_lt g List.mem_cons_self i hi
  hands_lt f hf := h.hands_lt f (List.mem_cons_of_mem _ hf)
  slots_sorted := hsorted
  hands_sorted f hf := h.hands_sorted f (List.mem_cons_of_mem _ hf)
  slots_apart j l i hj hl := by
    have hout := h.hands_out g List.mem_cons_self i
    rcases hslots j i hj with hj | ⟨rfl, hj⟩
    · rcases hslots l i hl with hl | ⟨-, hl⟩
      · exact h.slots_apart j l i hj hl
      · exact absurd hj (hout hl j)
    · rcases hslots l i hl with hl | ⟨rfl, -⟩
      · exact absurd hl (hout hj l)
      · rfl
  hands_out f hf i hi j hj := by
    rcases hslots j i hj with hj | ⟨-, hj⟩
    · exact h.hands_out f (List.mem_cons_of_mem _ hf) i hi j hj
    · exact (List.pairwise_cons.mp h.hands_apart).1 f hf hj hi
  hands_apart := (List.pairwise_cons.mp h.hands_apart).2

end Custody

end FcGpui
