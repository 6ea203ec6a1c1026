import Mathlib

/-!
# A list in pieces

`chunks n l` cuts `l` into pieces of `n`, the last of which may be shorter.  There is no
empty piece (`ne_nil_of_mem_chunks`), no piece is longer than `n`
(`length_le_of_mem_chunks`), the pieces make up the list (`flatten_chunks`), and if `n` is
at least two and there is more than one element there are fewer pieces than elements
(`length_chunks_lt`).
-/

namespace FcGpui

variable {α : Type}

/-- The pieces, where `current` is the one begun. -/
def chunksFrom (n : Nat) (current : List α) : List α → List (List α)
  | [] => if current = [] then [] else [current]
  | a :: l =>
    if (current ++ [a]).length = n then (current ++ [a]) :: chunksFrom n [] l
    else chunksFrom n (current ++ [a]) l

def chunks (n : Nat) (l : List α) : List (List α) := chunksFrom n [] l

theorem flatten_chunksFrom (n : Nat) (l current : List α) :
    (chunksFrom n current l).flatten = current ++ l := by
  induction l generalizing current with
  | nil =>
    unfold chunksFrom
    split
    · rename_i h
      rw [h]
      rfl
    · simp
  | cons a l ih =>
    unfold chunksFrom
    split
    · rw [List.flatten_cons, ih, List.append_assoc]
      rfl
    · rw [ih, List.append_assoc]
      rfl

@[simp]
theorem flatten_chunks (n : Nat) (l : List α) : (chunks n l).flatten = l :=
  flatten_chunksFrom n l []

theorem ne_nil_of_mem_chunksFrom (n : Nat) (l current : List α) :
    ∀ c ∈ chunksFrom n current l, c ≠ [] := by
  induction l generalizing current with
  | nil =>
    intro c hc
    unfold chunksFrom at hc
    split at hc
    · exact absurd hc List.not_mem_nil
    · rename_i h
      rw [List.mem_singleton.mp hc]
      exact h
  | cons a l ih =>
    intro c hc
    unfold chunksFrom at hc
    split at hc
    · rcases List.mem_cons.mp hc with rfl | hc
      · simp
      · exact ih [] c hc
    · exact ih _ c hc

theorem ne_nil_of_mem_chunks {n : Nat} {l c : List α} (h : c ∈ chunks n l) : c ≠ [] :=
  ne_nil_of_mem_chunksFrom n l [] c h

theorem length_le_of_mem_chunksFrom {n : Nat} (l current : List α) (hcurrent : current.length < n) :
    ∀ c ∈ chunksFrom n current l, c.length ≤ n := by
  induction l generalizing current with
  | nil =>
    intro c hc
    unfold chunksFrom at hc
    split at hc
    · exact absurd hc List.not_mem_nil
    · rw [List.mem_singleton.mp hc]
      exact hcurrent.le
  | cons a l ih =>
    intro c hc
    unfold chunksFrom at hc
    split at hc
    · rename_i hlength
      rcases List.mem_cons.mp hc with rfl | hc
      · exact hlength.le
      · exact ih [] (by simp; omega) c hc
    · rename_i hlength
      refine ih _ ?_ c hc
      rw [List.length_append, List.length_singleton] at hlength ⊢
      omega

theorem length_le_of_mem_chunks {n : Nat} (hn : 0 < n) {l c : List α} (h : c ∈ chunks n l) :
    c.length ≤ n :=
  length_le_of_mem_chunksFrom l [] hn c h

/-- All pieces but the last have two elements or more. -/
theorem two_mul_length_chunksFrom_le {n : Nat} (hn : 2 ≤ n) (l current : List α) :
    2 * (chunksFrom n current l).length ≤ current.length + l.length + 1 := by
  induction l generalizing current with
  | nil =>
    unfold chunksFrom
    split
    · simp
    · rename_i h
      have hpos : 0 < current.length := List.length_pos_iff.mpr h
      simp only [List.length_singleton, List.length_nil]
      omega
  | cons a l ih =>
    unfold chunksFrom
    split
    · rename_i hlength
      have hrest := ih []
      simp only [List.length_append, List.length_cons, List.length_nil] at hlength hrest ⊢
      omega
    · have hrest := ih (current ++ [a])
      simp only [List.length_append, List.length_cons, List.length_nil] at hrest ⊢
      omega

theorem length_chunks_lt {n : Nat} (hn : 2 ≤ n) {l : List α} (hl : 1 < l.length) :
    (chunks n l).length < l.length := by
  have hle := two_mul_length_chunksFrom_le hn l []
  rw [List.length_nil] at hle
  show (chunksFrom n [] l).length < l.length
  omega

/-!
### Lists of elements with a length

Each element of a list takes up a length, and so it starts at the total length of what is in
front of it.  `between` are the elements that start between two offsets; where the offsets are
starts themselves, they are the elements from one to the other (`between_middle`).
-/

section Spans

variable {α : Type} (len : α → Nat)

/-- The length that a list takes up. -/
def span (l : List α) : Nat := (l.map len).sum

/-- The elements that start at or past an offset and in front of another one, for a list at an offset. -/
def between (start stop : Nat) : Nat → List α → List α
  | _, [] => []
  | offset, a :: l =>
    (if start ≤ offset ∧ offset < stop then [a] else []) ++ between start stop (offset + len a) l

@[simp] theorem span_nil : span len [] = 0 := rfl

@[simp] theorem span_cons (a : α) (l : List α) : span len (a :: l) = len a + span len l := rfl

@[simp] theorem span_append (l m : List α) : span len (l ++ m) = span len l + span len m := by
  rw [span, List.map_append, List.sum_append]
  rfl

variable {len}

theorem span_pos {l : List α} (hpos : ∀ a ∈ l, 0 < len a) (hne : l ≠ []) : 0 < span len l := by
  cases l with
  | nil => exact absurd rfl hne
  | cons a l =>
    have ha := hpos a List.mem_cons_self
    rw [span_cons]
    omega

theorem between_append (start stop offset : Nat) (l m : List α) : between len start stop offset (l ++ m) =
    between len start stop offset l ++ between len start stop (offset + span len l) m := by
  induction l generalizing offset with
  | nil => rfl
  | cons a l ih => rw [List.cons_append, between, between, ih, List.append_assoc, span_cons, Nat.add_assoc]

/-- Elements that end in front of the first offset. -/
theorem between_before {start stop offset : Nat} {l : List α} (hpos : ∀ a ∈ l, 0 < len a)
    (h : offset + span len l ≤ start) : between len start stop offset l = [] := by
  induction l generalizing offset with
  | nil => rfl
  | cons a l ih =>
    have ha := hpos a List.mem_cons_self
    rw [span_cons] at h
    rw [between, if_neg (by omega), ih (fun b hb => hpos b (List.mem_cons_of_mem a hb)) (by omega)]
    rfl

/-- Elements from the first offset on that end at the second one or in front of it. -/
theorem between_within {start stop offset : Nat} {l : List α} (hpos : ∀ a ∈ l, 0 < len a) (hstart : start ≤ offset)
    (hstop : offset + span len l ≤ stop) : between len start stop offset l = l := by
  induction l generalizing offset with
  | nil => rfl
  | cons a l ih =>
    have ha := hpos a List.mem_cons_self
    rw [span_cons] at hstop
    rw [between, if_pos (by omega), ih (fun b hb => hpos b (List.mem_cons_of_mem a hb)) (by omega) (by omega)]
    rfl

/-- Elements from the second offset on. -/
theorem between_past {start stop offset : Nat} {l : List α} (h : stop ≤ offset) :
    between len start stop offset l = [] := by
  induction l generalizing offset with
  | nil => rfl
  | cons a l ih =>
    rw [between, if_neg (by omega), ih (h.trans (Nat.le_add_right _ _))]
    rfl

/-- **The elements between two starts** are those from the one to the other. -/
theorem between_middle (len : α → Nat) (front mid rest : List α) (hpos : ∀ a ∈ front ++ mid ++ rest, 0 < len a) :
    between len (span len front) (span len (front ++ mid)) 0 (front ++ mid ++ rest) = mid := by
  have hfront : ∀ a ∈ front, 0 < len a := fun a ha => hpos a (by simp [ha])
  have hmid : ∀ a ∈ mid, 0 < len a := fun a ha => hpos a (by simp [ha])
  rw [between_append, between_append, between_before hfront (by omega), Nat.zero_add,
    between_within hmid le_rfl (by rw [span_append]), Nat.zero_add, between_past le_rfl, List.append_nil]
  rfl

end Spans

end FcGpui
