/-!
Sets of texts listed in ascending order. Texts are compared by code point, which is also the order
of their UTF-8 bytes.
-/

set_option autoImplicit false
set_option relaxedAutoImplicit false

namespace Multitape.Text

/-- Puts a text into an ascending list at its place, unless it is there already. -/
def insertAscending (text : String) : List String → List String
  | [] => [text]
  | first :: rest =>
    if text < first then text :: first :: rest
    else if text = first then first :: rest
    else first :: insertAscending text rest

/-- The texts in ascending order, each once. -/
def ascending (texts : List String) : List String :=
  texts.foldr insertAscending []

theorem mem_insertAscending {text other : String} {texts : List String} :
    other ∈ insertAscending text texts ↔ other = text ∨ other ∈ texts := by
  induction texts with
  | nil => simp [insertAscending]
  | cons first rest ih =>
    unfold insertAscending
    split
    · simp
    · split
      · next hsame => simp [hsame]
      · simp only [List.mem_cons, ih]
        exact or_left_comm

@[simp] theorem mem_ascending {text : String} {texts : List String} :
    text ∈ ascending texts ↔ text ∈ texts := by
  induction texts with
  | nil => simp [ascending]
  | cons first rest ih =>
    rw [ascending, List.foldr_cons, mem_insertAscending, List.mem_cons]
    exact or_congr_right ih

theorem pairwise_insertAscending {text : String} {texts : List String}
    (h : texts.Pairwise (· < ·)) : (insertAscending text texts).Pairwise (· < ·) := by
  induction texts with
  | nil => exact List.pairwise_singleton _ _
  | cons first rest ih =>
    obtain ⟨hfirst, hrest⟩ := List.pairwise_cons.1 h
    unfold insertAscending
    split
    · next hless =>
      refine List.pairwise_cons.2 ⟨fun other hother ↦ ?_, h⟩
      rcases List.mem_cons.1 hother with rfl | hother
      · exact hless
      · exact String.lt_trans hless (hfirst other hother)
    · split
      · exact h
      · next hless hdiffer =>
        have hgreater : first < text :=
          Std.lt_of_le_of_ne (String.not_lt.1 hless) (Ne.symm hdiffer)
        refine List.pairwise_cons.2 ⟨fun other hother ↦ ?_, ih hrest⟩
        rcases mem_insertAscending.1 hother with rfl | hother
        · exact hgreater
        · exact hfirst other hother

/-- No text is listed twice, and each stands before the greater ones. -/
theorem pairwise_ascending (texts : List String) : (ascending texts).Pairwise (· < ·) := by
  induction texts with
  | nil => exact List.Pairwise.nil
  | cons first rest ih =>
    rw [ascending, List.foldr_cons]
    exact pairwise_insertAscending ih

end Multitape.Text
