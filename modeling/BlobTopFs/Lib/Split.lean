import Mathlib.Data.List.TakeWhile

/-!
# The fields of a list

`fields sep l` are the maximal runs without a separator: leading, trailing and repeated
separators stand for nothing. A reader that skips separators and then takes a run sees one field
after the other (`fields_of_dropWhile`).
-/

namespace BlobTopFs

variable {α : Type*} {sep : α → Bool} {l : List α}

/-- The maximal runs without a separator. -/
def fields (sep : α → Bool) : List α → List (List α)
  | [] => []
  | a :: l =>
      if sep a then fields sep l
      -- the run ends here, or goes on with the first of the others
      else if l.head?.all sep then [a] :: fields sep l
      else (fields sep l).modifyHead (a :: ·)

theorem fields_cons_sep {a : α} (ha : sep a = true) : fields sep (a :: l) = fields sep l := by
  rw [fields, if_pos ha]

theorem fields_dropWhile (sep : α → Bool) (l : List α) :
    fields sep (l.dropWhile sep) = fields sep l := by
  induction l with
  | nil => rfl
  | cons a l ih =>
      by_cases ha : sep a = true
      · rw [List.dropWhile_cons, if_pos ha, fields_cons_sep ha]
        exact ih
      · rw [List.dropWhile_cons, if_neg ha]

/-- A list that begins with no separator begins with its first field. -/
theorem fields_cons_run {a : α} (ha : sep a = false) :
    fields sep (a :: l) =
      (a :: l.takeWhile fun b => !sep b) :: fields sep (l.dropWhile fun b => !sep b) := by
  induction l generalizing a with
  | nil => simp [fields, ha]
  | cons b l ih =>
      rw [fields, ha, if_neg Bool.false_ne_true, List.takeWhile_cons, List.dropWhile_cons]
      cases hb : sep b with
      | true => simp [hb]
      | false =>
          rw [ih hb]
          simp [hb]

/-- Behind the leading separators there is nothing, or the first field and then the others. -/
theorem fields_of_dropWhile (sep : α → Bool) (l : List α) :
    fields sep l =
      match l.dropWhile sep with
      | [] => []
      | a :: rest => (a :: rest.takeWhile fun b => !sep b) ::
          fields sep (rest.dropWhile fun b => !sep b) := by
  rw [← fields_dropWhile]
  cases hl : l.dropWhile sep with
  | nil => rfl
  | cons a rest =>
      have hne : l.dropWhile sep ≠ [] := by simp [hl]
      have ha := List.head_dropWhile_not sep hne
      exact fields_cons_run (by simpa [hl] using ha)

/-- Every element of a field is one of the list. -/
theorem mem_of_mem_fields {w : List α} (hw : w ∈ fields sep l) {a : α} (ha : a ∈ w) : a ∈ l := by
  induction l generalizing w with
  | nil => cases hw
  | cons b l ih =>
      rw [fields] at hw
      split at hw
      · exact List.mem_cons_of_mem _ (ih hw ha)
      · split at hw
        · rcases List.mem_cons.mp hw with rfl | hw
          · exact List.mem_cons.mpr (Or.inl (List.mem_singleton.mp ha))
          · exact List.mem_cons_of_mem _ (ih hw ha)
        · cases hf : fields sep l with
          | nil =>
              rw [hf] at hw
              cases hw
          | cons v vs =>
              rw [hf, List.modifyHead_cons] at hw
              rcases List.mem_cons.mp hw with rfl | hw
              · rcases List.mem_cons.mp ha with rfl | ha
                · exact List.mem_cons_self
                · exact List.mem_cons_of_mem _ (ih (hf ▸ List.mem_cons_self) ha)
              · exact List.mem_cons_of_mem _ (ih (hf ▸ List.mem_cons_of_mem _ hw) ha)

/-- The head of a split is empty where the list is, or begins with a separator. -/
theorem head_splitOnP (sep : α → Bool) (l : List α) :
    ∃ w ws, l.splitOnP sep = w :: ws ∧ w.isEmpty = l.head?.all sep := by
  cases l with
  | nil => exact ⟨[], [], rfl, rfl⟩
  | cons a l =>
      rw [List.splitOnP_cons_eq_if_modifyHead]
      cases ha : sep a with
      | true => exact ⟨[], l.splitOnP sep, if_pos rfl, by simp [ha]⟩
      | false =>
          obtain ⟨w, ws, hsplit⟩ := List.exists_cons_of_ne_nil (List.splitOnP_ne_nil sep l)
          refine ⟨a :: w, ws, ?_, by simp [ha]⟩
          rw [if_neg Bool.false_ne_true, hsplit, List.modifyHead_cons]

/-- The fields are what a split leaves between its separators, where that is something. -/
theorem fields_eq_filter_splitOnP (sep : α → Bool) (l : List α) :
    fields sep l = (l.splitOnP sep).filter fun w => !w.isEmpty := by
  induction l with
  | nil => rfl
  | cons a l ih =>
      rw [fields, List.splitOnP_cons_eq_if_modifyHead, ih]
      cases ha : sep a with
      | true => simp
      | false =>
          obtain ⟨w, ws, hsplit, hhead⟩ := head_splitOnP sep l
          rw [hsplit, if_neg Bool.false_ne_true, if_neg Bool.false_ne_true, List.modifyHead_cons]
          cases hw : w.isEmpty with
          | true =>
              obtain rfl := List.isEmpty_iff.mp hw
              rw [if_pos (hhead.symm.trans hw)]
              simp
          | false =>
              rw [if_neg (by rw [← hhead, hw]; exact Bool.false_ne_true)]
              simp [hw]

end BlobTopFs
