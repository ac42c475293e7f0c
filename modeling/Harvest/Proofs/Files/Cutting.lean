/-
  Harvest.Proofs.Files.Cutting

  The lines of a file as pieces of it. A file is split at its newlines; what is behind the last one
  is a line of its own unless it is empty (`linesOf_splitOn`). The text of a line is the piece
  without the carriage return that may stand in front of the newline (`map_chomp_linesOf`).
-/
import Harvest.Files.Lines
import Harvest.Proofs.Text.Utf8

namespace Harvest

/-! ## The last line of a file -/

/-- A part that ends with a newline has only lines that do. -/
theorem isEnded_of_mem_linesOf {bs line : Bytes} (h : bs = [] ∨ isEnded bs = true)
    (hline : line ∈ linesOf bs) : isEnded line = true := by
  induction bs generalizing line with
  | nil => cases hline
  | cons b bs ih =>
    have hrest : bs = [] ∨ isEnded bs = true := by
      cases bs with
      | nil => exact .inl rfl
      | cons c bs => exact .inr (by simpa [isEnded] using h)
    by_cases hb : b = newline
    · subst hb
      rw [linesOf_cons_newline] at hline
      rcases List.mem_cons.mp hline with rfl | hmem
      · rfl
      · exact ih hrest hmem
    · rw [linesOf_cons_of_ne hb] at hline
      cases hls : linesOf bs with
      | nil =>
        -- Nothing is behind the octet, which would have to be the newline.
        have hnone : bs = [] := by
          refine Classical.byContradiction fun hsome => ?_
          exact linesOf_ne_nil hsome hls
        subst hnone
        simp [isEnded, hb] at h
      | cons l ls =>
        rw [hls] at hline ih
        rcases List.mem_cons.mp hline with rfl | hmem
        · have hl := ih hrest List.mem_cons_self
          cases l with
          | nil => cases hl
          | cons c l => simpa [isEnded] using hl
        · exact ih hrest (List.mem_cons_of_mem l hmem)

/-- What has no newline is one line. -/
theorem linesOf_of_newline_notMem {bs : Bytes} (h : newline ∉ bs) (hsome : bs ≠ []) :
    linesOf bs = [bs] := by
  induction bs with
  | nil => exact absurd rfl hsome
  | cons b bs ih =>
    rw [List.mem_cons, not_or] at h
    rw [linesOf_cons_of_ne (Ne.symm h.1)]
    by_cases hnone : bs = []
    · rw [hnone]
      rfl
    · rw [ih h.2 hnone]
      rfl

theorem isEnded_of_newline_notMem {bs : Bytes} (h : newline ∉ bs) : isEnded bs = false := by
  cases hlast : bs.getLast? with
  | none => simp [isEnded, hlast]
  | some b =>
    have hb : b ≠ newline := by
      rintro rfl
      exact h (List.mem_of_getLast? hlast)
    simp [isEnded, hlast, hb]

/-! ## Pieces of a file -/

/-- A piece without the carriage return at its end. -/
def dropReturn (piece : Bytes) : Bytes :=
  if piece.getLast? = some carriageReturn then piece.dropLast else piece

/-- The texts of the lines of a file: what is between its newlines, without the carriage returns
    in front of them, and what is behind the last newline, if it is not empty. -/
def textLines (bs : Bytes) : List Bytes :=
  let pieces := bs.splitOn newline
  pieces.dropLast.map dropReturn ++ pieces.getLast?.toList.filter fun piece => !piece.isEmpty

/-- The lines of a file are its pieces, each with its newline, and the last piece without one if it
    is not empty. -/
theorem linesOf_splitOn (bs : Bytes) :
    ∃ front last, bs.splitOn newline = front ++ [last] ∧ newline ∉ last ∧
      linesOf bs = front.map (· ++ [newline]) ++ [last].filter fun piece => !piece.isEmpty := by
  induction bs with
  | nil => exact ⟨[], [], rfl, List.not_mem_nil, rfl⟩
  | cons b bs ih =>
    obtain ⟨front, last, hpieces, hlast, hlines⟩ := ih
    rw [List.splitOn_cons_eq_if_modifyHead, hpieces]
    by_cases hb : b = newline
    · refine ⟨[] :: front, last, ?_, hlast, ?_⟩
      · rw [if_pos (beq_iff_eq.mpr hb), List.cons_append]
      · rw [hb, linesOf_cons_newline, hlines]
        rfl
    · rw [if_neg (by simpa using hb), linesOf_cons_of_ne hb, hlines]
      cases front with
      | nil =>
        -- The octet goes to the last piece, which is a line from then on.
        refine ⟨[], b :: last, rfl, ?_, ?_⟩
        · rw [List.mem_cons, not_or]
          exact ⟨Ne.symm hb, hlast⟩
        · cases last with
          | nil => rfl
          | cons c last => rfl
      | cons piece front => exact ⟨(b :: piece) :: front, last, rfl, hlast, rfl⟩

theorem chomp_concat (piece : Bytes) : chomp (piece ++ [newline]) = dropReturn piece := by
  unfold chomp
  rw [if_pos (isEnded_concat piece), List.dropLast_concat]
  rfl

theorem chomp_of_newline_notMem {piece : Bytes} (h : newline ∉ piece) : chomp piece = piece := by
  unfold chomp
  rw [isEnded_of_newline_notMem h, if_neg Bool.false_ne_true]

/-- The lines of a file without what ends them are its texts. -/
theorem map_chomp_linesOf (bs : Bytes) : (linesOf bs).map chomp = textLines bs := by
  obtain ⟨front, last, hpieces, hlast, hlines⟩ := linesOf_splitOn bs
  have hbehind : ([last].filter fun piece => !piece.isEmpty).map chomp =
      [last].filter fun piece => !piece.isEmpty := by
    refine (List.map_congr_left fun piece hpiece => ?_).trans (List.map_id _)
    rw [List.mem_singleton.mp (List.mem_filter.mp hpiece).1, chomp_of_newline_notMem hlast, id]
  have hfront : (front.map (· ++ [newline])).map chomp = front.map dropReturn := by
    rw [List.map_map]
    exact List.map_congr_left fun piece _ => chomp_concat piece
  unfold textLines
  rw [hlines, List.map_append, hfront, hbehind, hpieces]
  dsimp only
  rw [List.dropLast_concat, List.getLast?_concat]
  rfl

/-- A carriage return is dropped where a newline follows, and an empty line is a line. -/
example : textLines [0x61, carriageReturn, newline, newline, 0x62, carriageReturn] =
    [[0x61], [], [0x62, carriageReturn]] := by decide

end Harvest
