import Mathlib.Data.List.Basic

/-!
# Pages of a log

A log grows at its end, and a page is read from there: the newest entries first, after some that
are skipped.
-/

namespace MiniDiscord

variable {α : Type*} {log : List α} {r : α → α → Prop}

def page (log : List α) (limit offset : ℕ) : List α := (log.reverse.drop offset).take limit

/-- Who skips what was added since sees the same page again. -/
theorem page_append (log added : List α) (limit offset : ℕ) :
    page (log ++ added) limit (offset + added.length) = page log limit offset := by
  have hskip : (added.reverse ++ log.reverse).drop (offset + added.length) =
      log.reverse.drop offset := by
    rw [List.drop_append, List.drop_eq_nil_of_le (by simp), List.nil_append]
    simp
  rw [page, List.reverse_append, hskip, page]

theorem page_pairwise (h : log.Pairwise r) (limit offset : ℕ) :
    (page log limit offset).Pairwise fun a b => r b a := by
  have hreverse : log.reverse.Pairwise fun a b => r b a := List.pairwise_reverse.mpr h
  exact (hreverse.sublist (List.drop_sublist _ _)).sublist (List.take_sublist _ _)

end MiniDiscord
