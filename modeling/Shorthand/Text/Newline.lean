import Shorthand.Text.Basic

/-!
# Line ends

A text file may end its lines with `\r\n`, `\r` or `\n`; when it is read, each of them becomes one
`\n`. Writing changes nothing.
-/

namespace Shorthand

/-- A text with every line end written as `\n`. -/
def unifyNewlines : Text → Text
  | [] => []
  | '\r' :: '\n' :: rest => '\n' :: unifyNewlines rest
  | '\r' :: rest => '\n' :: unifyNewlines rest
  | c :: rest => c :: unifyNewlines rest

/-- Without `\r`, all line ends are unified already. -/
theorem unifyNewlines_of_not_mem {t : Text} (h : '\r' ∉ t) : unifyNewlines t = t := by
  fun_induction unifyNewlines t with
  | case1 => rfl
  | case2 rest ih => simp at h
  | case3 rest _ ih => simp at h
  | case4 c rest _ _ ih => rw [ih fun hmem => h (List.mem_cons_of_mem c hmem)]

end Shorthand
