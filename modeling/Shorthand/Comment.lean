import Shorthand.Text.Basic

/-!
# Comments

A comment runs from `<!--` to the next `-->`, over line ends too. Comments do not nest, and one
that is never closed is text.
-/

namespace Shorthand

/-- What follows the next `-->`. -/
def afterComment : Text → Option Text
  | [] => none
  | '-' :: '-' :: '>' :: rest => some rest
  | _ :: rest => afterComment rest

theorem length_afterComment {t rest : Text} (h : afterComment t = some rest) :
    rest.length < t.length := by
  fun_induction afterComment t with
  | case1 => simp at h
  | case2 r => simp_all; omega
  | case3 c r hc ih => have := ih h; simp; omega

/-- What follows a comment that the text begins with. -/
def afterLeadingComment : Text → Option Text
  | '<' :: '!' :: '-' :: '-' :: rest => afterComment rest
  | _ => none

theorem length_afterLeadingComment {t rest : Text} (h : afterLeadingComment t = some rest) :
    rest.length < t.length := by
  unfold afterLeadingComment at h
  split at h
  · have := length_afterComment h
    simp; omega
  · simp at h

/-- A text without its comments. -/
def stripComments (t : Text) : Text :=
  match t with
  | [] => []
  | c :: rest =>
    match _ : afterLeadingComment (c :: rest) with
    | some rest' => stripComments rest'
    | none => c :: stripComments rest
termination_by t.length
decreasing_by
  · exact length_afterLeadingComment ‹_›
  · simp

end Shorthand
