import Shorthand.Expansion
import Shorthand.Proofs.Agreement

/-!
# Closing tags

Every operator closes some of the innermost tags and does nothing else to the fragments.

- `closings tags`: the closing fragments of tags, those of void tags left out.
- `seemsOpen`: a fragment behind which a `+` closes a tag; `any_seemsOpen_append_closings` says when
  one stands behind closing fragments.
- `closeTags_eq`: what closing a number of tags leaves.
- `ClosesTo e p r`: closing the tags above `p` leaves the fragments `r`. Any abbreviation ends so.
- `EndsAt e p r`: at most one node is open above `p`, and closing it leaves the fragments `r`. What
  may stand before `+` or `^` ends so.
-/

namespace Shorthand

/-- The closing fragments of tags. Void tags have none. -/
def closings (tags : List Text) : List Text :=
  (tags.filter fun tag => !isVoid tag).map closingFragment

@[simp] theorem closings_nil : closings [] = [] := rfl

theorem closings_cons (tag : Text) (tags : List Text) :
    closings (tag :: tags) = (if isVoid tag then [] else [closingFragment tag]) ++ closings tags := by
  by_cases h : isVoid tag <;> simp [closings, h]

@[simp] theorem closings_append (s t : List Text) : closings (s ++ t) = closings s ++ closings t := by
  simp [closings]

theorem closingFragment_of_not_void {tag : Text} (h : isVoid tag = false) :
    closingFragment tag = '<' :: '/' :: (tag ++ ['>']) := by
  simp [closingFragment, h]

theorem closings_singleton {tag : Text} (h : isVoid tag = false) :
    closings [tag] = [closingFragment tag] := by
  simp [closings, h]

/-- A fragment that does not look like the end of an item: it is no closing fragment, and not empty
as the closing of a repeated void tag. -/
def seemsOpen (fragment : Text) : Bool :=
  !fragment.isEmpty && !"</".toList.isPrefixOf fragment

theorem seemsOpen_closingFragment (tag : Text) : seemsOpen (closingFragment tag) = false := by
  unfold closingFragment
  split <;> rfl

/-- What stands last seems open behind closing fragments only if there are none. -/
theorem any_seemsOpen_append_closings (fragments tags : List Text) :
    (fragments ++ closings tags).getLast?.any seemsOpen =
      (fragments.getLast?.any seemsOpen && tags.all isVoid) := by
  rcases (closings tags).eq_nil_or_concat' with hnil | ⟨before, last, hlast⟩
  · have hall : tags.all isVoid = true := by simpa [closings] using hnil
    rw [hnil, hall, List.append_nil, Bool.and_true]
  · have hmem : last ∈ closings tags := by simp [hlast]
    simp only [closings, List.mem_map, List.mem_filter, Bool.not_eq_true'] at hmem
    obtain ⟨tag, ⟨htag, hsolid⟩, rfl⟩ := hmem
    have hall : tags.all isVoid = false := List.all_eq_false.2 ⟨tag, htag, by simp [hsolid]⟩
    rw [hlast, ← List.append_assoc, List.getLast?_concat, hall, Bool.and_false]
    exact seemsOpen_closingFragment tag

namespace Expansion

theorem closeTags_eq (n : Nat) (e : Expansion) :
    closeTags n e =
      { e with
        openTags := e.openTags.drop n
        result := e.result ++ closings (e.openTags.take n) } := by
  induction n generalizing e with
  | zero => simp [closeTags]
  | succ n ih =>
    obtain ⟨result, openTags, groups, lastGroup⟩ := e
    rw [closeTags, ih]
    cases openTags with
    | nil => simp [closeTag]
    | cons tag openTags => by_cases h : isVoid tag <;> simp [closeTag, closings_cons, h]

theorem closeTag_eq (e : Expansion) : e.closeTag = closeTags 1 e := rfl

/-- The number of tags that `+` closes: the last node's, unless it is closed already. -/
def openCount (e : Expansion) : Nat :=
  if e.lastIsOpen then 1 else 0

theorem closeLast_eq (e : Expansion) : e.closeLast = closeTags e.openCount e := by
  unfold closeLast openCount
  split <;> rfl

theorem closeTags_add (m n : Nat) (e : Expansion) :
    closeTags n (closeTags m e) = closeTags (m + n) e := by
  induction m generalizing e with
  | zero => simp [closeTags]
  | succ m ih => rw [Nat.succ_add, closeTags, closeTags, ih]

theorem lastIsOpen_eq (e : Expansion) : e.lastIsOpen = e.result.getLast?.any seemsOpen := by
  unfold lastIsOpen
  cases e.result.getLast? <;> rfl

/-- After the closing fragment of a tag, there is nothing for a `+` to close. -/
theorem openCount_closed {e : Expansion} {fragments tags : List Text} {name : Text}
    (hv : isVoid name = false) (h : e.result = fragments ++ closings (name :: tags)) :
    e.openCount = 0 := by
  rw [openCount, lastIsOpen_eq, h, any_seemsOpen_append_closings]
  simp [hv]

theorem openCount_closeTags {e : Expansion} {name : Text} {tags : List Text}
    (h : e.openTags = name :: tags) (hv : isVoid name = false) (n : Nat) :
    (closeTags (n + 1) e).openCount = 0 := by
  have hresult : (closeTags (n + 1) e).result = e.result ++ closings (name :: tags.take n) := by
    rw [closeTags_eq, h, List.take_succ_cons]
  exact openCount_closed hv hresult

theorem mem_openTags_of_closeTags {e : Expansion} {n : Nat} {tag : Text}
    (h : tag ∈ (closeTags n e).openTags) : tag ∈ e.openTags := by
  rw [closeTags_eq] at h
  exact (List.drop_sublist n _).subset h

theorem length_openTags_closeTags (n : Nat) (e : Expansion) :
    (closeTags n e).openTags.length = e.openTags.length - n := by
  rw [closeTags_eq, List.length_drop]

theorem finish_eq (e : Expansion) : e.finish = (e.result ++ closings e.openTags).flatten := by
  simp [finish, closeTags_eq]

/-! ## Runs -/

section Run

variable {attributes : Table} {resolver : Resolver} {e : Expansion}

@[simp] theorem run_nil : run attributes resolver e [] = .ok e := rfl

@[simp] theorem run_cons (t : Token) (ts : List Token) :
    run attributes resolver e (t :: ts) =
      step attributes resolver e t >>= fun e' => run attributes resolver e' ts := rfl

theorem run_singleton (t : Token) :
    run attributes resolver e [t] = step attributes resolver e t := by
  rw [run_cons]
  exact bind_pure _

theorem run_append (ts us : List Token) :
    run attributes resolver e (ts ++ us) =
      run attributes resolver e ts >>= fun e' => run attributes resolver e' us := by
  simp [run]

theorem step_sibling : step attributes resolver e .sibling = .ok (closeTags e.openCount e) := by
  rw [step, closeLast_eq]

theorem step_climb : step attributes resolver e .climb = .ok (closeTags (e.openCount + 1) e) := by
  rw [step, closeLast_eq, closeTag_eq, closeTags_add]

end Run

/-! ## What is left to close -/

/-- Closing the tags above `p` leaves the fragments `r`. -/
def ClosesTo (e : Expansion) (p r : List Text) : Prop :=
  ∃ q, e.openTags = q ++ p ∧ e.result ++ closings q = r

/-- At most one node is open above `p`, and closing it leaves the fragments `r`. -/
def EndsAt (e : Expansion) (p r : List Text) : Prop :=
  ∃ q, e.openTags = q ++ p ∧ e.result ++ closings q = r ∧ e.openCount = q.length

variable {e : Expansion} {p r : List Text}

theorem EndsAt.closesTo (h : e.EndsAt p r) : e.ClosesTo p r := by
  obtain ⟨q, hq, hr, -⟩ := h
  exact ⟨q, hq, hr⟩

theorem ClosesTo.closeTags (h : e.ClosesTo p r) :
    closeTags (e.openTags.length - p.length) e = { e with openTags := p, result := r } := by
  obtain ⟨q, hq, rfl⟩ := h
  simp [closeTags_eq, hq]

theorem ClosesTo.finish (h : e.ClosesTo [] r) : e.finish = r.flatten := by
  obtain ⟨q, hq, rfl⟩ := h
  rw [finish_eq, hq, List.append_nil]

/-- One more level closes with the closing fragment of its tag. -/
theorem ClosesTo.pop {tag : Text} (h : e.ClosesTo (tag :: p) r) :
    e.ClosesTo p (r ++ closings [tag]) := by
  obtain ⟨q, hq, rfl⟩ := h
  exact ⟨q ++ [tag], by simp [hq], by simp⟩

theorem EndsAt.closeTags (h : e.EndsAt p r) :
    Expansion.closeTags e.openCount e = { e with openTags := p, result := r } := by
  obtain ⟨q, hq, rfl, hn⟩ := h
  simp [closeTags_eq, hq, hn]

/-- `^` closes what is open in the innermost tag, and that tag. -/
theorem EndsAt.climb {tag : Text} (h : e.EndsAt (tag :: p) r) :
    Expansion.closeTags (e.openCount + 1) e =
      { e with openTags := p, result := r ++ closings [tag] } := by
  rw [← closeTags_add, h.closeTags, closeTags_eq]
  rfl

end Expansion

end Shorthand
