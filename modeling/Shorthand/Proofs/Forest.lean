import Mathlib.Data.List.TakeWhile
import Shorthand.Proofs.Element

/-!
# Forests

Nodes with their depths, in the order in which they are written, describe a forest.

- `Forest`: the forests of elements. `Forest.preorder` lists the nodes with their depths,
  `Forest.fragments` is the markup.
- `Staged`: no depth is greater than the one before by more than one. These are the depths of
  forests (`exists_preorder`), each of one forest only (`preorder_injective`).
- `forestTokens`: the nodes with the operators that lead from each depth to the next.
- `run_forestTokens`: expanding these tokens writes the markup of the forest.
-/

namespace Shorthand

/-- A forest of elements: none, or a first one with those inside it and those beside it. -/
inductive Forest
  | nil
  | cons (t : Element) (inside beside : Forest)

/-- Elements with their depths. -/
abbrev Outline := List (Nat × Element)

namespace Forest

/-- The elements of a forest with their depths, each before those inside it. -/
def preorder (d : Nat) : Forest → Outline
  | nil => []
  | cons t inside beside => (d, t) :: (inside.preorder (d + 1) ++ beside.preorder d)

/-- The markup of a forest under the open tags `p`, in fragments. -/
def fragments (attributes : Table) (resolver : Resolver) (p : List Text) :
    Forest → Except Fault (List Text)
  | nil => return []
  | cons t inside beside => do
    let tag ← t.tag attributes resolver p
    let inside ← inside.fragments attributes resolver (tag.name :: p)
    let beside ← beside.fragments attributes resolver p
    return t.opening attributes tag :: (inside ++ closingFragment tag.name :: beside)

end Forest

/-! ## Depths -/

/-- The first depth is at most `n`, and each of the others at most one more than that before it. -/
def Staged : Nat → Outline → Prop
  | _, [] => True
  | n, (d, _) :: rest => d ≤ n ∧ Staged (d + 1) rest

theorem Staged.of_append {n : Nat} {xs ys : Outline} (h : Staged n (xs ++ ys)) : Staged n xs := by
  induction xs generalizing n with
  | nil => trivial
  | cons x xs ih => exact ⟨h.1, ih h.2⟩

theorem Staged.tail {n : Nat} {xs ys : Outline} {y : Nat × Element}
    (h : Staged n (xs ++ y :: ys)) : Staged (y.1 + 1) ys := by
  induction xs generalizing n with
  | nil => exact h.2
  | cons x xs ih => exact ih h.2

theorem le_of_mem_preorder {f : Forest} {d : Nat} {x : Nat × Element} (h : x ∈ f.preorder d) :
    d ≤ x.1 := by
  induction f generalizing d with
  | nil => cases h
  | cons t inside beside ihi ihb =>
    simp only [Forest.preorder, List.mem_cons, List.mem_append] at h
    rcases h with rfl | h | h
    · exact Nat.le_refl _
    · exact Nat.le_of_succ_le (ihi h)
    · exact ihb h

theorem Staged.mono {m n : Nat} {xs : Outline} (h : Staged m xs) (hle : m ≤ n) : Staged n xs := by
  cases xs with
  | nil => trivial
  | cons x xs => exact ⟨h.1.trans hle, h.2⟩

theorem Staged.append {n d : Nat} {xs ys : Outline} (hxs : Staged n xs) (hys : Staged d ys)
    (hn : d ≤ n) (hd : ∀ x ∈ xs, d ≤ x.1) : Staged n (xs ++ ys) := by
  induction xs generalizing n with
  | nil => exact hys.mono hn
  | cons x xs ih =>
    have hx := hd x List.mem_cons_self
    exact ⟨hxs.1, ih hxs.2 (hx.trans (Nat.le_succ _)) fun y hy =>
      hd y (List.mem_cons_of_mem _ hy)⟩

/-- The depths of a forest go down by one at a time. -/
theorem staged_preorder (f : Forest) (d : Nat) : Staged d (f.preorder d) := by
  induction f generalizing d with
  | nil => trivial
  | cons t inside beside ihi ihb =>
    exact ⟨Nat.le_refl d, (ihi (d + 1)).append (ihb d) (Nat.le_succ d) fun x hx =>
      Nat.le_of_succ_le (le_of_mem_preorder hx)⟩

/-- What stands deeper than `d`, up to the first that does not, is inside the element before. -/
theorem takeWhile_preorder (d : Nat) (inside beside : Forest) :
    (inside.preorder (d + 1) ++ beside.preorder d).takeWhile (fun x => decide (d < x.1)) =
      inside.preorder (d + 1) := by
  have hdeep : ∀ x ∈ inside.preorder (d + 1), decide (d < x.1) = true :=
    fun x hx => decide_eq_true (le_of_mem_preorder hx)
  rw [List.takeWhile_append_of_pos hdeep]
  cases beside <;> simp [Forest.preorder]

/-- Depths that go down by one at a time are those of a forest. -/
theorem exists_preorder {d : Nat} {xs : Outline} (h : Staged d xs) (hd : ∀ x ∈ xs, d ≤ x.1) :
    ∃ f : Forest, f.preorder d = xs := by
  induction hn : xs.length using Nat.strongRecOn generalizing d xs with
  | ind n ih =>
    cases xs with
    | nil => exact ⟨.nil, rfl⟩
    | cons x xs =>
      obtain ⟨k, t⟩ := x
      obtain ⟨hk, hrest⟩ := h
      obtain rfl : k = d := Nat.le_antisymm hk (hd _ List.mem_cons_self)
      -- the elements inside the first are those deeper than it, up to the next that is not
      have hsplit := List.takeWhile_append_dropWhile (p := fun x => decide (k < x.1)) (l := xs)
      have hlen := congrArg List.length hsplit
      rw [List.length_append] at hlen
      rw [List.length_cons] at hn
      rw [← hsplit] at hrest
      obtain ⟨inside, hinside⟩ := ih _ (by omega) hrest.of_append
        (fun y hy => Nat.succ_le_of_lt (by simpa using List.mem_takeWhile_imp hy)) rfl
      have houter : Staged k (xs.dropWhile fun x => decide (k < x.1)) := by
        cases hdrop : xs.dropWhile fun x => decide (k < x.1) with
        | nil => trivial
        | cons y ys =>
          have hy := List.head_dropWhile_not (fun x => decide (k < x.1)) (l := xs)
            (by rw [hdrop]; exact List.cons_ne_nil y ys)
          rw [hdrop] at hrest
          refine ⟨?_, hrest.tail⟩
          simpa [hdrop] using hy
      obtain ⟨beside, hbeside⟩ := ih _ (by omega) houter (fun y hy =>
        hd y (List.mem_cons_of_mem _ ((List.dropWhile_suffix _).subset hy))) rfl
      exact ⟨.cons t inside beside, by rw [Forest.preorder, hinside, hbeside, hsplit]⟩

/-- The depths of a forest tell the forest. -/
theorem preorder_injective {f g : Forest} {d : Nat} (h : f.preorder d = g.preorder d) : f = g := by
  induction f generalizing g d with
  | nil =>
    cases g with
    | nil => rfl
    | cons t inside beside => cases h
  | cons t inside beside ihi ihb =>
    cases g with
    | nil => cases h
    | cons t' inside' beside' =>
      obtain ⟨ht, hrest⟩ := List.cons.inj h
      have hinside := takeWhile_preorder d inside beside
      rw [hrest, takeWhile_preorder] at hinside
      rw [hinside] at hrest
      rw [(Prod.mk.inj ht).2, ihi hinside.symm, ihb (List.append_cancel_left hrest)]

/-! ## From one depth to the next -/

/-- The operators that lead from an element at the depth `reached`, or from none, to one at the
depth `d`. -/
def joining (reached : Option Nat) (d : Nat) : List Token :=
  match reached with
  | none => []
  | some n =>
    if n < d then [.nest] else if n = d then [.sibling] else List.replicate (n - d) .climb

/-- The elements with the operators that lead from each depth to the next. -/
def forestTokens (reached : Option Nat) : Outline → List Token
  | [] => []
  | (d, t) :: rest => joining reached d ++ .node t.text :: forestTokens (some d) rest

namespace Expansion

/-- The last thing written is the opening fragment of an element at the depth `reached`, or nothing,
and all open tags are ordinary ones. -/
structure StandsAt (e : Expansion) (reached : Option Nat) : Prop where
  length_eq : e.openTags.length = (reached.map (· + 1)).getD 0
  openCount_eq : e.openCount = reached.elim 0 fun _ => 1
  not_void : ∀ tag ∈ e.openTags, isVoid tag = false

section Place

variable (attributes : Table) (resolver : Resolver)

/-- Closes the tags from the depth of an element on and writes it. -/
def place (e : Expansion) (x : Nat × Element) : Except Fault Expansion :=
  step attributes resolver (closeTags (e.openTags.length - x.1) e) (.node x.2.text)

variable {attributes : Table} {resolver : Resolver}

/-- With nothing to close at the end, each `^` closes one tag. -/
theorem run_climbs {e : Expansion} (hv : ∀ tag ∈ e.openTags, isVoid tag = false)
    (h : e.openCount = 0) {n : Nat} (hn : n ≤ e.openTags.length) :
    run attributes resolver e (List.replicate n .climb) = .ok (closeTags n e) := by
  induction n generalizing e with
  | zero => rfl
  | succ n ih =>
    obtain ⟨name, tags, hopen⟩ := List.exists_cons_of_length_pos (Nat.zero_lt_of_lt hn)
    have hzero := openCount_closeTags hopen (hv name (by simp [hopen])) 0
    have hle : n ≤ (closeTags 1 e).openTags.length := by
      rw [length_openTags_closeTags]
      omega
    have hclimbs := ih (fun tag ht => hv tag (mem_openTags_of_closeTags ht)) hzero hle
    rw [List.replicate_succ, run_cons, step_climb, ok_bind, h, Nat.zero_add, hclimbs, closeTags_add,
      Nat.add_comm]

/-- The first `^` behind an open element closes two tags, and each of the others one. -/
theorem run_climbs_open {e : Expansion} (hv : ∀ tag ∈ e.openTags, isVoid tag = false)
    (h : e.openCount = 1) {n : Nat} (hn : n + 2 ≤ e.openTags.length) :
    run attributes resolver e (List.replicate (n + 1) .climb) = .ok (closeTags (n + 2) e) := by
  obtain ⟨name, tags, hopen⟩ := List.exists_cons_of_length_pos (Nat.zero_lt_of_lt hn)
  have hzero := openCount_closeTags hopen (hv name (by simp [hopen])) 1
  have hle : n ≤ (closeTags 2 e).openTags.length := by
    rw [length_openTags_closeTags]
    omega
  rw [List.replicate_succ, run_cons, step_climb, h, ok_bind,
    run_climbs (fun tag ht => hv tag (mem_openTags_of_closeTags ht)) hzero hle, closeTags_add,
    Nat.add_comm]

/-- The operators between two elements close the tags from the depth of the second on. -/
theorem StandsAt.run_joining {e : Expansion} {reached : Option Nat} (h : e.StandsAt reached)
    {d : Nat} (hd : d ≤ (reached.map (· + 1)).getD 0) :
    run attributes resolver e (joining reached d) = .ok (closeTags (e.openTags.length - d) e) := by
  obtain ⟨hlen, hcount, hv⟩ := h
  cases reached with
  | none =>
    rw [hlen]
    simp [joining, closeTags]
  | some n =>
    simp only [Option.map_some, Option.getD_some, Option.elim_some] at hlen hcount hd
    rw [joining]
    -- the open tags are those of the depths `0` to `n`
    rcases Nat.lt_trichotomy n d with hlt | rfl | hgt
    · obtain rfl : d = n + 1 := by omega
      rw [if_pos hlt, run_singleton, hlen, Nat.sub_self]
      rfl
    · rw [if_neg (Nat.lt_irrefl n), if_pos rfl, run_singleton, step_sibling, hcount, hlen,
        Nat.add_sub_cancel_left]
    · obtain ⟨k, hk⟩ : ∃ k, n - d = k + 1 := ⟨n - d - 1, by omega⟩
      have hclose : e.openTags.length - d = k + 2 := by omega
      rw [if_neg (by omega), if_neg (by omega), hk, hclose]
      exact run_climbs_open hv hcount (by omega)

/-- What placing an element leaves. -/
theorem place_eq_ok (hr : resolver.ByContext) {e e' : Expansion} {d : Nat} {t : Element}
    (h : place attributes resolver e (d, t) = .ok e') :
    ∃ tag, tag.Ordinary ∧
      e' = (closeTags (e.openTags.length - d) e).withElement attributes tag t := by
  obtain ⟨tag, -, heq, htag⟩ :=
    (step_element hr attributes (closeTags (e.openTags.length - d) e) t).of_eq_ok h
  exact ⟨tag, htag, heq⟩

theorem StandsAt.place (hr : resolver.ByContext) {e e' : Expansion} {reached : Option Nat}
    (h : e.StandsAt reached) {d : Nat} (hd : d ≤ (reached.map (· + 1)).getD 0) {t : Element}
    (hplace : e.place attributes resolver (d, t) = .ok e') : e'.StandsAt (some d) := by
  obtain ⟨tag, htag, rfl⟩ := place_eq_ok hr hplace
  have hle : d ≤ e.openTags.length := by
    rw [h.length_eq]
    exact hd
  refine ⟨?_, openCount_withElement htag _ _, fun name hname => ?_⟩
  · simp only [withElement, closeTags_eq, List.length_cons, List.length_drop, Option.map_some,
      Option.getD_some]
    omega
  · simp only [withElement, closeTags_eq, List.mem_cons] at hname
    rcases hname with rfl | hname
    · exact htag.not_void
    · exact h.not_void name ((List.drop_sublist _ _).subset hname)

/-- The tokens of elements place one after the other. -/
theorem run_forestTokens (hr : resolver.ByContext) {xs : Outline} {e : Expansion}
    {reached : Option Nat} (h : e.StandsAt reached)
    (hxs : Staged ((reached.map (· + 1)).getD 0) xs) :
    run attributes resolver e (forestTokens reached xs) =
      xs.foldlM (place attributes resolver) e := by
  induction xs generalizing e reached with
  | nil => rfl
  | cons x xs ih =>
    obtain ⟨d, t⟩ := x
    rw [forestTokens, run_append, h.run_joining hxs.1, ok_bind, run_cons, List.foldlM_cons]
    exact bind_congr_ok fun e' hplace => ih (h.place hr hxs.1 hplace) hxs.2

/-- Placing the elements of a forest under the open tags `p` writes its markup. -/
theorem foldlM_place (hr : resolver.ByContext) {f : Forest} {e : Expansion} {p r : List Text}
    (h : e.ClosesTo p r) :
    Agree (fun e' fragments => e'.ClosesTo p (r ++ fragments))
      ((f.preorder p.length).foldlM (place attributes resolver) e)
      (f.fragments attributes resolver p) := by
  induction f generalizing e p r with
  | nil => exact Agree.ok (by simpa using h)
  | cons t inside beside ihi ihb =>
    rw [Forest.preorder, List.foldlM_cons, Forest.fragments]
    -- closing down to the depth of the element closes whatever was left open behind `p`
    refine Agree.bind (R := fun e' tag => e'.ClosesTo (tag.name :: p)
      (r ++ [t.opening attributes tag]) ∧ tag.Ordinary) ?_ ?_
    · unfold place
      rw [h.closeTags]
      refine (step_element hr attributes { e with openTags := p, result := r } t).mono ?_
      rintro e₁ tag ⟨rfl, htag⟩
      exact ⟨⟨[], rfl, List.append_nil _⟩, htag⟩
    · rintro e₁ tag ⟨he₁, htag⟩
      rw [List.foldlM_append]
      refine (ihi he₁).bind fun e₂ fragments he₂ => ?_
      have hpop := he₂.pop
      rw [closings_singleton htag.not_void] at hpop
      refine (ihb hpop).bind_pure fun e₃ others he₃ => ?_
      simpa using he₃

end Place

end Expansion

/-- **Expanding the elements of a forest writes its markup.** Each element is closed exactly before
the next of the same or a smaller depth. -/
theorem expandTokens_forestTokens {attributes : Table} {resolver : Resolver}
    (hr : resolver.ByContext) (f : Forest) :
    expandTokens attributes resolver (forestTokens none (f.preorder 0)) =
      List.flatten <$> f.fragments attributes resolver [] := by
  have hstands : Expansion.StandsAt {} none := ⟨rfl, rfl, fun _ h => by cases h⟩
  have hempty : Expansion.ClosesTo {} [] [] := ⟨[], rfl, rfl⟩
  rw [expandTokens, bind_pure_comp, Expansion.run_forestTokens hr hstands (staged_preorder f 0)]
  exact (Expansion.foldlM_place hr hempty).map_eq_map fun e fragments h => h.finish

end Shorthand
