import Shorthand.Proofs.Roles

/-!
# The innermost repeat numbers

A numbered fragment has no placeholder left, so what a repeat marker has copied is copied by any
marker around it as it is.

- `numberFragment_numbered`: numbering a numbered fragment again changes nothing.
- `Origin`: how a fragment was first written, and which copies have been made of it since.
  `Origin.fragment` lets the innermost of them number it, and the others do nothing.
- `History`: an expansion with the origins of its fragments. `History.run_state`: they do not
  disturb the expansion.
- `innermost_repeat_numbers`: after any run, the fragments are those that their origins give.
-/

namespace Shorthand

/-- A numbered fragment stays as it is, whatever copy it is numbered for. -/
theorem numberFragment_numbered {t u : Text} {n times : Int}
    (h : numberFragment t n times = .ok u) (n' times' : Int) :
    numberFragment u n' times' = .ok u :=
  numberFragment_of_not_mem (not_mem_of_numberFragment h) n' times'

/-! ## Origins -/

/-- Where a fragment comes from. -/
structure Origin where
  /-- The fragment as it was first written. -/
  written : Text
  /-- The copies that have been made of it, one of the other, the first of them (that of the
  innermost repeat marker) first: which copy, and among how many. -/
  copies : List (Nat × Nat) := []
  deriving DecidableEq, Repr

namespace Origin

/-- The origin of a copy. -/
def copy (n times : Nat) (o : Origin) : Origin :=
  { o with copies := o.copies ++ [(n, times)] }

/-- The fragment with this origin: the first copy has numbered it. -/
def fragment (o : Origin) : Except Fault Text :=
  match o.copies with
  | [] => .ok o.written
  | (n, times) :: _ => numberFragment o.written n times

/-- A copy of a fragment has the copied origin. -/
theorem fragment_copy {o : Origin} {t u : Text} {n times : Nat} (h : o.fragment = .ok t)
    (hu : numberFragment t n times = .ok u) : (o.copy n times).fragment = .ok u := by
  obtain ⟨written, copies⟩ := o
  cases copies with
  | nil =>
    cases h
    exact hu
  | cons first more =>
    rw [numberFragment_numbered h, Except.ok.injEq] at hu
    exact hu ▸ h

end Origin

/-- The origins of the copies of a template. -/
def copyOrigins (template : List Origin) (times : Nat) : List Origin :=
  (List.range times).flatMap fun n => template.map (Origin.copy n times)

/-- The fragments have these origins, one by one. -/
def ComeFrom (origins : List Origin) (fragments : List Text) : Prop :=
  List.Forall₂ (fun o t => Origin.fragment o = .ok t) origins fragments

/-- What is written anew is its own origin. -/
theorem comeFrom_written (fragments : List Text) :
    ComeFrom (fragments.map fun t => { written := t }) fragments :=
  List.forall₂_map_left_iff.2 (List.forall₂_same.2 fun _ _ => rfl)

theorem ComeFrom.copies {origins : List Origin} {template fragments : List Text} {times : Nat}
    (h : ComeFrom origins template) (hf : Expansion.copies template times = .ok fragments) :
    ComeFrom (copyOrigins origins times) fragments :=
  Expansion.forall₂_copies Origin.copy (fun _ _ _ _ _ => Origin.fragment_copy) h hf

/-! ## Histories -/

/-- An expansion with the origins of its fragments. -/
structure History where
  state : Expansion := {}
  /-- The origins of the fragments written so far. -/
  origins : List Origin := []
  /-- The origins of the last closed group's fragments. -/
  groupOrigins : List Origin := []

namespace History

/-- The origins of the fragments that a repeat marker repeats, and of those that it leaves. -/
def template (h : History) : List Origin × List Origin :=
  match h.state.lastGroup with
  | some group => (h.groupOrigins, h.origins.take group.start)
  | none =>
    match h.origins.getLast? with
    | none => ([], [])
    | some origin =>
      ([origin, { written := (h.state.openTags.head?.map closingFragment).getD [] }],
        h.origins.dropLast)

/-- The origins after a token that leads to the expansion `after`. A repeat marker copies those of
the template; any other token writes its fragments anew. -/
def originsAfter (h : History) (after : Expansion) : Token → List Origin
  | .times marker =>
    h.template.2 ++ copyOrigins h.template.1 (digitsValue (marker.takeWhile isDigit))
  | _ => h.origins ++ (after.result.drop h.state.result.length).map fun t => { written := t }

theorem originsAfter_of_not_times {h : History} {after : Expansion} {token : Token}
    (ht : token.isTimes = false) : h.originsAfter after token =
      h.origins ++ (after.result.drop h.state.result.length).map fun t => { written := t } := by
  cases token with
  | times marker => cases ht
  | _ => rfl

section Run

variable (attributes : Table) (resolver : Resolver)

/-- The effect of one token. -/
def step (h : History) (token : Token) : Except Fault History := do
  let after ← h.state.step attributes resolver token
  let origins := h.originsAfter after token
  return {
    state := after
    origins
    groupOrigins :=
      if token = .closeGroup then origins.drop h.state.innermost.start else h.groupOrigins }

/-- The effect of a list of tokens. -/
def run (h : History) (tokens : List Token) : Except Fault History :=
  tokens.foldlM (step attributes resolver) h

end Run

variable {attributes : Table} {resolver : Resolver} {h h' : History} {token : Token}

@[simp] theorem run_nil : h.run attributes resolver [] = .ok h := rfl

@[simp] theorem run_cons (token : Token) (tokens : List Token) :
    h.run attributes resolver (token :: tokens) =
      h.step attributes resolver token >>= fun h' => h'.run attributes resolver tokens := rfl

theorem step_state (h : History) (token : Token) :
    state <$> h.step attributes resolver token = h.state.step attributes resolver token := by
  unfold step
  cases h.state.step attributes resolver token <;> rfl

/-- The expansion of a run with its history is that of the run. -/
theorem run_state (h : History) (tokens : List Token) :
    state <$> h.run attributes resolver tokens = h.state.run attributes resolver tokens := by
  induction tokens generalizing h with
  | nil => rfl
  | cons token tokens ih =>
    rw [run_cons, Expansion.run_cons, ← step_state]
    exact (map_bind_eq_map fun h' _ => (ih h').symm).symm

/-- What a step that succeeds leaves. -/
theorem step_eq_ok (hstep : h.step attributes resolver token = .ok h') :
    h.state.step attributes resolver token = .ok h'.state ∧
      h'.origins = h.originsAfter h'.state token ∧
      h'.groupOrigins = if token = .closeGroup then h'.origins.drop h.state.innermost.start
        else h.groupOrigins := by
  obtain ⟨after, hafter, hstep⟩ := bind_eq_ok hstep
  cases hstep
  exact ⟨hafter, rfl, rfl⟩

/-- The fragments come from their origins, and so do those of the last closed group. -/
structure Kept (h : History) : Prop where
  result : ComeFrom h.origins h.state.result
  group : ∀ g ∈ h.state.lastGroup, ComeFrom h.groupOrigins g.fragments

namespace Kept

theorem empty : Kept {} :=
  ⟨.nil, nofun⟩

/-- The template of a repeat marker comes from its origins, and so does what it leaves. -/
theorem template (hk : Kept h) {template : List Text} {rest : Expansion}
    (ht : h.state.takeTemplate = some (template, rest)) :
    ComeFrom h.template.1 template ∧ ComeFrom h.template.2 rest.result := by
  unfold History.template
  rcases Expansion.takeTemplate_eq_some ht with
    ⟨g, hg, rfl, rfl⟩ | ⟨hnone, before, last, hbefore, rfl, rfl⟩
  · rw [hg]
    exact ⟨hk.group g hg, List.forall₂_take _ hk.result⟩
  · have hresult := hk.result
    rw [hbefore] at hresult
    obtain ⟨origins, origin, horigins, hrest, hlast⟩ := forall₂_concat hresult
    rw [hnone, horigins, List.dropLast_concat, List.getLast?_concat]
    exact ⟨.cons hlast (.cons rfl .nil), hrest⟩

theorem step_write (hk : Kept h) (ht : token.isTimes = false)
    (hstep : h.step attributes resolver token = .ok h') : Kept h' := by
  obtain ⟨hstate, horigins, hgroup⟩ := step_eq_ok hstep
  obtain ⟨⟨added, hadded⟩, hlast⟩ := Expansion.step_write ht hstate
  rw [originsAfter_of_not_times ht, hadded, List.drop_left] at horigins
  have hresult : ComeFrom h'.origins h'.state.result := by
    rw [horigins, hadded]
    exact List.rel_append hk.result (comeFrom_written added)
  refine ⟨hresult, ?_⟩
  rw [hgroup, hlast]
  split
  · exact Expansion.forall₂_groupFrom hresult _
  · split
    · exact nofun
    · exact hk.group

theorem step_times (hk : Kept h) {marker : Text}
    (hstep : h.step attributes resolver (.times marker) = .ok h') : Kept h' := by
  obtain ⟨hstate, horigins, hgroup⟩ := step_eq_ok hstep
  rw [originsAfter] at horigins
  rw [if_neg nofun] at hgroup
  rcases Expansion.repeatLast_eq_ok hstate with
    ⟨hnone, hsame⟩ | ⟨template, rest, fragments, htake, hcopies, hafter⟩
  · -- before anything is written, there are no origins to copy either
    obtain ⟨hlast, hempty⟩ := Expansion.takeTemplate_eq_none.1 hnone
    have hnil : h.origins = [] := by
      have hresult := hk.result
      rwa [hempty, ComeFrom, List.forall₂_nil_right_iff] at hresult
    refine ⟨?_, by simp [hsame, hlast]⟩
    rw [horigins, hsame, hempty]
    simp [History.template, hlast, hnil, copyOrigins, ComeFrom]
  · obtain ⟨htemplate, hrest⟩ := hk.template htake
    refine ⟨?_, ?_⟩
    · rw [horigins, hafter]
      exact List.rel_append hrest (htemplate.copies hcopies)
    · rw [hafter, Expansion.lastGroup_takeTemplate htake]
      exact nofun

/-- One token keeps the fragments with their origins. -/
theorem step (hk : Kept h) (hstep : h.step attributes resolver token = .ok h') : Kept h' := by
  cases token with
  | times marker => exact hk.step_times hstep
  | _ => exact hk.step_write rfl hstep

/-- A list of tokens keeps the fragments with their origins. -/
theorem run (hk : Kept h) {tokens : List Token}
    (hrun : h.run attributes resolver tokens = .ok h') : Kept h' := by
  induction tokens generalizing h with
  | nil =>
    cases hrun
    exact hk
  | cons token tokens ih =>
    obtain ⟨h₁, hstep, hrun⟩ := bind_eq_ok hrun
    exact ih (hk.step hstep) hrun

end Kept

end History

/-- **The innermost repeat decides the number.** A numbered text has no `$`, and numbering it again
changes nothing. So after any run, a fragment that has been copied, and whose copies have been
copied by the markers around, is the fragment as it was first written, numbered for the first of
these copies. -/
theorem innermost_repeat_numbers :
    (∀ (t u : Text) (n times : Int), numberFragment t n times = .ok u →
      '$' ∉ u ∧ ∀ n' times' : Int, numberFragment u n' times' = .ok u) ∧
    ∀ (attributes : Table) (resolver : Resolver) (tokens : List Token) (e : Expansion),
      Expansion.run attributes resolver {} tokens = .ok e →
      ∃ h, History.run attributes resolver {} tokens = .ok h ∧ h.state = e ∧
        h.origins.mapM Origin.fragment = .ok e.result := by
  refine ⟨fun t u n times h => ⟨not_mem_of_numberFragment h, numberFragment_numbered h⟩, ?_⟩
  intro attributes resolver tokens e hrun
  obtain ⟨h, hh, hstate⟩ := map_eq_ok ((History.run_state {} tokens).trans hrun)
  have hkept : History.Kept h := History.Kept.run .empty hh
  exact ⟨h, hh, hstate, hstate ▸ mapM_eq_ok_iff.2 hkept.result⟩

/-- `$$@5x$@-` in copy 1 of 3, and `(a$*2+b$)*2` -/
theorem innermost_repeat_numbers_nested :
    (numberFragment "$$@5x$@-".toList 1 3 = .ok "6x1".toList ∧ '$' ∉ "6x1".toList ∧
      numberFragment "6x1".toList 0 7 = .ok "6x1".toList) ∧
    let tokens : List Token := [.openGroup, .node "a$".toList, .times ['2'], .sibling,
      .node "b$".toList, .closeGroup, .times ['2']]
    let inner := ["<a0>".toList, "</a0>".toList, "<a1>".toList, "</a1>".toList]
    let result := inner ++ ["<b0>".toList, "</b0>".toList] ++ inner ++
      ["<b1>".toList, "</b1>".toList]
    let copies (m : Nat) : List (List (Nat × Nat)) := [[(0, 2), (m, 2)], [(0, 2), (m, 2)],
      [(1, 2), (m, 2)], [(1, 2), (m, 2)], [(m, 2)], [(m, 2)]]
    Expansion.run [] ({} : Tables).resolver {} tokens = .ok { result } ∧
      ∃ h, History.run [] ({} : Tables).resolver {} tokens = .ok h ∧
        h.origins.map Origin.copies = copies 0 ++ copies 1 ∧
        h.origins.mapM Origin.fragment = .ok result := by
  have hfirst : numberFragment "$$@5x$@-".toList 1 3 = .ok "6x1".toList := by decide +kernel
  obtain ⟨habsent, hagain⟩ := innermost_repeat_numbers.1 _ _ _ _ hfirst
  refine ⟨⟨hfirst, habsent, hagain 0 7⟩, ?_⟩
  intro tokens inner result copies
  have hrun : Expansion.run [] ({} : Tables).resolver {} tokens = .ok { result } := by
    decide +kernel
  have hcopies : (List.map Origin.copies ∘ History.origins) <$>
      History.run [] ({} : Tables).resolver {} tokens = .ok (copies 0 ++ copies 1) := by
    decide +kernel
  obtain ⟨h, hh, -, hfragments⟩ := innermost_repeat_numbers.2 _ _ _ _ hrun
  rw [hh, ok_map, Except.ok.injEq] at hcopies
  exact ⟨hrun, h, hh, hcopies, hfragments⟩

end Shorthand
