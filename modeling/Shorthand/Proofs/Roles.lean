import Shorthand.Proofs.Content
import Shorthand.Proofs.Numbering
import Shorthand.Proofs.Steps

/-!
# The roles of fragments

A run of the expansion is followed by a list that says of each fragment what it is.

- `Role`: an opening or closing fragment with its name, or a text.
- `Traced`: an expansion with the roles of its fragments. `Traced.step` reads one token.
- `Traced.run_state`: the roles do not disturb the expansion.
- `Expansion.forall₂_copies`: notes on the fragments of a template are kept up in its copies.
- `Description`: what can be said of the fragments by their roles; `Described.step` keeps it up.
- `Role.Describes`: such a description, as long as no extension continues a placeholder
  (`description_describes`). It says which tag a fragment opens or closes, in a copy too.
-/

namespace Shorthand

/-! ## Roles -/

/-- What a fragment is. -/
inductive Role
  /-- The opening fragment of a tag, from this node of the abbreviation; the first is node 0. -/
  | opening (node : Nat) (name : Text)
  /-- The closing fragment of a tag; that of a void tag is empty. -/
  | closing (name : Text)
  | text
  deriving DecidableEq, Repr

/-- The name in copy `n` among `times`. A name that cannot be numbered stays as it is. -/
def numberedName (n times : Int) (name : Text) : Text :=
  match numberFragment name n times with
  | .ok name' => name'
  | .error _ => name

theorem numberedName_eq {n times : Int} {name name' : Text}
    (h : numberFragment name n times = .ok name') : numberedName n times name = name' := by
  simp [numberedName, h]

theorem isVoid_numberedName (n times : Int) (name : Text) :
    isVoid (numberedName n times name) = isVoid name := by
  unfold numberedName
  split
  · exact isVoid_numberFragment ‹_›
  · rfl

namespace Role

/-- The role of a fragment in copy `n` among `times`. -/
def number (n times : Int) : Role → Role
  | opening node name => opening node (numberedName n times name)
  | closing name => closing (numberedName n times name)
  | text => text

/-- The fragment is what the role says: an opening fragment starts with `<` and the name, which what
follows does not continue, and a closing fragment closes the name. -/
def Describes : Role → Text → Prop
  | opening _ name, fragment => ∃ rest, Unglued rest ∧ fragment = '<' :: (name ++ rest)
  | closing name, fragment => fragment = closingFragment name
  | text, _ => True

end Role

theorem Unglued.of_numberFragment {t t' : Text} {n times : Int} (h : Unglued t)
    (ht : numberFragment t n times = .ok t') : Unglued t' := by
  cases t with
  | nil =>
    rw [numberFragment_nil] at ht
    cases ht
    exact h
  | cons c t =>
    obtain ⟨u, -, rfl⟩ := numberFragment_cons_eq_ok (unglued_cons.1 h).1 ht
    exact unglued_cons.2 (unglued_cons.1 h)

/-- Numbering a closing fragment numbers its name. -/
theorem numberFragment_closingFragment {name fragment : Text} {n times : Int}
    (h : numberFragment (closingFragment name) n times = .ok fragment) :
    fragment = closingFragment (numberedName n times name) := by
  have hsame := isVoid_numberedName n times name
  by_cases hv : isVoid name
  · rw [closingFragment, if_pos hv, numberFragment_nil] at h
    cases h
    rw [closingFragment, if_pos (hsame.trans hv)]
  · rw [closingFragment, if_neg hv] at h
    obtain ⟨u, hu, rfl⟩ := numberFragment_cons_eq_ok (by decide) h
    obtain ⟨v, hv', rfl⟩ := numberFragment_cons_eq_ok (by decide) hu
    rw [numberFragment_append (unglued_cons.2 (by decide)),
      numberFragment_of_not_mem (t := ['>']) (by decide)] at hv'
    obtain ⟨name', hname, hv'⟩ := bind_eq_ok hv'
    cases hv'
    rw [closingFragment, hsame, if_neg hv, numberedName_eq hname]

/-- A numbered fragment is what its numbered role says. -/
theorem Role.Describes.number {role : Role} {fragment fragment' : Text} {n times : Int}
    (h : role.Describes fragment) (hf : numberFragment fragment n times = .ok fragment') :
    (role.number n times).Describes fragment' := by
  cases role with
  | text => trivial
  | opening node name =>
    obtain ⟨rest, hrest, rfl⟩ := h
    obtain ⟨u, hu, rfl⟩ := numberFragment_cons_eq_ok (by decide) hf
    rw [numberFragment_append hrest] at hu
    obtain ⟨name', hname, hu⟩ := bind_eq_ok hu
    obtain ⟨rest', hrest', hu⟩ := bind_eq_ok hu
    cases hu
    exact ⟨rest', hrest.of_numberFragment hrest', by rw [numberedName_eq hname]⟩
  | closing name =>
    subst h
    exact numberFragment_closingFragment hf

/-- The roles of the closing fragments of tags. -/
def closingRoles (tags : List Text) : List Role :=
  (tags.filter fun tag => !isVoid tag).map .closing

/-- The roles of the copies of a template. -/
def copyRoles (template : List Role) (times : Nat) : List Role :=
  (List.range times).flatMap fun (n : Nat) => template.map (Role.number n times)

/-! ## Traced expansions -/

/-- An expansion with the roles of its fragments. -/
structure Traced where
  state : Expansion := {}
  /-- The roles of the fragments written so far. -/
  roles : List Role := []
  /-- The roles of the last closed group's fragments. -/
  groupRoles : List Role := []
  /-- The number of nodes read so far. -/
  nodes : Nat := 0

namespace Traced

/-- The roles of the fragments that a repeat marker repeats, and of those that it leaves. -/
def template (t : Traced) : List Role × List Role :=
  match t.state.lastGroup with
  | some group => (t.groupRoles, t.roles.take group.start)
  | none =>
    match t.roles.getLast? with
    | none => ([], [])
    | some role => ([role, (t.state.openTags.head?.map .closing).getD .text], t.roles.dropLast)

/-- The role of the fragment that a node writes. -/
def nodeRole (attributes : Table) (t : Traced) (after : Expansion) (text : Text) : Role :=
  if (Node.parse attributes text).isText then .text
  else .opening t.nodes (after.openTags.headD [])

/-- The roles after a token that leads to the expansion `after`. -/
def rolesAfter (attributes : Table) (t : Traced) (after : Expansion) : Token → List Role
  | .node text => t.roles ++ [t.nodeRole attributes after text]
  | .times marker =>
    t.template.2 ++ copyRoles t.template.1 (digitsValue (marker.takeWhile isDigit))
  | token => t.roles ++ closingRoles (t.state.openTags.take (t.state.closeCount token))

theorem rolesAfter_operator {attributes : Table} {t : Traced} {after : Expansion} {token : Token}
    (h : token.isOperator) : t.rolesAfter attributes after token =
      t.roles ++ closingRoles (t.state.openTags.take (t.state.closeCount token)) := by
  cases token with
  | times marker => cases h
  | node text => cases h
  | _ => rfl

section Run

variable (attributes : Table) (resolver : Resolver)

/-- The effect of one token. -/
def step (t : Traced) (token : Token) : Except Fault Traced := do
  let after ← t.state.step attributes resolver token
  let roles := t.rolesAfter attributes after token
  return {
    state := after
    roles
    groupRoles := if token = .closeGroup then roles.drop t.state.innermost.start else t.groupRoles
    nodes := t.nodes + if token.isNode then 1 else 0 }

/-- The effect of a list of tokens. -/
def run (t : Traced) (tokens : List Token) : Except Fault Traced :=
  tokens.foldlM (step attributes resolver) t

end Run

variable {attributes : Table} {resolver : Resolver}

@[simp] theorem run_nil (t : Traced) : t.run attributes resolver [] = .ok t := rfl

@[simp] theorem run_cons (t : Traced) (token : Token) (tokens : List Token) :
    t.run attributes resolver (token :: tokens) =
      t.step attributes resolver token >>= fun t' => t'.run attributes resolver tokens := rfl

theorem step_state (t : Traced) (token : Token) :
    Traced.state <$> t.step attributes resolver token = t.state.step attributes resolver token := by
  unfold step
  cases t.state.step attributes resolver token <;> rfl

/-- The expansion of a traced run is that of the run. -/
theorem run_state (t : Traced) (tokens : List Token) :
    Traced.state <$> t.run attributes resolver tokens =
      t.state.run attributes resolver tokens := by
  induction tokens generalizing t with
  | nil => rfl
  | cons token tokens ih =>
    rw [run_cons, Expansion.run_cons, ← step_state]
    exact (map_bind_eq_map fun t' _ => (ih t').symm).symm

theorem run_eq_ok {t t' : Traced} {tokens : List Token}
    (h : t.run attributes resolver tokens = .ok t') :
    t.state.run attributes resolver tokens = .ok t'.state := by
  rw [← run_state, h, ok_map]

/-- The markup of tokens is that of their traced run. -/
theorem expandTokens_eq (tokens : List Token) :
    expandTokens attributes resolver tokens =
      (fun t => t.state.finish) <$> run attributes resolver {} tokens := by
  have hrun : state <$> run attributes resolver {} tokens =
      Expansion.run attributes resolver {} tokens := run_state {} tokens
  rw [expandTokens, ← hrun]
  cases run attributes resolver {} tokens <;> rfl

/-- What a step that succeeds leaves. -/
theorem step_eq_ok {t t' : Traced} {token : Token} (h : t.step attributes resolver token = .ok t') :
    t.state.step attributes resolver token = .ok t'.state ∧
      t'.roles = t.rolesAfter attributes t'.state token ∧
      t'.groupRoles =
        (if token = .closeGroup then t'.roles.drop t.state.innermost.start else t.groupRoles) ∧
      t'.nodes = t.nodes + (if token.isNode then 1 else 0) := by
  obtain ⟨after, hafter, h⟩ := bind_eq_ok h
  cases h
  exact ⟨hafter, rfl, rfl, rfl⟩

end Traced

/-! ## Fragments with something said of each -/

section Related

variable {α β γ δ : Type}

/-- What follows from related items one by one, of two lists. -/
theorem forall₂_map_of_mapM {R : α → β → Prop} {S : γ → δ → Prop} {g : α → γ}
    {f : β → Except Fault δ} (hf : ∀ x y z, R x y → f y = .ok z → S (g x) z) {xs : List α}
    {ys : List β} {zs : List δ} (h : List.Forall₂ R xs ys) (hzs : ys.mapM f = .ok zs) :
    List.Forall₂ S (xs.map g) zs := by
  rw [List.forall₂_map_left_iff]
  replace hzs := mapM_eq_ok_iff.1 hzs
  induction h generalizing zs with
  | nil =>
    cases hzs
    exact .nil
  | cons hr _ ih =>
    cases hzs with
    | cons hfirst hrest => exact .cons (hf _ _ _ hr hfirst) (ih hrest)

variable {R : α → Text → Prop} {notes : List α}

/-- What numbering keeps up is said of the copies of a template. -/
theorem Expansion.forall₂_copies (g : Nat → Nat → α → α)
    (hg : ∀ (n times : Nat) x t u, R x t → numberFragment t n times = .ok u → R (g n times x) u)
    {template fragments : List Text} {times : Nat} (h : List.Forall₂ R notes template)
    (hf : copies template times = .ok fragments) :
    List.Forall₂ R ((List.range times).flatMap fun n => notes.map (g n times)) fragments := by
  obtain ⟨parts, hparts, hf⟩ := bind_eq_ok hf
  cases hf
  refine List.rel_flatten (List.forall₂_map_left_iff.2 ((mapM_eq_ok_iff.1 hparts).imp ?_))
  intro n part hpart
  exact forall₂_map_of_mapM (hg n times) h hpart

/-- What is said of the fragments from its start on is said of a closed group. -/
theorem Expansion.forall₂_groupFrom {result : List Text} (h : List.Forall₂ R notes result)
    (start : Nat) : ∀ g ∈ groupFrom result start, List.Forall₂ R (notes.drop start) g.fragments := by
  intro g hg
  unfold groupFrom at hg
  split at hg <;> cases hg
  exact List.forall₂_drop start h

end Related

/-! ## What the roles say -/

/-- No extension continues a placeholder in the name before it. -/
def Resolver.PlainExtensions (resolver : Resolver) : Prop :=
  ∀ tag openTags result name, resolver tag openTags result = .ok name → Unglued name.extension

theorem unglued_attributeText (node : Node) : Unglued node.attributeText := by
  intro c hc
  rw [node.head_attributeText_eq c hc]
  decide

/-- What follows the name in an opening fragment. -/
def afterName (tag : TagName) (node : Node) : Text :=
  tag.extension ++ (node.attributeText ++ '>' :: node.content)

theorem openingFragment_eq (tag : TagName) (node : Node) :
    Expansion.openingFragment tag node = '<' :: (tag.name ++ afterName tag node) := by
  simp [Expansion.openingFragment, afterName]

theorem unglued_afterName {tag : TagName} (h : Unglued tag.extension) (node : Node) :
    Unglued (afterName tag node) :=
  h.append ((unglued_attributeText node).append (unglued_cons.2 (by decide)))

/-- An opening fragment is one of its tag, however that is numbered. -/
theorem describes_openingFragment {tag : TagName} (h : Unglued tag.extension) (node : Node)
    (k : Nat) : (Role.opening k tag.name).Describes (Expansion.openingFragment tag node) :=
  ⟨afterName tag node, unglued_afterName h node, openingFragment_eq tag node⟩

/-- A relation between roles and fragments that every token keeps up. -/
structure Description (D : Role → Text → Prop) (resolver : Resolver) : Prop where
  opening {tag : Text} {openTags result : List Text} {name : TagName} (k : Nat) (node : Node) :
    resolver tag openTags result = .ok name →
      D (.opening k name.name) (Expansion.openingFragment name node)
  closing (name : Text) : D (.closing name) (closingFragment name)
  text (fragment : Text) : D .text fragment
  number {role : Role} {fragment fragment' : Text} {n times : Int} : D role fragment →
    numberFragment fragment n times = .ok fragment' → D (role.number n times) fragment'

theorem description_describes {resolver : Resolver} (hr : resolver.PlainExtensions) :
    Description Role.Describes resolver where
  opening k node h := describes_openingFragment (hr _ _ _ _ h) node k
  closing _ := rfl
  text _ := trivial
  number := Role.Describes.number

namespace Description

variable {D : Role → Text → Prop} {resolver : Resolver}

theorem closings (hD : Description D resolver) (tags : List Text) :
    List.Forall₂ D (closingRoles tags) (closings tags) := by
  unfold closingRoles Shorthand.closings
  rw [List.forall₂_map_left_iff, List.forall₂_map_right_iff]
  exact List.forall₂_same.2 fun tag _ => hD.closing tag

/-- The copies of described fragments are described. -/
theorem copies (hD : Description D resolver) {roles : List Role}
    {template fragments : List Text} {times : Nat} (h : List.Forall₂ D roles template)
    (hf : Expansion.copies template times = .ok fragments) :
    List.Forall₂ D (copyRoles roles times) fragments :=
  Expansion.forall₂_copies (fun n times => Role.number n times) (fun _ _ _ _ _ => hD.number) h hf

end Description

/-- A list related to one with a last member has a last member too. -/
theorem forall₂_concat {α β : Type} {R : α → β → Prop} {xs : List α} {ys : List β} {y : β}
    (h : List.Forall₂ R xs (ys ++ [y])) :
    ∃ us u, xs = us ++ [u] ∧ List.Forall₂ R us ys ∧ R u y := by
  have hlen := h.length_eq
  rcases xs.eq_nil_or_concat' with rfl | ⟨us, u, rfl⟩
  · simp at hlen
  · have hus : us.length = ys.length := by simpa using hlen
    have htake := List.forall₂_take_append _ _ _ h
    have hdrop := List.forall₂_drop_append _ _ _ h
    rw [← hus, List.take_left] at htake
    rw [← hus, List.drop_left] at hdrop
    cases hdrop with
    | cons hu _ => exact ⟨us, u, rfl, htake, hu⟩

/-- The fragments are related to their roles, and so are those of the last closed group. -/
structure Described (D : Role → Text → Prop) (t : Traced) : Prop where
  result : List.Forall₂ D t.roles t.state.result
  group : ∀ g ∈ t.state.lastGroup, List.Forall₂ D t.groupRoles g.fragments

namespace Described

variable {D : Role → Text → Prop} {attributes : Table} {resolver : Resolver} {t t' : Traced}
  {token : Token}

theorem empty : Described D {} :=
  ⟨.nil, fun _ h => by cases h⟩

/-- The template of a repeat marker is described, and so is what it leaves. -/
theorem template (hD : Description D resolver) (h : Described D t) {template : List Text}
    {rest : Expansion} (ht : t.state.takeTemplate = some (template, rest)) :
    List.Forall₂ D t.template.1 template ∧ List.Forall₂ D t.template.2 rest.result := by
  unfold Traced.template
  rcases Expansion.takeTemplate_eq_some ht with
    ⟨g, hg, rfl, rfl⟩ | ⟨hnone, before, last, hbefore, rfl, rfl⟩
  · rw [hg]
    exact ⟨h.group g hg, List.forall₂_take _ h.result⟩
  · have hr := h.result
    rw [hbefore] at hr
    obtain ⟨roles, role, hroles, hrest, hlast⟩ := forall₂_concat hr
    rw [hnone, hroles, List.dropLast_concat, List.getLast?_concat]
    refine ⟨.cons hlast (.cons ?_ .nil), hrest⟩
    cases t.state.openTags with
    | nil => exact hD.text []
    | cons tag tags => exact hD.closing tag

theorem step_operator (hD : Description D resolver) (h : Described D t) (hop : token.isOperator)
    (hstep : t.step attributes resolver token = .ok t') : Described D t' := by
  obtain ⟨hstate, hroles, hgroup, -⟩ := Traced.step_eq_ok hstep
  rw [Expansion.step_operator hop, Except.ok.injEq] at hstate
  rw [Traced.rolesAfter_operator hop] at hroles
  have hresult : List.Forall₂ D t'.roles t'.state.result := by
    rw [hroles, ← hstate]
    exact List.rel_append h.result (hD.closings _)
  refine ⟨hresult, ?_⟩
  rw [hgroup, ← hstate]
  rw [← hstate] at hresult
  split
  · exact Expansion.forall₂_groupFrom hresult _
  · exact h.group

theorem step_times (hD : Description D resolver) (h : Described D t) {marker : Text}
    (hstep : t.step attributes resolver (.times marker) = .ok t') : Described D t' := by
  obtain ⟨hstate, hroles, hgroup, -⟩ := Traced.step_eq_ok hstep
  simp only [reduceCtorEq, if_false] at hgroup
  rcases Expansion.repeatLast_eq_ok hstate with
    ⟨hnone, heq⟩ | ⟨template, rest, fragments, htake, hcopies, heq⟩
  · obtain ⟨hnone, hempty⟩ := Expansion.takeTemplate_eq_none.1 hnone
    have hr := h.result
    rw [hempty, List.forall₂_nil_right_iff] at hr
    refine ⟨?_, by simp [heq, hnone]⟩
    rw [hroles, heq, hempty]
    simp [Traced.rolesAfter, Traced.template, hnone, hr, copyRoles]
  · obtain ⟨htemplate, hrest⟩ := h.template hD htake
    refine ⟨?_, ?_⟩
    · rw [hroles, heq]
      exact List.rel_append hrest (hD.copies htemplate hcopies)
    · rw [heq, Expansion.lastGroup_takeTemplate htake]
      simp

theorem step_node (hD : Description D resolver) (h : Described D t) {text : Text}
    (hstep : t.step attributes resolver (.node text) = .ok t') : Described D t' := by
  obtain ⟨hstate, hroles, -, -⟩ := Traced.step_eq_ok hstep
  rw [Traced.rolesAfter, Traced.nodeRole] at hroles
  rcases Expansion.writeNode_eq_ok hstate with ⟨htext, heq⟩ | ⟨htext, tag, htag, heq⟩
  · refine ⟨?_, by simp [heq]⟩
    rw [hroles, heq, if_pos htext]
    exact List.rel_append h.result (.cons (hD.text _) .nil)
  · refine ⟨?_, by simp [heq]⟩
    rw [hroles, heq, if_neg (by simp [htext])]
    exact List.rel_append h.result (.cons (hD.opening _ _ htag) .nil)

/-- What one token leaves is described. -/
theorem step (hD : Description D resolver) (h : Described D t)
    (hstep : t.step attributes resolver token = .ok t') : Described D t' := by
  cases token with
  | node text => exact h.step_node hD hstep
  | times marker => exact h.step_times hD hstep
  | _ => exact h.step_operator hD rfl hstep

/-- What a list of tokens leaves is described. -/
theorem run (hD : Description D resolver) (h : Described D t) {tokens : List Token}
    (hrun : t.run attributes resolver tokens = .ok t') : Described D t' := by
  induction tokens generalizing t with
  | nil =>
    cases hrun
    exact h
  | cons token tokens ih =>
    obtain ⟨t₁, hstep, hrun⟩ := bind_eq_ok hrun
    exact ih (h.step hD hstep) hrun

end Described

end Shorthand
