import Shorthand.Proofs.Content
import Shorthand.Proofs.Roles
import Shorthand.Text.Word

/-!
# Giving a node a text

The content of a node goes into its opening fragment, in every copy of it, and nowhere else.

- `Role.fill`, `fillAll`: the fragments with the content in them.
- `Traced.filled`: an expansion with the content in it.
- `Traced.run_filled`: running the tokens with the content gives the run without it, filled.
-/

namespace Shorthand

/-! ## Filled fragments -/

/-- A row of letters, or of other word characters that are no digits. -/
structure IsWord (t : Text) : Prop where
  ne_nil : t ≠ []
  isWordChar : ∀ c ∈ t, isWordChar c = true
  not_isDigit : ∀ c ∈ t, isDigit c = false

theorem IsWord.of_all {t : Text} (hne : t ≠ [])
    (h : t.all (fun c => Shorthand.isWordChar c && !isDigit c) = true) : IsWord t := by
  simp only [List.all_eq_true, Bool.and_eq_true, Bool.not_eq_true'] at h
  exact ⟨hne, fun c hc => (h c hc).1, fun c hc => (h c hc).2⟩

/-- Characters that are no word characters do not stand in a word. -/
theorem IsWord.not_mem {t : Text} (h : IsWord t) {c : Char} (hc : Shorthand.isWordChar c = false) :
    c ∉ t := by
  intro hm
  rw [h.isWordChar c hm] at hc
  cases hc

theorem IsWord.unglued {t : Text} (h : IsWord t) : Unglued t := by
  intro c hc
  have hm : c ∈ t := List.mem_of_mem_head? hc
  refine ⟨?_, ?_, ?_, h.not_isDigit c hm⟩
  all_goals rintro rfl; exact h.not_mem (by decide) hm

/-- An opening fragment starts with `<` and a character more. -/
def Role.Starts : Role → Text → Prop
  | opening _ _, fragment => ∃ c rest, fragment = '<' :: c :: rest
  | _, _ => True

theorem exists_cons_of_numberFragment {t t' : Text} {n times : Int} (hne : t ≠ [])
    (h : numberFragment t n times = .ok t') : ∃ c u, t' = c :: u := by
  obtain ⟨c, t, rfl⟩ := List.exists_cons_of_ne_nil hne
  by_cases hc : c = '$'
  · subst hc
    obtain ⟨d, u, rfl, -⟩ := head_numberFragment_slot h
    exact ⟨d, u, rfl⟩
  · obtain ⟨u, -, rfl⟩ := numberFragment_cons_eq_ok hc h
    exact ⟨c, u, rfl⟩

theorem description_starts (resolver : Resolver) : Description Role.Starts resolver where
  opening {_ _ _ name} k node _ := by
    obtain ⟨c, rest, h⟩ := List.exists_cons_of_ne_nil (show name.name ++ name.extension ++
      node.attributeText ++ '>' :: node.content ≠ [] by simp)
    exact ⟨c, rest, by rw [Expansion.openingFragment, h]⟩
  closing _ := trivial
  text _ := trivial
  number {role _ _ _ _} h hf := by
    cases role with
    | opening k name =>
      obtain ⟨c, rest, rfl⟩ := h
      obtain ⟨u, hu, rfl⟩ := numberFragment_cons_eq_ok (by decide) hf
      obtain ⟨d, v, rfl⟩ := exists_cons_of_numberFragment (List.cons_ne_nil _ _) hu
      exact ⟨d, v, rfl⟩
    | _ => trivial

/-- A fragment with a text added if it opens the tag of node `k`. -/
def Role.fill (k : Nat) (content : Text) : Role → Text → Text
  | opening node _, fragment => if node = k then fragment ++ content else fragment
  | _, fragment => fragment

/-- The fragments with a text added to each that opens the tag of node `k`. -/
def fillAll (k : Nat) (content : Text) (roles : List Role) (fragments : List Text) : List Text :=
  List.zipWith (Role.fill k content) roles fragments

section Fill

variable {k : Nat} {content : Text} {roles more : List Role} {fragments others : List Text}

theorem fillAll_append (h : roles.length = fragments.length) :
    fillAll k content (roles ++ more) (fragments ++ others) =
      fillAll k content roles fragments ++ fillAll k content more others :=
  List.zipWith_append h

theorem fillAll_concat (h : roles.length = fragments.length) (role : Role) (fragment : Text) :
    fillAll k content (roles ++ [role]) (fragments ++ [fragment]) =
      fillAll k content roles fragments ++ [role.fill k content fragment] :=
  List.zipWith_append h

theorem length_fillAll (h : roles.length = fragments.length) :
    (fillAll k content roles fragments).length = fragments.length := by
  simp [fillAll, h]

theorem isEmpty_fillAll (k : Nat) (content : Text) (roles : List Role) (fragments : List Text)
    (h : roles.length = fragments.length) :
    (fillAll k content roles fragments).isEmpty = fragments.isEmpty := by
  cases fragments with
  | nil => simp [fillAll]
  | cons fragment fragments =>
    obtain ⟨role, roles, rfl⟩ := List.exists_cons_of_length_eq_add_one h
    rfl

theorem fillAll_closings (tags : List Text) :
    fillAll k content (closingRoles tags) (closings tags) = closings tags := by
  unfold fillAll closingRoles closings
  rw [List.zipWith_map, List.zipWith_self]
  rfl

/-- Numbering works on the fragment and its content apart. -/
theorem numberFragment_fill (hc : IsWord content) (role : Role) (fragment : Text) (n times : Int) :
    numberFragment (role.fill k content fragment) n times =
      (role.number n times).fill k content <$> numberFragment fragment n times := by
  cases role with
  | opening node name =>
    by_cases hk : node = k
    · simp only [Role.fill, Role.number, if_pos hk]
      rw [numberFragment_append hc.unglued,
        numberFragment_of_not_mem (hc.not_mem (by decide))]
      cases numberFragment fragment n times with
      | error f => rfl
      | ok fragment' => exact congrArg Except.ok (if_pos hk).symm
    · simp only [Role.fill, Role.number, if_neg hk]
      cases numberFragment fragment n times with
      | error f => rfl
      | ok fragment' => exact congrArg Except.ok (if_neg hk).symm
  | _ => cases h : numberFragment fragment n times <;> simp [Role.fill, Role.number, h]

theorem mapM_numberFragment_fill (hc : IsWord content) (h : roles.length = fragments.length)
    (n times : Int) :
    (fillAll k content roles fragments).mapM (numberFragment · n times) =
      fillAll k content (roles.map (Role.number n times)) <$>
        fragments.mapM (numberFragment · n times) := by
  induction fragments generalizing roles with
  | nil =>
    obtain rfl := List.length_eq_zero_iff.1 h
    rfl
  | cons fragment fragments ih =>
    obtain ⟨role, roles, rfl⟩ := List.exists_cons_of_length_eq_add_one h
    have hrest := ih (Nat.succ_inj.1 h)
    simp only [fillAll, List.zipWith_cons_cons, List.mapM_cons, List.map_cons] at hrest ⊢
    rw [numberFragment_fill hc, hrest]
    cases numberFragment fragment n times with
    | error f => rfl
    | ok fragment' => cases fragments.mapM (numberFragment · n times) <;> rfl

/-- Lists of fragments are filled one by one. -/
theorem flatten_fillAll {ns : List Nat} {parts : List (List Text)} {rolesOf : Nat → List Role}
    (h : List.Forall₂ (fun n part => (rolesOf n).length = part.length) ns parts) :
    (List.zipWith (fun n part => fillAll k content (rolesOf n) part) ns parts).flatten =
      fillAll k content (ns.flatMap rolesOf) parts.flatten := by
  induction h with
  | nil => rfl
  | cons hlen _ ih =>
    rw [List.zipWith_cons_cons, List.flatten_cons, List.flatMap_cons, List.flatten_cons,
      fillAll_append hlen, ih]

/-- The copies of filled fragments are the filled copies. -/
theorem copies_fillAll (hc : IsWord content) (h : roles.length = fragments.length) (times : Nat) :
    Expansion.copies (fillAll k content roles fragments) times =
      fillAll k content (copyRoles roles times) <$> Expansion.copies fragments times := by
  simp only [Expansion.copies, copyRoles, mapM_numberFragment_fill hc h, bind_pure_comp]
  rw [mapM_map, ← comp_map, ← comp_map]
  refine map_congr_ok fun parts hparts => flatten_fillAll ?_
  refine (mapM_eq_ok_iff.1 hparts).imp fun n part hpart => ?_
  rw [List.length_map, h, (mapM_eq_ok_iff.1 hpart).length_eq]

end Fill

/-! ## Filled expansions -/

/-- The resolver does not look at the fragments when it names this tag. -/
def Resolver.Settles (resolver : Resolver) (tag : Text) : Prop :=
  ∀ openTags result result', resolver tag openTags result = resolver tag openTags result'

theorem Role.Starts.lastIsOpen_fill {role : Role} {fragment : Text} (h : role.Starts fragment)
    (k : Nat) (content : Text) :
    (!(role.fill k content fragment).isEmpty &&
        !"</".toList.isPrefixOf (role.fill k content fragment)) =
      (!fragment.isEmpty && !"</".toList.isPrefixOf fragment) := by
  cases role with
  | opening node name =>
    obtain ⟨c, rest, rfl⟩ := h
    by_cases hk : node = k <;> simp [fill, hk, List.isPrefixOf]
  | _ => rfl

namespace Traced

/-- The expansion with a text added to each fragment that opens the tag of node `k`. -/
def filled (k : Nat) (content : Text) (t : Traced) : Expansion :=
  { t.state with
    result := fillAll k content t.roles t.state.result
    lastGroup := t.state.lastGroup.map fun group =>
      { group with fragments := fillAll k content t.groupRoles group.fragments } }

variable {k : Nat} {content : Text} {attributes : Table} {resolver : Resolver} {t : Traced}

theorem length_filled (hd : Described Role.Starts t) :
    (t.filled k content).result.length = t.state.result.length :=
  length_fillAll hd.result.length_eq

theorem lastIsOpen_filled (hd : Described Role.Starts t) :
    (t.filled k content).lastIsOpen = t.state.lastIsOpen := by
  cases hlast : t.state.result.getLast? with
  | none =>
    rw [List.getLast?_eq_none_iff] at hlast
    simp [Expansion.lastIsOpen, filled, hlast, fillAll]
  | some fragment =>
    obtain ⟨fragments, hfragments⟩ := List.getLast?_eq_some_iff.1 hlast
    have hr := hd.result
    rw [hfragments] at hr
    obtain ⟨roles, role, hroles, hrest, hstarts⟩ := forall₂_concat hr
    simp only [Expansion.lastIsOpen, filled, hroles, hfragments, fillAll_concat hrest.length_eq,
      List.getLast?_concat]
    exact hstarts.lastIsOpen_fill k content

theorem closeCount_filled (hd : Described Role.Starts t) (token : Token) :
    (t.filled k content).closeCount token = t.state.closeCount token := by
  have hopen : (t.filled k content).openCount = t.state.openCount := by
    rw [Expansion.openCount, lastIsOpen_filled hd, Expansion.openCount]
  cases token with
  | climb | sibling => simp only [Expansion.closeCount, hopen]
  | _ => rfl

theorem step_of_ok {after : Expansion} {token : Token}
    (h : t.state.step attributes resolver token = .ok after) :
    t.step attributes resolver token = .ok {
      state := after
      roles := t.rolesAfter attributes after token
      groupRoles :=
        if token = .closeGroup then
          (t.rolesAfter attributes after token).drop t.state.innermost.start
        else t.groupRoles
      nodes := t.nodes + if token.isNode then 1 else 0 } := by
  rw [step, h]
  rfl

theorem groupFrom_fillAll {roles : List Role} {result : List Text}
    (h : roles.length = result.length) (start : Nat) :
    Expansion.groupFrom (fillAll k content roles result) start =
      (Expansion.groupFrom result start).map fun group =>
        { group with fragments := fillAll k content (roles.drop start) group.fragments } := by
  have hdrop : (fillAll k content roles result).drop start =
      fillAll k content (roles.drop start) (result.drop start) := List.drop_zipWith
  have hempty := isEmpty_fillAll k content (roles.drop start) (result.drop start) (by simp [h])
  rw [Expansion.groupFrom, Expansion.groupFrom, hdrop, hempty]
  split <;> rfl

/-- An operator does the same to a filled expansion. -/
theorem filled_operator (hd : Described Role.Starts t) {token : Token} (h : token.isOperator) :
    (t.filled k content).step attributes resolver token =
      filled k content <$> t.step attributes resolver token := by
  have hlen := hd.result.length_eq
  have hresult : (t.filled k content).closedResult token = fillAll k content
      (t.roles ++ closingRoles (t.state.openTags.take (t.state.closeCount token)))
      (t.state.closedResult token) := by
    rw [Expansion.closedResult, closeCount_filled hd, Expansion.closedResult,
      fillAll_append hlen, fillAll_closings]
    rfl
  have hgroups : (t.filled k content).groupsAfter token = t.state.groupsAfter token := by
    cases token with
    | openGroup => simp only [Expansion.groupsAfter, length_filled hd]; rfl
    | _ => rfl
  rw [step_of_ok (Expansion.step_operator h), Expansion.step_operator h, hgroups,
    closeCount_filled hd, hresult, rolesAfter_operator h, ok_map, filled]
  refine congrArg Except.ok ?_
  by_cases hclose : token = .closeGroup
  · have hlen' : (t.roles ++ closingRoles (t.state.openTags.take
        (t.state.closeCount token))).length = (t.state.closedResult token).length := by
      simp [Expansion.closedResult, hlen, closingRoles, closings]
    simp only [if_pos hclose, groupFrom_fillAll hlen']
    rfl
  · simp only [if_neg hclose]
    rfl

/-- The template of a filled expansion is the filled template. -/
theorem takeTemplate_filled (hd : Described Role.Starts t) :
    (t.filled k content).takeTemplate = t.state.takeTemplate.map fun p =>
      (fillAll k content t.template.1 p.1,
        { p.2 with result := fillAll k content t.template.2 p.2.result }) := by
  cases hg : t.state.lastGroup with
  | some group =>
    simp only [Expansion.takeTemplate, filled, hg, Option.map_some, template, fillAll,
      List.take_zipWith]
  | none =>
    cases hlast : t.state.result.getLast? with
    | none =>
      have hempty : t.state.result = [] := List.getLast?_eq_none_iff.1 hlast
      simp [Expansion.takeTemplate, filled, hg, hempty, fillAll]
    | some fragment =>
      obtain ⟨fragments, hfragments⟩ := List.getLast?_eq_some_iff.1 hlast
      have hr := hd.result
      rw [hfragments] at hr
      obtain ⟨roles, role, hroles, hrest, -⟩ := forall₂_concat hr
      have hfilled : (t.filled k content).result =
          fillAll k content roles fragments ++ [role.fill k content fragment] := by
        rw [filled, hroles, hfragments]
        exact fillAll_concat hrest.length_eq role fragment
      have hnone : (t.filled k content).lastGroup = none := by simp [filled, hg]
      simp only [Expansion.takeTemplate, hnone, hfilled, hg, hfragments, template, hroles,
        List.getLast?_concat, List.dropLast_concat, Option.map_some, Option.some.injEq]
      -- the closing fragment of the template takes no text
      have hclosing : ((t.state.openTags.head?.map Role.closing).getD .text).fill k content
          ((t.state.openTags.head?.map closingFragment).getD []) =
          (t.state.openTags.head?.map closingFragment).getD [] := by
        cases t.state.openTags <;> rfl
      simp only [fillAll, List.zipWith_cons_cons, List.zipWith_nil_right, hclosing]
      rfl

/-- A repeat marker does the same to a filled expansion. -/
theorem filled_times (hd : Described Role.Starts t) (hc : IsWord content) (marker : Text) :
    (t.filled k content).step attributes resolver (.times marker) =
      filled k content <$> t.step attributes resolver (.times marker) := by
  simp only [step, Expansion.step, Expansion.repeatLast, takeTemplate_filled hd]
  unfold readNumeral
  split
  · rfl
  simp only [ok_bind]
  cases htake : t.state.takeTemplate with
  | none =>
    obtain ⟨hnone, hempty⟩ := Expansion.takeTemplate_eq_none.1 htake
    have hroles := hd.result
    rw [hempty, List.forall₂_nil_right_iff] at hroles
    simp [filled, hnone, hempty, hroles, fillAll, rolesAfter, template, copyRoles]
  | some p =>
    obtain ⟨htemplate, hrest⟩ := hd.template (description_starts resolver) htake
    rw [Option.map_some]
    simp only [copies_fillAll hc htemplate.length_eq]
    cases Expansion.copies p.1 (digitsValue (marker.takeWhile isDigit)) with
    | error f => rfl
    | ok fragments =>
      refine congrArg Except.ok ?_
      have hgroup := Expansion.lastGroup_takeTemplate htake
      simp only [filled, rolesAfter, hgroup, fillAll_append hrest.length_eq, Option.map_none]

/-- A node does the same to a filled expansion, when its own fragment is filled too and the resolver
settles its tag without the fragments. -/
theorem filled_node (hd : Described Role.Starts t) {text text' : Text}
    (hr : resolver.Settles (Node.parse attributes text).tag)
    (htag : (Node.parse attributes text').tag = (Node.parse attributes text).tag)
    (htext : (Node.parse attributes text).isText = false)
    (htext' : (Node.parse attributes text').isText = false)
    (hfill : ∀ name, Expansion.openingFragment name (Node.parse attributes text') =
      (Role.opening t.nodes name.name).fill k content
        (Expansion.openingFragment name (Node.parse attributes text))) :
    (t.filled k content).step attributes resolver (.node text') =
      filled k content <$> t.step attributes resolver (.node text) := by
  have hlen := hd.result.length_eq
  simp only [step, Expansion.step, Expansion.writeNode, htext, htext', Bool.false_eq_true, if_false,
    htag, hr (t.filled k content).openTags (t.filled k content).result t.state.result]
  have hopen : (t.filled k content).openTags = t.state.openTags := rfl
  rw [hopen]
  cases resolver (Node.parse attributes text).tag t.state.openTags t.state.result with
  | error f => rfl
  | ok name =>
    refine congrArg Except.ok ?_
    simp only [filled, rolesAfter, nodeRole, htext, Bool.false_eq_true, if_false,
      List.headD_cons, fillAll_concat hlen, hfill, Option.map_none]

end Traced

/-! ## Filled runs -/

/-- A node that writes a tag, which the resolver names without the fragments. -/
def Token.Settled (attributes : Table) (resolver : Resolver) : Token → Prop
  | .node text => (Node.parse attributes text).tag ≠ [] ∧
      resolver.Settles (Node.parse attributes text).tag
  | _ => True

theorem Node.isText_of_tag {node : Node} (h : node.tag ≠ []) : node.isText = false := by
  simp [Node.isText, h]

namespace Traced

variable {k : Nat} {content : Text} {attributes : Table} {resolver : Resolver} {t t' : Traced}

/-- A token other than node `k` does the same to a filled expansion. -/
theorem filled_step (hd : Described Role.Starts t) (hc : IsWord content) {token : Token}
    (hs : token.Settled attributes resolver) (hk : token.isNode = true → t.nodes ≠ k) :
    (t.filled k content).step attributes resolver token =
      filled k content <$> t.step attributes resolver token := by
  cases token with
  | node text =>
    have htext := Node.isText_of_tag hs.1
    refine filled_node hd hs.2 rfl htext htext fun name => ?_
    rw [Role.fill, if_neg (hk rfl)]
  | times marker => exact filled_times hd hc marker
  | _ => exact filled_operator hd rfl

/-- Node `k` does with the content to a filled expansion what it does without. -/
theorem filled_content (hd : Described Role.Starts t) (hc : IsWord content) {text : Text}
    (hs : (Token.node text).Settled attributes resolver) (hbrace : '{' ∉ text)
    (hk : t.nodes = k) :
    (t.filled k content).step attributes resolver (.node (text ++ '{' :: (content ++ ['}']))) =
      filled k content <$> t.step attributes resolver (.node text) := by
  have hparse := Node.parse_filled attributes hbrace hc.ne_nil (hc.not_mem (by decide))
    (hc.not_mem (by decide))
  have hempty : (Node.parse attributes text).content = [] := Node.content_parse hbrace
  refine filled_node hd hs.2 (by rw [hparse]) (Node.isText_of_tag hs.1)
    (Node.isText_of_tag (by rw [hparse]; exact hs.1)) fun name => ?_
  rw [Role.fill, if_pos hk, hparse]
  generalize Node.parse attributes text = node at hempty ⊢
  show '<' :: (name.name ++ name.extension ++ node.attributeText ++ '>' :: content) = _
  simp [Expansion.openingFragment, hempty]

theorem nodes_run {tokens : List Token} (h : t.run attributes resolver tokens = .ok t') :
    t'.nodes = t.nodes + tokens.countP Token.isNode := by
  induction tokens generalizing t with
  | nil =>
    cases h
    rfl
  | cons token tokens ih =>
    obtain ⟨t₁, hstep, hrun⟩ := bind_eq_ok h
    rw [ih hrun, (step_eq_ok hstep).2.2.2, List.countP_cons]
    omega

/-- Tokens away from node `k` do the same to a filled expansion. -/
theorem filled_run (hd : Described Role.Starts t) (hc : IsWord content) {tokens : List Token}
    (hs : ∀ token ∈ tokens, token.Settled attributes resolver)
    (hk : k < t.nodes ∨ t.nodes + tokens.countP Token.isNode ≤ k) :
    (t.filled k content).run attributes resolver tokens =
      filled k content <$> t.run attributes resolver tokens := by
  induction tokens generalizing t with
  | nil => rfl
  | cons token tokens ih =>
    rw [List.countP_cons] at hk
    have haway : token.isNode = true → t.nodes ≠ k := by
      intro hn
      rw [if_pos hn] at hk
      omega
    rw [Expansion.run_cons, run_cons, filled_step hd hc (hs token List.mem_cons_self) haway]
    refine map_bind_eq_map fun t₁ hstep => ?_
    have hnodes := (step_eq_ok hstep).2.2.2
    refine ih (hd.step (description_starts resolver) hstep)
      (fun token' ht => hs token' (List.mem_cons_of_mem _ ht)) ?_
    omega

theorem run_append (t : Traced) (before after : List Token) :
    t.run attributes resolver (before ++ after) =
      t.run attributes resolver before >>= fun t' => t'.run attributes resolver after := by
  simp [run]

/-- **The run of a filled source is the filled run.** -/
theorem run_filled {before after : List Token} {text : Text}
    (hs : ∀ token ∈ before ++ .node text :: after, token.Settled attributes resolver)
    (hbrace : '{' ∉ text) (hc : IsWord content) :
    Expansion.run attributes resolver {}
        (before ++ .node (text ++ '{' :: (content ++ ['}'])) :: after) =
      filled (before.countP Token.isNode) content <$>
        run attributes resolver {} (before ++ .node text :: after) := by
  have hd : Described Role.Starts {} := .empty
  have hbefore := filled_run hd hc (fun token ht => hs token (List.mem_append_left _ ht))
    (.inr (Nat.zero_add _).le)
  have hempty : filled (before.countP Token.isNode) content {} = {} := rfl
  rw [hempty] at hbefore
  rw [Expansion.run_append, run_append, hbefore]
  -- the nodes before it are counted out, so that this one and none behind it is node `k`
  refine map_bind_eq_map fun t₁ hrun => ?_
  have hd₁ := hd.run (description_starts resolver) hrun
  have hk : t₁.nodes = before.countP Token.isNode := by rw [nodes_run hrun, Nat.zero_add]
  rw [Expansion.run_cons, run_cons, filled_content hd₁ hc (hs (.node text) (by simp)) hbrace hk]
  refine map_bind_eq_map fun t₂ hstep => ?_
  have hk₂ := (step_eq_ok hstep).2.2.2
  rw [Token.isNode, if_pos rfl] at hk₂
  refine filled_run (hd₁.step (description_starts resolver) hstep) hc (fun token ht => ?_) ?_
  · exact hs token (List.mem_append_right _ (List.mem_cons_of_mem _ ht))
  · omega

end Traced

end Shorthand
