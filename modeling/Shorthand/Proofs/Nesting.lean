import Shorthand.Proofs.Roles

/-!
# Well-nested fragments

Whatever the tokens are, each closing fragment closes the last opening fragment that is still
unclosed, as long as repeat markers stand behind what they may repeat.

- `unclosed`: the names that a list of roles leaves unclosed, if it is well nested.
- `Monitor`: what has to be known for a repeat marker to stand in its place.
- `repeatsPlaced`: all repeat markers among the tokens stand in their places.
- `Nested`: the invariant. It speaks of the fragments of every open group that the open tags have
  not left, since a repeat marker may cut these off.
- `run_wellNested`: the open tags are those that the fragments leave unclosed, after every token.
-/

namespace Shorthand

/-! ## Reading roles -/

/-- The tags that are written with a closing fragment. -/
def solidTags (tags : List Text) : List Text :=
  tags.filter fun tag => !isVoid tag

theorem solidTags_cons (tag : Text) (tags : List Text) :
    solidTags (tag :: tags) = if isVoid tag then solidTags tags else tag :: solidTags tags := by
  by_cases h : isVoid tag <;> simp [solidTags, h]

theorem solidTags_append (s t : List Text) : solidTags (s ++ t) = solidTags s ++ solidTags t :=
  List.filter_append ..

/-- The unclosed names, innermost first, after one more fragment. A closing fragment has to bear the
innermost name; the fragments of void tags count for nothing. -/
def Role.read (names : List Text) : Role → Option (List Text)
  | opening _ name => some (if isVoid name then names else name :: names)
  | closing name =>
    if isVoid name then some names
    else match names with
      | top :: rest => if top = name then some rest else none
      | [] => none
  | text => some names

/-- The unclosed names after a list of fragments, from left to right. -/
def unclosed (names : List Text) (roles : List Role) : Option (List Text) :=
  roles.foldlM Role.read names

/-- Everything that the fragments open they close, and nothing else. -/
def Balanced (roles : List Role) : Prop :=
  unclosed [] roles = some []

@[simp] theorem unclosed_nil (names : List Text) : unclosed names [] = some names := rfl

@[simp] theorem unclosed_cons (names : List Text) (role : Role) (roles : List Role) :
    unclosed names (role :: roles) = (role.read names).bind (unclosed · roles) := rfl

theorem unclosed_append (names : List Text) (roles more : List Role) :
    unclosed names (roles ++ more) = (unclosed names roles).bind (unclosed · more) := by
  simp [unclosed, List.foldlM_append]

/-- The names below those that a role reads stay as they are. -/
theorem Role.read_append {role : Role} {names names' : List Text} (below : List Text)
    (h : role.read names = some names') : role.read (names ++ below) = some (names' ++ below) := by
  cases role with
  | text =>
    cases h
    rfl
  | opening node name =>
    cases h
    by_cases hv : isVoid name <;> simp [read, hv]
  | closing name =>
    by_cases hv : isVoid name
    · simp_all [read]
    · cases names with
      | nil => simp [read, hv] at h
      | cons top rest => by_cases ht : top = name <;> simp_all [read]

/-- The names below those that are read stay as they are. -/
theorem unclosed_frame {roles : List Role} {names names' : List Text} (below : List Text)
    (h : unclosed names roles = some names') :
    unclosed (names ++ below) roles = some (names' ++ below) := by
  induction roles generalizing names with
  | nil =>
    cases h
    rfl
  | cons role roles ih =>
    obtain ⟨middle, hm, h⟩ := Option.bind_eq_some_iff.1 h
    rw [unclosed_cons, Role.read_append below hm]
    exact ih h

theorem Balanced.unclosed {roles : List Role} (h : Balanced roles) (names : List Text) :
    unclosed names roles = some names :=
  unclosed_frame names h

theorem Balanced.append {roles more : List Role} (h : Balanced roles) (hm : Balanced more) :
    Balanced (roles ++ more) := by
  rw [Balanced, unclosed_append, h, Option.bind_some, hm]

/-- A balanced end may be cut off. -/
theorem unclosed_append_balanced {more : List Role} (h : Balanced more) (names : List Text)
    (roles : List Role) : unclosed names (roles ++ more) = unclosed names roles := by
  rw [unclosed_append]
  cases unclosed names roles with
  | none => rfl
  | some names' => exact h.unclosed names'

/-- The closing fragments of tags close these tags. -/
theorem unclosed_closingRoles (tags below : List Text) :
    unclosed (solidTags tags ++ below) (closingRoles tags) = some below := by
  unfold closingRoles
  rw [show (tags.filter fun tag => !isVoid tag) = solidTags tags from rfl]
  have hsolid : ∀ tag ∈ solidTags tags, isVoid tag = false := by simp [solidTags]
  generalize solidTags tags = solid at hsolid ⊢
  induction solid with
  | nil => rfl
  | cons tag solid ih =>
    have htag : isVoid tag = false := hsolid tag List.mem_cons_self
    rw [List.map_cons, unclosed_cons, List.cons_append, Role.read, if_neg (by simp [htag])]
    simpa using ih fun t ht => hsolid t (List.mem_cons_of_mem _ ht)

/-! ## Numbered roles -/

theorem Role.read_number {role : Role} {names names' : List Text} (n times : Int)
    (h : role.read names = some names') :
    (role.number n times).read (names.map (numberedName n times)) =
      some (names'.map (numberedName n times)) := by
  cases role with
  | text =>
    cases h
    rfl
  | opening node name =>
    cases h
    by_cases hv : isVoid name <;> simp [read, number, isVoid_numberedName, hv]
  | closing name =>
    by_cases hv : isVoid name
    · simp_all [read, number, isVoid_numberedName]
    · cases names with
      | nil => simp [read, hv] at h
      | cons top rest => by_cases ht : top = name <;> simp_all [read, number, isVoid_numberedName]

theorem unclosed_number {roles : List Role} {names names' : List Text} (n times : Int)
    (h : unclosed names roles = some names') :
    unclosed (names.map (numberedName n times)) (roles.map (Role.number n times)) =
      some (names'.map (numberedName n times)) := by
  induction roles generalizing names with
  | nil =>
    cases h
    rfl
  | cons role roles ih =>
    obtain ⟨middle, hm, h⟩ := Option.bind_eq_some_iff.1 h
    rw [List.map_cons, unclosed_cons, Role.read_number n times hm]
    exact ih h

theorem Balanced.flatMap {ns : List Nat} {f : Nat → List Role} (h : ∀ n ∈ ns, Balanced (f n)) :
    Balanced (ns.flatMap f) := by
  induction ns with
  | nil => rfl
  | cons n ns ih =>
    rw [List.flatMap_cons]
    exact (h n List.mem_cons_self).append (ih fun m hm => h m (List.mem_cons_of_mem _ hm))

/-- An element without content is balanced. -/
theorem balanced_pair (node : Nat) (name : Text) :
    Balanced [.opening node name, .closing name] := by
  by_cases hv : isVoid name <;> simp [Balanced, Role.read, hv]

/-- The copies of a balanced template are balanced. -/
theorem Balanced.copyRoles {template : List Role} (h : Balanced template) (times : Nat) :
    Balanced (copyRoles template times) :=
  Balanced.flatMap fun n _ => unclosed_number n times h

/-! ## Repeat markers in their places -/

/-- What has to be known for a repeat marker to stand in its place. -/
structure Monitor where
  /-- For each open group, innermost first, the fewest tags that have been open in it. -/
  lows : List Nat := []
  /-- The last token is a node that is no bare text, or the end of a group that holds fragments and
  in which the tags around it stayed open. -/
  ready : Bool := false

namespace Monitor

/-- The fewest tags that have been open in the groups that are open after a token, the token itself
left out of account. -/
def lowsAfter (m : Monitor) (e : Expansion) : Token → List Nat
  | .openGroup => e.openTags.length :: m.lows
  | .closeGroup => m.lows.tail
  | _ => m.lows

/-- A repeat marker may follow a token that leads from the expansion `e` to `e'`. -/
def readyAfter (attributes : Table) (m : Monitor) (e e' : Expansion) : Token → Bool
  | .node text => !(Node.parse attributes text).isText
  | .closeGroup => e'.lastGroup.isSome && e.innermost.depth ≤ m.lows.headD 0
  | _ => false

/-- What is known after a token that leads from the expansion `e` to `e'`. -/
def after (attributes : Table) (m : Monitor) (e : Expansion) (token : Token) (e' : Expansion) :
    Monitor where
  lows := (m.lowsAfter e token).map (min e'.openTags.length)
  ready := m.readyAfter attributes e e' token

end Monitor

/-- Every repeat marker among the tokens directly follows a node that is no bare text, or the end of
a group that holds fragments and in which the tags around it stayed open. -/
def repeatsPlaced (attributes : Table) (resolver : Resolver) :
    Monitor → Expansion → List Token → Bool
  | _, _, [] => true
  | m, e, token :: tokens =>
    (m.ready || !token.isTimes) &&
      match e.step attributes resolver token with
      | .ok e' => repeatsPlaced attributes resolver (m.after attributes e token e') e' tokens
      | .error _ => true

/-! ## The invariant -/

/-- The fragments of an open group leave unclosed the tags that were opened in it, unless a tag
around it was closed. -/
structure GroupNested (roles : List Role) (openTags : List Text) (mark : GroupMark) (low : Nat) :
    Prop where
  low_le : low ≤ openTags.length
  start_le : mark.start ≤ roles.length
  inside : mark.depth ≤ low → unclosed [] (roles.drop mark.start) =
    some (solidTags (openTags.take (openTags.length - mark.depth)))

/-- The fragments leave the open tags unclosed, those of every open group likewise. -/
structure Nested (roles : List Role) (openTags : List Text) (groups : List GroupMark)
    (lows : List Nat) : Prop where
  all : unclosed [] roles = some (solidTags openTags)
  within : List.Forall₂ (GroupNested roles openTags) groups lows
  sorted : groups.Pairwise fun inner outer => outer.start ≤ inner.start

namespace Nested

variable {roles more : List Role} {openTags a b : List Text} {groups : List GroupMark}
  {lows : List Nat}

theorem start_le (h : Nested roles openTags groups lows) {mark : GroupMark} (hm : mark ∈ groups) :
    mark.start ≤ roles.length := by
  obtain ⟨low, -, hg⟩ := exists_mem_of_forall₂ h.within hm
  exact hg.start_le

/-- The outer groups start before the innermost group. -/
theorem start_tail_le (h : Nested roles openTags groups lows) {mark : GroupMark}
    (hm : mark ∈ groups.tail) : mark.start ≤ (groups.headD ⟨0, 0⟩).start := by
  cases groups with
  | nil => simp at hm
  | cons inner outer => exact List.rel_of_pairwise_cons h.sorted hm

theorem low_le (h : Nested roles openTags groups lows) : lows.headD 0 ≤ openTags.length := by
  cases h.within with
  | nil => exact Nat.zero_le _
  | cons hg _ => exact hg.low_le

/-- Fragments that are added change the unclosed names as the open tags change. -/
theorem extend {openTags' : List Text} (h : Nested roles openTags groups lows)
    (hmore : ∀ d ≤ openTags.length, d ≤ openTags'.length →
      unclosed (solidTags (openTags.take (openTags.length - d))) more =
        some (solidTags (openTags'.take (openTags'.length - d)))) :
    Nested (roles ++ more) openTags' groups (lows.map (min openTags'.length)) := by
  refine ⟨?_, ?_, h.sorted⟩
  · have := hmore 0 (Nat.zero_le _) (Nat.zero_le _)
    rw [unclosed_append, h.all]
    simpa using this
  · rw [List.forall₂_map_right_iff]
    refine List.Forall₂.imp (fun mark low hg => ⟨Nat.min_le_left .., ?_, fun hd => ?_⟩) h.within
    · have := hg.start_le
      rw [List.length_append]
      omega
    · have hlow := hg.low_le
      rw [List.drop_append_of_le_length hg.start_le, unclosed_append, hg.inside (by omega)]
      exact hmore _ (by omega) (by omega)

/-- Balanced fragments may be added. -/
theorem balanced (h : Nested roles openTags groups lows) (hmore : Balanced more) :
    Nested (roles ++ more) openTags groups (lows.map (min openTags.length)) :=
  h.extend fun _ _ _ => hmore.unclosed _

/-- The closing fragments of the innermost tags may be added. -/
theorem close (h : Nested roles (a ++ b) groups lows) :
    Nested (roles ++ closingRoles a) b groups (lows.map (min b.length)) := by
  refine h.extend fun d _ hd => ?_
  rw [List.length_append, Nat.add_sub_assoc hd, List.take_length_add_append, solidTags_append]
  exact unclosed_closingRoles a _

/-- The opening fragment of a tag may be added, whose tag is then open. -/
theorem opening (h : Nested roles openTags groups lows) (node : Nat) (name : Text) :
    Nested (roles ++ [.opening node name]) (name :: openTags) groups
      (lows.map (min (openTags.length + 1))) := by
  refine h.extend fun d hd _ => ?_
  rw [List.length_cons, Nat.succ_sub hd, List.take_succ_cons, solidTags_cons]
  rfl

/-- A balanced end that no open group reaches into may be cut off. -/
theorem cut (h : Nested (roles ++ more) openTags groups lows) (hmore : Balanced more)
    (hstart : ∀ mark ∈ groups, mark.start ≤ roles.length) : Nested roles openTags groups lows := by
  refine ⟨?_, ?_, h.sorted⟩
  · rw [← h.all, unclosed_append_balanced hmore]
  · refine List.Forall₂.imp (fun mark low hg => ?_) ((List.forall₂_and_left _ _).2 ⟨hstart, h.within⟩)
    obtain ⟨hle, hg⟩ := hg
    refine ⟨hg.low_le, hle, fun hd => ?_⟩
    rw [← hg.inside hd, List.drop_append_of_le_length hle, unclosed_append_balanced hmore]

/-- The fewest open tags stay as they are when more tags are open. -/
theorem lower (h : Nested roles openTags groups lows) {n : Nat} (hn : openTags.length ≤ n) :
    Nested roles openTags groups (lows.map (min n)) := by
  refine ⟨h.all, ?_, h.sorted⟩
  rw [List.forall₂_map_right_iff]
  refine List.Forall₂.imp (fun mark low hg => ?_) h.within
  rwa [Nat.min_eq_right (hg.low_le.trans hn)]

/-- A group may be opened after the fragments written so far. -/
theorem openGroup (h : Nested roles openTags groups lows) :
    Nested roles openTags (⟨roles.length, openTags.length⟩ :: groups) (openTags.length :: lows) :=
  ⟨h.all, .cons ⟨le_rfl, le_rfl, fun _ => by simp [solidTags]⟩ h.within,
    .cons (fun _ hm => h.start_le hm) h.sorted⟩

/-- The innermost group may be forgotten. -/
theorem closeGroup (h : Nested roles openTags groups lows) :
    Nested roles openTags groups.tail lows.tail := by
  refine ⟨h.all, ?_, h.sorted.tail⟩
  cases h.within with
  | nil => exact .nil
  | cons _ hrest => exact hrest

/-- What is written in a group whose own tags are all closed is balanced. -/
theorem balanced_group (h : Nested roles openTags groups lows)
    (hlow : (groups.headD ⟨0, 0⟩).depth ≤ lows.headD 0)
    (hlen : openTags.length = (groups.headD ⟨0, 0⟩).depth) :
    Balanced (roles.drop (groups.headD ⟨0, 0⟩).start) := by
  cases h.within with
  | nil =>
    have := h.all
    rw [List.length_eq_zero_iff.1 hlen] at this
    exact this
  | cons hg _ =>
    have := hg.inside hlow
    rwa [hlen, List.headD_cons, Nat.sub_self] at this

end Nested

/-! ## What a token preserves -/

/-- A traced expansion with what is known about the repeat markers that may follow: the fragments
are well nested, and still are without the template of a marker that is in its place. -/
structure Monitored (m : Monitor) (t : Traced) : Prop where
  described : Described Role.Describes t
  nested : Nested t.roles t.state.openTags t.state.groups m.lows
  template : m.ready = true → ∃ template rest, t.state.takeTemplate = some (template, rest) ∧
    Balanced t.template.1 ∧ Nested t.template.2 rest.openTags rest.groups m.lows

namespace Monitored

variable {attributes : Table} {resolver : Resolver} {m : Monitor} {t t' : Traced} {token : Token}

theorem empty : Monitored {} {} :=
  ⟨.empty, ⟨rfl, .nil, .nil⟩, fun h => by cases h⟩

/-- After an operator, the fragments are well nested in the groups that were open before it. -/
theorem close_operator (h : Monitored m t) (hop : token.isOperator)
    (hstep : t.step attributes resolver token = .ok t') :
    Nested t'.roles t'.state.openTags t.state.groups
      (m.lows.map (min t'.state.openTags.length)) := by
  obtain ⟨hstate, hroles, -, -⟩ := Traced.step_eq_ok hstep
  rw [Expansion.step_operator hop, Except.ok.injEq] at hstate
  rw [hroles, Traced.rolesAfter_operator hop, ← hstate]
  have hn := h.nested
  rw [← List.take_append_drop (t.state.closeCount token) t.state.openTags] at hn
  exact hn.close

theorem step_openGroup (h : Monitored m t) (hd : Described Role.Describes t')
    (hstep : t.step attributes resolver .openGroup = .ok t') :
    Monitored (m.after attributes t.state .openGroup t'.state) t' := by
  obtain ⟨hstate, hroles, -, -⟩ := Traced.step_eq_ok hstep
  refine ⟨hd, ?_, fun hr => by cases hr⟩
  have hn := h.nested.openGroup.balanced (show Balanced [] from rfl)
  rw [h.described.result.length_eq] at hn
  rw [Traced.rolesAfter_operator rfl] at hroles
  rw [Expansion.step_operator rfl, Except.ok.injEq] at hstate
  rw [hroles, ← hstate]
  exact hn

/-- At the end of a group in which the tags around it stayed open, its own tags are closed. -/
theorem length_openTags_closeGroup (h : Monitored m t)
    (hdepth : t.state.innermost.depth ≤ m.lows.headD 0)
    (hstep : t.step attributes resolver .closeGroup = .ok t') :
    t'.state.openTags.length = t.state.innermost.depth := by
  obtain ⟨hstate, -⟩ := Traced.step_eq_ok hstep
  rw [Expansion.step_operator rfl, Except.ok.injEq] at hstate
  have := h.nested.low_le
  rw [← hstate, List.length_drop, Expansion.closeCount]
  omega

/-- What is written in such a group is balanced. -/
theorem balanced_group (h : Monitored m t) (hdepth : t.state.innermost.depth ≤ m.lows.headD 0)
    (hstep : t.step attributes resolver .closeGroup = .ok t') :
    Balanced (t'.roles.drop t.state.innermost.start) := by
  have hlen := h.length_openTags_closeGroup hdepth hstep
  refine (h.close_operator rfl hstep).balanced_group ?_ hlen
  cases hl : m.lows with
  | nil =>
    rw [hl] at hdepth
    exact hdepth
  | cons low lows =>
    rw [hl] at hdepth
    exact Nat.le_min.2 ⟨hlen.ge, hdepth⟩

theorem step_closeGroup (h : Monitored m t) (hd : Described Role.Describes t')
    (hstep : t.step attributes resolver .closeGroup = .ok t') :
    Monitored (m.after attributes t.state .closeGroup t'.state) t' := by
  have hgroups := Expansion.groups_step (Traced.step_eq_ok hstep).1
  have hn : Nested t'.roles t'.state.openTags t'.state.groups
      (m.after attributes t.state .closeGroup t'.state).lows := by
    rw [hgroups, Expansion.groupsAfter, Monitor.after, Monitor.lowsAfter, List.map_tail]
    exact (h.close_operator rfl hstep).closeGroup
  refine ⟨hd, hn, fun hready => ?_⟩
  -- the template is what the group holds, and what is left ends where the group starts
  simp only [Monitor.after, Monitor.readyAfter, Bool.and_eq_true, decide_eq_true_eq,
    Option.isSome_iff_exists] at hready
  obtain ⟨⟨group, hlast⟩, hdepth⟩ := hready
  have hbalanced := h.balanced_group hdepth hstep
  obtain ⟨hstate, -, hgroup, -⟩ := Traced.step_eq_ok hstep
  have hstart : group.start = t.state.innermost.start := by
    rw [Expansion.step_operator rfl, Except.ok.injEq] at hstate
    rw [← hstate] at hlast
    exact Expansion.start_groupFrom hlast
  have htemplate : t'.template = (t'.roles.drop group.start, t'.roles.take group.start) := by
    simp [Traced.template, hlast, hgroup, hstart]
  refine ⟨group.fragments,
    { t'.state with result := t'.state.result.take group.start, lastGroup := none }, ?_, ?_, ?_⟩
  · simp [Expansion.takeTemplate, hlast]
  · rw [htemplate, hstart]
    exact hbalanced
  · rw [htemplate]
    rw [← List.take_append_drop group.start t'.roles] at hn
    -- no group that is still open reaches behind the start of this one
    refine hn.cut (hstart ▸ hbalanced) fun mark hm => ?_
    have hle := hn.start_le hm
    have hinner := h.nested.start_tail_le (hgroups ▸ hm)
    rw [List.take_append_drop] at hle
    rw [List.length_take, hstart]
    exact Nat.le_min.2 ⟨hinner, hle⟩

theorem step_times (h : Monitored m t) (hd : Described Role.Describes t') (hready : m.ready = true)
    {marker : Text} (hstep : t.step attributes resolver (.times marker) = .ok t') :
    Monitored (m.after attributes t.state (.times marker) t'.state) t' := by
  obtain ⟨hstate, hroles, -, -⟩ := Traced.step_eq_ok hstep
  obtain ⟨template, rest, htake, hbalanced, hrest⟩ := h.template hready
  refine ⟨hd, ?_, fun hr => by cases hr⟩
  rcases Expansion.repeatLast_eq_ok hstate with
    ⟨hnone, -⟩ | ⟨template', rest', fragments, htake', -, heq⟩
  · rw [hnone] at htake
    cases htake
  · rw [htake'] at htake
    cases htake
    rw [hroles, heq]
    exact hrest.balanced (hbalanced.copyRoles _)

theorem step_node (h : Monitored m t) (hd : Described Role.Describes t') {text : Text}
    (hstep : t.step attributes resolver (.node text) = .ok t') :
    Monitored (m.after attributes t.state (.node text) t'.state) t' := by
  obtain ⟨hstate, hroles, -, -⟩ := Traced.step_eq_ok hstep
  rw [Traced.rolesAfter, Traced.nodeRole] at hroles
  rcases Expansion.writeNode_eq_ok hstate with ⟨htext, heq⟩ | ⟨htext, tag, -, heq⟩
  · rw [if_pos htext] at hroles
    refine ⟨hd, ?_, fun hr => by simp [Monitor.after, Monitor.readyAfter, htext] at hr⟩
    rw [hroles, heq]
    exact h.nested.balanced rfl
  · rw [if_neg (by simp [htext])] at hroles
    have hn := h.nested.opening t.nodes tag.name
    refine ⟨hd, ?_, fun _ => ?_⟩
    · rw [hroles, heq]
      exact hn
    · have htake : t'.state.takeTemplate = some ([Expansion.openingFragment tag
          (Node.parse attributes text), closingFragment tag.name],
          { t.state with lastGroup := none }) := by
        simp [heq, Expansion.takeTemplate]
      have htemplate : t'.template =
          ([.opening t.nodes tag.name, .closing tag.name], t.roles) := by
        simp [Traced.template, hroles, heq]
      refine ⟨_, _, htake, ?_, ?_⟩
      · rw [htemplate]
        exact balanced_pair _ _
      · rw [htemplate, heq]
        exact h.nested.lower (Nat.le_succ _)

/-- **What one token preserves.** -/
theorem step (hr : resolver.PlainExtensions) (h : Monitored m t)
    (hplaced : (m.ready || !token.isTimes) = true)
    (hstep : t.step attributes resolver token = .ok t') :
    Monitored (m.after attributes t.state token t'.state) t' := by
  have hd := h.described.step (description_describes hr) hstep
  cases token with
  | node text => exact h.step_node hd hstep
  | times marker => exact h.step_times hd (by simpa [Token.isTimes] using hplaced) hstep
  | openGroup => exact h.step_openGroup hd hstep
  | closeGroup => exact h.step_closeGroup hd hstep
  | climb | nest | sibling =>
    refine ⟨hd, ?_, fun hready => by cases hready⟩
    rw [Expansion.groups_step (Traced.step_eq_ok hstep).1]
    exact h.close_operator rfl hstep

end Monitored

/-- The monitor and the traced expansion go through a run together. -/
theorem Monitored.run {attributes : Table} {resolver : Resolver} (hr : resolver.PlainExtensions)
    {before tokens : List Token} (hpre : before <+: tokens) {m : Monitor} {t : Traced}
    (h : Monitored m t) (hplaced : repeatsPlaced attributes resolver m t.state tokens = true)
    {e : Expansion} (hrun : t.state.run attributes resolver before = .ok e) :
    ∃ m' t', t.run attributes resolver before = .ok t' ∧ t'.state = e ∧ Monitored m' t' := by
  induction before generalizing m t tokens with
  | nil =>
    cases hrun
    exact ⟨m, t, rfl, rfl, h⟩
  | cons token before ih =>
    obtain ⟨rest, rfl⟩ := hpre
    rw [List.cons_append, repeatsPlaced, Bool.and_eq_true] at hplaced
    obtain ⟨htoken, hrest⟩ := hplaced
    rw [Expansion.run_cons] at hrun
    obtain ⟨e', hstate, hrun⟩ := bind_eq_ok hrun
    obtain ⟨t', hstep, rfl⟩ := map_eq_ok ((Traced.step_state t token).trans hstate)
    rw [hstate] at hrest
    obtain ⟨m'', t'', hrun', hs, h'⟩ := ih ⟨rest, rfl⟩ (h.step hr htoken hstep) hrest hrun
    exact ⟨m'', t'', by rw [Traced.run_cons, hstep, ok_bind, hrun'], hs, h'⟩

/-- When all open tags are closed, everything is. -/
theorem balanced_finish {roles : List Role} {openTags : List Text}
    (h : unclosed [] roles = some (solidTags openTags)) :
    Balanced (roles ++ closingRoles openTags) := by
  have hclosed := unclosed_closingRoles openTags []
  rw [List.append_nil] at hclosed
  rw [Balanced, unclosed_append, h, Option.bind_some, hclosed]

/-- **The fragments are well nested after every token.** Each is what its role says, every closing
fragment closes the last opening fragment that is still unclosed, and the open tags are those that
are left unclosed. In the markup, where the open tags are closed too, none is left. -/
theorem run_wellNested {attributes : Table} {resolver : Resolver}
    (hr : resolver.PlainExtensions) {tokens : List Token}
    (hplaced : repeatsPlaced attributes resolver {} {} tokens = true)
    {before : List Token} (hpre : before <+: tokens) {e : Expansion}
    (hrun : Expansion.run attributes resolver {} before = .ok e) :
    ∃ t, Traced.run attributes resolver {} before = .ok t ∧ t.state = e ∧
      List.Forall₂ Role.Describes t.roles e.result ∧
      unclosed [] t.roles = some (solidTags e.openTags) ∧
      ∃ roles fragments, List.Forall₂ Role.Describes roles fragments ∧ Balanced roles ∧
        t.roles <+: roles ∧ e.result <+: fragments ∧ e.finish = fragments.flatten := by
  obtain ⟨m, t, ht, rfl, h⟩ := Monitored.run hr hpre .empty hplaced hrun
  have hclosings := (description_describes hr).closings t.state.openTags
  refine ⟨t, ht, rfl, h.described.result, h.nested.all, ?_⟩
  exact ⟨_, _, List.rel_append h.described.result hclosings, balanced_finish h.nested.all,
    List.prefix_append .., List.prefix_append .., t.state.finish_eq⟩

/-- Without extended tags, the resolver that works with tables writes no extensions. -/
theorem plainExtensions_resolver {tables : Tables} (h : tables.extended = []) :
    tables.resolver.PlainExtensions := by
  rintro tag openTags result name hname
  cases hname
  simp only [Tables.resolve, h, Table.get?, List.find?_nil, Option.map_none, Option.getD_none,
    ite_self]
  exact unglued_nil

/-- `(h$>br)*2)>p` -/
theorem run_wellNested_stray_close :
    ({} : Tables).resolver.PlainExtensions ∧
      let tokens : List Token := [.openGroup, .node "h$".toList, .nest, .node "br".toList,
        .closeGroup, .times ['2'], .closeGroup, .nest, .node ['p']]
      let result := ["<h0>".toList, "<br>".toList, "</h0>".toList, "<h1>".toList, "<br>".toList,
        "</h1>".toList, "<p>".toList]
      repeatsPlaced [] ({} : Tables).resolver {} {} tokens = true ∧
        Expansion.run [] ({} : Tables).resolver {} tokens = .ok { result, openTags := [['p']] } ∧
        ∃ t, Traced.run [] ({} : Tables).resolver {} tokens = .ok t ∧
          List.Forall₂ Role.Describes t.roles result ∧ unclosed [] t.roles = some [['p']] ∧
          ∃ roles fragments, List.Forall₂ Role.Describes roles fragments ∧ Balanced roles ∧
            "<h0><br></h0><h1><br></h1><p></p>".toList = fragments.flatten := by
  have hr : ({} : Tables).resolver.PlainExtensions := plainExtensions_resolver rfl
  refine ⟨hr, ?_⟩
  intro tokens result
  have hplaced : repeatsPlaced [] ({} : Tables).resolver {} {} tokens = true := by decide +kernel
  have hrun : Expansion.run [] ({} : Tables).resolver {} tokens =
      .ok { result, openTags := [['p']] } := by decide +kernel
  obtain ⟨t, ht, -, hroles, hunclosed, roles, fragments, hdescribed, hbalanced, -, -, hfinish⟩ :=
    run_wellNested hr hplaced List.prefix_rfl hrun
  refine ⟨hplaced, hrun, t, ht, hroles, hunclosed.trans (by decide +kernel), roles, fragments,
    hdescribed, hbalanced, ?_⟩
  rw [← hfinish]
  decide +kernel

end Shorthand
