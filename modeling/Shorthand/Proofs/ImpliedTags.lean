import Shorthand.Proofs.DigitRuns
import Shorthand.Proofs.Repetition
import Shorthand.Proofs.Roles
import Shorthand.Proofs.Surrounding

/-!
# Implied tags

A node that names no tag gets one from the tag around it, or else from the fragment before it. That
fragment is looked at as it is written.

- `Tables.Readable`: the names that tags are resolved to can be read off opening fragments
  (`fragmentName_openingFragment`). `Tables.readable_of_values` says so of the values of the tables.
- `impliedTag`: the tag that the tags around and before a node imply, which the roles of the
  fragments tell.
- `Traced.LastReadable`: if the last fragment opens a tag, its name is read there. Without repeat
  markers, every run keeps this up.
- `resolve_implied_iff`: a node that names no tag gets the tag implied, unless a text is read as a
  tag.
-/

namespace Shorthand

/-! ## Names in fragments -/

/-- A name with no white space and no `>`. -/
def PlainName (name : Text) : Prop :=
  ∀ c ∈ name, isBlank c = false ∧ c ≠ '>'

instance (name : Text) : Decidable (PlainName name) :=
  List.decidableBAll (fun c => isBlank c = false ∧ c ≠ '>') name

theorem PlainName.sublist {name part : Text} (h : PlainName name) (hpart : part.Sublist name) :
    PlainName part := fun c hc =>
  h c (hpart.subset hc)

theorem plainName_defaultTag : PlainName defaultTag := by decide +kernel

theorem lower_eq_nil_iff {t : Text} : lower t = [] ↔ t = [] := by
  cases t with
  | nil => simp [lower, lowerAfter]
  | cons c t =>
    simp only [lower, lowerAfter, List.append_eq_nil_iff, reduceCtorEq, iff_false, not_and]
    intro h
    split at h
    · cases h
    · split at h
      · split at h <;> cases h
      · cases h

/-- A name before the text ends there: the text is empty, or begins with white space or a `>`. -/
def EndsName (t : Text) : Prop :=
  ∀ c ∈ t.head?, isBlank c = true ∨ c = '>'

theorem EndsName.append {s t : Text} (hs : EndsName s) (ht : EndsName t) : EndsName (s ++ t) := by
  cases s with
  | nil => exact ht
  | cons c s => exact hs

theorem EndsName.unglued {t : Text} (h : EndsName t) : Unglued t := fun c hc => by
  rcases h c hc with hblank | rfl
  · exact ⟨ne_of_isBlank hblank (by decide), ne_of_isBlank hblank (by decide),
      ne_of_isBlank hblank (by decide), isDigit_of_isBlank hblank⟩
  · decide

theorem endsName_attributeText (node : Node) : EndsName node.attributeText := fun c hc => by
  rw [node.head_attributeText_eq c hc]
  decide

/-- A name that ends where the rest begins is read as what it is. -/
theorem fragmentName_cons_append {name rest : Text} (hname : PlainName name)
    (hrest : EndsName rest) (c : Char) : fragmentName (c :: (name ++ rest)) = lower name := by
  have hend : ∀ d ∈ rest.head?, (!(isBlank d || d == '>')) = false := fun d hd => by
    rcases hrest d hd with hblank | rfl
    · simp [hblank]
    · rfl
  have hself : name.takeWhile (fun d => !(isBlank d || d == '>')) = name :=
    List.takeWhile_eq_self_iff.2 fun d hd => by simp [hname d hd]
  rw [fragmentName, List.drop_one, List.tail_cons, Text.takeWhile_append_of_head hend, hself]

/-- An opening fragment is read as its tag. -/
theorem fragmentName_openingFragment {tag : TagName} (hname : PlainName tag.name)
    (hextension : EndsName tag.extension) (node : Node) :
    fragmentName (Expansion.openingFragment tag node) = lower tag.name := by
  rw [openingFragment_eq]
  have hcontent : EndsName ('>' :: node.content) := fun c hc => .inr (Option.some.inj hc).symm
  exact fragmentName_cons_append hname
    (hextension.append ((endsName_attributeText node).append hcontent)) '<'

/-- A closing fragment is read as nothing, or as a name that begins with `/`. -/
theorem fragmentName_closingFragment (name : Text) :
    fragmentName (closingFragment name) = [] ∨
      (fragmentName (closingFragment name)).head? = some '/' := by
  unfold closingFragment
  split
  · exact .inl rfl
  · right
    have hslash : (!(isBlank '/' || '/' == '>')) = true := by decide
    rw [fragmentName, List.drop_one, List.tail_cons, List.takeWhile_cons, if_pos hslash]
    rfl

/-! ## Tables with names that can be read -/

/-- The extensions are empty or begin with white space, the names that the tags of nodes are
resolved to have no white space and no `>`, and no context that begins with `/` implies a tag. -/
structure Tables.Readable (tables : Tables) : Prop where
  extension : ∀ e ∈ tables.extended, ∀ c ∈ e.2.head?, isBlank c = true
  name (attributes : Table) (text : Text) (openTags fragments : List Text) :
    PlainName (tables.resolve (Node.parse attributes text).tag openTags fragments).name
  context : ∀ e ∈ tables.implicit, e.1.head? ≠ some '/'

namespace Tables

variable {tables : Tables}

theorem Readable.endsName (h : tables.Readable) (tag : Text) (openTags fragments : List Text) :
    EndsName (tables.resolve tag openTags fragments).extension := by
  intro c hc
  rcases tables.resolve_extension_cases tag openTags fragments with
    hnil | ⟨entry, hentry, hextension⟩
  · rw [hnil] at hc
    cases hc
  · rw [← hextension] at hc
    exact .inl (h.extension entry hentry c hc)

theorem Readable.plainExtensions (h : tables.Readable) : tables.resolver.PlainExtensions := by
  rintro tag openTags fragments name ⟨⟩
  exact (h.endsName tag openTags fragments).unglued

/-- The lookup of a name that begins with `/` finds nothing. -/
theorem Readable.get?_slash (h : tables.Readable) {key : Text} (hkey : key.head? = some '/') :
    tables.implicit.get? key = none := by
  rw [Table.get?, Option.map_eq_none_iff, List.find?_eq_none]
  intro e he heq
  rw [← eq_of_beq heq] at hkey
  exact h.context e he hkey

end Tables

theorem Part.plainName_of_mem_word {t text : Text} (h : word text ∈ scan t) : PlainName text := by
  obtain ⟨u, rest, -, hread⟩ := exists_read?_of_mem_scan h
  have hrow := read?_eq_word hread
  unfold row? at hrow
  split at hrow <;> cases hrow
  intro c hc
  have hpart : isPartChar c = true := List.mem_takeWhile_imp hc
  refine ⟨?_, ?_⟩
  · by_contra hblank
    rw [isPartChar_of_isBlank (by simpa using hblank)] at hpart
    cases hpart
  · rintro rfl
    revert hpart
    decide

/-- The tag that a node writes is one of its words. -/
theorem Node.plainName_tag (attributes : Table) (text : Text) :
    PlainName (parse attributes text).tag := by
  have hempty : PlainName ({} : Node).tag := by simp [PlainName]
  refine List.foldlRecOn (motive := fun node : Node => PlainName node.tag) (Part.scan text)
    (add attributes) hempty fun node hnode part hpart => ?_
  cases part with
  | word name => exact Part.plainName_of_mem_word hpart
  | _ => exact hnode

/-- Names are read as the tables give them, if no value has white space or a `>`. -/
theorem Tables.readable_of_values {tables : Tables}
    (hvalues : ∀ e ∈ tables.tags ++ tables.implicit, PlainName e.2)
    (hextension : ∀ e ∈ tables.extended, ∀ c ∈ e.2.head?, isBlank c = true)
    (hcontext : ∀ e ∈ tables.implicit, e.1.head? ≠ some '/') : tables.Readable where
  extension := hextension
  context := hcontext
  name attributes text openTags fragments := by
    rcases tables.resolve_name_cases (Node.parse attributes text).tag openTags fragments with
      hname | hname | ⟨entry, hentry, hname⟩
    · rw [hname]
      exact (Node.plainName_tag attributes text).sublist (List.takeWhile_sublist _)
    · rw [hname]
      exact plainName_defaultTag
    · rw [← hname]
      exact hvalues entry hentry

/-! ## The last fragment of a run -/

namespace Traced

variable {attributes : Table} {t t' : Traced} {tables : Tables} {token : Token}

/-- If the last fragment opens a tag, it is read as that tag; and if that tag is not void, it is
still open. -/
def LastReadable (t : Traced) : Prop :=
  ∀ k name, t.roles.getLast? = some (.opening k name) →
    t.state.result.getLast?.map fragmentName = some (lower name) ∧
      (isVoid name = false → t.state.openTags.head? = some name)

/-- Behind closing fragments, the last fragment opens a tag only if there are none. -/
theorem getLast?_append_closingRoles {roles : List Role} {tags : List Text} {k : Nat} {name : Text}
    (h : (roles ++ closingRoles tags).getLast? = some (.opening k name)) :
    tags.all isVoid = true ∧ roles.getLast? = some (.opening k name) := by
  rcases (closingRoles tags).eq_nil_or_concat' with hnil | ⟨before, last, hlast⟩
  · rw [hnil, List.append_nil] at h
    exact ⟨by simpa [closingRoles] using hnil, h⟩
  · have hmem : last ∈ closingRoles tags := by simp [hlast]
    obtain ⟨tag, -, rfl⟩ := List.mem_map.1 hmem
    rw [hlast, ← List.append_assoc, List.getLast?_concat] at h
    cases h

theorem LastReadable.step_operator (h : t.LastReadable) (hop : token.isOperator)
    (hstep : t.step attributes tables.resolver token = .ok t') : t'.LastReadable := by
  intro k name hlast
  obtain ⟨hstate, hroles, -⟩ := step_eq_ok hstep
  rw [hroles, rolesAfter_operator hop] at hlast
  obtain ⟨hvoid, hlast⟩ := getLast?_append_closingRoles hlast
  obtain ⟨hread, hopen⟩ := h k name hlast
  rw [Expansion.step_operator hop, Except.ok.injEq] at hstate
  rw [← hstate]
  refine ⟨?_, fun hsolid => ?_⟩
  · rw [Expansion.closedResult, closings_eq_nil.2 hvoid, List.append_nil]
    exact hread
  · -- a tag that is not void is not among those closed, so none is
    have hhead := hopen hsolid
    cases hcount : t.state.closeCount token with
    | zero => simpa using hhead
    | succ n =>
      obtain ⟨tags, htags⟩ := List.head?_eq_some_iff.1 hhead
      rw [hcount, htags, List.take_succ_cons, List.all_cons, hsolid] at hvoid
      cases hvoid

theorem LastReadable.step_node (htables : tables.Readable) {text : Text}
    (hstep : t.step attributes tables.resolver (.node text) = .ok t') : t'.LastReadable := by
  intro k name hlast
  obtain ⟨hstate, hroles, -⟩ := step_eq_ok hstep
  rw [hroles, rolesAfter, List.getLast?_concat, nodeRole] at hlast
  rcases Expansion.writeNode_eq_ok hstate with ⟨htext, -⟩ | ⟨htext, tag, htag, heq⟩
  · rw [if_pos htext] at hlast
    cases hlast
  · rw [if_neg (by simp [htext]), heq] at hlast
    cases hlast
    cases htag
    rw [heq, List.getLast?_concat]
    refine ⟨congrArg some ?_, fun _ => rfl⟩
    exact fragmentName_openingFragment (htables.name attributes text _ _) (htables.endsName _ _ _) _

/-- Without repeat markers, every run leaves the last fragment readable. -/
theorem lastReadable_run (htables : tables.Readable) {tokens : List Token}
    (htimes : ∀ token ∈ tokens, token.isTimes = false) (h : t.LastReadable)
    (hrun : t.run attributes tables.resolver tokens = .ok t') : t'.LastReadable := by
  induction tokens generalizing t with
  | nil =>
    cases hrun
    exact h
  | cons token tokens ih =>
    obtain ⟨hfirst, hrest⟩ := List.forall_mem_cons.1 htimes
    obtain ⟨t₁, hstep, hrun⟩ := bind_eq_ok hrun
    refine ih hrest ?_ hrun
    cases token with
    | node text => exact .step_node htables hstep
    | times marker => cases hfirst
    | _ => exact h.step_operator rfl hstep

end Traced

/-! ## The tag implied -/

/-- The tag implied for a node behind these open tags and a fragment of this role: the one that the
innermost open tag implies, else the one that the tag before the node implies, else the default. -/
def impliedTag (implicit : Table) (openTags : List Text) (last : Option Role) : Text :=
  match openTags.head?.bind fun tag => implicit.get? (lower tag) with
  | some name => name
  | none =>
    match last with
    | some (.opening _ name) => (implicit.get? (lower name)).getD defaultTag
    | _ => defaultTag

/-- A text is read as a tag: it is the last fragment, the open tags imply nothing, and the word in
it behind its first character implies a tag other than the default. -/
structure Traced.MisreadsText (t : Traced) (implicit : Table) : Prop where
  enclosing : (t.state.openTags.head?.bind fun tag => implicit.get? (lower tag)) = none
  text : t.roles.getLast? = some .text
  read : ∃ text ∈ t.state.result.getLast?, fragmentName text ≠ [] ∧
    ∃ name ∈ implicit.get? (fragmentName text), name ≠ defaultTag

section LastFragment

variable {tables : Tables} {fragments : List Text} {fragment : Text}

/-- The last fragment implies what its name does, if the empty name does not imply anything. -/
theorem impliedByFragment_concat {implicit : Table}
    (h : fragmentName fragment = [] → implicit.get? [] = none) :
    impliedByFragment implicit (fragments ++ [fragment]) =
      implicit.get? (fragmentName fragment) := by
  rw [impliedByFragment, List.getLast?_concat]
  by_cases hnil : fragmentName fragment = []
  · simp [hnil, h hnil]
  · simp [hnil]

/-- A closing fragment implies nothing. -/
theorem Tables.Readable.impliedByFragment_closing (h : tables.Readable) (name : Text) :
    impliedByFragment tables.implicit (fragments ++ [closingFragment name]) = none := by
  rw [impliedByFragment, List.getLast?_concat]
  rcases fragmentName_closingFragment name with hempty | hslash
  · simp [hempty]
  · simp [h.get?_slash hslash]

variable {t : Traced}

/-- When a text that is not enclosed is read as a tag. -/
theorem Traced.not_misreadsText_iff {implicit : Table}
    (henclosing : (t.state.openTags.head?.bind fun tag => implicit.get? (lower tag)) = none)
    (htext : t.roles.getLast? = some .text) (hresult : t.state.result = fragments ++ [fragment]) :
    ¬t.MisreadsText implicit ↔
      (impliedByFragment implicit (fragments ++ [fragment])).getD defaultTag = defaultTag := by
  have hread : t.MisreadsText implicit ↔ fragmentName fragment ≠ [] ∧
      ∃ name ∈ implicit.get? (fragmentName fragment), name ≠ defaultTag := by
    refine ⟨fun h => ?_, fun h => ⟨henclosing, htext, fragment, by simp [hresult], h⟩⟩
    obtain ⟨text, hlast, h⟩ := h.read
    rw [hresult, List.getLast?_concat] at hlast
    cases hlast
    exact h
  rw [hread, impliedByFragment, List.getLast?_concat]
  by_cases hempty : fragmentName fragment = []
  · simp [hempty]
  · cases hget : implicit.get? (fragmentName fragment) <;> simp [hempty, hget]

/-- The context is read as it is, unless a text is read as a tag. -/
theorem Traced.implicitName_eq_iff (htables : tables.Readable) (hread : t.LastReadable)
    (hroles : List.Forall₂ Role.Describes t.roles t.state.result) :
    implicitName tables.implicit t.state.openTags t.state.result =
        impliedTag tables.implicit t.state.openTags t.roles.getLast? ↔
      ¬t.MisreadsText tables.implicit := by
  unfold implicitName impliedTag
  cases henclosing : t.state.openTags.head?.bind fun tag => tables.implicit.get? (lower tag) with
  | some name => exact iff_of_true rfl fun hmis => by simp [hmis.enclosing] at henclosing
  | none =>
    rcases t.state.result.eq_nil_or_concat' with hnil | ⟨fragments, fragment, hresult⟩
    · have hnone : t.roles = [] := by simpa [hnil] using hroles
      refine iff_of_true ?_ fun hmis => by simpa [hnone] using hmis.text
      simp [hnil, hnone, impliedByFragment]
    · rw [hresult] at hroles ⊢
      obtain ⟨roles, role, hlast, -, hrole⟩ := forall₂_concat hroles
      replace hlast : t.roles.getLast? = some role := by rw [hlast, List.getLast?_concat]
      rw [hlast]
      cases role with
      | opening k name =>
        refine iff_of_true ?_ fun hmis => by simpa [hlast] using hmis.text
        obtain ⟨hname, hopen⟩ := hread k name hlast
        rw [hresult, List.getLast?_concat, Option.map_some, Option.some.injEq] at hname
        rw [impliedByFragment_concat, hname]
        intro hempty
        -- a tag with an empty name is not void, so it is open, and it implies nothing
        rw [hname, lower_eq_nil_iff] at hempty
        subst hempty
        rw [hopen (by decide)] at henclosing
        exact henclosing
      | closing name =>
        refine iff_of_true ?_ fun hmis => by simpa [hlast] using hmis.text
        rw [show fragment = _ from hrole, htables.impliedByFragment_closing]
        rfl
      | text => exact (Traced.not_misreadsText_iff henclosing hlast hresult).symm

end LastFragment

/-- **Tags are implied by tags.** Behind tokens without repeat markers, a node that names no tag is
resolved to the tag that the open tags and the tag before it imply, unless a text is read as a
tag. -/
theorem resolve_implied_iff {tables : Tables} (htables : tables.Readable) {attributes : Table}
    {tokens : List Token} (htimes : ∀ token ∈ tokens, token.isTimes = false) {e : Expansion}
    (hrun : Expansion.run attributes tables.resolver {} tokens = .ok e) {tag : Text}
    (htag : Text.beforeFirst ':' tag = []) :
    ∃ t, Traced.run attributes tables.resolver {} tokens = .ok t ∧ t.state = e ∧
      List.Forall₂ Role.Describes t.roles e.result ∧
      ((tables.resolve tag e.openTags e.result).name =
          impliedTag tables.implicit e.openTags t.roles.getLast? ↔
        ¬t.MisreadsText tables.implicit) := by
  have hstate : Traced.state <$> Traced.run attributes tables.resolver {} tokens = .ok e :=
    (Traced.run_state {} tokens).trans hrun
  obtain ⟨t, ht, rfl⟩ := map_eq_ok hstate
  have hroles := (Described.empty.run (description_describes htables.plainExtensions) ht).result
  have hread := Traced.lastReadable_run htables htimes (fun k name h => by cases h) ht
  exact ⟨t, ht, rfl, hroles, by
    rw [Tables.resolve_unnamed htag, Traced.implicitName_eq_iff htables hread hroles]⟩

/-- `p>input+`: the tag around implies nothing, but the void tag before the node does. -/
theorem resolve_implied_void :
    let tables : Tables := { implicit := [("input".toList, "label".toList)] }
    let tokens : List Token := [.node ['p'], .nest, .node "input".toList, .sibling]
    let e : Expansion := { result := ["<p>".toList, "<input>".toList], openTags := [['p']] }
    tables.Readable ∧ Expansion.run [] tables.resolver {} tokens = .ok e ∧
      (tables.resolve [] e.openTags e.result).name = "label".toList := by
  intro tables tokens e
  have htables : tables.Readable :=
    Tables.readable_of_values (by decide +kernel) (by decide +kernel) (by decide +kernel)
  have hrun : Expansion.run [] tables.resolver {} tokens = .ok e := by decide +kernel
  have hroles : Traced.roles <$> Traced.run [] tables.resolver {} tokens =
      .ok [.opening 0 ['p'], .opening 1 "input".toList] := by decide +kernel
  have htag : Text.beforeFirst ':' [] = [] := rfl
  obtain ⟨t, ht, -, -, hiff⟩ := resolve_implied_iff htables (by decide) hrun htag
  rw [ht, ok_map, Except.ok.injEq] at hroles
  rw [hroles] at hiff
  refine ⟨htables, hrun, (hiff.2 fun hmis => ?_).trans (by decide +kernel)⟩
  simpa [hroles] using hmis.text

/-- The text `xul` is read as the tag `ul`, and implies the tag of a list item. -/
theorem text_read_as_tag :
    let tables : Tables := { implicit := [("ul".toList, "li".toList)] }
    let tokens : List Token := [.node "\x7bxul\x7d".toList]
    let e : Expansion := { result := ["xul".toList] }
    tables.Readable ∧ Expansion.run [] tables.resolver {} tokens = .ok e ∧
      Traced.roles <$> Traced.run [] tables.resolver {} tokens = .ok [.text] ∧
      (tables.resolve [] e.openTags e.result).name = "li".toList ∧
      impliedTag tables.implicit e.openTags (some .text) = defaultTag ∧
      (Compiler.expand { tables, indented := false } {} .nil "\x7bxul\x7d.a".toList).output =
        .ok "xul<li class=\"a\"></li>".toList :=
  ⟨Tables.readable_of_values (by decide +kernel) (by decide +kernel) (by decide +kernel),
    by decide +kernel⟩

end Shorthand
