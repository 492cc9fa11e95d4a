import Shorthand.Proofs.Closing

/-!
# Elements

An element is a node that is written with a tag, unlike a bare text.

- `Element`: a node's text with the proof that it is no bare text.
- `Resolver.ByContext`: the resolvers that decide by the token and the open tags alone and name
  ordinary tags.
- `step_element`: an element writes its opening fragment and opens its tag.
-/

namespace Shorthand

/-! ## Bare texts -/

/-- Two nodes that differ in their attributes alone, and not in whether there are any. -/
def Node.SameShape (m n : Node) : Prop :=
  m.tag = n.tag ∧ m.classes = n.classes ∧ m.content = n.content ∧
    (m.attributes = [] ↔ n.attributes = [])

theorem Node.SameShape.add {m n : Node} (h : m.SameShape n) (s t : Table) (part : Part) :
    (m.add s part).SameShape (n.add t part) := by
  obtain ⟨ht, hc, hx, ha⟩ := h
  cases part <;> simp [Node.add, SameShape, *]

theorem Node.SameShape.foldl {m n : Node} (h : m.SameShape n) (s t : Table) (parts : List Part) :
    (parts.foldl (Node.add s) m).SameShape (parts.foldl (Node.add t) n) := by
  induction parts generalizing m n with
  | nil => exact h
  | cons part parts ih => exact ih (h.add s t part)

/-- Whether a node is a bare text does not hang on the table of attribute names. -/
theorem Node.isText_parse (s t : Table) (text : Text) :
    (Node.parse s text).isText = (Node.parse t text).isText := by
  obtain ⟨ht, hc, hx, ha⟩ : (Node.parse s text).SameShape (Node.parse t text) :=
    Node.SameShape.foldl ⟨rfl, rfl, rfl, .rfl⟩ s t (Part.scan text)
  have ha : (Node.parse s text).attributes.isEmpty = (Node.parse t text).attributes.isEmpty := by
    rw [Bool.eq_iff_iff, List.isEmpty_iff, List.isEmpty_iff]
    exact ha
  simp only [isText, ht, hc, hx, ha]

/-- A node's text that is no bare text. -/
structure Element where
  text : Text
  isText_eq : (Node.parse [] text).isText = false

theorem Element.not_isText (t : Element) (attributes : Table) :
    (Node.parse attributes t.text).isText = false := by
  rw [Node.isText_parse attributes [], t.isText_eq]

/-! ## Resolvers -/

/-- A name that opens and closes like any other tag: it is not empty, not void, and its opening
fragment does not look like a closing one. -/
structure TagName.Ordinary (tag : TagName) : Prop where
  nonempty : tag.name ≠ []
  not_void : isVoid tag.name = false
  not_slash : tag.name.head? ≠ some '/'

/-- The resolver does not look at the fragments, and names ordinary tags. -/
structure Resolver.ByContext (resolver : Resolver) : Prop where
  context (tag : Text) (openTags s t : List Text) : resolver tag openTags s = resolver tag openTags t
  ordinary {tag : Text} {openTags s : List Text} {name : TagName} :
    resolver tag openTags s = .ok name → name.Ordinary

/-- The resolver that names an outermost tag `ul` and any other `li`. -/
def listTags : Resolver := fun _ openTags _ =>
  .ok { name := if openTags.isEmpty then "ul".toList else "li".toList }

theorem listTags_byContext : listTags.ByContext where
  context _ _ _ _ := rfl
  ordinary {tag openTags s name} h := by
    cases h
    cases openTags with
    | nil => exact ⟨by decide, by decide, by decide⟩
    | cons _ _ =>
      have hvoid : isVoid "li".toList = false := by decide
      exact ⟨by simp, hvoid, by simp⟩

namespace Element

variable (attributes : Table) (resolver : Resolver)

/-- The tag of an element under the open tags `p`. -/
def tag (p : List Text) (t : Element) : Except Fault TagName :=
  resolver (Node.parse attributes t.text).tag p []

/-- The opening fragment of an element. -/
def opening (tag : TagName) (t : Element) : Text :=
  Expansion.openingFragment tag (Node.parse attributes t.text)

end Element

namespace Expansion

/-- The expansion after an element. -/
def withElement (e : Expansion) (attributes : Table) (tag : TagName) (t : Element) : Expansion :=
  { e with
    result := e.result ++ [t.opening attributes tag]
    openTags := tag.name :: e.openTags
    lastGroup := none }

theorem openCount_withElement {attributes : Table} {tag : TagName} (h : tag.Ordinary)
    (e : Expansion) (t : Element) : (e.withElement attributes tag t).openCount = 1 := by
  obtain ⟨c, name, hname⟩ := List.exists_cons_of_ne_nil h.nonempty
  have hc : c ≠ '/' := by
    have := h.not_slash
    simpa [hname] using this
  simp [openCount, lastIsOpen, withElement, Element.opening, openingFragment, hname, Ne.symm hc]

/-- An element writes its opening fragment and opens its tag. -/
theorem step_element {resolver : Resolver} (hr : resolver.ByContext) (attributes : Table)
    (e : Expansion) (t : Element) :
    Agree (fun e' tag => e' = e.withElement attributes tag t ∧ tag.Ordinary)
      (step attributes resolver e (.node t.text)) (t.tag attributes resolver e.openTags) := by
  have hctx := hr.context (Node.parse attributes t.text).tag e.openTags e.result []
  simp only [step, writeNode, t.not_isText, Bool.false_eq_true, if_false, hctx]
  unfold Element.tag
  cases h : resolver (Node.parse attributes t.text).tag e.openTags [] with
  | error f => rfl
  | ok tag => exact ⟨rfl, hr.ordinary h⟩

end Expansion

end Shorthand
