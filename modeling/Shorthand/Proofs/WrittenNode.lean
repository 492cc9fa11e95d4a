import Shorthand.Proofs.Spans

/-!
# Nodes as they are written

A node is written as its tag, its classes and ids, its attributes in brackets and its text in
braces.

- `WrittenNode`: what may be written so. `WrittenNode.text` is the text of it.
- `Part.scan_written`: the parts of the text are those that are written.
- `parse_writtenNode`: reading the text gives back what is written.
-/

namespace Shorthand

/-- A nonempty row of part characters. -/
structure PartName where
  text : Text
  ne_nil : text ≠ []
  all_isPartChar : text.all Part.isPartChar = true

theorem PartName.isPartChar (name : PartName) : ∀ c ∈ name.text, Part.isPartChar c = true :=
  List.all_eq_true.1 name.all_isPartChar

/-- A class or an id of a node. -/
inductive NodeItem
  | cls (name : PartName)
  | id (name : PartName)

namespace NodeItem

def text : NodeItem → Text
  | cls name => '.' :: name.text
  | id name => '#' :: name.text

def part : NodeItem → Part
  | cls name => .cls name.text
  | id name => .id name.text

/-- The name of a class. -/
def class? : NodeItem → Option Text
  | cls name => some name.text
  | id _ => none

/-- The attribute that an id is. -/
def attribute? : NodeItem → Option Text
  | cls _ => none
  | id name => some ("id=\"".toList ++ name.text ++ ['"'])

end NodeItem

/-- A node as it is written: a tag, which may be empty, classes and ids in any order, and, if there
are any, attributes in brackets and a text in braces. -/
structure WrittenNode where
  tag : Text := []
  items : List NodeItem := []
  bracket : Option Text := none
  content : Option Text := none
  all_isPartChar : tag.all Part.isPartChar = true
  bracket_line : ∀ b ∈ bracket, b ≠ [] ∧ '\n' ∉ b
  content_line : ∀ c ∈ content, c ≠ [] ∧ '\n' ∉ c
  /-- Behind attributes, a `]` in the text would be taken for their end. -/
  content_closed : bracket ≠ none → ∀ c ∈ content, ']' ∉ c

/-- Attributes in brackets, if there are any. -/
def bracketText (bracket : Option Text) : Text :=
  bracket.elim [] fun b => '[' :: (b ++ [']'])

/-- A text in braces, if there is one. -/
def bracesText (content : Option Text) : Text :=
  content.elim [] fun c => '{' :: (c ++ ['}'])

/-- The text of a written node. -/
def WrittenNode.text (w : WrittenNode) : Text :=
  w.tag ++ (w.items.flatMap NodeItem.text ++ (bracketText w.bracket ++ bracesText w.content))

/-! ## Parts -/

namespace Part

variable {rest : Text}

/-- An item is read up to where its name ends. -/
theorem scan_item (hrest : ∀ c ∈ rest.head?, isPartChar c = false) (item : NodeItem) :
    scan (item.text ++ rest) = item.part :: scan rest := by
  cases item with
  | cls name =>
    refine scan_of_some ?_
    rw [NodeItem.text, List.cons_append, read?, row?_of_all name.ne_nil name.isPartChar hrest]
    rfl
  | id name =>
    refine scan_of_some ?_
    rw [NodeItem.text, List.cons_append, read?, row?_of_all name.ne_nil name.isPartChar hrest]
    rfl

/-- No item goes on a name. -/
theorem head_items (hrest : ∀ c ∈ rest.head?, isPartChar c = false) (items : List NodeItem) :
    ∀ c ∈ (items.flatMap NodeItem.text ++ rest).head?, isPartChar c = false := by
  cases items with
  | nil => exact hrest
  | cons item items =>
    intro c hc
    cases item with
    | cls name =>
      obtain rfl : '.' = c := by simpa [NodeItem.text] using hc
      decide
    | id name =>
      obtain rfl : '#' = c := by simpa [NodeItem.text] using hc
      decide

theorem scan_items (hrest : ∀ c ∈ rest.head?, isPartChar c = false) (items : List NodeItem) :
    scan (items.flatMap NodeItem.text ++ rest) = items.map NodeItem.part ++ scan rest := by
  induction items with
  | nil => rfl
  | cons item items ih =>
    rw [List.flatMap_cons, List.append_assoc, scan_item (head_items hrest items), ih]
    rfl

theorem head_bracketed (bracket content : Option Text) :
    ∀ c ∈ (bracketText bracket ++ bracesText content).head?, isPartChar c = false := by
  intro c hc
  cases bracket with
  | some b =>
    obtain rfl : '[' = c := by simpa [bracketText] using hc
    decide
  | none =>
    cases content with
    | none => cases hc
    | some t =>
      obtain rfl : '{' = c := by simpa [bracketText, bracesText] using hc
      decide

theorem scan_bracketed {bracket content : Option Text} (hb : ∀ b ∈ bracket, b ≠ [] ∧ '\n' ∉ b)
    (hc : ∀ c ∈ content, c ≠ [] ∧ '\n' ∉ c) (hclosed : bracket ≠ none → ∀ c ∈ content, ']' ∉ c) :
    scan (bracketText bracket ++ bracesText content) =
      bracket.toList.map Part.bracket ++ content.toList.map Part.content := by
  have hbraces : scan (bracesText content) = content.toList.map Part.content := by
    cases content with
    | none => simp [bracesText, scan, read?]
    | some t =>
      obtain ⟨hne, hline⟩ := hc t rfl
      exact scan_braces hne hline
  cases bracket with
  | none => exact hbraces
  | some b =>
    obtain ⟨hne, hline⟩ := hb b rfl
    have hbehind : ']' ∉ bracesText content := by
      cases content with
      | none => simp [bracesText]
      | some t => simpa [bracesText] using hclosed (by simp) t rfl
    have htext : bracketText (some b) ++ bracesText content =
        '[' :: (b ++ ']' :: bracesText content) := by simp [bracketText]
    rw [htext, scan_bracket hne hline hbehind, hbraces]
    rfl

/-- The parts of a written node. -/
theorem scan_written (w : WrittenNode) :
    scan w.text = (if w.tag = [] then [] else [.word w.tag]) ++ (w.items.map NodeItem.part ++
      (w.bracket.toList.map Part.bracket ++ w.content.toList.map Part.content)) := by
  have hrest := head_bracketed w.bracket w.content
  have hitems := scan_items hrest w.items
  rw [scan_bracketed w.bracket_line w.content_line w.content_closed] at hitems
  rw [← hitems, WrittenNode.text]
  by_cases hne : w.tag = []
  · rw [hne, if_pos rfl, List.nil_append, List.nil_append]
  · rw [if_neg hne, scan_word hne (List.all_eq_true.1 w.all_isPartChar) (head_items hrest w.items)]
    rfl

end Part

/-! ## Nodes -/

namespace Node

theorem foldl_items (table : Table) (items : List NodeItem) (node : Node) :
    (items.map NodeItem.part).foldl (add table) node =
      { node with
        classes := node.classes ++ items.filterMap NodeItem.class?
        attributes := node.attributes ++ items.filterMap NodeItem.attribute? } := by
  induction items generalizing node with
  | nil => simp
  | cons item items ih =>
    rw [List.map_cons, List.foldl_cons, ih]
    cases item <;>
      simp [NodeItem.part, add, List.filterMap_cons, NodeItem.class?, NodeItem.attribute?]

theorem foldl_bracketed (table : Table) (bracket content : Option Text) (node : Node)
    (hnode : node.content = []) :
    (bracket.toList.map Part.bracket ++ content.toList.map Part.content).foldl (add table) node =
      { node with
        attributes := node.attributes ++ bracket.toList.map (expandAttributes table)
        content := content.getD [] } := by
  obtain ⟨tag, classes, attributes, _⟩ := node
  cases hnode
  cases bracket <;> cases content <;> simp [add]

/-- What is read from a written node. -/
theorem parse_written (table : Table) (w : WrittenNode) :
    parse table w.text =
      { tag := w.tag
        classes := w.items.filterMap NodeItem.class?
        attributes := w.items.filterMap NodeItem.attribute? ++
          w.bracket.toList.map (expandAttributes table)
        content := w.content.getD [] } := by
  have htag : (if w.tag = [] then [] else [Part.word w.tag]).foldl (add table) {} =
      { tag := w.tag } := by
    by_cases hne : w.tag = [] <;> simp [hne, add]
  rw [parse, Part.scan_written, List.foldl_append, List.foldl_append, htag, foldl_items,
    foldl_bracketed]
  · simp
  · rfl

end Node

/-- An item is a class or an attribute. -/
theorem items_eq_nil_iff {items : List NodeItem} :
    items = [] ↔ items.filterMap NodeItem.class? = [] ∧
      items.filterMap NodeItem.attribute? = [] := by
  cases items with
  | nil => simp
  | cons item items => cases item <;> simp [NodeItem.class?, NodeItem.attribute?]

/-- **Reading a node undoes writing it**, and only a text without anything else is a bare text. -/
theorem parse_writtenNode (table : Table) (w : WrittenNode) :
    let node := Node.parse table w.text
    node.tag = w.tag ∧
    node.classes = w.items.filterMap NodeItem.class? ∧
    node.attributes = w.items.filterMap NodeItem.attribute? ++
      w.bracket.toList.map (expandAttributes table) ∧
    node.content = w.content.getD [] ∧
    (node.isText = true ↔ w.content ≠ none ∧ w.tag = [] ∧ w.items = [] ∧ w.bracket = none) := by
  intro node
  have hnode : node = _ := Node.parse_written table w
  rw [hnode]
  refine ⟨rfl, rfl, rfl, rfl, ?_⟩
  have hcontent : w.content.getD [] ≠ [] ↔ w.content ≠ none := by
    have hline := w.content_line
    cases h : w.content with
    | none => simp
    | some c => simpa using (hline c h).1
  have hbracket : w.bracket.toList.map (expandAttributes table) = [] ↔ w.bracket = none := by
    cases w.bracket <;> simp
  simp only [Node.isText, Bool.and_eq_true, Bool.not_eq_true', List.isEmpty_eq_false_iff,
    List.isEmpty_iff, hcontent, List.append_eq_nil_iff, hbracket, items_eq_nil_iff]
  tauto

/-- `a.x#y.z[p=[q] {r}]{s}.t#u[v}`, where the attributes and the text look like further parts -/
theorem parse_writtenNode_punctuated :
    let name (t : Text) (hne : t ≠ []) (h : t.all Part.isPartChar = true) : PartName := ⟨t, hne, h⟩
    let w : WrittenNode :=
      { tag := ['a']
        items := [.cls (name ['x'] (by decide) (by decide)),
          .id (name ['y'] (by decide) (by decide)), .cls (name ['z'] (by decide) (by decide))]
        bracket := some "p=[q] \x7br\x7d".toList
        content := some "s\x7d.t#u[v".toList
        all_isPartChar := by decide
        bracket_line := by decide
        content_line := by decide
        content_closed := by decide }
    w.text = "a.x#y.z[p=[q] \x7br\x7d]\x7bs\x7d.t#u[v\x7d".toList ∧
      (Node.parse [] w.text).tag = ['a'] ∧
      (Node.parse [] w.text).classes = [['x'], ['z']] ∧
      (Node.parse [] w.text).attributes =
        ["id=\"y\"".toList, "p=\"[q]\" \x7br\x7d".toList] ∧
      (Node.parse [] w.text).content = "s\x7d.t#u[v".toList ∧
      (Node.parse [] w.text).isText = false := by
  intro name w
  obtain ⟨htag, hclasses, hattributes, hcontent, htext⟩ := parse_writtenNode [] w
  refine ⟨by decide, htag, hclasses, hattributes.trans (by decide +kernel), hcontent, ?_⟩
  exact Bool.eq_false_iff.2 fun h => absurd (htext.1 h).2.1 (by decide)

end Shorthand
