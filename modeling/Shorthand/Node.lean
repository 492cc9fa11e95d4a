import Shorthand.Text.Quoted
import Shorthand.Text.Word
import Shorthand.Attribute

/-!
# Nodes

One node of an abbreviation is written `tag.class#id[attributes]{content}`, its parts in any order
and number. `Part.scan` finds them from left to right and passes over all other characters;
`Node.parse` collects them.
-/

namespace Shorthand

/-- A part of a node. -/
inductive Part
  | content (text : Text)
  | bracket (text : Text)
  | cls (name : Text)
  | id (name : Text)
  | word (text : Text)
  deriving DecidableEq, Repr

namespace Part

/-- A character of a tag, class or id. -/
def isPartChar (c : Char) : Bool :=
  isWordChar c || c == ':' || c == '=' || c == '!' || c == '$' || c == '@' || c == '-'

/-- Splits a text at the last `close` on its first line. -/
def splitAtLast (close : Char) : Text → Option (Text × Text)
  | [] => none
  | c :: rest =>
    if c = '\n' then none
    else
      match splitAtLast close rest with
      | some (inside, after) => some (c :: inside, after)
      | none => if c = close then some ([], rest) else none

theorem length_splitAtLast {close : Char} {t : Text} {p : Text × Text}
    (h : splitAtLast close t = some p) : p.2.length < t.length := by
  fun_induction splitAtLast close t generalizing p with
  | case1 => simp at h
  | case2 => simp at h
  | case3 c rest hc inside after hs ih =>
    have := ih hs
    simp at h
    subst h
    simp at this ⊢; omega
  | case4 => simp at h; subst h; simp
  | case5 => simp at h

/-- The nonempty inside of a span that reaches to the last `close` on the line, and what follows. -/
def span? (close : Char) (t : Text) : Option (Text × Text) :=
  (splitAtLast close t).filter (!·.1.isEmpty)

theorem length_span? {close : Char} {t : Text} {p : Text × Text} (h : span? close t = some p) :
    p.2.length < t.length :=
  length_splitAtLast (Option.filter_eq_some_iff.1 h).1

/-- The nonempty row of part characters that a text begins with, and what follows. -/
def row? (t : Text) : Option (Text × Text) :=
  if (t.takeWhile isPartChar).isEmpty then none
  else some (t.takeWhile isPartChar, t.dropWhile isPartChar)

theorem length_row? {t : Text} {p : Text × Text} (h : row? t = some p) :
    p.2.length < t.length := by
  unfold row? at h
  split at h
  · simp at h
  · rename_i hne
    have hlen := congrArg List.length (List.takeWhile_append_dropWhile (p := isPartChar) (l := t))
    have hpos : (t.takeWhile isPartChar).length ≠ 0 := fun h0 => hne (by simpa using h0)
    rw [List.length_append] at hlen
    simp only [Option.some.injEq] at h
    subst h
    show (t.dropWhile isPartChar).length < t.length
    omega

/-- The part that a text begins with, and what follows it. -/
def read? : Text → Option (Part × Text)
  | [] => none
  | '{' :: rest => (span? '}' rest).map fun p => (content p.1, p.2)
  | '[' :: rest => (span? ']' rest).map fun p => (bracket p.1, p.2)
  | '.' :: rest => (row? rest).map fun p => (cls p.1, p.2)
  | '#' :: rest => (row? rest).map fun p => (id p.1, p.2)
  | t => (row? t).map fun p => (word p.1, p.2)

theorem length_read? {t : Text} {p : Part × Text} (h : read? t = some p) :
    p.2.length < t.length := by
  unfold read? at h
  split at h <;> simp only [Option.map_eq_some_iff, reduceCtorEq] at h
  all_goals obtain ⟨q, hq, rfl⟩ := h
  · have := length_span? hq; simp; omega
  · have := length_span? hq; simp; omega
  · have := length_row? hq; simp; omega
  · have := length_row? hq; simp; omega
  · exact length_row? hq

/-- The parts of a node's text, from left to right. -/
def scan (t : Text) : List Part :=
  match _ : read? t with
  | some (part, rest) => part :: scan rest
  | none =>
    match t with
    | [] => []
    | _ :: rest => scan rest
termination_by t.length
decreasing_by
  · exact length_read? ‹_›
  · simp

end Part

/-- One node of an abbreviation. -/
structure Node where
  tag : Text := []
  classes : List Text := []
  /-- The attributes as they stand in the tag, in the order of the source. -/
  attributes : List Text := []
  content : Text := []
  deriving DecidableEq, Repr

namespace Node

/-- The node with one more part. The last tag and the last content win. -/
def add (table : Table) (node : Node) : Part → Node
  | .content text => { node with content := text }
  | .bracket text => { node with attributes := node.attributes ++ [expandAttributes table text] }
  | .cls name => { node with classes := node.classes ++ [name] }
  | .id name => { node with attributes := node.attributes ++ ["id=\"".toList ++ name ++ ['"']] }
  | .word text => { node with tag := text }

/-- The node that a text writes. -/
def parse (table : Table) (t : Text) : Node :=
  (Part.scan t).foldl (add table) {}

/-- A node with content and nothing else, which is written without a tag. -/
def isText (node : Node) : Bool :=
  !node.content.isEmpty && node.tag.isEmpty && node.classes.isEmpty && node.attributes.isEmpty

/-- The attributes as they follow the tag name: the classes first, a space before each. -/
def attributeText (node : Node) : Text :=
  let classes :=
    if node.classes.isEmpty then []
    else ["class=\"".toList ++ List.intercalate [' '] node.classes ++ ['"']]
  (classes ++ node.attributes).flatMap (' ' :: ·)

/-- A list of texts, each in quotes. -/
def describeList (ts : List Text) : Text :=
  '[' :: List.intercalate [',', ' '] (ts.map quoted) ++ [']']

/-- The fields of a node, as a short description of it. -/
def describe (node : Node) : Text :=
  "Segment(tag=".toList ++ quoted node.tag ++ ", classes=".toList ++ describeList node.classes ++
    ", attributes=".toList ++ describeList node.attributes ++ ", content=".toList ++
    quoted node.content ++ [')']

end Node

end Shorthand
