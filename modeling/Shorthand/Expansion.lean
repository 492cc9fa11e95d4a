import Shorthand.Token
import Shorthand.Node
import Shorthand.Numbering
import Shorthand.Resolver

/-!
# Expansion

Tokens are expanded one by one into fragments of markup.

- `Expansion`: the fragments written so far, the open tags, the open groups and the last closed
  group.
- `Expansion.step`: the effect of one token.
- `Expansion.trace`: the states after each of the given tokens.
- `expandTokens`: the markup of a list of tokens, with all tags closed.
-/

namespace Shorthand

/-! ## Void tags -/

/-- The tags that have no closing fragment. -/
def voidTags : List Text :=
  ["area".toList, "base".toList, "br".toList, "col".toList, "embed".toList, "frame".toList,
    "hr".toList, "img".toList, "input".toList, "link".toList, "meta".toList, "param".toList,
    "source".toList, "wbr".toList]

/-- A tag without a closing fragment: a void tag in any case, or a declaration such as
`!doctype`. -/
def isVoid (tag : Text) : Bool :=
  tag.head? == some '!' || voidTags.contains (lower tag)

/-- The closing fragment of a tag. -/
def closingFragment (tag : Text) : Text :=
  if isVoid tag then [] else '<' :: '/' :: (tag ++ ['>'])

/-! ## The state of an expansion -/

/-- Where an open group started. -/
structure GroupMark where
  /-- The number of fragments before the group. -/
  start : Nat
  /-- The number of open tags before the group. -/
  depth : Nat
  deriving DecidableEq, Repr

/-- A closed group that a repeat marker may still repeat. -/
structure ClosedGroup where
  start : Nat
  fragments : List Text
  deriving DecidableEq, Repr

/-- The state of an expansion. -/
structure Expansion where
  /-- The fragments written so far. -/
  result : List Text := []
  /-- The open tags, innermost first. -/
  openTags : List Text := []
  /-- The open groups, innermost first. -/
  groups : List GroupMark := []
  lastGroup : Option ClosedGroup := none
  deriving DecidableEq, Repr

namespace Expansion

/-- Closes the innermost tag. A void tag is closed without a fragment. -/
def closeTag (e : Expansion) : Expansion :=
  match e.openTags with
  | [] => e
  | tag :: openTags =>
    { e with
      openTags
      result := if isVoid tag then e.result else e.result ++ [closingFragment tag] }

/-- Closes the innermost tag, `n` times over. -/
def closeTags : Nat → Expansion → Expansion
  | 0, e => e
  | n + 1, e => closeTags n e.closeTag

/-- The last fragment opens a tag or is text. An empty fragment stands for the closing of a repeated
void tag. -/
def lastIsOpen (e : Expansion) : Bool :=
  match e.result.getLast? with
  | some fragment => !fragment.isEmpty && !"</".toList.isPrefixOf fragment
  | none => false

/-- Closes the last node, unless it is closed already. -/
def closeLast (e : Expansion) : Expansion :=
  if e.lastIsOpen then e.closeTag else e

/-- Closes the innermost group with the tags that are open in it. A group that was never opened
reaches back to the start. -/
def closeGroup (e : Expansion) : Expansion :=
  let mark := e.groups.headD ⟨0, 0⟩
  let closed := closeTags (e.openTags.length - mark.depth) e
  let fragments := closed.result.drop mark.start
  { closed with
    groups := e.groups.tail
    lastGroup := if fragments.isEmpty then none else some ⟨mark.start, fragments⟩ }

/-- The fragments that a repeat marker repeats, and the expansion without them: the last closed
group, or the last fragment with the closing fragment of the innermost tag, which it closes. There
are none when nothing has been written. -/
def takeTemplate (e : Expansion) : Option (List Text × Expansion) :=
  match e.lastGroup with
  | some group =>
    some (group.fragments, { e with result := e.result.take group.start, lastGroup := none })
  | none =>
    match e.result.getLast? with
    | none => none
    | some fragment =>
      some ([fragment, (e.openTags.head?.map closingFragment).getD []],
        { e with result := e.result.dropLast, openTags := e.openTags.tail })

/-- The copies of a template, each numbered. -/
def copies (template : List Text) (times : Nat) : Except Fault (List Text) :=
  return (← (List.range times).mapM fun (n : Nat) =>
    template.mapM fun fragment => numberFragment fragment n times).flatten

/-- Repeats the last node or group as often as the digits after `*` say, none for no times. -/
def repeatLast (e : Expansion) (marker : Text) : Except Fault Expansion := do
  let times ← readNumeral (marker.takeWhile isDigit)
  match e.takeTemplate with
  | none => return e
  | some (template, rest) => return { rest with result := rest.result ++ (← copies template times) }

/-- The opening fragment of a node. -/
def openingFragment (tag : TagName) (node : Node) : Text :=
  '<' :: (tag.name ++ tag.extension ++ node.attributeText ++ '>' :: node.content)

/-- Writes a node: a text as it is, any other as an opening fragment, whose tag is then open. -/
def writeNode (attributes : Table) (resolver : Resolver) (e : Expansion) (text : Text) :
    Except Fault Expansion := do
  let node := Node.parse attributes text
  if node.isText then return { e with result := e.result ++ [node.content], lastGroup := none }
  else
    let tag ← resolver node.tag e.openTags e.result
    return { e with
      result := e.result ++ [openingFragment tag node]
      openTags := tag.name :: e.openTags
      lastGroup := none }

/-- The effect of one token. -/
def step (attributes : Table) (resolver : Resolver) (e : Expansion) :
    Token → Except Fault Expansion
  | .climb => .ok e.closeLast.closeTag
  | .nest => .ok e
  | .sibling => .ok e.closeLast
  | .openGroup => .ok { e with groups := ⟨e.result.length, e.openTags.length⟩ :: e.groups }
  | .closeGroup => .ok e.closeGroup
  | .times marker => e.repeatLast marker
  | .node text => writeNode attributes resolver e text

/-- The effect of a list of tokens. -/
def run (attributes : Table) (resolver : Resolver) (e : Expansion) (tokens : List Token) :
    Except Fault Expansion :=
  tokens.foldlM (step attributes resolver) e

/-- The markup, with all open tags closed. -/
def finish (e : Expansion) : Text :=
  (closeTags e.openTags.length e).result.flatten

/-- The states after each of a list of texts, each taken as one token, up to the first fault; and
the markup, if there is no fault. An empty text is no token. -/
def trace (attributes : Table) (resolver : Resolver) (e : Expansion) :
    List Text → List Expansion × Except Fault Text
  | [] => ([], .ok e.finish)
  | text :: rest =>
    match Token.ofText? text with
    | none => ([], .error .emptyToken)
    | some token =>
      match step attributes resolver e token with
      | .error fault => ([], .error fault)
      | .ok e' =>
        let (states, out) := trace attributes resolver e' rest
        (e' :: states, out)

end Expansion

/-- The markup of a list of tokens. -/
def expandTokens (attributes : Table) (resolver : Resolver) (tokens : List Token) :
    Except Fault Text :=
  return (← Expansion.run attributes resolver {} tokens).finish

end Shorthand
