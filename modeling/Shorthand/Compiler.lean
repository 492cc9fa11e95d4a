import Shorthand.Cache
import Shorthand.Comment
import Shorthand.Expansion
import Shorthand.Indentation

/-!
# The compiler

A compiler expands sources into markup. It may keep the markup of long sources that took long to
expand in a cache.

- `sourceTokens`: the tokens of a source, written with indentation or without.
- `Compiler.render`: the markup of a source.
- `Compiler.expand`: the same by way of the cache, with the files after it and what was asked of the
  cache.
-/

namespace Shorthand

/-- The tokens of a source; `indented` tells whether its indentation shows nesting. -/
def sourceTokens (indented : Bool) (source : Text) : List Token :=
  tokenize (stripComments (if indented then inlineIndentation source else source))

/-- What expands sources. -/
structure Compiler where
  tables : Tables := {}
  indented : Bool := true
  /-- The cache, if there is one; a cache whose options cannot be used fails at its first use. -/
  cache : Option (Except Fault Cache) := none
  /-- The resolver in place of the tables'. -/
  resolver : Option Resolver := none
  /-- The length from which a source is looked up in the cache. -/
  minCacheLength : Nat := 60

/-- The circumstances of one expansion that decide what the cache does. -/
structure Occasion where
  /-- The time of the look-up. -/
  lookupTime : Int := 0
  /-- The time of the store. -/
  storeTime : Int := 0
  /-- The number drawn for the collection that a store may run. -/
  draw : Int := 0
  /-- The expansion took long enough for its markup to be stored. -/
  slow : Bool := false
  deriving DecidableEq, Repr

/-- What was asked of the cache, and how it answered. -/
inductive CacheCall
  | hit
  | miss
  | stored
  | storeFailed
  deriving DecidableEq, Repr

/-- What an expansion leaves behind. -/
structure Outcome where
  output : Except Fault Text
  files : FileTree
  calls : List CacheCall := []

namespace Compiler

/-- The resolver of one call: its own, else the compiler's, else the tables'. -/
def resolverFor (c : Compiler) (call : Option Resolver) : Resolver :=
  (call.orElse fun _ => c.resolver).getD c.tables.resolver

/-- The markup of a source. -/
def render (c : Compiler) (source : Text) (call : Option Resolver := none) : Except Fault Text :=
  expandTokens c.tables.attributes (c.resolverFor call) (sourceTokens c.indented source)

/-- The cache that serves a source. The cache holds nothing of what a call's own resolver gives. -/
def cacheFor (c : Compiler) (source : Text) (call : Option Resolver) :
    Option (Except Fault Cache) :=
  if call.isSome || source.length < c.minCacheLength then none else c.cache

/-- The markup of a source by way of the cache. -/
def expand (c : Compiler) (o : Occasion) (files : FileTree) (source : Text)
    (call : Option Resolver := none) : Outcome :=
  match c.cacheFor source call with
  | none => { output := c.render source call, files }
  | some (.error fault) => { output := .error fault, files }
  | some (.ok cache) =>
    match cache.lookup o.lookupTime files source with
    | some markup => { output := .ok markup, files, calls := [.hit] }
    | none =>
      match c.render source call with
      | .error fault => { output := .error fault, files, calls := [.miss] }
      | .ok markup =>
        if o.slow then
          let (files, ok) := cache.store o.storeTime o.draw files source markup
          { output := .ok markup, files, calls := [.miss, if ok then .stored else .storeFailed] }
        else { output := .ok markup, files, calls := [.miss] }

end Compiler

end Shorthand
