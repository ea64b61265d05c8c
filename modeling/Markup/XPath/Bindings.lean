import Markup.Tree
import Markup.XPath.Fault

/-!
# Prefixes of a query

The prefixes in an expression stand for the namespaces that they are bound to when it is read,
whatever a document declares. The prefix `xml` is bound from the start.
-/

namespace Markup.XPath

/-- Prefixes and the namespaces that they stand for, each prefix once, in the order of the
prefixes. -/
structure Bindings where
  pairs : List (String × String)
  deriving Repr, DecidableEq

namespace Bindings

/-- The bindings of which only that of `xml` is made. -/
def standard : Bindings := ⟨[("xml", xmlNamespace)]⟩

instance : Inhabited Bindings := ⟨standard⟩

/-- Put a pair at its place, or in the place of the pair of the same prefix. -/
def insert (nsPrefix uri : String) : List (String × String) → List (String × String)
  | [] => [(nsPrefix, uri)]
  | pair :: rest =>
    if pair.1 = nsPrefix then (nsPrefix, uri) :: rest
    else if nsPrefix < pair.1 then (nsPrefix, uri) :: pair :: rest
    else pair :: insert nsPrefix uri rest

/-- Bind a prefix, whatever it stood for before. -/
def bind (bindings : Bindings) (nsPrefix uri : String) : Bindings :=
  ⟨insert nsPrefix uri bindings.pairs⟩

/-- Bind prefixes in turn, over the standard bindings. -/
def ofPairs (pairs : List (String × String)) : Bindings :=
  pairs.foldl (fun bindings (nsPrefix, uri) => bindings.bind nsPrefix uri) standard

/-- The namespace that a prefix stands for. -/
def resolve? (bindings : Bindings) (nsPrefix : String) : Option String :=
  bindings.pairs.lookup nsPrefix

/-- The namespace that a prefix has to stand for. -/
def require (bindings : Bindings) (nsPrefix : String) : Except Fault String :=
  match bindings.resolve? nsPrefix with
  | some uri => .ok uri
  | none => .error (.unknownNamespace nsPrefix)

/-- All bindings in one text. -/
def key (bindings : Bindings) : String :=
  String.join (bindings.pairs.map fun (nsPrefix, uri) => nsPrefix ++ "=" ++ uri ++ "\x00")

end Bindings
end Markup.XPath
