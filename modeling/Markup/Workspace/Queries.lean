import Markup.Workspace.Element
import Markup.XPath.Evaluator

/-!
# Queries through handles

The nodes that a query selects are taken down before any of them is visited. A visit may change the
document: a node that is no longer part of it when its turn comes is passed over.
-/

namespace Markup

namespace Session

/-- Read a query, or take the one that was read from the same text with the same bindings before.
What cannot be read is not kept. -/
def compile (document : Nat) (bindings : XPath.Bindings) (text : String) :
    Session CompiledQuery := do
  let key := bindings.key ++ "\x01" ++ text
  let keep (compiled : CompiledQuery) : Session Unit :=
    modifyOpened document fun opened => { opened with cache := opened.cache.put key compiled }
  match (← opened document).cache.find? key with
  | some compiled =>
    keep compiled
    return compiled
  | none =>
    match XPath.Query.ofText bindings text with
    | .error fault => throw (.ofFault fault)
    | .ok query =>
      let compiled : CompiledQuery := ⟨(← get).compiled, query⟩
      modify fun workspace => { workspace with compiled := workspace.compiled + 1 }
      keep compiled
      return compiled

end Session

namespace Handle

/-- The value of a query at a node of a document. -/
def valueAt (doc : Document) (query : XPath.Query) (id : NodeId) :
    Except Refusal XPath.Value :=
  match query.evaluate (.of doc []) id with
  | .ok value => .ok value
  | .error fault => .error (.ofFault fault)

/-- The value of a query at the node. -/
def evaluate (handle : Handle) (query : XPath.Query) : Session XPath.Value :=
  handle.read fun doc id => valueAt doc query id

/-- The value of an expression at the node. -/
def queryValue (handle : Handle) (bindings : XPath.Bindings) (text : String) :
    Session XPath.Value := do
  handle.evaluate (← Session.compile handle.document bindings text).query

/-- The texts of the nodes that an expression selects, or the text of its value. -/
def queryTexts (handle : Handle) (text : String) : Session (List String) := do
  let compiled ← Session.compile handle.document .standard text
  handle.read fun doc id => do
    match ← valueAt doc compiled.query id with
    | .nodes found => return found.map (·.text doc)
    | value => return [value.toText doc]

/-- The nodes that can have handles among those that an expression selects, from the node or from
the document node. -/
def select (handle : Handle) (bindings : XPath.Bindings) (fromRoot : Bool) (text : String) :
    Session (List Handle) := do
  let compiled ← Session.compile handle.document bindings text
  handle.read fun doc id => do
    match ← valueAt doc compiled.query (if fromRoot then Document.root else id) with
    | .nodes found =>
      let ids := (found.filterMap (·.tree?)).filter fun id => (doc.kind id).hasHandle
      return ids.map handle.sibling
    | value => throw (.ofFault (.nodesExpected value.type))

/-! ## Visits -/

/-- An expression in place of names joined by points; any other text stays. -/
def expandPath (text : String) : String :=
  let names := (text.toList.splitOn '.').map String.ofList
  if names.all fun name => name == "*" || isPlainName name then "/".intercalate names else text

/-- Visit nodes in turn, except for those that are gone when their turn comes. -/
def visitEach {m : Type → Type} [Monad m] [MonadLiftT Session m] (visit : Handle → m Unit) :
    List Handle → m Unit
  | [] => return ()
  | handle :: rest => do
    if ← liftM handle.isValid then visit handle
    visitEach visit rest

/-- Visit the nodes that an expression, or names joined by points, selects from the node. -/
def iterate {m : Type → Type} [Monad m] [MonadLiftT Session m] (handle : Handle) (text : String)
    (visit : Handle → m Unit) : m Unit := do
  let found ← liftM (handle.select .standard false (expandPath text))
  visitEach visit found

/-- Visit the nodes that an expression selects from the document node. -/
def iterateFromRoot {m : Type → Type} [Monad m] [MonadLiftT Session m] (handle : Handle)
    (text : String) (visit : Handle → m Unit) : m Unit := do
  let found ← liftM (handle.select .standard true text)
  visitEach visit found

/-- Visit the children of each of several local names. The children of a name are taken down after
those of the name before were visited. -/
def iterateElements {m : Type → Type} [Monad m] [MonadLiftT Session m] (handle : Handle)
    (visit : Handle → m Unit) : List String → m Unit
  | [] => return ()
  | tag :: rest => do
    let found ← liftM (handle.children (some tag) none)
    visitEach visit found
    iterateElements handle visit rest

end Handle

/-- A visit of selected nodes that goes on when it is asked to. -/
structure QueryIterator where
  found : List Handle
  /-- How many of the nodes were passed. -/
  position : Nat := 0
  deriving Inhabited

namespace QueryIterator

/-- The first node that is still part of its document, and the number of nodes up to it. -/
def firstValid : List Handle → Session (Option Handle × Nat)
  | [] => return (none, 0)
  | handle :: rest => do
    if ← handle.isValid then return (some handle, 1)
    else
      let (next, passed) ← firstValid rest
      return (next, passed + 1)

/-- The next node, if there is one that is still part of its document. -/
def next (iterator : QueryIterator) : Session (Option Handle × QueryIterator) := do
  let (handle, passed) ← firstValid (iterator.found.drop iterator.position)
  return (handle, { iterator with position := iterator.position + passed })

/-- Start again with the same nodes. -/
def rewind (iterator : QueryIterator) : QueryIterator := { iterator with position := 0 }

/-- How many nodes are left, whether or not they are still there. -/
def remaining (iterator : QueryIterator) : Nat := iterator.found.length - iterator.position

end QueryIterator

/-- The nodes that an expression, or names joined by points, selects, to be visited on demand. -/
def Handle.queryIterator (handle : Handle) (text : String) : Session QueryIterator := do
  return { found := ← handle.select .standard false (Handle.expandPath text) }

end Markup
