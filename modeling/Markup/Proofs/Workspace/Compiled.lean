import Mathlib
import Markup.Proofs.Workspace.Runs
import Markup.Proofs.XPath.Key
import Markup.Workspace.Queries

/-!
# Queries that are kept

A query that was read before is taken from the cache of the document, where it stands under a text
made of its bindings and its own text. What is found there was read under this key some time before,
whatever was dropped since. So an answer is the one that reading the query anew would give, unless
another request has the same key; and plain bindings have no key in common.
-/

namespace Markup

open XPath

variable {workspace : Workspace} {number : Nat}

/-! ## The cache -/

namespace QueryCache

theorem lookup_filter_of_ne {key other : String} (apart : other ≠ key)
    (entries : List (String × CompiledQuery)) :
    (entries.filter fun entry => entry.1 != key).lookup other = entries.lookup other := by
  induction entries with
  | nil => rfl
  | cons entry rest ih =>
    by_cases same : entry.1 = key
    · rw [List.filter_cons_of_neg (by simpa using same), ih, List.lookup_cons,
        beq_eq_false_iff_ne.mpr (same ▸ apart)]
    · rw [List.filter_cons_of_pos (by simpa using same), List.lookup_cons, List.lookup_cons, ih]

/-- Under a key there is what was put there last, if it was not dropped. -/
theorem find?_put {cache : QueryCache} {key other : String} {compiled found : CompiledQuery}
    (present : (cache.put key compiled).find? other = some found) :
    other = key ∧ found = compiled ∨ cache.find? other = some found := by
  have listed := (List.take_prefix cache.capacity _).lookup_eq_some present
  rw [List.lookup_cons] at listed
  by_cases same : other = key
  · rw [beq_iff_eq.mpr same] at listed
    exact .inl ⟨same, (Option.some.inj listed).symm⟩
  · rw [beq_eq_false_iff_ne.mpr same] at listed
    exact .inr ((lookup_filter_of_ne same cache.entries).symm.trans listed)

end QueryCache

namespace Workspace

/-- The queries that an open document keeps. -/
def cache (workspace : Workspace) (number : Nat) : QueryCache :=
  (workspace.documents.getD number default).cache

/-- The open documents with a query put first in the cache of one of them. -/
def keep (workspace : Workspace) (number : Nat) (key : String) (compiled : CompiledQuery) :
    Workspace :=
  { workspace with documents := workspace.documents.modify number fun opened =>
    { opened with cache := opened.cache.put key compiled } }

theorem cache_keep (key : String) (compiled : CompiledQuery) :
    (workspace.keep number key compiled).cache number = (workspace.cache number).put key compiled ∨
      (workspace.keep number key compiled).cache number = workspace.cache number := by
  by_cases inside : number < workspace.documents.size
  · left
    simp [cache, keep, inside, Array.getElem_modify]
  · right
    simp [cache, keep, inside]

end Workspace

/-! ## Requests -/

/-- A request for a query: prefixes to be bound in turn, and the text of the query. -/
structure QueryRequest where
  pairs : List (String × String)
  text : String

namespace QueryRequest

variable (request : QueryRequest)

/-- The bindings of a request. -/
def bindings : Bindings := .ofPairs request.pairs

/-- What the query of a request is kept under. -/
def key : String := request.bindings.key ++ "\x01" ++ request.text

/-- The answer to a request where no query is kept. -/
def alone : Except Refusal Query := (Query.ofText request.bindings request.text).mapError .ofFault

/-- Make a request of an open document. -/
def make (number : Nat) : Session CompiledQuery :=
  Session.compile number request.bindings request.text

/-- Whether a request would be taken for another one that has other bindings or another text. -/
def IsMistakenFor (other : QueryRequest) : Prop :=
  request.key = other.key ∧ ¬ (request.bindings = other.bindings ∧ request.text = other.text)

theorem run_make (number : Nat) (workspace : Workspace) :
    (request.make number).run workspace =
      match (workspace.cache number).find? request.key with
      | some compiled => (.ok compiled, workspace.keep number request.key compiled)
      | none =>
        match Query.ofText request.bindings request.text with
        | .error fault => (.error (.ofFault fault), workspace)
        | .ok query =>
          (.ok ⟨workspace.compiled, query⟩, { workspace with compiled := workspace.compiled + 1 }.keep
            number request.key ⟨workspace.compiled, query⟩) := by
  have step : (request.make number).run workspace =
      (match (workspace.cache number).find? request.key with
      | some compiled => do
        Session.modifyOpened number fun opened =>
          { opened with cache := opened.cache.put request.key compiled }
        return compiled
      | none =>
        match Query.ofText request.bindings request.text with
        | .error fault => throw (.ofFault fault)
        | .ok query => do
          let compiled : CompiledQuery := ⟨(← get).compiled, query⟩
          modify fun workspace => { workspace with compiled := workspace.compiled + 1 }
          Session.modifyOpened number fun opened =>
            { opened with cache := opened.cache.put request.key compiled }
          return compiled : Session CompiledQuery).run workspace := rfl
  rw [step]
  cases (workspace.cache number).find? request.key with
  | some compiled => rfl
  | none => cases Query.ofText request.bindings request.text <;> rfl

variable {request} {other : QueryRequest}

theorem not_isMistakenFor (plain : request.bindings.IsPlain) (plain' : other.bindings.IsPlain) :
    ¬ request.IsMistakenFor other := fun ⟨same, apart⟩ =>
  apart (Bindings.eq_of_key (Bindings.isSound_ofPairs _) (Bindings.isSound_ofPairs _) plain plain'
    same)

/-- Requests of one key have one answer unless one is mistaken for the other. -/
theorem alone_eq (same : request.key = other.key) (clear : ¬ request.IsMistakenFor other) :
    request.alone = other.alone := by
  obtain ⟨bindings, text⟩ := not_not.mp fun apart => clear ⟨same, apart⟩
  rw [alone, alone, bindings, text]

end QueryRequest

namespace Workspace

/-- The answer to a request, and the open documents afterwards. -/
def answer (workspace : Workspace) (number : Nat) (request : QueryRequest) :
    Except Refusal Query × Workspace :=
  let (result, after) := (request.make number).run workspace
  (result.map (·.query), after)

/-- The answers to requests that are made of an open document one after the other. -/
def answers (number : Nat) : Workspace → List QueryRequest → List (Except Refusal Query)
  | _, [] => []
  | workspace, request :: rest =>
    (workspace.answer number request).1 :: answers number (workspace.answer number request).2 rest

/-- Every query that a document keeps was read for a request that was made, under its key. -/
def KeepsOnly (workspace : Workspace) (number : Nat) (made : List QueryRequest) : Prop :=
  ∀ key compiled, (workspace.cache number).find? key = some compiled →
    ∃ request ∈ made, request.key = key ∧ request.alone = .ok compiled.query

variable {made : List QueryRequest} {request : QueryRequest}

theorem KeepsOnly.mono (keeps : workspace.KeepsOnly number made) :
    workspace.KeepsOnly number (request :: made) := fun key compiled found =>
  let ⟨earlier, member, same⟩ := keeps key compiled found
  ⟨earlier, List.mem_cons_of_mem _ member, same⟩

theorem KeepsOnly.keep {key : String} {compiled : CompiledQuery}
    (keeps : workspace.KeepsOnly number made)
    (read : ∃ request ∈ made, request.key = key ∧ request.alone = .ok compiled.query) :
    (workspace.keep number key compiled).KeepsOnly number made := by
  intro key' compiled' found
  rcases workspace.cache_keep key compiled with put | same
  · rw [put] at found
    rcases QueryCache.find?_put found with ⟨rfl, rfl⟩ | found
    · exact read
    · exact keeps key' compiled' found
  · rw [same] at found
    exact keeps key' compiled' found

/-- A request is answered as it would be alone, or as an earlier one of its key was. -/
theorem KeepsOnly.answer (keeps : workspace.KeepsOnly number made) (request : QueryRequest) :
    ((workspace.answer number request).1 = request.alone ∨
      ∃ earlier ∈ made, earlier.key = request.key ∧
        (workspace.answer number request).1 = earlier.alone) ∧
    (workspace.answer number request).2.KeepsOnly number (request :: made) := by
  rw [Workspace.answer, QueryRequest.run_make]
  cases found : (workspace.cache number).find? request.key with
  | some compiled =>
    obtain ⟨earlier, member, same, read⟩ := keeps request.key compiled found
    exact ⟨.inr ⟨earlier, member, same, read.symm⟩,
      keeps.mono.keep ⟨earlier, List.mem_cons_of_mem _ member, same, read⟩⟩
  | none =>
    cases read : Query.ofText request.bindings request.text with
    | error fault =>
      refine ⟨.inl ?_, keeps.mono⟩
      rw [QueryRequest.alone, read]
      rfl
    | ok query =>
      have alone : request.alone = .ok query := by
        rw [QueryRequest.alone, read]
        rfl
      have counted : Workspace.KeepsOnly { workspace with compiled := workspace.compiled + 1 } number
          (request :: made) := keeps.mono
      exact ⟨.inl alone.symm, counted.keep ⟨request, List.mem_cons_self, rfl, alone⟩⟩

/-! ## Runs of requests -/

theorem KeepsOnly.answered (keeps : workspace.KeepsOnly number made)
    (before : List QueryRequest) (request : QueryRequest) (later : List QueryRequest) :
    ∃ answer, (answers number workspace (before ++ request :: later))[before.length]? = some answer ∧
      (answer = request.alone ∨ ∃ earlier, (earlier ∈ before ∨ earlier ∈ made) ∧
        earlier.key = request.key ∧ answer = earlier.alone) := by
  induction before generalizing workspace made with
  | nil =>
    refine ⟨_, rfl, (keeps.answer request).1.imp_right fun ⟨earlier, member, same⟩ => ?_⟩
    exact ⟨earlier, .inr member, same⟩
  | cons first rest ih =>
    obtain ⟨answer, found, told⟩ := ih (keeps.answer first).2
    refine ⟨answer, found, told.imp_right fun ⟨earlier, member, same⟩ => ⟨earlier, ?_, same⟩⟩
    simp only [List.mem_cons] at member ⊢
    tauto

theorem KeepsOnly.answers_eq (keeps : workspace.KeepsOnly number made) {requests : List QueryRequest}
    (plain : ∀ request ∈ made, request.bindings.IsPlain)
    (plain' : ∀ request ∈ requests, request.bindings.IsPlain) :
    answers number workspace requests = requests.map QueryRequest.alone := by
  induction requests generalizing workspace made with
  | nil => rfl
  | cons request rest ih =>
    rw [List.forall_mem_cons] at plain'
    obtain ⟨told, keeps⟩ := keeps.answer request
    rw [answers, List.map_cons, ih keeps (List.forall_mem_cons.mpr ⟨plain'.1, plain⟩) plain'.2]
    congr 1
    rcases told with alone | ⟨earlier, member, same, answered⟩
    · exact alone
    · rw [answered]
      exact QueryRequest.alone_eq same
        (QueryRequest.not_isMistakenFor (plain earlier member) plain'.1)

/-- An open document that keeps one query. -/
def keepingOne : Workspace :=
  { documents := #[{ tree := .empty, mode := .xml, cache := .ofCapacity 1 }] }

end Workspace
end Markup
