import Markup.Proofs.Workspace.Acts
import Markup.Proofs.XPath.Evaluate

/-!
# Visits

The nodes that a query selects are taken down, and each of them is visited if it is still part of
the document when its turn comes. Whoever visits them may do in the meantime whatever handles allow.
So it is told turn by turn who is visited, and it makes no difference whether the visitor is called
for the nodes or asks for one after the other. What was removed before its turn is never visited.
-/

namespace Markup

open Document Workspace

variable {workspace ready : Workspace} {number : Nat} {handle : Handle} {found : List Handle}

/-! ## Visitors -/

/-- One visit of a node. -/
structure Visit where
  node : Handle
  /-- The open documents when the turn of the node came. -/
  before : Workspace
  /-- What is done one after the other, unless it is refused. -/
  acts : List Act

/-- A visitor, who knows all visits so far and sees the open documents when choosing what to do. -/
structure Visitor where
  acts : List Visit → Handle → Workspace → List Act
  proper : ∀ past node workspace, ∀ act ∈ acts past node workspace, act.IsProper

namespace Visitor

variable (visitor : Visitor) {past visits : List Visit}

/-- The visit of a node after those of the past. -/
def visitOf (past : List Visit) (node : Handle) (workspace : Workspace) : Visit :=
  ⟨node, workspace, visitor.acts past node workspace⟩

/-- Visit a node, and take the visit down. -/
def visit (node : Handle) : StateT (List Visit) Session Unit := do
  let past ← get
  let visit := visitor.visitOf past node (← liftM (get : Session Workspace))
  set (past ++ [visit])
  liftM (visit.acts.forM Act.attempt)

/-- Visit the nodes that an expression selects from the document node, or those that an expression
or names joined by points select from the node. -/
def iterate (fromRoot : Bool) (handle : Handle) (text : String) :
    StateT (List Visit) Session Unit :=
  if fromRoot then handle.iterateFromRoot text visitor.visit else handle.iterate text visitor.visit

/-- Ask for one node after the other, and visit each of them before asking for the next one. -/
def draw : Nat → QueryIterator → StateT (List Visit) Session QueryIterator
  | 0, iterator => return iterator
  | rounds + 1, iterator => do
    match ← liftM iterator.next with
    | (some node, left) =>
      visitor.visit node
      draw rounds left
    | (none, left) => return left

end Visitor

/-- The nodes that are to be visited, taken down before the first visit. -/
def Handle.snapshot (handle : Handle) (fromRoot : Bool) (text : String) : Session (List Handle) :=
  handle.select .standard fromRoot (if fromRoot then text else expandPath text)

/-! ## Turns -/

/-- What is done after several visits. -/
def Visit.all (visits : List Visit) : List Act := visits.flatMap Visit.acts

/-- The visits that are made of nodes that were taken down. When the turn of a node comes, it is
visited if it is part of its document at that time, and passed over if it is not. -/
inductive Turns (visitor : Visitor) : List Visit → Workspace → List Handle → List Visit → Prop
  | done {past workspace} : Turns visitor past workspace [] []
  | visited {past workspace node rest visits}
      (attached : (workspace.tree node.document).isAttached node.node = true)
      (later : Turns visitor (past ++ [visitor.visitOf past node workspace])
        (workspace.afterActs (visitor.visitOf past node workspace).acts) rest visits) :
      Turns visitor past workspace (node :: rest) (visitor.visitOf past node workspace :: visits)
  | passed {past workspace node rest visits}
      (unattached : (workspace.tree node.document).isAttached node.node = false)
      (later : Turns visitor past workspace rest visits) :
      Turns visitor past workspace (node :: rest) visits

theorem Visit.all_append (visits later : List Visit) :
    Visit.all (visits ++ later) = Visit.all visits ++ Visit.all later := List.flatMap_append

namespace Turns

variable {visitor : Visitor} {past visits : List Visit}

theorem exists_visits (visitor : Visitor) (past : List Visit) (workspace : Workspace)
    (found : List Handle) : ∃ visits, Turns visitor past workspace found visits := by
  induction found generalizing past workspace with
  | nil => exact ⟨[], .done⟩
  | cons node rest ih =>
    cases attached : (workspace.tree node.document).isAttached node.node with
    | true =>
      obtain ⟨visits, later⟩ := ih (past ++ [visitor.visitOf past node workspace])
        (workspace.afterActs (visitor.visitOf past node workspace).acts)
      exact ⟨_, .visited attached later⟩
    | false =>
      obtain ⟨visits, later⟩ := ih past workspace
      exact ⟨visits, .passed attached later⟩

theorem sublist (turns : Turns visitor past workspace found visits) :
    (visits.map Visit.node).Sublist found := by
  induction turns with
  | done => exact .slnil
  | visited attached later ih => exact ih.cons_cons _
  | passed unattached later ih => exact ih.cons _

theorem proper (turns : Turns visitor past workspace found visits) :
    ∀ act ∈ Visit.all visits, act.IsProper := by
  induction turns with
  | done => simp [Visit.all]
  | @visited past workspace node rest visits attached later ih =>
    intro act member
    rw [Visit.all, List.flatMap_cons, List.mem_append] at member
    exact member.elim (visitor.proper past node workspace act) (ih act)
  | passed unattached later ih => exact ih

/-- A node is visited when it is part of its document after all earlier visits. -/
theorem attached_of_visited (turns : Turns visitor past workspace found visits)
    {before later : List Visit} {visit : Visit} (split : visits = before ++ visit :: later) :
    visit.before = workspace.afterActs (Visit.all before) ∧
      (visit.before.tree visit.node.document).isAttached visit.node.node = true := by
  induction turns generalizing before with
  | done => simp at split
  | passed unattached _ ih => exact ih split
  | @visited past workspace node rest visits attached _ ih =>
    cases before with
    | nil =>
      obtain ⟨rfl, rfl⟩ := List.cons.inj split
      exact ⟨rfl, attached⟩
    | cons first before =>
      obtain ⟨rfl, rest⟩ := List.cons.inj split
      rw [Visit.all, List.flatMap_cons, afterActs_append]
      exact ih rest

end Turns

/-! ## Runs -/

namespace Recorded

variable {α β : Type}

/-- A session of which visits are taken down: what it tells and all visits so far, and the open
documents afterwards. -/
def run (session : StateT (List Visit) Session α) (past : List Visit) (workspace : Workspace) :
    Except Refusal (α × List Visit) × Workspace := (StateT.run session past).run workspace

theorem run_bind (first : StateT (List Visit) Session α) (next : α → StateT (List Visit) Session β)
    (past : List Visit) (workspace : Workspace) :
    run (first >>= next) past workspace = match run first past workspace with
      | (.ok (value, past'), left) => run (next value) past' left
      | (.error refusal, left) => (.error refusal, left) := by
  rw [run, StateT.run_bind, Markup.run_bind, run]
  rcases (first.run past).run workspace with ⟨_ | ⟨value, past'⟩, left⟩ <;> rfl

theorem run_lift (session : Session α) (past : List Visit) (workspace : Workspace) :
    run (liftM session) past workspace = match session.run workspace with
      | (.ok value, left) => (.ok (value, past), left)
      | (.error refusal, left) => (.error refusal, left) := by
  have step : run (liftM session) past workspace =
      (session >>= fun value => pure (value, past) : Session _).run workspace := rfl
  rw [step, Markup.run_bind]
  rcases session.run workspace with ⟨_ | value, left⟩ <;> rfl

end Recorded

theorem Visitor.run_visit (visitor : Visitor) (past : List Visit) (node : Handle)
    (workspace : Workspace) : Recorded.run (visitor.visit node) past workspace =
      (.ok ((), past ++ [visitor.visitOf past node workspace]),
        workspace.afterActs (visitor.visitOf past node workspace).acts) := by
  have step : Recorded.run (visitor.visit node) past workspace =
      Recorded.run (liftM ((visitor.visitOf past node workspace).acts.forM Act.attempt))
        (past ++ [visitor.visitOf past node workspace]) workspace := rfl
  rw [step, Recorded.run_lift, run_attempts]

theorem Handle.run_isValid (handle : Handle) (workspace : Workspace) :
    handle.isValid.run workspace =
      (.ok ((workspace.tree handle.document).isAttached handle.node), workspace) := rfl

namespace Turns

variable {visitor : Visitor} {past visits : List Visit}

theorem all_cons (visit : Visit) (visits : List Visit) (workspace : Workspace) :
    workspace.afterActs (Visit.all (visit :: visits)) =
      (workspace.afterActs visit.acts).afterActs (Visit.all visits) := by
  rw [Visit.all, List.flatMap_cons, afterActs_append]
  rfl

/-- The loop makes the visits turn by turn. -/
theorem run_visitEach (turns : Turns visitor past workspace found visits) :
    Recorded.run (Handle.visitEach visitor.visit found) past workspace =
      (.ok ((), past ++ visits), workspace.afterActs (Visit.all visits)) := by
  induction turns with
  | done =>
    rw [List.append_nil]
    rfl
  | @visited past workspace node rest visits attached later ih =>
    rw [Handle.visitEach, Recorded.run_bind, Recorded.run_lift, Handle.run_isValid, attached]
    simp only [↓reduceIte]
    rw [Recorded.run_bind, visitor.run_visit, all_cons, List.append_cons past _ visits]
    exact ih
  | @passed past workspace node rest visits unattached later ih =>
    rw [Handle.visitEach, Recorded.run_bind, Recorded.run_lift, Handle.run_isValid, unattached]
    exact ih

end Turns

/-! ## Asking for the next node -/

namespace QueryIterator

variable {iterator : QueryIterator} {node : Handle} {rest : List Handle}

theorem run_next_done (spent : iterator.found.drop iterator.position = []) (workspace : Workspace) :
    iterator.next.run workspace = (.ok (none, iterator), workspace) := by
  rw [next, spent]
  rfl

theorem run_next_visited (ahead : iterator.found.drop iterator.position = node :: rest)
    (attached : (workspace.tree node.document).isAttached node.node = true) :
    iterator.next.run workspace =
      (.ok (some node, { iterator with position := iterator.position + 1 }), workspace) := by
  rw [next, ahead, run_bind, firstValid, run_bind, node.run_isValid, attached]
  rfl

theorem drop_next (ahead : iterator.found.drop iterator.position = node :: rest) :
    iterator.found.drop (iterator.position + 1) = rest := by
  rw [← List.drop_drop, ahead, List.drop_one, List.tail_cons]

/-- A node that is gone is passed over. -/
theorem run_next_passed (ahead : iterator.found.drop iterator.position = node :: rest)
    (unattached : (workspace.tree node.document).isAttached node.node = false) :
    iterator.next.run workspace =
      ({ iterator with position := iterator.position + 1 } : QueryIterator).next.run workspace := by
  rw [next, ahead, run_bind, firstValid, run_bind, node.run_isValid, unattached, next, run_bind]
  dsimp only
  rw [drop_next ahead]
  simp only [Bool.false_eq_true, ↓reduceIte]
  rw [run_bind]
  rcases (firstValid rest).run workspace with ⟨_ | ⟨found, passed⟩, left⟩
  · rfl
  · have position : iterator.position + (passed + 1) = iterator.position + 1 + passed := by omega
    change (Except.ok (found, { iterator with position := iterator.position + (passed + 1) }),
      left) = _
    rw [position]
    rfl

end QueryIterator

/-- However often a node is asked for, the visits that are made are the first ones of some visits,
no more of them than it was asked for. -/
def Visitor.Yields (visitor : Visitor) (iterator : QueryIterator) (past : List Visit)
    (workspace : Workspace) (visits : List Visit) : Prop :=
  ∀ rounds, ∃ left, left.found = iterator.found ∧
    Recorded.run (visitor.draw rounds iterator) past workspace =
      (.ok (left, past ++ visits.take rounds),
        workspace.afterActs (Visit.all (visits.take rounds)))

theorem Visitor.run_draw_zero (visitor : Visitor) (iterator : QueryIterator) (past : List Visit)
    (workspace : Workspace) (visits : List Visit) :
    Recorded.run (visitor.draw 0 iterator) past workspace =
      (.ok (iterator, past ++ visits.take 0), workspace.afterActs (Visit.all (visits.take 0))) := by
  rw [List.take_zero, List.append_nil]
  rfl

open QueryIterator in
/-- Asking for one node after the other makes the visits turn by turn. -/
theorem Turns.yields {visitor : Visitor} {past visits : List Visit}
    (turns : Turns visitor past workspace found visits) {iterator : QueryIterator}
    (ahead : iterator.found.drop iterator.position = found) :
    visitor.Yields iterator past workspace visits := by
  induction turns generalizing iterator with
  | done =>
    rintro (_ | rounds)
    · exact ⟨iterator, rfl, visitor.run_draw_zero iterator _ _ _⟩
    · refine ⟨iterator, rfl, ?_⟩
      rw [Visitor.draw, Recorded.run_bind, Recorded.run_lift, run_next_done ahead,
        List.take_nil, List.append_nil]
      rfl
  | @visited past workspace node rest visits attached later ih =>
    rintro (_ | rounds)
    · exact ⟨iterator, rfl, visitor.run_draw_zero iterator _ _ _⟩
    · obtain ⟨left, same, run⟩ :=
        @ih { iterator with position := iterator.position + 1 } (drop_next ahead) rounds
      refine ⟨left, same, ?_⟩
      rw [Visitor.draw, Recorded.run_bind, Recorded.run_lift,
        run_next_visited ahead attached]
      simp only
      rw [Recorded.run_bind, visitor.run_visit, List.take_succ_cons, all_cons,
        List.append_cons past _ (visits.take rounds)]
      exact run
  | @passed past workspace node rest visits unattached later ih =>
    rintro (_ | rounds)
    · exact ⟨iterator, rfl, visitor.run_draw_zero iterator _ _ _⟩
    · obtain ⟨left, same, run⟩ :=
        @ih { iterator with position := iterator.position + 1 } (drop_next ahead) (rounds + 1)
      refine ⟨left, same, ?_⟩
      rw [Visitor.draw, Recorded.run_bind, Recorded.run_lift] at run ⊢
      rw [run_next_passed ahead unattached]
      exact run

/-! ## Snapshots -/

namespace Handle

/-- What is taken down are different nodes that are there, and it changes no tree. -/
theorem of_snapshot {fromRoot : Bool} {text : String}
    (linked : (workspace.tree handle.document).WellLinked)
    (taken : (handle.snapshot fromRoot text).run workspace = (.ok found, ready)) :
    SameTrees workspace ready ∧ found.Nodup ∧ ∀ node ∈ found, node.document = handle.document ∧
      (ready.tree node.document).IsLive node.node := by
  rw [snapshot, select, run_bind] at taken
  let request : QueryRequest := ⟨[], if fromRoot then text else expandPath text⟩
  have same := request.sameTrees_make handle.document workspace
  rw [show Session.compile handle.document .standard _ = request.make handle.document from rfl]
    at taken
  revert taken same
  rcases (request.make handle.document).run workspace with ⟨_ | compiled, left⟩ <;> intro taken same
  · cases taken
  · rw [← same.tree handle.document] at linked
    change (handle.read _).run left = _ at taken
    rw [run_read] at taken
    split at taken
    · rename_i attached
      obtain ⟨picked, rfl⟩ := Prod.mk.inj taken
      obtain ⟨value, evaluated, picked⟩ := bind_eq_ok.mp picked
      have ordered : value.IsOrdered (left.tree handle.document) := by
        unfold valueAt at evaluated
        split at evaluated
        · rename_i evaluated'
          cases evaluated
          refine XPath.isOrdered_eval linked (by simp) _ ?_ evaluated'
          cases fromRoot with
          | true => exact XPath.isPresent_root linked
          | false => exact attached
        · cases evaluated
      cases value with
      | nodes nodes =>
        cases picked
        have ordered : XPath.InOrder (left.tree handle.document) nodes := ordered
        refine ⟨same, ?_, fun node member => ?_⟩
        · refine List.Nodup.map (fun id other same => congrArg Handle.node same) ?_
          refine (ordered.nodup.filterMap fun node other id is is' => ?_).filter _
          cases node <;> cases other <;> cases is <;> cases is'
          rfl
        · obtain ⟨id, listed, rfl⟩ := List.mem_map.mp member
          obtain ⟨node, listed, is⟩ := List.mem_filterMap.mp (List.mem_of_mem_filter listed)
          cases node <;> cases is
          exact ⟨rfl, linked.live_of_isAttached (ordered.present _ listed)⟩
      | _ => cases picked
    · cases taken

end Handle

/-! ## Passes -/

/-- The visits that are made of the nodes that were taken down, after some acts. Each turn is as it
should be, no node has more than one visit, and the nodes come in the order in which they were taken
down. Unless a slot is handed out so often that its generations come round, each of them has been
live at every moment since then. So it was removed by no visit before, and it is no new node in the
slot of one that was. -/
structure Visitor.IsPass (visitor : Visitor) (number : Nat) (ready : Workspace)
    (found : List Handle) (acts : List Act) (past visits : List Visit) : Prop where
  turns : Turns visitor past (ready.afterActs acts) found visits
  part : (visits.map Visit.node).Sublist found
  once : (visits.map Visit.node).Nodup
  steady : ((History.watch number ready).afterActs number
      (acts ++ Visit.all visits)).chronicle.IsUnworn →
    ∀ before visit later, visits = before ++ visit :: later →
      ∀ earlier, earlier <+: acts ++ Visit.all before →
        ((ready.afterActs earlier).tree number).IsLive visit.node.node

/-- Where different nodes were taken down that were there, every pass is as it should be. -/
theorem Turns.isPass {visitor : Visitor} {acts : List Act} {past visits : List Visit}
    (opened : number < ready.documents.size) (linked : (ready.tree number).WellLinked)
    (different : found.Nodup) (there : ∀ node ∈ found, node.document = number ∧
      (ready.tree node.document).IsLive node.node)
    (proper : ∀ act ∈ acts, act.IsProper)
    (turns : Turns visitor past (ready.afterActs acts) found visits) :
    visitor.IsPass number ready found acts past visits where
  turns := turns
  part := turns.sublist
  once := different.sublist turns.sublist
  steady := by
    rintro unworn before visit later rfl earlier part
    obtain ⟨moment, attached⟩ := turns.attached_of_visited rfl
    have member : visit.node ∈ found := turns.sublist.mem (by simp)
    obtain ⟨here, live⟩ := there visit.node member
    rw [here] at live attached
    rw [moment, ← afterActs_append] at attached
    rw [Visit.all_append, ← List.append_assoc, History.afterActs_append] at unworn
    refine History.live_throughout opened linked (fun act listed => ?_)
      (History.isUnworn_of_after _ unworn) live attached part
    have proper' := turns.proper act
    rw [Visit.all_append] at proper'
    exact (List.mem_append.mp listed).elim (proper act)
      fun listed => proper' (List.mem_append_left _ listed)

/-- Nodes were taken down that an expression selects, and then they are visited by someone who does
anything with handles. Just those are visited that are there when their turn comes, each of them
once and in order. An iterator gives the same nodes on demand. When it is rewound it starts again
with what was taken down first, whatever was done in the meantime. -/
theorem visits_survivors_once (visitor : Visitor) {fromRoot : Bool} {text : String}
    (opened : handle.document < workspace.documents.size)
    (linked : (workspace.tree handle.document).WellLinked)
    (taken : (handle.snapshot fromRoot text).run workspace = (.ok found, ready)) :
    ∃ visits, visitor.IsPass handle.document ready found [] [] visits ∧
      Recorded.run (visitor.iterate fromRoot handle text) [] workspace =
        (.ok ((), visits), ready.afterActs (Visit.all visits)) ∧
      (fromRoot = false →
        (handle.queryIterator text).run workspace = (.ok { found }, ready)) ∧
      visitor.Yields { found } [] ready visits ∧
      ∀ iterator : QueryIterator, iterator.found = found →
        ∀ acts, (∀ act ∈ acts, act.IsProper) → ∀ past,
          ∃ again, visitor.IsPass handle.document ready found acts past again ∧
            visitor.Yields iterator.rewind past (ready.afterActs acts) again := by
  obtain ⟨same, different, there⟩ := Handle.of_snapshot linked taken
  rw [← same.tree] at linked
  rw [← same.size] at opened
  obtain ⟨visits, turns⟩ := Turns.exists_visits visitor [] ready found
  refine ⟨visits, turns.isPass opened linked different there (by simp), ?_, ?_, turns.yields rfl,
    ?_⟩
  · have step : visitor.iterate fromRoot handle text =
        (liftM (handle.snapshot fromRoot text) >>= Handle.visitEach visitor.visit) := by
      cases fromRoot <;> rfl
    rw [step, Recorded.run_bind, Recorded.run_lift, taken]
    exact turns.run_visitEach
  · rintro rfl
    rw [Handle.queryIterator, run_bind]
    rw [Handle.snapshot, if_neg Bool.false_ne_true] at taken
    rw [taken]
    rfl
  · rintro iterator rfl acts proper past
    obtain ⟨again, turns⟩ := Turns.exists_visits visitor past (ready.afterActs acts) iterator.found
    exact ⟨again, turns.isPass opened linked different there proper, turns.yields rfl⟩

/-- An element with two elements below it. -/
def pairDocument : Document :=
  ((Document.empty.grow root (.plainElement "a")).grow ⟨2, 0⟩ (.plainElement "b")).grow ⟨2, 0⟩
    (.plainElement "b")

def pairWorkspace : Workspace := { documents := #[.ofTree pairDocument .xml] }

/-- What is open after both elements were taken down. -/
def pairReady : Workspace := ((Handle.snapshot ⟨0, ⟨2, 0⟩⟩ false "b").run pairWorkspace).2

/-- Whoever removes the second of two elements and puts another one in its place. -/
def replacing : Visitor where
  acts _ _ _ := [.change ⟨0, ⟨4, 0⟩⟩ .remove, .change ⟨0, ⟨2, 0⟩⟩ (.addElement "b")]
  proper _ _ _ act member := by
    simp only [List.mem_cons, List.not_mem_nil, or_false] at member
    rcases member with rfl | rfl <;> simp [Act.IsProper, root]

/-- Both elements were taken down. The second one is removed in the visit of the first one, and the
element that takes over its slot is not visited. -/
theorem visits_survivors_once_replaced :
    (Handle.snapshot ⟨0, ⟨2, 0⟩⟩ false "b").run pairWorkspace =
      (.ok [⟨0, ⟨3, 0⟩⟩, ⟨0, ⟨4, 0⟩⟩], pairReady) ∧
    ∃ visits, replacing.IsPass 0 pairReady [⟨0, ⟨3, 0⟩⟩, ⟨0, ⟨4, 0⟩⟩] [] [] visits ∧
      ((History.watch 0 pairReady).afterActs 0 (Visit.all visits)).chronicle.IsUnworn ∧
      visits.map Visit.node = [⟨0, ⟨3, 0⟩⟩] ∧
      ((pairReady.afterActs (Visit.all visits)).tree 0).isAttached ⟨4, 1⟩ = true := by
  have linked : (pairWorkspace.tree 0).WellLinked := by
    have top := extended_grow wellLinked_empty wellLinked_empty.root_live (.plainElement "a")
    have live : (Document.empty.grow root (.plainElement "a")).IsLive ⟨2, 0⟩ := by decide
    have one := extended_grow top.linked live (.plainElement "b")
    exact (extended_grow one.linked ((one.live_iff _).mpr (.inr live)) (.plainElement "b")).linked
  have taken : (Handle.snapshot ⟨0, ⟨2, 0⟩⟩ false "b").run pairWorkspace =
      (.ok [⟨0, ⟨3, 0⟩⟩, ⟨0, ⟨4, 0⟩⟩], pairReady) := Prod.ext (by cbv) rfl
  obtain ⟨visits, pass, -⟩ := visits_survivors_once replacing (by decide) linked taken
  have there : (pairReady.tree 0).isAttached ⟨3, 0⟩ = true := by cbv
  have removed : ((pairReady.afterActs (replacing.acts [] ⟨0, ⟨3, 0⟩⟩ pairReady)).tree 0).isAttached
      ⟨4, 0⟩ = false := by cbv
  have new : ((pairReady.afterActs (replacing.acts [] ⟨0, ⟨3, 0⟩⟩ pairReady)).tree 0).isAttached
      ⟨4, 1⟩ = true := by cbv
  have used : ((History.watch 0 pairReady).afterActs 0
      (replacing.acts [] ⟨0, ⟨3, 0⟩⟩ pairReady)).chronicle.used =
        [⟨4, 1⟩, root, ⟨2, 0⟩, ⟨3, 0⟩, ⟨4, 0⟩] := by cbv
  refine ⟨taken, visits, pass, ?_⟩
  cases pass.turns with
  | passed unattached => exact absurd (there.symm.trans unattached) (by decide)
  | visited _ later =>
    cases later with
    | visited attached => exact absurd (attached.symm.trans removed) (by decide)
    | passed _ later =>
      cases later
      rw [Visit.all, List.flatMap_singleton]
      refine ⟨fun index => ?_, rfl, new⟩
      rw [Chronicle.uses]
      refine List.countP_le_length.trans ?_
      exact (congrArg List.length used).le.trans (by decide)

end Markup
