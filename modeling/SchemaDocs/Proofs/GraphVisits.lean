import SchemaDocs.Schema.Graph
import SchemaDocs.Proofs.Soundness

/-!
# The visits of a check

The check of a graph visits nodes one after another: the nodes below a node come before those that are waiting, and a
shared node is passed over when it has been met. `GraphNode.Visits` says so step by step, without a bound on the number
of steps, and it leaves no choice (`Visits.unique`). The check has a bound on its levels, but it is never reached: every
level marks one more shared node, so the visits end, and the check gives what they come to (`visits_check`).
-/

namespace SchemaDocs

namespace GraphNode

/-! ## Nodes -/

/-- The way from a node to one that stands below it, as far as the check follows it. -/
inductive Step where
  | property (name : String)
  | items
  | additional
  | member (index : Nat)
deriving DecidableEq

def Step.after (location : String) : Step → String
  | .property name => Location.property location name
  | .items => Location.element location "items"
  | .additional => Location.element location "additionalProperties"
  | .member index => Location.member location index

/-- The nodes below a node that the check looks at, in its order. -/
def parts : GraphNode → List (Step × GraphNode)
  | .shared _ => []
  | .own _ properties items additional _ members =>
    properties.map (fun e => (.property e.1, e.2)) ++ items.toList.map (.items, ·) ++
      additional.toList.map (.additional, ·) ++ members.zipIdx.map fun m => (.member m.2, m.1)

/-- The parts of a node at a location, each at its own. -/
def placedParts (location : String) (node : GraphNode) : List (String × GraphNode) :=
  node.parts.map fun e => (e.1.after location, e.2)

/-- The node is not a name of a shared one. -/
def isOwn : GraphNode → Bool
  | .shared _ => false
  | .own .. => true

def required : GraphNode → List String
  | .shared _ => []
  | .own facts _ _ _ _ _ => facts.required

def names : GraphNode → List String
  | .shared _ => []
  | .own _ properties _ _ _ _ => properties.map (·.1)

def isReference : GraphNode → Bool
  | .shared _ => false
  | .own facts properties _ additional _ members =>
    facts.kind additional.isSome (!properties.isEmpty) (!members.isEmpty) = .reference

/-! ## Visits -/

/-- What the visits of the waiting nodes come to, one after another and each at its location, when the shared nodes in
`seen` have been met: the first problem, or the shared nodes that have been met in the end. A name that stands for no
node is passed over. -/
inductive Visits (shared : List (String × GraphNode)) :
    List String → List (String × GraphNode) → Except Problem (List String) → Prop
  | done {seen : List String} : Visits shared seen [] (.ok seen)
  | missing {seen : List String} {location name : String} {waiting : List (String × GraphNode)}
    {r : Except Problem (List String)} (nothing : Assoc.get? name shared = none) (rest : Visits shared seen waiting r) :
    Visits shared seen ((location, .shared name) :: waiting) r
  | again {seen : List String} {location name : String} {node : GraphNode} {waiting : List (String × GraphNode)}
    {r : Except Problem (List String)} (found : Assoc.get? name shared = some node) (met : name ∈ seen)
    (rest : Visits shared seen waiting r) : Visits shared seen ((location, .shared name) :: waiting) r
  | first {seen : List String} {location name : String} {node : GraphNode} {waiting : List (String × GraphNode)}
    {r : Except Problem (List String)} (found : Assoc.get? name shared = some node) (new : name ∉ seen)
    (rest : Visits shared (name :: seen) ((location, node) :: waiting) r) :
    Visits shared seen ((location, .shared name) :: waiting) r
  | undeclared {seen : List String} {location name : String} {node : GraphNode} {waiting : List (String × GraphNode)}
    (problem : Schema.undeclared? node.required node.names = some name) :
    Visits shared seen ((location, node) :: waiting) (.error (.undeclared name location))
  /-- What lies below a reference is checked where it is declared. -/
  | reference {seen : List String} {location : String} {node : GraphNode} {waiting : List (String × GraphNode)}
    {r : Except Problem (List String)} (declared : Schema.undeclared? node.required node.names = none)
    (refers : node.isReference = true) (below : location ≠ "") (rest : Visits shared seen waiting r) :
    Visits shared seen ((location, node) :: waiting) r
  | opened {seen : List String} {location : String} {node : GraphNode} {waiting : List (String × GraphNode)}
    {r : Except Problem (List String)} (own : node.isOwn = true)
    (declared : Schema.undeclared? node.required node.names = none) (opened : node.isReference = true → location = "")
    (rest : Visits shared seen (node.placedParts location ++ waiting) r) :
    Visits shared seen ((location, node) :: waiting) r

variable {shared : List (String × GraphNode)} {seen seen' : List String} {todo : List (String × GraphNode)}
  {location : String} {node : GraphNode} {visit : String → Visit}

/-- **Visits leave no choice.** -/
theorem Visits.unique {r r' : Except Problem (List String)} (h : Visits shared seen todo r)
    (h' : Visits shared seen todo r') : r = r' := by
  induction h with
  | done =>
    cases h'
    rfl
  | missing nothing _ ih =>
    cases h' with
    | missing _ rest => exact ih rest
    | again found => simp [nothing] at found
    | first found => simp [nothing] at found
    | undeclared problem => cases problem
    | reference _ refers => cases refers
    | opened own => cases own
  | again found met _ ih =>
    cases h' with
    | missing nothing => simp [nothing] at found
    | again _ _ rest => exact ih rest
    | first _ new => exact absurd met new
    | undeclared problem => cases problem
    | reference _ refers => cases refers
    | opened own => cases own
  | first found new _ ih =>
    cases h' with
    | missing nothing => simp [nothing] at found
    | again _ met => exact absurd met new
    | first found' _ rest =>
      cases found.symm.trans found'
      exact ih rest
    | undeclared problem => cases problem
    | reference _ refers => cases refers
    | opened own => cases own
  | undeclared problem =>
    cases h' with
    | missing => cases problem
    | again => cases problem
    | first => cases problem
    | undeclared problem' =>
      cases problem.symm.trans problem'
      rfl
    | reference declared => simp [declared] at problem
    | opened _ declared => simp [declared] at problem
  | reference declared refers below _ ih =>
    cases h' with
    | missing => cases refers
    | again => cases refers
    | first => cases refers
    | undeclared problem => simp [declared] at problem
    | reference _ _ _ rest => exact ih rest
    | opened _ _ opened => exact absurd (opened refers) below
  | opened own declared opened _ ih =>
    cases h' with
    | missing => cases own
    | again => cases own
    | first => cases own
    | undeclared problem => simp [declared] at problem
    | reference _ refers below => exact absurd (opened refers) below
    | opened _ _ _ rest => exact ih rest

/-! ## The check in terms of the parts -/

theorem checkProperties_eq : ∀ (properties : List (String × GraphNode)) (seen : List String),
    checkProperties visit location seen properties =
      (properties.map fun e => (Step.property e.1, e.2)).foldlM
        (fun seen e => check visit (e.1.after location) seen e.2) seen
  | [], _ => rfl
  | (name, node) :: rest, seen => by
    rw [checkProperties, List.map_cons, List.foldlM_cons]
    exact bind_congr fun seen => checkProperties_eq rest seen

theorem checkElement_eq (step : Step) (element : Option GraphNode) (seen : List String) :
    checkElement visit (step.after location) seen element =
      (element.toList.map (step, ·)).foldlM (fun seen e => check visit (e.1.after location) seen e.2) seen := by
  cases element with
  | none => rfl
  | some node =>
    rw [checkElement, Option.toList_some, List.map_singleton, List.foldlM_cons]
    exact (bind_pure _).symm

theorem checkMembers_eq : ∀ (members : List GraphNode) (index : Nat) (seen : List String),
    checkMembers visit location index seen members =
      ((members.zipIdx index).map fun m => (Step.member m.2, m.1)).foldlM
        (fun seen e => check visit (e.1.after location) seen e.2) seen
  | [], _, _ => rfl
  | node :: rest, index, seen => by
    rw [checkMembers, List.zipIdx_cons, List.map_cons, List.foldlM_cons]
    exact bind_congr fun seen => checkMembers_eq rest (index + 1) seen

theorem isReference_own {facts : Facts} {properties : List (String × GraphNode)}
    {items additional keyType : Option GraphNode} {members : List GraphNode} :
    isReference (.own facts properties items additional keyType members) = facts.modelType.isSome := by
  rw [isReference, Facts.kind]
  cases facts.modelType with
  | some m => rfl
  | none =>
    simp only [Option.isSome_none, Bool.false_eq_true, ↓reduceIte, decide_eq_false_iff_not]
    repeat' split
    all_goals simp

/-- A node is checked, and then its parts are unless it is a reference below the root. -/
theorem check_own (h : node.isOwn = true) : check visit location seen node =
    match Schema.undeclared? node.required node.names with
    | some name => .error (.undeclared name location)
    | none =>
      if node.isReference && !location.isEmpty then .ok seen
      else node.parts.foldlM (fun seen e => check visit (e.1.after location) seen e.2) seen := by
  cases node with
  | shared name => cases h
  | own facts properties items additional keyType members =>
    have hitems (seen : List String) : checkElement visit (Location.element location "items") seen items = _ :=
      checkElement_eq .items items seen
    have hadditional (seen : List String) :
        checkElement visit (Location.element location "additionalProperties") seen additional = _ :=
      checkElement_eq .additional additional seen
    rw [check, parts, List.foldlM_append, List.foldlM_append, List.foldlM_append, isReference_own]
    simp only [checkProperties_eq, checkMembers_eq, hitems, hadditional, bind_assoc]
    rfl

/-! ## The end of the check -/

/-- There are at least as many levels left as shared nodes that have not been met. -/
structure Enough (shared : List (String × GraphNode)) (levels : Nat) (seen : List String) : Prop where
  nodup : seen.Nodup
  keys : ∀ name ∈ seen, name ∈ shared.map (·.1)
  left : shared.length ≤ levels + seen.length

/-- A level is left for a shared node that has not been met. -/
theorem Enough.levels_pos {levels : Nat} {name : String} (h : Enough shared levels seen)
    (found : Assoc.get? name shared = some node) (new : name ∉ seen) : 0 < levels := by
  have hkey : name ∈ shared.map (·.1) := List.mem_map_of_mem (Assoc.mem_of_get? found)
  exact Assoc.left_pos h.nodup h.keys hkey new (by simpa using h.left)

theorem Enough.mark {levels : Nat} {name : String} (h : Enough shared (levels + 1) seen)
    (found : Assoc.get? name shared = some node) (new : name ∉ seen) : Enough shared levels (name :: seen) where
  nodup := List.nodup_cons.2 ⟨new, h.nodup⟩
  keys := List.forall_mem_cons.2 ⟨List.mem_map_of_mem (Assoc.mem_of_get? found), h.keys⟩
  left := by
    have hleft := h.left
    rw [List.length_cons]
    omega

theorem Enough.succ {levels : Nat} (h : Enough shared levels seen) : Enough shared (levels + 1) seen :=
  ⟨h.nodup, h.keys, by have := h.left; omega⟩

/-- What comes of checking the nodes in `todo` is what their visits come to, whatever is waiting behind them, and enough
levels are left after that. -/
def Performs (shared : List (String × GraphNode)) (levels : Nat) (seen : List String)
    (todo : List (String × GraphNode)) (x : Except Problem (List String)) : Prop :=
  match x with
  | .error problem => ∀ waiting, Visits shared seen (todo ++ waiting) (.error problem)
  | .ok seen' => Enough shared levels seen' ∧
    ∀ {waiting r}, Visits shared seen' waiting r → Visits shared seen (todo ++ waiting) r

def PerformsNode (shared : List (String × GraphNode)) (levels : Nat) (visit : String → Visit) (node : GraphNode) :
    Prop :=
  ∀ location seen, Enough shared levels seen →
    Performs shared levels seen [(location, node)] (check visit location seen node)

variable {levels : Nat}

theorem performs_parts (location : String) : ∀ {parts : List (Step × GraphNode)},
    (∀ e ∈ parts, PerformsNode shared levels visit e.2) →
    ∀ {seen}, Enough shared levels seen → Performs shared levels seen (parts.map fun e => (e.1.after location, e.2))
      (parts.foldlM (fun seen e => check visit (e.1.after location) seen e.2) seen)
  | [], _, _, h => ⟨h, fun hrest => hrest⟩
  | (step, node) :: rest, hparts, seen, h => by
    have hnode := hparts _ List.mem_cons_self (step.after location) seen h
    rw [List.foldlM_cons, List.map_cons]
    cases hc : check visit (step.after location) seen node with
    | error problem =>
      rw [hc] at hnode
      exact fun waiting => hnode _
    | ok seen1 =>
      rw [hc] at hnode
      have hrest := performs_parts location (fun e he => hparts e (List.mem_cons_of_mem _ he)) hnode.1
      show Performs _ _ _ _ (rest.foldlM _ seen1)
      cases hr : rest.foldlM (fun seen e => check visit (e.1.after location) seen e.2) seen1 with
      | error problem =>
        rw [hr] at hrest
        exact fun waiting => hnode.2 (hrest waiting)
      | ok seen2 =>
        rw [hr] at hrest
        exact ⟨hrest.1, fun hv => hnode.2 (hrest.2 hv)⟩

theorem sizeOf_lt_of_mem_parts {e : Step × GraphNode} (h : e ∈ node.parts) : sizeOf e.2 < sizeOf node := by
  cases node with
  | shared name => cases h
  | own facts properties items additional keyType members =>
    simp only [parts, List.mem_append, List.mem_map, Option.mem_toList] at h
    rcases h with ((⟨⟨name, t⟩, hm, rfl⟩ | ⟨t, rfl, rfl⟩) | ⟨t, rfl, rfl⟩) | ⟨⟨t, index⟩, hm, rfl⟩
    · have := List.sizeOf_lt_of_mem hm
      simp only [Prod.mk.sizeOf_spec, own.sizeOf_spec] at this ⊢
      omega
    · simp only [own.sizeOf_spec, Option.some.sizeOf_spec]
      omega
    · simp only [own.sizeOf_spec, Option.some.sizeOf_spec]
      omega
    · have hlt : sizeOf t < sizeOf members := List.sizeOf_lt_of_mem (List.fst_mem_of_mem_zipIdx hm)
      simp only [own.sizeOf_spec]
      omega

/-- Checking a node performs its visit if checking the shared nodes does. -/
theorem performs_check (hshared : ∀ name, PerformsNode shared levels visit (.shared name)) (node : GraphNode) :
    PerformsNode shared levels visit node := by
  intro location seen h
  cases hown : node.isOwn with
  | false =>
    cases node with
    | shared name => exact hshared name location seen h
    | own => cases hown
  | true =>
    rw [check_own hown]
    cases hu : Schema.undeclared? node.required node.names with
    | some name => exact fun waiting => .undeclared hu
    | none =>
      dsimp only
      split
      · rename_i hreference
        rw [Bool.and_eq_true, Bool.not_eq_true', Bool.eq_false_iff, Ne, String.isEmpty_iff] at hreference
        exact ⟨h, fun hv => .reference hu hreference.1 hreference.2 hv⟩
      · rename_i hopened
        have hopened : node.isReference = true → location = "" := fun hr => by simpa [hr] using hopened
        have hbelow : ∀ e ∈ node.parts, PerformsNode shared levels visit e.2 := fun e he => performs_check hshared e.2
        have hparts := performs_parts location hbelow h
        revert hparts
        cases node.parts.foldlM (fun seen e => check visit (e.1.after location) seen e.2) seen with
        | error problem => exact fun hparts waiting => .opened hown hu hopened (hparts waiting)
        | ok seen' => exact fun hparts => ⟨hparts.1, fun hv => .opened hown hu hopened (hparts.2 hv)⟩
termination_by sizeOf node
decreasing_by exact sizeOf_lt_of_mem_parts he

/-- Checking a shared node performs its visit if enough levels are left. -/
theorem performs_checkShared : ∀ (levels : Nat) (name : String),
    PerformsNode shared levels (checkShared shared levels) (.shared name)
  | levels, name => by
    intro location seen h
    rw [check]
    cases hnode : Assoc.get? name shared with
    | none =>
      have hok : checkShared shared levels name location seen = .ok seen := by
        cases levels with
        | zero => rfl
        | succ levels => simp [checkShared, hnode]
      rw [hok]
      exact ⟨h, fun hv => .missing hnode hv⟩
    | some node =>
      by_cases hmet : name ∈ seen
      · have hok : checkShared shared levels name location seen = .ok seen := by
          cases levels with
          | zero => rfl
          | succ levels => simp [checkShared, hmet]
        rw [hok]
        exact ⟨h, fun hv => .again hnode hmet hv⟩
      · obtain ⟨levels, rfl⟩ := Nat.exists_eq_succ_of_ne_zero (Nat.ne_of_gt (h.levels_pos hnode hmet))
        have hchecked := performs_check (performs_checkShared levels) node location _
          (Enough.mark h hnode hmet)
        have hcheck : checkShared shared levels.succ name location seen =
            check (checkShared shared levels) location (name :: seen) node := by
          simp [checkShared, hmet, hnode]
        rw [hcheck]
        revert hchecked
        cases check (checkShared shared levels) location (name :: seen) node with
        | error problem => exact fun hchecked waiting => .first hnode hmet (hchecked waiting)
        | ok seen' => exact fun hchecked => ⟨hchecked.1.succ, fun hv => .first hnode hmet (hchecked.2 hv)⟩

/-- **The check ends**: it gives what the visits come to that begin with the root, as soon as there is a level for every
shared node. -/
theorem visits_check (h : shared.length ≤ levels) (root : GraphNode) :
    Visits shared [] [("", root)] (root.check (checkShared shared levels) "" []) := by
  have henough : Enough shared levels [] := ⟨List.nodup_nil, by simp, h⟩
  have hroot := performs_check (performs_checkShared levels) root "" [] henough
  revert hroot
  cases root.check (checkShared shared levels) "" [] with
  | error problem => exact fun hroot => hroot []
  | ok seen => exact fun hroot => hroot.2 .done

end GraphNode

end SchemaDocs
