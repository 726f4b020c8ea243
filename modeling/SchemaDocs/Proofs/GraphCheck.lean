import SchemaDocs.Proofs.GraphVisits

/-!
# The check of a graph is exact

A node is reached from the root by steps, but not through a reference below the root (`Reaches`). The check finds a
problem just when a node that is reached requires a name that is none of its attributes, and the location that it
names is that of the steps (`check_exact`). That a shared node is passed over once it has been met hides nothing: when
the visits are over, every shared node that has been met is covered, and what lies below a covered node has been met
(`Covered`).
-/

namespace SchemaDocs

namespace GraphNode

variable {shared : List (String × GraphNode)} {node : GraphNode}

/-- The location of the node that is reached from the root by steps. -/
def locationOf (path : List Step) : String := path.foldl (fun location step => step.after location) ""

/-- No attribute of a node, or of one below it, has an empty name. -/
inductive Named : GraphNode → Prop
  | intro {node : GraphNode} (steps : ∀ e ∈ node.parts, e.1 ≠ .property "") (parts : ∀ e ∈ node.parts, Named e.2) :
    Named node

theorem Named.steps (h : Named node) : ∀ e ∈ node.parts, e.1 ≠ .property "" := by
  cases h with
  | intro steps _ => exact steps

theorem Named.parts (h : Named node) : ∀ e ∈ node.parts, Named e.2 := by
  cases h with
  | intro _ parts => exact parts

theorem locationOf_append (path : List Step) (step : Step) :
    locationOf (path ++ [step]) = step.after (locationOf path) := by
  simp [locationOf]

/-- No step leads to the location of the root. -/
theorem Step.after_ne_empty {step : Step} (h : step ≠ .property "") (location : String) :
    step.after location ≠ "" := by
  rw [Ne, ← String.isEmpty_iff, Bool.not_eq_true]
  cases step with
  | property name =>
    have hname : name.isEmpty = false := by
      rw [Bool.eq_false_iff, Ne, String.isEmpty_iff]
      rintro rfl
      exact h rfl
    rw [after, Schema.isEmpty_property, hname, Bool.and_false]
  | items => exact Schema.isEmpty_element location (by decide)
  | additional => exact Schema.isEmpty_element location (by decide)
  | member index => exact Schema.isEmpty_member location index

theorem isOwn_of_undeclared {name : String} (h : Schema.undeclared? node.required node.names = some name) :
    node.isOwn = true := by
  cases node with
  | shared _ => cases h
  | own => rfl

theorem undeclared?_eq_some {name : String} {required declared : List String}
    (h : Schema.undeclared? required declared = some name) : name ∈ required ∧ name ∉ declared := by
  have hnot := List.find?_some h
  exact ⟨List.mem_of_find?_eq_some h, by simpa using hnot⟩

/-! ## Nodes that have been looked at -/

/-- When the shared nodes in `met` have been met, nothing is left to look at below a node: it requires only names of
its own attributes, and so does what lies below it as far as it has not been met by its name. Nothing is looked at below
a reference unless it is at the `top`. -/
inductive Covered (shared : List (String × GraphNode)) (met : List String) : Prop → GraphNode → Prop
  | shared {top : Prop} {name : String} (known : ∀ node, Assoc.get? name shared = some node → name ∈ met) :
    Covered shared met top (.shared name)
  | own {top : Prop} {node : GraphNode} (own : node.isOwn = true)
    (declared : ∀ name ∈ node.required, name ∈ node.names)
    (parts : (node.isReference = true → top) → ∀ e ∈ node.parts, Covered shared met False e.2) :
    Covered shared met top node

variable {met seen : List String} {top top' : Prop} {waiting : List (String × GraphNode)}

/-- Where less is looked at, less is covered. For the name of a shared node that makes no difference. -/
theorem Covered.weaken (h : Covered shared met top node) (himp : node.isOwn = true → top' → top) :
    Covered shared met top' node := by
  cases h with
  | shared known => exact .shared known
  | own own declared parts => exact .own own declared fun hopened => parts fun hr => himp own (hopened hr)

theorem Covered.declared (h : Covered shared met top node) : ∀ name ∈ node.required, name ∈ node.names := by
  cases h with
  | shared known => simp [required]
  | own _ declared _ => exact declared

theorem Covered.known {name : String} (h : Covered shared met top (.shared name))
    (found : Assoc.get? name shared = some node) : name ∈ met := by
  cases h with
  | shared known => exact known node found
  | own own => cases own

theorem Covered.parts (h : Covered shared met top node) (hopened : node.isReference = true → top) :
    ∀ e ∈ node.parts, Covered shared met False e.2 := by
  cases h with
  | shared known => simp [GraphNode.parts]
  | own _ _ parts => exact parts hopened

/-- A shared node that has been met is covered. -/
theorem Visits.covered (hnamed : ∀ e ∈ shared, Named e.2)
    {r : Except Problem (List String)} (h : Visits shared seen waiting r) (hr : r = .ok met)
    (hwaiting : ∀ w ∈ waiting, Named w.2) :
    seen ⊆ met ∧ (∀ w ∈ waiting, Covered shared met (w.1 = "") w.2) ∧
      ∀ name ∈ met, name ∉ seen → ∀ node, Assoc.get? name shared = some node → Covered shared met False node := by
  induction h with
  | done =>
    cases hr
    exact ⟨List.Subset.refl _, by simp, fun name hmet hseen => absurd hmet hseen⟩
  | missing nothing _ ih =>
    obtain ⟨hsub, hcovered, hmet⟩ := ih hr (List.forall_mem_cons.1 hwaiting).2
    refine ⟨hsub, List.forall_mem_cons.2 ⟨.shared fun node hnode => ?_, hcovered⟩, hmet⟩
    simp [nothing] at hnode
  | again found known _ ih =>
    obtain ⟨hsub, hcovered, hmet⟩ := ih hr (List.forall_mem_cons.1 hwaiting).2
    exact ⟨hsub, List.forall_mem_cons.2 ⟨.shared fun _ _ => hsub known, hcovered⟩, hmet⟩
  | @first seen location name node waiting r found new _ ih =>
    obtain ⟨hsub, hcovered, hmet⟩ := ih hr
      (List.forall_mem_cons.2 ⟨hnamed (name, node) (Assoc.mem_of_get? found), (List.forall_mem_cons.1 hwaiting).2⟩)
    obtain ⟨hnode, hcovered⟩ := List.forall_mem_cons.1 hcovered
    refine ⟨fun n hn => hsub (List.mem_cons_of_mem _ hn),
      List.forall_mem_cons.2 ⟨.shared fun _ _ => hsub List.mem_cons_self, hcovered⟩, fun n hn hnew t ht => ?_⟩
    by_cases heq : n = name
    · subst heq
      cases found.symm.trans ht
      exact hnode.weaken fun _ => False.elim
    · exact hmet n hn (by simp [heq, hnew]) t ht
  | undeclared problem => cases hr
  | @reference seen location node waiting r declared refers below _ ih =>
    obtain ⟨hsub, hcovered, hmet⟩ := ih hr (List.forall_mem_cons.1 hwaiting).2
    have own : node.isOwn = true := by
      cases node with
      | shared _ => cases refers
      | own => rfl
    refine ⟨hsub, List.forall_mem_cons.2 ⟨.own own (Schema.undeclared?_eq_none_iff.1 declared) fun hopened => ?_,
      hcovered⟩, hmet⟩
    exact absurd (hopened refers) below
  | @opened seen location node waiting r own declared opened _ ih =>
    obtain ⟨hnode, hrest⟩ := List.forall_mem_cons.1 hwaiting
    obtain ⟨hsub, hcovered, hmet⟩ := ih hr (List.forall_mem_append.2
      ⟨List.forall_mem_map.2 fun e he => hnode.parts e he, hrest⟩)
    obtain ⟨hparts, hcovered⟩ := List.forall_mem_append.1 hcovered
    refine ⟨hsub, List.forall_mem_cons.2 ⟨.own own (Schema.undeclared?_eq_none_iff.1 declared) fun _ e he => ?_,
      hcovered⟩, hmet⟩
    exact (hparts _ (List.mem_map_of_mem he)).weaken fun _ => False.elim

end GraphNode

namespace SchemaGraph

open GraphNode

variable {g : SchemaGraph} {path : List Step} {holder node : GraphNode}

/-! ## Reached nodes -/

/-- The node itself: one that is shared is looked up by its name. -/
def node? (g : SchemaGraph) : GraphNode → Option GraphNode
  | .shared name => Assoc.get? name g.shared
  | node => some node

/-- The root stands at the path: it is where the steps begin, and a shared root is wherever its name is. -/
def IsRoot (g : SchemaGraph) (path : List Step) (holder : GraphNode) : Prop :=
  path = [] ∨ ∃ name, g.root = .shared name ∧ holder = .shared name

/-- The root is reached by no steps, and from a node that is reached so are its parts, unless it is a reference other
than the root. What is reached is a node, or the name of a shared one. -/
inductive Reaches (g : SchemaGraph) : List Step → GraphNode → Prop
  | root : Reaches g [] g.root
  | part {path : List Step} {holder node : GraphNode} {e : Step × GraphNode} (reached : Reaches g path holder)
    (found : g.node? holder = some node) (way : node.isReference = true → g.IsRoot path holder)
    (part : e ∈ node.parts) : Reaches g (path ++ [e.1]) e.2

/-- The names of shared nodes stand for nodes, and no attribute has an empty name. -/
structure Proper (g : SchemaGraph) : Prop where
  own : ∀ e ∈ g.shared, e.2.isOwn = true
  shared : ∀ e ∈ g.shared, Named e.2
  root : Named g.root

/-- The node is reached and requires a name that is none of its attributes. -/
structure Lacks (g : SchemaGraph) (path : List Step) (node : GraphNode) (name : String) : Prop where
  reached : ∃ holder, g.Reaches path holder ∧ g.node? holder = some node
  required : name ∈ node.required
  undeclared : name ∉ node.names

theorem node?_eq_some (h : g.node? holder = some node) :
    holder = node ∨ ∃ name, holder = .shared name ∧ Assoc.get? name g.shared = some node := by
  cases holder with
  | shared name => exact .inr ⟨name, rfl, h⟩
  | own => exact .inl (Option.some.inj h)

theorem node?_of_isOwn (h : node.isOwn = true) : g.node? node = some node := by
  cases node with
  | shared name => cases h
  | own => rfl

theorem Reaches.eq_root {path : List Step} (h : g.Reaches path holder) (hpath : path = []) : holder = g.root := by
  cases h with
  | root => rfl
  | part => simp at hpath

theorem Proper.named_of_node? (hg : g.Proper) (hholder : Named holder) (h : g.node? holder = some node) :
    Named node := by
  rcases node?_eq_some h with rfl | ⟨name, -, hnode⟩
  · exact hholder
  · exact hg.shared _ (Assoc.mem_of_get? hnode)

theorem Proper.isOwn_of_node? (hg : g.Proper) (h : g.node? holder = some node) : node.isOwn = true := by
  cases holder with
  | shared name => exact hg.own _ (Assoc.mem_of_get? h)
  | own =>
    cases h
    rfl

theorem Reaches.named (hg : g.Proper) (h : g.Reaches path holder) : Named holder := by
  induction h with
  | root => exact hg.root
  | part _ found _ part ih => exact (hg.named_of_node? ih found).parts _ part

/-- Only the root has its location. -/
theorem Reaches.path_eq_nil (hg : g.Proper) (h : g.Reaches path holder) (hlocation : locationOf path = "") :
    path = [] := by
  cases h with
  | root => rfl
  | part reached found _ part =>
    rw [locationOf_append] at hlocation
    exact absurd hlocation
      (Step.after_ne_empty ((hg.named_of_node? (reached.named hg) found).steps _ part) _)

/-! ## Without a problem -/

section Covered

variable {met : List String}

/-- With the name of a shared node the node itself is covered. -/
theorem Reaches.covered_node (hmet : ∀ name ∈ met, ∀ node, Assoc.get? name g.shared = some node →
      Covered g.shared met (g.root = .shared name) node)
    (h : g.Reaches path holder) (hholder : Covered g.shared met (g.IsRoot path holder) holder)
    (hnode : g.node? holder = some node) : Covered g.shared met (g.IsRoot path holder) node := by
  rcases node?_eq_some hnode with rfl | ⟨name, rfl, hname⟩
  · exact hholder
  · refine (hmet name (hholder.known hname) node hname).weaken fun _ => ?_
    rintro (hpath | ⟨_, hroot, hname⟩)
    · exact (h.eq_root hpath).symm
    · exact hroot.trans hname.symm

/-- If the root and the shared nodes that have been met are covered, so is every node that is reached. -/
theorem Reaches.covered (hroot : Covered g.shared met True g.root)
    (hmet : ∀ name ∈ met, ∀ node, Assoc.get? name g.shared = some node →
      Covered g.shared met (g.root = .shared name) node)
    (h : g.Reaches path holder) : Covered g.shared met (g.IsRoot path holder) holder := by
  induction h with
  | root => exact hroot.weaken fun _ _ => trivial
  | part reached found way part ih =>
    refine ((reached.covered_node hmet ih found).parts way _ part).weaken fun hown => ?_
    -- as a part the root is met by its name only
    rintro (hpath | ⟨name, -, hname⟩)
    · simp at hpath
    · rw [hname] at hown
      cases hown

/-- If the visits that begin with the root end without a problem, no node lacks an attribute. -/
theorem not_lacks_of_visits (hg : g.Proper) (h : Visits g.shared [] [("", g.root)] (.ok met)) (name : String) :
    ¬g.Lacks path node name := by
  rintro ⟨⟨holder, hreached, hnode⟩, hrequired, hundeclared⟩
  have hroot (node : GraphNode) (hnode : Named node) {seen : List String}
      (hv : Visits g.shared seen [("", node)] (.ok met)) : Covered g.shared met True node :=
    ((hv.covered hg.shared rfl (by simpa using hnode)).2.1 _ List.mem_cons_self).weaken fun _ _ => rfl
  obtain ⟨-, -, hmet⟩ := h.covered hg.shared rfl (by simpa using hg.root)
  have hmet : ∀ name ∈ met, ∀ node, Assoc.get? name g.shared = some node →
      Covered g.shared met (g.root = .shared name) node := by
    intro name hname node hnode
    by_cases heq : g.root = .shared name
    · rw [heq] at h
      cases h with
      | missing nothing => simp [nothing] at hnode
      | again _ known => cases known
      | first found _ rest =>
        cases found.symm.trans hnode
        exact (hroot node (hg.shared _ (Assoc.mem_of_get? hnode)) rest).weaken fun _ _ => trivial
      | reference _ refers => cases refers
      | opened own => cases own
    · exact (hmet name hname (by simp) node hnode).weaken fun _ => False.elim ∘ heq
  have hholder := hreached.covered (hroot g.root hg.root h) hmet
  exact hundeclared ((hreached.covered_node hmet hholder hnode).declared name hrequired)

end Covered

/-! ## With a problem -/

/-- The node stands where it is reached from the root by steps with the location. -/
def Stands (g : SchemaGraph) (location : String) (node : GraphNode) : Prop :=
  ∃ path holder, g.Reaches path holder ∧ locationOf path = location ∧ (holder = node ∨ g.node? holder = some node)

/-- A problem of visits is that of a node that lacks an attribute, at its location. -/
theorem lacks_of_visits (hg : g.Proper) {seen : List String} {waiting : List (String × GraphNode)}
    {r : Except Problem (List String)} (h : Visits g.shared seen waiting r) {problem : Problem}
    (hr : r = .error problem) (hwaiting : ∀ w ∈ waiting, g.Stands w.1 w.2) :
    ∃ path node name, problem = .undeclared name (locationOf path) ∧ g.Lacks path node name := by
  induction h with
  | done => cases hr
  | missing _ _ ih => exact ih hr (List.forall_mem_cons.1 hwaiting).2
  | again _ _ _ ih => exact ih hr (List.forall_mem_cons.1 hwaiting).2
  | @first _ _ name node waiting r found _ _ ih =>
    obtain ⟨⟨path, holder, hreached, hlocation, hholder⟩, hwaiting⟩ := List.forall_mem_cons.1 hwaiting
    refine ih hr (List.forall_mem_cons.2 ⟨⟨path, holder, hreached, hlocation, .inr ?_⟩, hwaiting⟩)
    rcases hholder with rfl | hnode
    · exact found
    · cases hg.isOwn_of_node? hnode
  | @undeclared _ _ _ node _ problem =>
    obtain ⟨path, holder, hreached, rfl, hholder⟩ := hwaiting _ List.mem_cons_self
    have hnode : g.node? holder = some node :=
      hholder.elim (fun heq => heq ▸ node?_of_isOwn (isOwn_of_undeclared problem)) id
    obtain ⟨hrequired, hnot⟩ := undeclared?_eq_some problem
    cases hr
    exact ⟨path, node, _, rfl, ⟨holder, hreached, hnode⟩, hrequired, hnot⟩
  | reference _ _ _ _ ih => exact ih hr (List.forall_mem_cons.1 hwaiting).2
  | @opened _ location node waiting r own _ opened _ ih =>
    obtain ⟨⟨path, holder, hreached, hlocation, hholder⟩, hwaiting⟩ := List.forall_mem_cons.1 hwaiting
    have hnode : g.node? holder = some node := hholder.elim (fun heq => heq ▸ node?_of_isOwn own) id
    refine ih hr (List.forall_mem_append.2 ⟨List.forall_mem_map.2 fun e he => ?_, hwaiting⟩)
    refine ⟨path ++ [e.1], e.2, hreached.part hnode (fun hr => .inl ?_) he, ?_, .inl rfl⟩
    · exact hreached.path_eq_nil hg (hlocation.trans (opened hr))
    · rw [locationOf_append, hlocation]

/-! ## The check -/

structure Exact (g : SchemaGraph) : Prop where
  /-- The visits that begin with the root come to an end, and the check gives what they come to, however many levels it
  is allowed. -/
  ends : ∀ levels, g.shared.length ≤ levels → ∀ r,
    Visits g.shared [] [("", g.root)] r ↔ r = g.root.check (checkShared g.shared levels) "" []
  /-- There is no problem just when every node that is reached has the attributes that it requires. -/
  sound : g.problem? = none ↔ ∀ path holder node, g.Reaches path holder → g.node? holder = some node →
    ∀ name ∈ node.required, name ∈ node.names
  /-- A declared schema also needs a model type. -/
  declared : g.problemOfDeclared? = none ↔ g.rootFacts.modelType.isSome = true ∧ g.problem? = none
  /-- A problem is that of a node that is reached and lacks an attribute, at its location. -/
  lacks : ∀ problem, g.problem? = some problem →
    ∃ path node name, problem = .undeclared name (locationOf path) ∧ g.Lacks path node name
  /-- So it is for a declared schema. -/
  declaredLacks : ∀ name location, g.problemOfDeclared? = some (.undeclared name location) →
    ∃ path node, location = locationOf path ∧ g.Lacks path node name

theorem problem?_eq_some {problem : Problem} : g.problem? = some problem ↔
    g.root.check (checkShared g.shared g.shared.length) "" [] = .error problem := by
  rw [problem?]
  cases g.root.check (checkShared g.shared g.shared.length) "" [] <;> simp

theorem problem?_eq_none : g.problem? = none ↔
    ∃ met, g.root.check (checkShared g.shared g.shared.length) "" [] = .ok met := by
  rw [problem?]
  cases g.root.check (checkShared g.shared g.shared.length) "" [] <;> simp

theorem visits_root (g : SchemaGraph) :
    Visits g.shared [] [("", g.root)] (g.root.check (checkShared g.shared g.shared.length) "" []) :=
  visits_check (Nat.le_refl _) g.root

theorem lacks_of_problem (hg : g.Proper) {problem : Problem} (h : g.problem? = some problem) :
    ∃ path node name, problem = .undeclared name (locationOf path) ∧ g.Lacks path node name :=
  lacks_of_visits hg g.visits_root (problem?_eq_some.1 h)
    (List.forall_mem_singleton.2 ⟨[], g.root, .root, rfl, .inl rfl⟩)

theorem problem?_eq_none_iff (hg : g.Proper) : g.problem? = none ↔ ∀ path node name, ¬g.Lacks path node name := by
  constructor
  · intro h path node name
    obtain ⟨met, hmet⟩ := problem?_eq_none.1 h
    exact not_lacks_of_visits hg (hmet ▸ g.visits_root) name
  · intro h
    cases hproblem : g.problem? with
    | none => rfl
    | some problem =>
      obtain ⟨path, node, name, -, hlacks⟩ := lacks_of_problem hg hproblem
      exact absurd hlacks (h path node name)

/-- **The check of a graph is exact**, whatever nodes are shared and whatever refers back to nodes above it. -/
theorem check_exact (hg : g.Proper) : g.Exact where
  ends levels hlevels r := by
    refine ⟨fun h => h.unique (visits_check hlevels g.root), ?_⟩
    rintro rfl
    exact visits_check hlevels g.root
  sound := by
    rw [problem?_eq_none_iff hg]
    constructor
    · intro h path holder node hreached hnode name hrequired
      refine Decidable.byContradiction fun hnot => ?_
      exact h path node name ⟨⟨holder, hreached, hnode⟩, hrequired, hnot⟩
    · rintro h path node name ⟨⟨holder, hreached, hnode⟩, hrequired, hnot⟩
      exact hnot (h path holder node hreached hnode name hrequired)
  declared := by
    rw [problemOfDeclared?]
    cases g.rootFacts.modelType <;> simp
  lacks problem := lacks_of_problem hg
  declaredLacks name location h := by
    have hproblem : g.problem? = some (.undeclared name location) := by
      rw [problemOfDeclared?] at h
      split at h
      · cases h
      · exact h
    obtain ⟨path, node, _, heq, hlacks⟩ := lacks_of_problem hg hproblem
    cases heq
    exact ⟨path, node, rfl, hlacks⟩

/-- Two schemas that refer to each other, of which the second requires a name that it does not declare. -/
def pair : SchemaGraph where
  root := .shared "Parent"
  shared := [
    ("Parent", .own { required := ["child"] } [("child", .shared "Child")] none none none []),
    ("Child", .own { required := ["parents", "name"] } [("parents", .own {} [] (some (.shared "Parent")) none none [])]
      none none none [])]

theorem check_exact_of_pair : pair.Proper ∧ pair.Exact ∧
    pair.problem? = some (.undeclared "name" (locationOf [.property "child"])) := by
  have hleaf (name : String) : Named (.shared name) := .intro (by simp [parts]) (by simp [parts])
  have hitems : Named (.own {} [] (some (.shared "Parent")) none none []) :=
    .intro (by simp [parts]) (by simpa [parts] using hleaf "Parent")
  have hproper : pair.Proper := by
    refine ⟨by simp [pair, isOwn], ?_, hleaf "Parent"⟩
    refine List.forall_mem_cons.2 ⟨.intro (by simp [parts]) ?_, List.forall_mem_singleton.2 (.intro (by simp [parts]) ?_)⟩
    · simpa [parts] using hleaf "Child"
    · simpa [parts] using hitems
  exact ⟨hproper, check_exact hproper, by decide⟩

end SchemaGraph

end SchemaDocs
