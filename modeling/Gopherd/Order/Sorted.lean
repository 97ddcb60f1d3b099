import Gopherd.Lib.Topological
import Gopherd.Order.Topo

/-!
What the sorters guarantee.
-/

namespace Gopherd.Order

open Topological

def Precedes (nodes : List Node) (a b : String) : Prop :=
  ∃ node ∈ nodes, (node.name = b ∧ (a ∈ node.after ∨ a ∈ node.requires)) ∨
    (node.name = a ∧ b ∈ node.before)

/-- The edges that one of the lists of `node` stands for. -/
def ListEdge (node : Node) (list : EdgeList) (deps : List String) (edge : Edge) : Prop :=
  match list with
  | .before => edge.1 = node.name ∧ edge.2 ∈ deps
  | _ => edge.2 = node.name ∧ edge.1 ∈ deps

structure Extends (names : List String) (edges edges' : List Edge) (new : Edge → Prop) : Prop where
  nodup : edges.Nodup → edges'.Nodup
  mem : ∀ edge, edge ∈ edges' ↔ edge ∈ edges ∨ new edge
  known : ∀ edge, new edge → edge.1 ∈ names ∧ edge.2 ∈ names

namespace Extends

variable {names : List String} {edges edges' edges'' : List Edge} {new new' : Edge → Prop}

theorem refl (edges : List Edge) : Extends names edges edges fun _ => False :=
  ⟨id, by simp, by simp⟩

theorem addEdge (hfirst : edge.1 ∈ names) (hsecond : edge.2 ∈ names) :
    Extends names edges (addEdge edges edge) (· = edge) := by
  refine ⟨?_, ?_, ?_⟩
  · intro hnodup
    unfold Order.addEdge
    split_ifs with hmem
    · exact hnodup
    · rw [List.nodup_append]
      refine ⟨hnodup, List.nodup_singleton _, ?_⟩
      rintro other hother _ hedge rfl
      exact hmem (List.mem_singleton.mp hedge ▸ hother)
  · intro other
    unfold Order.addEdge
    split_ifs with hmem
    · constructor
      · exact .inl
      · rintro (h | rfl)
        · exact h
        · exact hmem
    · simp
  · rintro _ rfl
    exact ⟨hfirst, hsecond⟩

theorem trans (hfirst : Extends names edges edges' new)
    (hsecond : Extends names edges' edges'' new') :
    Extends names edges edges'' fun edge => new edge ∨ new' edge := by
  refine ⟨fun h => hsecond.nodup (hfirst.nodup h), ?_, ?_⟩
  · intro edge
    rw [hsecond.mem, hfirst.mem, or_assoc]
  · rintro edge (h | h)
    · exact hfirst.known edge h
    · exact hsecond.known edge h

theorem congr (h : Extends names edges edges' new) (hiff : ∀ edge, new edge ↔ new' edge) :
    Extends names edges edges' new' :=
  ⟨h.nodup, fun edge => (h.mem edge).trans (or_congr_right (hiff edge)),
    fun edge hedge => h.known edge ((hiff edge).mpr hedge)⟩

end Extends

variable {names sorted : List String} {edges edges' : List Edge} {nodes : List Node} {name : String}

theorem addList_extends (hnode : node.name ∈ names) (list : EdgeList)
    (hadd : addList names node list deps edges = .ok edges') :
    Extends names edges edges' (ListEdge node list deps) := by
  unfold addList at hadd
  induction deps generalizing edges with
  | nil =>
    cases hadd
    exact (Extends.refl _).congr fun edge => by cases list <;> simp [ListEdge]
  | cons dep rest ih =>
    rw [List.foldlM_cons] at hadd
    obtain ⟨next, hnext, hrest⟩ := Except.bind_eq_ok.mp hadd
    split_ifs at hnext with hknown
    have hdep : dep ∈ names := by simpa using hknown
    cases list with
    | before =>
      cases hnext
      refine ((Extends.addEdge hnode hdep).trans (ih hrest)).congr fun edge => ?_
      simp only [ListEdge, List.mem_cons, Prod.ext_iff]
      tauto
    | _ =>
      cases hnext
      refine ((Extends.addEdge hdep hnode).trans (ih hrest)).congr fun edge => ?_
      simp only [ListEdge, List.mem_cons, Prod.ext_iff]
      tauto

def NodeEdge (node : Node) (edge : Edge) : Prop :=
  (node.name = edge.2 ∧ (edge.1 ∈ node.after ∨ edge.1 ∈ node.requires)) ∨
    (node.name = edge.1 ∧ edge.2 ∈ node.before)

theorem addNode_extends (hnode : node.name ∈ names) (hadd : addNode names edges node = .ok edges') :
    Extends names edges edges' (NodeEdge node) := by
  obtain ⟨first, hafter, hadd⟩ := Except.bind_eq_ok.mp hadd
  obtain ⟨second, hbefore, hrequires⟩ := Except.bind_eq_ok.mp hadd
  refine (((addList_extends hnode .after hafter).trans
    (addList_extends hnode .before hbefore)).trans
    (addList_extends hnode .requires hrequires)).congr fun edge => ?_
  simp only [ListEdge, NodeEdge, eq_comm (a := node.name)]
  tauto

theorem foldlM_addNode_extends (hnodes : ∀ node ∈ nodes, node.name ∈ names)
    (hadd : nodes.foldlM (addNode names) edges = .ok edges') :
    Extends names edges edges' fun edge => Precedes nodes edge.1 edge.2 := by
  induction nodes generalizing edges with
  | nil =>
    cases hadd
    exact (Extends.refl _).congr fun edge => by simp [Precedes]
  | cons node rest ih =>
    rw [List.foldlM_cons] at hadd
    obtain ⟨next, hnext, hrest⟩ := Except.bind_eq_ok.mp hadd
    have hhead := addNode_extends (hnodes node List.mem_cons_self) hnext
    have htail := ih (fun n hn => hnodes n (List.mem_cons_of_mem _ hn)) hrest
    refine (hhead.trans htail).congr fun edge => ?_
    simp [Precedes, NodeEdge]

structure EdgesOf (nodes : List Node) (edges : List Edge) : Prop where
  nodup : edges.Nodup
  mem : ∀ a b, (a, b) ∈ edges ↔ Precedes nodes a b
  known : ∀ a b, (a, b) ∈ edges → a ∈ nodes.map Node.name ∧ b ∈ nodes.map Node.name
  distinct : (nodes.map Node.name).Nodup

theorem buildEdges_edgesOf (hbuild : buildEdges nodes = .ok edges) : EdgesOf nodes edges := by
  obtain ⟨_, hdistinct, hadd⟩ := Except.bind_eq_ok.mp hbuild
  have hext := foldlM_addNode_extends (fun node hnode => List.mem_map_of_mem hnode) hadd
  have hmem : ∀ a b, (a, b) ∈ edges ↔ Precedes nodes a b := by
    intro a b
    rw [hext.mem]
    simp
  exact ⟨hext.nodup List.nodup_nil, hmem, fun a b h => hext.known (a, b) ((hmem a b).mp h),
    (checkDistinct_ok hdistinct).1⟩

theorem EdgesOf.fromCycle_iff (h : EdgesOf nodes edges) :
    FromCycle (Precedes nodes) name ↔ FromCycle (fun a b => (a, b) ∈ edges) name := by
  have hsame : (fun a b => (a, b) ∈ edges) = Precedes nodes := by
    funext a b
    exact propext (h.mem a b)
  rw [hsame]

theorem mem_successors : other ∈ successors edges name ↔ (name, other) ∈ edges := by
  simp [successors]

theorem successors_nodup (hnodup : edges.Nodup) (name : String) :
    (successors edges name).Nodup := by
  refine List.Nodup.map_on ?_ (hnodup.filter _)
  rintro ⟨a, b⟩ hab ⟨c, d⟩ hcd heq
  simp only [List.mem_filter, decide_eq_true_eq] at hab hcd
  rw [hab.2, hcd.2, show b = d from heq]

theorem startDegree_eq (edges : List Edge) (name : String) :
    startDegree edges name = openDegree edges [] name := by
  simp [startDegree, openDegree, List.countP_eq_length_filter]

theorem release_eq (hnodup : neighbors.Nodup) (inDegree : String → Int) (queue : List String) :
    (∀ name, (release neighbors inDegree queue).1 name =
        inDegree name - if name ∈ neighbors then 1 else 0) ∧
      (release neighbors inDegree queue).2 =
        queue ++ neighbors.filter (fun name => inDegree name = 1) := by
  induction neighbors generalizing inDegree queue with
  | nil => simp [release]
  | cons neighbor rest ih =>
    obtain ⟨hfirst, hrest⟩ := List.nodup_cons.mp hnodup
    obtain ⟨hdegree, hqueue⟩ := ih hrest
      (Function.update inDegree neighbor (inDegree neighbor - 1))
      (if inDegree neighbor - 1 = 0 then queue ++ [neighbor] else queue)
    refine ⟨?_, ?_⟩
    · intro name
      rw [release, hdegree]
      by_cases hname : name = neighbor
      · subst hname
        simp [hfirst]
      · simp [hname]
    · rw [release, hqueue]
      have hsame : rest.filter (fun name =>
          Function.update inDegree neighbor (inDegree neighbor - 1) name = 1) =
          rest.filter (fun name => inDegree name = 1) := by
        refine List.filter_congr fun name hname => ?_
        have hne : name ≠ neighbor := fun h => hfirst (h ▸ hname)
        simp [hne]
      rw [hsame, List.filter_cons]
      by_cases hone : inDegree neighbor = 1
      · simp [hone]
      · have hleft : inDegree neighbor - 1 ≠ 0 := by omega
        simp [hone, hleft]

structure Kahn (nodes : List Node) (edges : List Edge) (queue : List String)
    (inDegree : String → Int) (result : List String) : Prop where
  nodup : (result ++ queue).Nodup
  degree : ∀ name, inDegree name = openDegree edges result name
  ready : ∀ name, name ∈ result ++ queue ↔
    name ∈ nodes.map Node.name ∧ openDegree edges result name = 0
  ordered : Ordered edges result

namespace Kahn

variable {nodes : List Node} {edges : List Edge} {queue : List String}
  {inDegree : String → Int} {result : List String}

theorem start (hedges : EdgesOf nodes edges) :
    Kahn nodes edges ((nodes.map Node.name).filter fun name => startDegree edges name = 0)
      (startDegree edges) [] := by
  refine ⟨hedges.distinct.filter _, startDegree_eq edges, ?_, .nil edges⟩
  intro name
  simp only [List.nil_append, List.mem_filter, startDegree_eq, decide_eq_true_eq]
  norm_cast

theorem next (hedges : EdgesOf nodes edges) (h : Kahn nodes edges (node :: queue) inDegree result) :
    Kahn nodes edges (release (successors edges node) inDegree queue).2
      (release (successors edges node) inDegree queue).1 (result ++ [node]) := by
  obtain ⟨hdegree, hqueue⟩ := release_eq (successors_nodup hedges.nodup node) inDegree queue
  have hnode : node ∉ result := fun hmem =>
    (List.nodup_append.mp h.nodup).2.2 node hmem node List.mem_cons_self rfl
  have hopen := openDegree_append_singleton hedges.nodup hnode
  have hready := (h.ready node).mp (by simp)
  -- what joins the queue had one open edge, so it was not ready before
  have hjoins : ∀ name, name ∈ (successors edges node).filter (fun name => inDegree name = 1) ↔
      (node, name) ∈ edges ∧ openDegree edges result name = 1 := by
    intro name
    rw [List.mem_filter, mem_successors, decide_eq_true_eq, h.degree]
    norm_cast
  refine ⟨?_, ?_, ?_, h.ordered.append_singleton (openDegree_eq_zero.mp hready.2)⟩
  · rw [hqueue, List.append_assoc, List.singleton_append, ← List.cons_append,
      ← List.append_assoc, List.nodup_append]
    refine ⟨h.nodup, (successors_nodup hedges.nodup node).filter _, ?_⟩
    rintro name hold _ hnew rfl
    have hzero := ((h.ready name).mp hold).2
    have hone := ((hjoins name).mp hnew).2
    omega
  · intro name
    rw [hdegree, h.degree, hopen name]
    simp only [mem_successors]
    split_ifs <;> simp
  · intro name
    have hbefore := h.ready name
    rw [hqueue, List.append_assoc, List.singleton_append, ← List.cons_append,
      ← List.append_assoc, List.mem_append, hbefore, hjoins]
    have hcount := hopen name
    constructor
    · rintro (⟨hname, hzero⟩ | ⟨hedge, hone⟩)
      · exact ⟨hname, by omega⟩
      · rw [if_pos hedge] at hcount
        exact ⟨(hedges.known _ _ hedge).2, by omega⟩
    · rintro ⟨hname, hzero⟩
      by_cases hedge : (node, name) ∈ edges
      · rw [if_pos hedge] at hcount
        exact .inr ⟨hedge, by omega⟩
      · rw [if_neg hedge] at hcount
        exact .inl ⟨hname, by omega⟩

/-- The number of names is enough fuel: the queue is empty in the end. -/
theorem kahn (hedges : EdgesOf nodes edges) (hfuel : nodes.length ≤ fuel + result.length)
    (h : Kahn nodes edges queue inDegree result) :
    Kahn nodes edges [] (kahn edges fuel queue inDegree result).2
      (kahn edges fuel queue inDegree result).1 := by
  induction fuel generalizing queue inDegree result with
  | zero =>
    have hknown : result ++ queue ⊆ nodes.map Node.name := fun name hname =>
      ((h.ready name).mp hname).1
    have hlength := (List.subperm_of_subset h.nodup hknown).length_le
    rw [List.length_append, List.length_map] at hlength
    obtain rfl : queue = [] := List.eq_nil_of_length_eq_zero (by omega)
    exact h
  | succ fuel ih =>
    cases queue with
    | nil => exact h
    | cons node rest =>
      refine ih ?_ (h.next hedges)
      rw [List.length_append, List.length_singleton]
      omega

/-- What is left of the names in the end. -/
theorem left_iff (hedges : EdgesOf nodes edges) (h : Kahn nodes edges [] inDegree result)
    (hname : name ∈ nodes.map Node.name) : name ∉ result ↔ FromCycle (Precedes nodes) name := by
  rw [hedges.fromCycle_iff]
  refine h.ordered.left_iff h.nodup.of_append_left (fun a b hab => (hedges.known a b hab).1) ?_
    hname
  intro b hb hleft hzero
  have hready := (h.ready b).mpr ⟨hb, hzero⟩
  rw [List.append_nil] at hready
  exact hleft hready

theorem mem_cycled (hedges : EdgesOf nodes edges) (h : Kahn nodes edges [] inDegree result)
    (hname : name ∈ nodes.map Node.name) : 0 < inDegree name ↔ FromCycle (Precedes nodes) name := by
  have hready := h.ready name
  rw [List.append_nil] at hready
  rw [← h.left_iff hedges hname, hready, h.degree]
  simp only [hname, true_and]
  omega

end Kahn

structure SortOf (nodes : List Node) (sorted : List String) : Prop where
  perm : sorted.Perm (nodes.map Node.name)
  nodup : sorted.Nodup
  ordered : ∀ before b after, sorted = before ++ b :: after → ∀ a,
    Relation.TransGen (Precedes nodes) a b → a ∈ before

theorem topoSort_ordered (hsort : topoSort nodes = .ok sorted) :
    ∃ edges, buildEdges nodes = .ok edges ∧ sorted.Perm (nodes.map Node.name) ∧
      Ordered edges sorted := by
  obtain ⟨edges, hbuild, hsort⟩ := Except.bind_eq_ok.mp hsort
  have hedges := buildEdges_edgesOf hbuild
  have hkahn := (Kahn.start hedges).kahn hedges
    (by simp : _ ≤ (nodes.map Node.name).length + ([] : List String).length)
  dsimp only at hsort
  split_ifs at hsort with hlength
  obtain rfl := Except.pure_eq_ok.mp hsort
  refine ⟨edges, hbuild, ?_, hkahn.ordered⟩
  have hnodup := hkahn.nodup.of_append_left
  refine (List.subperm_of_subset hnodup ?_).perm_of_length_le ?_
  · intro name hname
    exact ((hkahn.ready name).mp (List.mem_append_left _ hname)).1
  · exact Nat.le_of_eq (not_not.mp hlength).symm

theorem topoSort_sortOf (hsort : topoSort nodes = .ok sorted) : SortOf nodes sorted := by
  obtain ⟨edges, hbuild, hperm, hordered⟩ := topoSort_ordered hsort
  have hedges := buildEdges_edgesOf hbuild
  refine ⟨hperm, hperm.nodup_iff.mpr hedges.distinct, ?_⟩
  intro before b after heq a hpath
  have hedgePath := Relation.TransGen.mono (fun x y => (hedges.mem x y).mpr) _ _ hpath
  exact hordered.mem_before hedgePath heq

structure Drained (nodes : List Node) (edges : List Edge) (inDegree : String → Int)
    (done : List String) : Prop where
  nodup : done.Nodup
  known : done ⊆ nodes.map Node.name
  left : ∀ name, name ∉ done → inDegree name = openDegree edges done name
  drained : ∀ name ∈ done, inDegree name < 0

namespace Drained

variable {nodes : List Node} {edges : List Edge} {inDegree : String → Int} {done : List String}

theorem start (edges : List Edge) : Drained nodes edges (startDegree edges) [] :=
  ⟨List.nodup_nil, List.nil_subset _, fun name _ => startDegree_eq edges name, by simp⟩

theorem foldl_update (neighbors : List String) (hnodup : neighbors.Nodup)
    (inDegree : String → Int) (name : String) :
    neighbors.foldl (fun degree neighbor =>
      Function.update degree neighbor (degree neighbor - 1)) inDegree name =
      inDegree name - if name ∈ neighbors then 1 else 0 := by
  induction neighbors generalizing inDegree with
  | nil => simp
  | cons neighbor rest ih =>
    obtain ⟨hfirst, hrest⟩ := List.nodup_cons.mp hnodup
    rw [List.foldl_cons, ih hrest]
    by_cases hname : name = neighbor
    · subst hname
      simp [hfirst]
    · simp [hname]

/-- Draining a layer takes its services out of the graph. -/
theorem drain (hedges : EdgesOf nodes edges) (hlayer : layer.Nodup)
    (hknown : layer ⊆ nodes.map Node.name) (hnew : ∀ name ∈ layer, name ∉ done)
    (h : Drained nodes edges inDegree done) :
    Drained nodes edges (drain edges layer inDegree) (done ++ layer) := by
  induction layer generalizing inDegree done with
  | nil => simpa [Order.drain] using h
  | cons first rest ih =>
    obtain ⟨hfirst, hrest⟩ := List.nodup_cons.mp hlayer
    have hfirstNew := hnew first List.mem_cons_self
    have hdegree : ∀ name, (successors edges first).foldl (fun degree neighbor =>
        Function.update degree neighbor (degree neighbor - 1))
        (Function.update inDegree first (-1)) name =
        Function.update inDegree first (-1) name - if (first, name) ∈ edges then 1 else 0 := by
      intro name
      rw [foldl_update _ (successors_nodup hedges.nodup first)]
      simp only [mem_successors]
    rw [Order.drain, List.append_cons]
    refine ih hrest (fun name hname => hknown (List.mem_cons_of_mem _ hname)) ?_ ⟨?_, ?_, ?_, ?_⟩
    · intro name hname hmem
      rcases List.mem_append.mp hmem with hdone | hsame
      · exact hnew name (List.mem_cons_of_mem _ hname) hdone
      · exact hfirst (List.mem_singleton.mp hsame ▸ hname)
    · rw [List.nodup_append]
      refine ⟨h.nodup, List.nodup_singleton _, ?_⟩
      rintro name hname _ hsame rfl
      exact hfirstNew (List.mem_singleton.mp hsame ▸ hname)
    · exact List.append_subset.mpr ⟨h.known, by simpa using hknown List.mem_cons_self⟩
    · intro name hname
      simp only [List.mem_append, List.mem_singleton, not_or] at hname
      have hopen := openDegree_append_singleton hedges.nodup hfirstNew name
      rw [hdegree, Function.update_of_ne hname.2, h.left name hname.1, hopen]
      split_ifs <;> simp
    · intro name hname
      rw [hdegree]
      by_cases hsame : name = first
      · subst hsame
        simp only [Function.update_self]
        split_ifs <;> omega
      · have hdone : name ∈ done := by simpa [hsame] using hname
        have hneg := h.drained name hdone
        rw [Function.update_of_ne hsame]
        split_ifs <;> omega

/-- The next layer holds the services that are ready. -/
theorem mem_layer (h : Drained nodes edges inDegree done) :
    name ∈ sortNames ((nodes.map Node.name).filter fun name => inDegree name = 0) ↔
      name ∈ nodes.map Node.name ∧ name ∉ done ∧ openDegree edges done name = 0 := by
  rw [sortNames, List.mem_insertionSort, List.mem_filter, decide_eq_true_eq]
  refine and_congr_right fun _ => ?_
  by_cases hdone : name ∈ done
  · have hneg := h.drained name hdone
    simp only [hdone, not_true_eq_false, false_and, iff_false]
    omega
  · rw [h.left name hdone]
    simp [hdone]

end Drained

/-- Each layer only holds services whose predecessors are in `done` or in an
earlier layer. -/
def Layered (edges : List Edge) (done : List String) (layers : List (List String)) : Prop :=
  ∀ before layer after, layers = before ++ layer :: after → ∀ b ∈ layer, ∀ a,
    (a, b) ∈ edges → a ∈ done ++ before.flatten

theorem Layered.cons {edges : List Edge} {done layer : List String}
    {layers : List (List String)} (hlayer : ∀ b ∈ layer, ∀ a, (a, b) ∈ edges → a ∈ done)
    (hrest : Layered edges (done ++ layer) layers) : Layered edges done (layer :: layers) := by
  intro before other after heq b hb a ha
  cases before with
  | nil =>
    obtain ⟨rfl, -⟩ := List.cons.inj heq
    simpa using hlayer b hb a ha
  | cons first before =>
    obtain ⟨rfl, hlayers⟩ := List.cons.inj heq
    simpa using hrest before other after hlayers b hb a ha

/-- The layers, one after the other, are an order. -/
theorem Layered.ordered (hdone : Ordered edges done) (h : Layered edges done layers) :
    Ordered edges (done ++ layers.flatten) := by
  induction layers generalizing done with
  | nil => simpa using hdone
  | cons layer rest ih =>
    rw [List.flatten_cons, ← List.append_assoc]
    refine ih (hdone.append ?_) ?_
    · intro b hb a ha
      simpa using h [] layer rest rfl b hb a ha
    · intro before next after heq b hb a ha
      have hmem := h (layer :: before) next after (by rw [heq]; rfl) b hb a ha
      simpa [List.append_assoc] using hmem

/-- Each service of a later layer had a predecessor left one layer before. -/
def Waiting (edges : List Edge) (done : List String) (layers : List (List String)) : Prop :=
  ∀ before previous layer after, layers = before ++ previous :: layer :: after → ∀ b ∈ layer,
    ∃ a, (a, b) ∈ edges ∧ a ∉ done ++ before.flatten

structure Collected (nodes : List Node) (edges : List Edge) (done : List String)
    (layers : List (List String)) : Prop where
  perm : (done ++ layers.flatten).Perm (nodes.map Node.name)
  layered : Layered edges done layers
  waiting : Waiting edges done layers

structure Stuck (nodes : List Node) (edges : List Edge) (inDegree : String → Int)
    (done : List String) : Prop extends Drained nodes edges inDegree done where
  ordered : Ordered edges done
  blocked : ∀ name ∈ nodes.map Node.name, name ∉ done → openDegree edges done name ≠ 0
  rest : ∃ name ∈ nodes.map Node.name, name ∉ done

theorem Stuck.mem_cycled {inDegree : String → Int} (hedges : EdgesOf nodes edges)
    (h : Stuck nodes edges inDegree done) (hname : name ∈ nodes.map Node.name) :
    0 < inDegree name ↔ FromCycle (Precedes nodes) name := by
  rw [hedges.fromCycle_iff, ← h.ordered.left_iff h.nodup
    (fun a b hab => (hedges.known a b hab).1) h.blocked hname]
  constructor
  · intro hpos hdone
    have hneg := h.drained name hdone
    omega
  · intro hleft
    have hopen := h.blocked name hname hleft
    rw [h.left name hleft]
    omega

theorem Collected.cons {nodes : List Node} {edges : List Edge} (hedges : EdgesOf nodes edges)
    {done layer : List String} {layers : List (List String)}
    (hmem : ∀ name, name ∈ layer ↔ name ∈ nodes.map Node.name ∧ name ∉ done ∧
      openDegree edges done name = 0)
    (hrest : Collected nodes edges (done ++ layer) layers) :
    Collected nodes edges done (layer :: layers) := by
  have hperm : (done ++ (layer :: layers).flatten).Perm (nodes.map Node.name) := by
    simpa [List.append_assoc] using hrest.perm
  refine ⟨hperm, .cons (fun b hb => openDegree_eq_zero.mp ((hmem b).mp hb).2.2) hrest.layered, ?_⟩
  intro before previous next after heq b hb
  cases before with
  | nil =>
    -- what comes after the first layer was not ready, or it would be in it
    obtain ⟨rfl, rfl⟩ := List.cons.inj heq
    have hall := hperm.nodup_iff.mpr hedges.distinct
    simp only [List.flatten_cons, List.nodup_append, List.mem_append] at hall
    rw [List.flatten_nil, List.append_nil]
    refine exists_open fun hzero => ?_
    have hready := (hmem b).mpr ⟨hperm.subset (by simp [hb]),
      fun hdone => hall.2.2 b hdone b (.inr (.inl hb)) rfl, hzero⟩
    exact hall.2.1.2.2 b hready b (.inl hb) rfl
  | cons first before =>
    obtain ⟨rfl, hlayers⟩ := List.cons.inj heq
    simpa [List.append_assoc] using hrest.waiting before previous next after hlayers b hb

/-- The layers are collected, or the services left get stuck. -/
theorem collectLayers_cases (hedges : EdgesOf nodes edges) {inDegree : String → Int}
    (h : Drained nodes edges inDegree done) (hordered : Ordered edges done)
    (hfuel : (nodes.map Node.name).length < fuel + done.length) :
    (∃ layers, collectLayers edges (nodes.map Node.name) fuel done.length inDegree = .ok layers ∧
      Collected nodes edges done layers) ∨
    ∃ inDegree' done', Stuck nodes edges inDegree' done' ∧
      collectLayers edges (nodes.map Node.name) fuel done.length inDegree =
        .error (.cycle (cycled (nodes.map Node.name) inDegree')) := by
  have hle : done.length ≤ (nodes.map Node.name).length :=
    (List.subperm_of_subset h.nodup h.known).length_le
  induction fuel generalizing inDegree done with
  | zero => omega
  | succ fuel ih =>
    unfold collectLayers
    dsimp only
    split_ifs with hleft hempty
    · refine .inr ⟨inDegree, done, ⟨h, hordered, ?_, ?_⟩, rfl⟩
      · intro name hname hopen hzero
        have hmem := h.mem_layer.mpr ⟨hname, hopen, hzero⟩
        rw [hempty] at hmem
        simp [sortNames] at hmem
      · by_contra hall
        push Not at hall
        have hlength := (List.subperm_of_subset hedges.distinct hall).length_le
        omega
    · generalize hlayer : sortNames ((nodes.map Node.name).filter fun name =>
        decide (inDegree name = 0)) = layer
      have hmem : ∀ name, name ∈ layer ↔ _ := fun name => hlayer ▸ h.mem_layer
      have hlayerNodup : layer.Nodup := by
        rw [← hlayer, sortNames, (List.perm_insertionSort _ _).nodup_iff]
        exact hedges.distinct.filter _
      have hnext := h.drain hedges hlayerNodup (fun name hname => ((hmem name).mp hname).1)
        fun name hname => ((hmem name).mp hname).2.1
      have hnextOrdered := hordered.append fun b hb =>
        openDegree_eq_zero.mp ((hmem b).mp hb).2.2
      have hpos : 0 < layer.length := by
        rw [← hlayer, sortNames, List.length_insertionSort]
        exact List.length_pos_iff.mpr hempty
      rcases ih hnext hnextOrdered (by simp only [List.length_append]; omega)
        (List.subperm_of_subset hnext.nodup hnext.known).length_le with
        ⟨layers, hlayers, hcollected⟩ | ⟨inDegree', done', hstuck, herror⟩
      · rw [List.length_append] at hlayers
        refine .inl ⟨layer :: layers, ?_, hcollected.cons hedges hmem⟩
        simp only [hlayers]
        rfl
      · rw [List.length_append] at herror
        refine .inr ⟨inDegree', done', hstuck, ?_⟩
        simp only [herror]
        rfl
    · refine .inl ⟨[], rfl, ?_, ?_, ?_⟩
      · simpa using (List.subperm_of_subset h.nodup h.known).perm_of_length_le (by omega)
      · intro before layer after heq
        simp at heq
      · intro before previous layer after heq
        simp at heq

theorem topoLayers_cases (hbuild : buildEdges nodes = .ok edges) :
    (∃ layers, topoLayers nodes = .ok layers ∧ Collected nodes edges [] layers) ∨
    ∃ inDegree done, Stuck nodes edges inDegree done ∧
      topoLayers nodes = .error (.cycle (cycled (nodes.map Node.name) inDegree)) := by
  unfold topoLayers
  rw [hbuild]
  exact collectLayers_cases (buildEdges_edgesOf hbuild) (Drained.start edges) (.nil edges)
    (by simp : _ < ((nodes.map Node.name).length + 1) + ([] : List String).length)

structure LayersOf (nodes : List Node) (layers : List (List String)) : Prop where
  perm : layers.flatten.Perm (nodes.map Node.name)
  layered : ∀ before layer after, layers = before ++ layer :: after → ∀ b ∈ layer, ∀ a,
    Precedes nodes a b → a ∈ before.flatten

theorem Collected.layersOf (hedges : EdgesOf nodes edges) (h : Collected nodes edges [] layers) :
    LayersOf nodes layers := by
  refine ⟨h.perm, ?_⟩
  intro before layer after heq b hb a ha
  simpa using h.layered before layer after heq b hb a ((hedges.mem a b).mpr ha)

/-- Services that `TopoSort` accepts are also accepted by `TopoLayers`. -/
theorem topoLayers_of_topoSort (hsort : topoSort nodes = .ok sorted) :
    ∃ layers, topoLayers nodes = .ok layers ∧ LayersOf nodes layers := by
  obtain ⟨edges, hbuild, hperm, hordered⟩ := topoSort_ordered hsort
  have hedges := buildEdges_edgesOf hbuild
  rcases topoLayers_cases hbuild with
    ⟨layers, hlayers, hcollected⟩ | ⟨inDegree, done, hstuck, -⟩
  · exact ⟨layers, hlayers, hcollected.layersOf hedges⟩
  · -- a service that is left would lie behind a cycle
    obtain ⟨name, hname, hleft⟩ := hstuck.rest
    have hcycle := (hstuck.ordered.left_iff hstuck.nodup
      (fun a b hab => (hedges.known a b hab).1) hstuck.blocked hname).mp hleft
    exact absurd hcycle (hordered.not_fromCycle (hperm.nodup_iff.mpr hedges.distinct)
      (hperm.mem_iff.mpr hname))

end Gopherd.Order
