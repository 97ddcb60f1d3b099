import Gopherd.Order.Sorted

/-!
`TopoSort` and `TopoLayers` refuse the same services with the same error.
-/

namespace Gopherd.Order

open Topological

def UnknownReference (nodes : List Node) : Prop :=
  ∃ node ∈ nodes, ∃ dep ∈ node.after ++ node.before ++ node.requires,
    dep ∉ nodes.map Node.name

def Cyclic (nodes : List Node) : Prop :=
  ∃ name, Relation.TransGen (Precedes nodes) name name

variable {nodes : List Node} {names : List String} {edges : List Edge}

theorem checkDistinct_eq_ok :
    checkDistinct nodes seen = .ok () ↔
      (nodes.map Node.name).Nodup ∧ ∀ name ∈ nodes.map Node.name, name ∉ seen := by
  refine ⟨checkDistinct_ok, ?_⟩
  induction nodes generalizing seen with
  | nil => simp [checkDistinct]
  | cons node rest ih =>
    rintro ⟨hnodup, hfresh⟩
    rw [List.map_cons] at hnodup hfresh
    obtain ⟨hfirst, hrest⟩ := List.nodup_cons.mp hnodup
    unfold checkDistinct
    rw [if_neg (hfresh node.name List.mem_cons_self)]
    refine ih ⟨hrest, fun name hname hmem => ?_⟩
    rcases List.mem_cons.mp hmem with rfl | hseen
    · exact hfirst hname
    · exact hfresh name (List.mem_cons_of_mem _ hname) hseen

theorem addList_isOk :
    (∃ edges', addList names node list deps edges = .ok edges') ↔ ∀ dep ∈ deps, dep ∈ names := by
  unfold addList
  induction deps generalizing edges with
  | nil => simp [pure, Except.pure]
  | cons dep rest ih =>
    rw [List.foldlM_cons, List.forall_mem_cons]
    by_cases hdep : dep ∈ names
    · rw [if_neg (by simpa using hdep)]
      simp only [hdep, true_and]
      cases list <;> exact ih
    · simp [hdep, bind, Except.bind]

theorem addNode_isOk :
    (∃ edges', addNode names edges node = .ok edges') ↔
      ∀ dep ∈ node.after ++ node.before ++ node.requires, dep ∈ names := by
  simp only [List.forall_mem_append]
  constructor
  · rintro ⟨edges', hadd⟩
    obtain ⟨first, hafter, hadd⟩ := Except.bind_eq_ok.mp hadd
    obtain ⟨second, hbefore, hrequires⟩ := Except.bind_eq_ok.mp hadd
    exact ⟨⟨addList_isOk.mp ⟨first, hafter⟩, addList_isOk.mp ⟨second, hbefore⟩⟩,
      addList_isOk.mp ⟨edges', hrequires⟩⟩
  · rintro ⟨⟨hafter, hbefore⟩, hrequires⟩
    obtain ⟨first, hfirst⟩ := addList_isOk.mpr hafter
    obtain ⟨second, hsecond⟩ := addList_isOk.mpr hbefore
    obtain ⟨edges', hthird⟩ := addList_isOk.mpr hrequires
    exact ⟨edges', Except.bind_eq_ok.mpr ⟨first, hfirst,
      Except.bind_eq_ok.mpr ⟨second, hsecond, hthird⟩⟩⟩

theorem foldlM_addNode_isOk :
    (∃ edges', nodes.foldlM (addNode names) edges = .ok edges') ↔
      ∀ node ∈ nodes, ∀ dep ∈ node.after ++ node.before ++ node.requires, dep ∈ names := by
  induction nodes generalizing edges with
  | nil => simp [pure, Except.pure]
  | cons node rest ih =>
    rw [List.foldlM_cons, List.forall_mem_cons]
    constructor
    · rintro ⟨edges', hadd⟩
      obtain ⟨next, hnext, hrest⟩ := Except.bind_eq_ok.mp hadd
      exact ⟨addNode_isOk.mp ⟨next, hnext⟩, ih.mp ⟨edges', hrest⟩⟩
    · rintro ⟨hnode, hrest⟩
      obtain ⟨next, hnext⟩ := addNode_isOk.mpr hnode
      obtain ⟨edges', hedges⟩ := ih.mpr hrest
      exact ⟨edges', Except.bind_eq_ok.mpr ⟨next, hnext, hedges⟩⟩

/-- The first pass refuses a name that is given twice and a reference to none. -/
theorem buildEdges_isOk :
    (∃ edges, buildEdges nodes = .ok edges) ↔
      (nodes.map Node.name).Nodup ∧ ¬ UnknownReference nodes := by
  have hknown : ¬ UnknownReference nodes ↔ ∀ node ∈ nodes,
      ∀ dep ∈ node.after ++ node.before ++ node.requires, dep ∈ nodes.map Node.name := by
    unfold UnknownReference
    push Not
    rfl
  have hdistinct : checkDistinct nodes [] = .ok () ↔ (nodes.map Node.name).Nodup := by
    simp [checkDistinct_eq_ok]
  rw [hknown, ← hdistinct]
  constructor
  · rintro ⟨edges, hbuild⟩
    obtain ⟨⟨⟩, hfirst, hadd⟩ := Except.bind_eq_ok.mp hbuild
    exact ⟨hfirst, foldlM_addNode_isOk.mp ⟨edges, hadd⟩⟩
  · rintro ⟨hfirst, hall⟩
    obtain ⟨edges, hadd⟩ := foldlM_addNode_isOk.mpr hall
    exact ⟨edges, Except.bind_eq_ok.mpr ⟨(), hfirst, hadd⟩⟩

/-- The first pass does not look for cycles. -/
theorem buildEdges_ne_cycle :
    buildEdges nodes ≠ .error (.cycle names) := by
  have hdistinct : ∀ nodes seen, checkDistinct nodes seen ≠ .error (.cycle names) := by
    intro nodes seen h
    induction nodes generalizing seen with
    | nil => cases h
    | cons node rest ih =>
      unfold checkDistinct at h
      split_ifs at h
      · cases h
      · exact ih _ h
  have hlist : ∀ {known node list deps edges error}, addList known node list deps edges =
      .error error → error ≠ .cycle names := by
    intro known node list deps edges error h
    refine Except.foldlM_error (· ≠ .cycle names) ?_ h
    intro edges dep error hstep
    split_ifs at hstep
    · cases list <;> cases hstep
    · cases hstep
      simp
  intro h
  rcases Except.bind_eq_error.mp h with hfirst | ⟨_, -, hadd⟩
  · exact hdistinct _ _ hfirst
  · refine Except.foldlM_error (· ≠ .cycle names) ?_ hadd rfl
    intro edges node error hnode
    rcases Except.bind_eq_error.mp hnode with hafter | ⟨_, -, hnode⟩
    · exact hlist hafter
    · rcases Except.bind_eq_error.mp hnode with hbefore | ⟨_, -, hrequires⟩
      · exact hlist hbefore
      · exact hlist hrequires

theorem Precedes.known (hedges : EdgesOf nodes edges) (h : Precedes nodes a b) :
    a ∈ nodes.map Node.name ∧ b ∈ nodes.map Node.name :=
  hedges.known a b ((hedges.mem a b).mpr h)

theorem FromCycle.known (hedges : EdgesOf nodes edges) (h : FromCycle (Precedes nodes) name) :
    name ∈ nodes.map Node.name := by
  obtain ⟨a, hcycle, hpath⟩ := h
  obtain ⟨b, -, hlast⟩ := Relation.TransGen.tail'_iff.mp (hcycle.trans_left hpath)
  exact (hlast.known hedges).2

theorem cyclic_iff_fromCycle :
    Cyclic nodes ↔ ∃ name, FromCycle (Precedes nodes) name := by
  constructor
  · rintro ⟨name, hcycle⟩
    exact ⟨name, name, hcycle, .refl⟩
  · rintro ⟨_, name, hcycle, -⟩
    exact ⟨name, hcycle⟩

/-- The names of a cycle error are those whose degree is left above zero. -/
theorem cycled_congr {left right : String → Int}
    (h : ∀ name ∈ names, (0 < left name ↔ 0 < right name)) :
    cycled names left = cycled names right := by
  unfold cycled
  congr 1
  exact List.filter_congr fun name hname => decide_eq_decide.mpr (h name hname)

theorem mem_cycled_iff (hedges : EdgesOf nodes edges) {inDegree : String → Int}
    (h : ∀ name ∈ nodes.map Node.name, (0 < inDegree name ↔ FromCycle (Precedes nodes) name)) :
    name ∈ cycled (nodes.map Node.name) inDegree ↔ FromCycle (Precedes nodes) name := by
  rw [cycled, sortNames, List.mem_insertionSort, List.mem_filter, decide_eq_true_eq]
  constructor
  · rintro ⟨hname, hpos⟩
    exact (h name hname).mp hpos
  · intro hcycle
    have hname := FromCycle.known hedges hcycle
    exact ⟨hname, (h name hname).mpr hcycle⟩

/-- What `TopoSort` makes of the services when their names and references are
in order. -/
theorem topoSort_cases (hbuild : buildEdges nodes = .ok edges) :
    ((∃ sorted, topoSort nodes = .ok sorted) ∧ ¬ Cyclic nodes) ∨
    (Cyclic nodes ∧ ∃ inDegree, (∀ name ∈ nodes.map Node.name,
        (0 < inDegree name ↔ FromCycle (Precedes nodes) name)) ∧
      topoSort nodes = .error (.cycle (cycled (nodes.map Node.name) inDegree))) := by
  have hedges := buildEdges_edgesOf hbuild
  have hkahn := (Kahn.start hedges).kahn hedges
    (by simp : _ ≤ (nodes.map Node.name).length + ([] : List String).length)
  unfold topoSort
  rw [hbuild]
  simp only [bind, Except.bind]
  generalize kahn edges (nodes.map Node.name).length _ _ _ = final at hkahn ⊢
  have hknown : final.1 ⊆ nodes.map Node.name := fun name hname =>
    ((hkahn.ready name).mp (List.mem_append_left _ hname)).1
  have hnodup := hkahn.nodup.of_append_left
  split_ifs with hlength
  · -- a name is left over
    refine .inr ⟨?_, _, fun name hname => hkahn.mem_cycled hedges hname, rfl⟩
    obtain ⟨name, hname, hleft⟩ : ∃ name ∈ nodes.map Node.name, name ∉ final.1 := by
      by_contra hall
      push Not at hall
      have hle := (List.subperm_of_subset hedges.distinct hall).length_le
      have hge := (List.subperm_of_subset hnodup hknown).length_le
      omega
    exact cyclic_iff_fromCycle.mpr ⟨name, (hkahn.left_iff hedges hname).mp hleft⟩
  · refine .inl ⟨⟨_, rfl⟩, fun hcyclic => ?_⟩
    obtain ⟨name, hcycle⟩ := cyclic_iff_fromCycle.mp hcyclic
    have hname := FromCycle.known hedges hcycle
    have hall := (List.subperm_of_subset hnodup hknown).perm_of_length_le (by omega)
    exact (hkahn.left_iff hedges hname).mpr hcycle (hall.mem_iff.mpr hname)

/-- The services that `TopoSort` accepts. -/
theorem topoSort_isOk :
    (∃ sorted, topoSort nodes = .ok sorted) ↔
      ((nodes.map Node.name).Nodup ∧ ¬ UnknownReference nodes) ∧ ¬ Cyclic nodes := by
  rw [← buildEdges_isOk]
  constructor
  · rintro ⟨sorted, hsort⟩
    obtain ⟨edges, hbuild, -⟩ := Except.bind_eq_ok.mp hsort
    refine ⟨⟨edges, hbuild⟩, ?_⟩
    rcases topoSort_cases hbuild with ⟨-, hacyclic⟩ | ⟨-, inDegree, -, herror⟩
    · exact hacyclic
    · cases herror.symm.trans hsort
  · rintro ⟨⟨edges, hbuild⟩, hacyclic⟩
    rcases topoSort_cases hbuild with ⟨hsort, -⟩ | ⟨hcyclic, -⟩
    · exact hsort
    · exact absurd hcyclic hacyclic

/-- `TopoLayers` stops where `TopoSort` does. -/
theorem topoLayers_eq_error (hbuild : buildEdges nodes = .ok edges) {inDegree : String → Int}
    (hdegree : ∀ name ∈ nodes.map Node.name, (0 < inDegree name ↔ FromCycle (Precedes nodes) name))
    (hcyclic : Cyclic nodes) :
    topoLayers nodes = .error (.cycle (cycled (nodes.map Node.name) inDegree)) := by
  have hedges := buildEdges_edgesOf hbuild
  rcases topoLayers_cases hbuild with
    ⟨layers, -, hcollected⟩ | ⟨inDegree', done, hstuck, herror⟩
  · -- the layers, one after the other, are an order of all services
    obtain ⟨name, hcycle⟩ := cyclic_iff_fromCycle.mp hcyclic
    have hordered : Ordered edges layers.flatten := Layered.ordered (.nil edges) hcollected.layered
    have hmem := hcollected.perm.mem_iff.mpr (FromCycle.known hedges hcycle)
    exact absurd (hedges.fromCycle_iff.mp hcycle)
      (hordered.not_fromCycle (hcollected.perm.nodup_iff.mpr hedges.distinct) hmem)
  · rw [herror, cycled_congr fun name hname =>
      (hstuck.mem_cycled hedges hname).trans (hdegree name hname).symm]

section Layer

variable {nodes : List Node} {edges : List Edge} {layers : List (List String)} {k : Nat}
  {layer : List String} {b : String}

theorem split_at_index (hlayer : layers[k]? = some layer) :
    layers = layers.take k ++ layer :: layers.drop (k + 1) := by
  obtain ⟨hlt, rfl⟩ := List.getElem?_eq_some_iff.mp hlayer
  exact (List.take_append_drop k layers).symm.trans (by rw [List.drop_eq_getElem_cons hlt])

theorem mem_flatten_take (h : name ∈ (layers.take k).flatten) :
    ∃ j < k, ∃ earlier, layers[j]? = some earlier ∧ name ∈ earlier := by
  obtain ⟨earlier, hmem, hname⟩ := List.mem_flatten.mp h
  obtain ⟨j, hj⟩ := List.mem_iff_getElem?.mp hmem
  rw [List.getElem?_take] at hj
  split_ifs at hj with hlt
  exact ⟨j, hlt, earlier, hj, hname⟩

theorem Collected.earlier (hedges : EdgesOf nodes edges) (h : Collected nodes edges [] layers)
    (hlayer : layers[k]? = some layer) (hb : b ∈ layer) (ha : Precedes nodes a b) :
    ∃ j < k, ∃ earlier, layers[j]? = some earlier ∧ a ∈ earlier := by
  have hmem := h.layered _ _ _ (split_at_index hlayer) b hb a ((hedges.mem a b).mpr ha)
  exact mem_flatten_take (by simpa using hmem)

/-- What waits for the next layer has a predecessor in this one. -/
theorem Collected.linked (hedges : EdgesOf nodes edges) (h : Collected nodes edges [] layers)
    (hlayer : layers[k + 1]? = some layer) (hb : b ∈ layer) :
    ∃ earlier, layers[k]? = some earlier ∧ ∃ a ∈ earlier, Precedes nodes a b := by
  obtain ⟨hlt, -⟩ := List.getElem?_eq_some_iff.mp hlayer
  have hprevious : layers[k]? = some layers[k] := List.getElem?_eq_getElem (by omega)
  have hrest : layers.drop (k + 1) = layer :: layers.drop (k + 2) := by
    obtain ⟨hlt, rfl⟩ := List.getElem?_eq_some_iff.mp hlayer
    exact List.drop_eq_getElem_cons hlt
  have hsplit := split_at_index hprevious
  rw [hrest] at hsplit
  obtain ⟨a, hedge, hopen⟩ := h.waiting _ _ _ _ hsplit b hb
  refine ⟨_, hprevious, a, ?_, (hedges.mem a b).mp hedge⟩
  have hmem := h.layered _ _ _ (split_at_index hlayer) b hb a hedge
  rw [List.take_add_one, hprevious] at hmem
  simp only [List.nil_append, Option.toList_some, List.flatten_append, List.flatten_cons,
    List.flatten_nil, List.append_nil, List.mem_append] at hmem hopen
  exact hmem.resolve_left hopen

theorem Collected.longest (hedges : EdgesOf nodes edges) (h : Collected nodes edges [] layers)
    (hlayer : layers[k]? = some layer) (hb : b ∈ layer) :
    IsGreatest { n | PathTo (Precedes nodes) n b } k := by
  refine ⟨PathTo.of_index (fun _ _ hlayer b hb => h.linked hedges hlayer hb) hlayer hb, ?_⟩
  intro n hpath
  exact hpath.le_index (fun _ _ hlayer b hb a ha => h.earlier hedges hlayer hb ha) hlayer hb

end Layer

/-- The sorters fail on the same services, with the same error: when a name is
given twice, a reference names no service, or there is a cycle. A cycle error
names what can be reached from a cycle. Otherwise the sorted list holds every
name once and after those it is ordered after, and the layers hold every name
once, in the layer that is the length of the longest chain that leads to it. -/
theorem sorters_agree (nodes : List Node) :
    (∀ error, topoSort nodes = .error error ↔ topoLayers nodes = .error error) ∧
    ((∃ error, topoSort nodes = .error error) ↔
      ¬ (nodes.map Node.name).Nodup ∨ UnknownReference nodes ∨ Cyclic nodes) ∧
    (∀ names, topoSort nodes = .error (.cycle names) →
      ∀ name, name ∈ names ↔ FromCycle (Precedes nodes) name) ∧
    (∀ sorted, topoSort nodes = .ok sorted → sorted.Perm (nodes.map Node.name) ∧
      ∀ before b after, sorted = before ++ b :: after → ∀ a, Precedes nodes a b → a ∈ before) ∧
    (∀ layers, topoLayers nodes = .ok layers → layers.flatten.Perm (nodes.map Node.name) ∧
      ∀ (k : Nat) layer, layers[k]? = some layer → ∀ name ∈ layer,
        IsGreatest { n | PathTo (Precedes nodes) n name } k) := by
  by_cases hwell : (nodes.map Node.name).Nodup ∧ ¬ UnknownReference nodes
  · obtain ⟨edges, hbuild⟩ := buildEdges_isOk.mpr hwell
    have hedges := buildEdges_edgesOf hbuild
    have hcyclic : (¬ (nodes.map Node.name).Nodup ∨ UnknownReference nodes ∨ Cyclic nodes) ↔
        Cyclic nodes := by
      simp [hwell.1, hwell.2]
    rw [hcyclic]
    rcases topoSort_cases hbuild with
      ⟨⟨sorted, hsort⟩, hacyclic⟩ | ⟨hcycle, inDegree, hdegree, hsort⟩
    · obtain ⟨layers, hlayers, -⟩ := topoLayers_of_topoSort hsort
      refine ⟨by simp [hsort, hlayers], by simp [hsort, hacyclic], by simp [hsort], ?_, ?_⟩
      · intro sorted hsort
        have hsorted := topoSort_sortOf hsort
        exact ⟨hsorted.perm, fun before b after heq a ha =>
          hsorted.ordered before b after heq a (.single ha)⟩
      · intro layers hlayers
        rcases topoLayers_cases hbuild with
          ⟨layers', hlayers', hcollected⟩ | ⟨inDegree, done, -, herror⟩
        · obtain rfl : layers' = layers := Except.ok.inj (hlayers'.symm.trans hlayers)
          exact ⟨hcollected.perm, fun k layer hlayer name hname =>
            hcollected.longest hedges hlayer hname⟩
        · cases herror.symm.trans hlayers
    · have hlayers := topoLayers_eq_error hbuild hdegree hcycle
      refine ⟨by simp [hsort, hlayers], by simp [hsort, hcycle], ?_, by simp [hsort],
        by simp [hlayers]⟩
      intro names hnames name
      cases hsort.symm.trans hnames
      exact mem_cycled_iff hedges hdegree
  · -- the first pass fails before the sorters part
    obtain ⟨error, hbuild⟩ : ∃ error, buildEdges nodes = .error error := by
      cases hbuild : buildEdges nodes with
      | error error => exact ⟨error, rfl⟩
      | ok edges => exact absurd (buildEdges_isOk.mp ⟨edges, hbuild⟩) hwell
    have hsort : topoSort nodes = .error error := by
      simp [topoSort, hbuild, bind, Except.bind]
    have hlayers : topoLayers nodes = .error error := by
      simp [topoLayers, hbuild, bind, Except.bind]
    have hfault : ¬ (nodes.map Node.name).Nodup ∨ UnknownReference nodes ∨ Cyclic nodes := by
      tauto
    refine ⟨by simp [hsort, hlayers], by simp [hsort, hfault], ?_, by simp [hsort],
      by simp [hlayers]⟩
    intro names hnames
    cases hsort.symm.trans hnames
    exact absurd hbuild buildEdges_ne_cycle

end Gopherd.Order
