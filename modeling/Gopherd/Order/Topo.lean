import Gopherd.Lib.Except
import Mathlib.Data.List.Sort

/-!
The start order of the services: `TopoSort` lists them one by one and
`TopoLayers` in layers.
-/

namespace Gopherd.Order

structure Node where
  name : String
  after : List String
  before : List String
  requires : List String
  deriving DecidableEq

inductive EdgeList where
  | after
  | before
  | requires
  deriving DecidableEq

inductive OrderError where
  | duplicateName (name : String)
  | unknownProcess (name : String) (list : EdgeList) (dep : String)
  | cycle (names : List String)
  deriving DecidableEq

abbrev Edge := String × String

def checkDistinct : List Node → List String → Except OrderError Unit
  | [], _ => .ok ()
  | node :: rest, seen =>
    if node.name ∈ seen then .error (.duplicateName node.name)
    else checkDistinct rest (node.name :: seen)

def addEdge (edges : List Edge) (edge : Edge) : List Edge :=
  if edge ∈ edges then edges else edges ++ [edge]

def addList (names : List String) (node : Node) (list : EdgeList) (deps : List String)
    (edges : List Edge) : Except OrderError (List Edge) :=
  deps.foldlM (fun edges dep =>
    if dep ∉ names then .error (.unknownProcess node.name list dep)
    else
      match list with
      | .before => .ok (addEdge edges (node.name, dep))
      | _ => .ok (addEdge edges (dep, node.name))) edges

def addNode (names : List String) (edges : List Edge) (node : Node) :
    Except OrderError (List Edge) := do
  let edges ← addList names node .after node.after edges
  let edges ← addList names node .before node.before edges
  addList names node .requires node.requires edges

def buildEdges (nodes : List Node) : Except OrderError (List Edge) := do
  checkDistinct nodes []
  nodes.foldlM (addNode (nodes.map Node.name)) []

def successors (edges : List Edge) (name : String) : List String :=
  (edges.filter (fun edge => edge.1 = name)).map Prod.snd

def startDegree (edges : List Edge) (name : String) : Int :=
  (edges.filter (fun edge => edge.2 = name)).length

def sortNames (names : List String) : List String :=
  names.insertionSort (fun left right => left ≤ right)

def cycled (names : List String) (inDegree : String → Int) : List String :=
  sortNames (names.filter (fun name => inDegree name > 0))

/-- Takes one edge away from each neighbour and appends those left without. -/
def release : List String → (String → Int) → List String → (String → Int) × List String
  | [], inDegree, queue => (inDegree, queue)
  | neighbor :: rest, inDegree, queue =>
    let left := inDegree neighbor - 1
    let queue := if left = 0 then queue ++ [neighbor] else queue
    release rest (Function.update inDegree neighbor left) queue

/-- Kahn's algorithm. A name enters the queue at most once, so the number of
names is enough fuel. -/
def kahn (edges : List Edge) : Nat → List String → (String → Int) → List String →
    List String × (String → Int)
  | 0, _, inDegree, result => (result, inDegree)
  | _, [], inDegree, result => (result, inDegree)
  | fuel + 1, node :: queue, inDegree, result =>
    let released := release (successors edges node) inDegree queue
    kahn edges fuel released.2 released.1 (result ++ [node])

def topoSort (nodes : List Node) : Except OrderError (List String) := do
  let edges ← buildEdges nodes
  let names := nodes.map Node.name
  let queue := names.filter (fun name => startDegree edges name = 0)
  let sorted := kahn edges names.length queue (startDegree edges) []
  if sorted.1.length ≠ names.length then .error (.cycle (cycled names sorted.2))
  else pure sorted.1

theorem checkDistinct_ok (hok : checkDistinct nodes seen = .ok ()) :
    (nodes.map Node.name).Nodup ∧ ∀ name ∈ nodes.map Node.name, name ∉ seen := by
  induction nodes generalizing seen with
  | nil => simp
  | cons node rest ih =>
    unfold checkDistinct at hok
    split_ifs at hok with hseen
    obtain ⟨hrest, hfresh⟩ := ih hok
    rw [List.map_cons, List.nodup_cons]
    refine ⟨⟨fun hmem => hfresh _ hmem List.mem_cons_self, hrest⟩, ?_⟩
    intro name hname
    rcases List.mem_cons.mp hname with rfl | hmem
    · exact hseen
    · exact fun h => hfresh name hmem (List.mem_cons_of_mem _ h)

/-- Services that can be sorted have distinct names. -/
theorem topoSort_nodup (hsort : topoSort nodes = .ok sorted) : (nodes.map Node.name).Nodup := by
  obtain ⟨edges, hedges, -⟩ := Except.bind_eq_ok.mp hsort
  obtain ⟨_, hdistinct, -⟩ := Except.bind_eq_ok.mp hedges
  exact (checkDistinct_ok hdistinct).1

/-- Marks the layer as drained and takes its edges away. -/
def drain (edges : List Edge) : List String → (String → Int) → (String → Int)
  | [], inDegree => inDegree
  | name :: rest, inDegree =>
    let drained := Function.update inDegree name (-1)
    drain edges rest ((successors edges name).foldl
      (fun degree neighbor => Function.update degree neighbor (degree neighbor - 1)) drained)

/-- The layers from the degrees left; each one emits a name, so the number of
names is enough fuel. -/
def collectLayers (edges : List Edge) (names : List String) :
    Nat → Nat → (String → Int) → Except OrderError (List (List String))
  | 0, _, _ => .ok []
  | fuel + 1, emitted, inDegree =>
    if emitted < names.length then
      let layer := names.filter (fun name => inDegree name = 0)
      if layer = [] then .error (.cycle (cycled names inDegree))
      else do
        let layer := sortNames layer
        let rest ← collectLayers edges names fuel (emitted + layer.length)
          (drain edges layer inDegree)
        pure (layer :: rest)
    else .ok []

def topoLayers (nodes : List Node) : Except OrderError (List (List String)) := do
  let edges ← buildEdges nodes
  let names := nodes.map Node.name
  collectLayers edges names (names.length + 1) 0 (startDegree edges)

end Gopherd.Order
