import Gopherd.Daemon.Effects
import Gopherd.Daemon.Reconcile

/-!
The books of the daemon about its processes: an object is marked as running for
exactly the process it was forked for, its done channel is open for as long,
and the reap loop or the boot knows the process.
-/

namespace Gopherd.Daemon

open Go

structure Allocated (c : Core) : Prop where
  doneBound : ∀ i channel, c.done i = some channel → channel < c.nextChan
  closedBound : ∀ channel ∈ c.closed, channel < c.nextChan
  doneInj : ∀ i j channel, c.done i = some channel → c.done j = some channel → i = j
  named : ∀ name i, c.services.lookup name = some i → c.name i = name ∧ i < c.nextInst
  fresh : ∀ i, c.nextInst ≤ i → c.isRunning i = false

structure CoreBooks (c : Core) : Prop extends Allocated c where
  leader : ∀ pid i status, c.children.lookup pid = some ⟨some i, status⟩ →
    c.isRunning i = true ∧ (c.heap i).pid = pid
  mapped : ∀ pid i, c.pidMap.lookup pid = some i →
    c.isRunning i = true ∧ (c.heap i).pid = pid
  openDone : ∀ i, c.isRunning i = true → ∃ channel, c.done i = some channel ∧ channel ∉ c.closed
  noDone : ∀ i, c.isRunning i = false → c.done i = none
  opened : ∀ channel, channel < c.nextChan →
    channel ∈ c.closed ∨ ∃ i, c.isRunning i = true ∧ c.done i = some channel

def NoLeader (c : Core) (i : InstId) : Prop :=
  ∀ pid status, c.children.lookup pid ≠ some ⟨some i, status⟩

namespace CoreBooks

variable {c : Core} {i : InstId} {pid : Pid}

theorem finishStart_running (j : InstId) :
    (c.finishStart i pid).isRunning j = if j = i then true else c.isRunning j := by
  by_cases hji : j = i <;>
    simp [Core.finishStart, Core.modify, Core.isRunning, Function.update, hji,
      Service.finishStart]

theorem finishStart_pid (j : InstId) :
    ((c.finishStart i pid).heap j).pid = if j = i then pid else (c.heap j).pid := by
  by_cases hji : j = i <;>
    simp [Core.finishStart, Core.modify, Function.update, hji, Service.finishStart]

theorem finishStart_done (j : InstId) :
    (c.finishStart i pid).done j = if j = i then some c.nextChan else c.done j := by
  by_cases hji : j = i <;>
    simp [Core.finishStart, Core.modify, Core.done, Function.update, hji, Service.finishStart]

theorem finishStart_name (j : InstId) : (c.finishStart i pid).name j = c.name j := by
  by_cases hji : j = i <;>
    simp [Core.finishStart, Core.modify, Core.name, Function.update, hji, Service.finishStart]

theorem markExited_running (j : InstId) :
    (c.markExited i).isRunning j = if j = i then false else c.isRunning j := by
  by_cases hji : j = i <;>
    simp [Core.markExited, Core.modify, Core.isRunning, Function.update, hji,
      Service.markExited]

theorem markExited_pid (hji : j ≠ i) : ((c.markExited i).heap j).pid = (c.heap j).pid := by
  simp [Core.markExited, Core.modify, Function.update, hji]

theorem markExited_done (j : InstId) :
    (c.markExited i).done j = if j = i then none else c.done j := by
  by_cases hji : j = i <;>
    simp [Core.markExited, Core.modify, Core.done, Function.update, hji, Service.markExited]

theorem markExited_name (j : InstId) : (c.markExited i).name j = c.name j := by
  by_cases hji : j = i <;>
    simp [Core.markExited, Core.modify, Core.name, Function.update, hji, Service.markExited]

theorem mem_markExited_closed :
    channel ∈ (c.markExited i).closed ↔ channel ∈ c.closed ∨ c.done i = some channel := by
  unfold Core.markExited
  cases hdone : c.done i with
  | none => simp
  | some own =>
    simp only [Finset.mem_insert, Option.some.injEq]
    constructor
    · rintro (rfl | hmem)
      · exact .inr rfl
      · exact .inl hmem
    · rintro (hmem | rfl)
      · exact .inr hmem
      · exact .inl rfl

theorem recordExit_running (j : InstId) :
    (c.recordExit i pid).isRunning j = if j = i then false else c.isRunning j :=
  markExited_running (c := { c with pidMap := c.pidMap.erase pid }) j

theorem recordExit_done (j : InstId) :
    (c.recordExit i pid).done j = if j = i then none else c.done j :=
  markExited_done (c := { c with pidMap := c.pidMap.erase pid }) j

theorem recordExit_name (j : InstId) : (c.recordExit i pid).name j = c.name j :=
  markExited_name (c := { c with pidMap := c.pidMap.erase pid }) j

end CoreBooks

namespace Allocated

open CoreBooks

variable {c c' : Core} {i : InstId} {pid : Pid}

theorem of_sameRuns (h : Allocated c) (hsame : SameRuns c c') : Allocated c' where
  doneBound j channel := by
    rw [hsame.done, hsame.nextChan]
    exact h.doneBound j channel
  closedBound channel := by
    rw [hsame.closed, hsame.nextChan]
    exact h.closedBound channel
  doneInj j k channel := by
    rw [hsame.done, hsame.done]
    exact h.doneInj j k channel
  named name j := by
    rw [hsame.services, hsame.name, hsame.nextInst]
    exact h.named name j
  fresh j := by
    rw [hsame.nextInst, hsame.running]
    exact h.fresh j

theorem lt_of_running (h : Allocated c) (hrunning : c.isRunning i = true) : i < c.nextInst := by
  by_contra hi
  rw [h.fresh i (Nat.not_lt.mp hi)] at hrunning
  cases hrunning

theorem finishStart (h : Allocated c) (hi : i < c.nextInst) :
    Allocated (c.finishStart i pid) where
  doneBound j channel := by
    rw [finishStart_done]
    change _ → channel < c.nextChan + 1
    split_ifs with hji
    · intro heq
      cases heq
      exact Nat.lt_succ_self _
    · exact fun hdone => Nat.lt_succ_of_lt (h.doneBound j channel hdone)
  closedBound channel hmem := Nat.lt_succ_of_lt (h.closedBound channel hmem)
  doneInj j k channel := by
    rw [finishStart_done, finishStart_done]
    split_ifs with hji hki hki
    · exact fun _ _ => hji.trans hki.symm
    · intro hj hk
      cases hj
      exact absurd (h.doneBound k _ hk) (Nat.lt_irrefl _)
    · intro hj hk
      cases hk
      exact absurd (h.doneBound j _ hj) (Nat.lt_irrefl _)
    · exact h.doneInj j k channel
  named name j := by
    rw [finishStart_name]
    exact h.named name j
  fresh j hj := by
    rw [finishStart_running]
    have hji : j ≠ i := by
      rintro rfl
      exact absurd hi (Nat.not_lt.mpr hj)
    rw [if_neg hji]
    exact h.fresh j hj

theorem startManaged (h : Allocated c) (hi : i < c.nextInst) :
    Allocated (c.startManaged i pid) :=
  have hforked := h.finishStart hi
  ⟨hforked.doneBound, hforked.closedBound, hforked.doneInj, hforked.named, hforked.fresh⟩

theorem markExited (h : Allocated c) : Allocated (c.markExited i) where
  doneBound j channel := by
    rw [markExited_done]
    split_ifs with hji
    · intro hnone
      cases hnone
    · exact h.doneBound j channel
  closedBound channel hmem := by
    rcases mem_markExited_closed.mp hmem with hbefore | hown
    · exact h.closedBound channel hbefore
    · exact h.doneBound i channel hown
  doneInj j k channel := by
    rw [markExited_done, markExited_done]
    by_cases hji : j = i
    · rw [if_pos hji]
      intro hnone
      cases hnone
    · by_cases hki : k = i
      · rw [if_pos hki]
        intro _ hnone
        cases hnone
      · rw [if_neg hji, if_neg hki]
        exact h.doneInj j k channel
  named name j := by
    rw [markExited_name]
    exact h.named name j
  fresh j hj := by
    rw [markExited_running]
    split_ifs with hji
    · rfl
    · exact h.fresh j hj

theorem recordExit (h : Allocated c) : Allocated (c.recordExit i pid) :=
  have herased : Allocated { c with pidMap := c.pidMap.erase pid } :=
    ⟨h.doneBound, h.closedBound, h.doneInj, h.named, h.fresh⟩
  have hmarked := herased.markExited (i := i)
  ⟨hmarked.doneBound, hmarked.closedBound, hmarked.doneInj, hmarked.named, hmarked.fresh⟩

/-- A reload gives no channel to anybody. -/
theorem reloaded_done (hreload : Reloaded cfg c c' dones) (hdone : c'.done i = some channel) :
    c.done i = some channel := by
  by_cases hi : i < c.nextInst
  · exact hreload.done i hi ▸ hdone
  · rcases hreload.fresh i (Nat.not_lt.mp hi) with hsame | hidle
    · exact hsame.2 ▸ hdone
    · rw [hidle.2] at hdone
      cases hdone

theorem reloaded_running (h : Allocated c) (hreload : Reloaded cfg c c' dones) :
    c'.isRunning i = c.isRunning i := by
  by_cases hi : i < c.nextInst
  · exact hreload.running i hi
  · rcases hreload.fresh i (Nat.not_lt.mp hi) with hsame | hidle
    · exact hsame.1
    · rw [hidle.1, h.fresh i (Nat.not_lt.mp hi)]

theorem reloaded {cfg : Config} {dones : List (Option Chan)} (h : Allocated c)
    (hreload : Reloaded cfg c c' dones) : Allocated c' where
  doneBound j channel hdone := by
    rw [hreload.nextChan]
    exact h.doneBound j channel (reloaded_done hreload hdone)
  closedBound channel := by
    rw [hreload.closed, hreload.nextChan]
    exact h.closedBound channel
  doneInj j k channel hj hk :=
    h.doneInj j k channel (reloaded_done hreload hj) (reloaded_done hreload hk)
  named name j hlookup := by
    rcases hreload.current name j hlookup with ⟨-, hhigh, hname, -⟩ | ⟨hbefore, -⟩
    · exact ⟨hname, hhigh⟩
    · obtain ⟨hname, hj⟩ := h.named name j hbefore
      exact ⟨(hreload.name j hj).trans hname, Nat.lt_of_lt_of_le hj hreload.nextInst⟩
  fresh j hj := by
    rw [h.reloaded_running hreload]
    exact h.fresh j (Nat.le_trans hreload.nextInst hj)

end Allocated

namespace CoreBooks

variable {c c' : Core} {i : InstId} {pid : Pid}

theorem of_sameRuns (hbooks : CoreBooks c) (hsame : SameRuns c c') : CoreBooks c' where
  toAllocated := hbooks.toAllocated.of_sameRuns hsame
  leader pid i status := by
    rw [hsame.children, hsame.running, hsame.pid]
    exact hbooks.leader pid i status
  mapped pid i := by
    rw [hsame.pidMap, hsame.running, hsame.pid]
    exact hbooks.mapped pid i
  openDone i := by
    rw [hsame.running, hsame.done, hsame.closed]
    exact hbooks.openDone i
  noDone i := by
    rw [hsame.running, hsame.done]
    exact hbooks.noDone i
  opened channel := by
    rw [hsame.nextChan, hsame.closed]
    simp only [hsame.running, hsame.done]
    exact hbooks.opened channel

/-- Children may exit, be collected or be adopted as long as no leader appears. -/
theorem setChildren {children : GoMap Pid Child} (hbooks : CoreBooks c)
    (hleaders : ∀ pid i status, children.lookup pid = some ⟨some i, status⟩ →
      ∃ status', c.children.lookup pid = some ⟨some i, status'⟩) :
    CoreBooks { c with children } where
  toAllocated := ⟨hbooks.doneBound, hbooks.closedBound, hbooks.doneInj, hbooks.named,
    hbooks.fresh⟩
  leader pid i status hchild := by
    obtain ⟨status', hbefore⟩ := hleaders pid i status hchild
    exact hbooks.leader pid i status' hbefore
  mapped := hbooks.mapped
  openDone := hbooks.openDone
  noDone := hbooks.noDone
  opened := hbooks.opened

/-- The fork of a process for an object that is not running. -/
theorem finishStart (hbooks : CoreBooks c) (hidle : c.isRunning i = false)
    (hi : i < c.nextInst) : CoreBooks (c.finishStart i pid) where
  toAllocated := hbooks.toAllocated.finishStart hi
  leader other j status := by
    rw [finishStart_running, finishStart_pid]
    change (c.children.insert pid ⟨some i, none⟩).lookup other = _ → _
    rw [GoMap.lookup_insert]
    split_ifs with hpid hji hji
    · exact fun _ => ⟨rfl, hpid.symm⟩
    · intro hchild
      cases hchild
      exact absurd rfl hji
    · intro hchild
      have hrunning := (hbooks.leader other j status hchild).1
      rw [hji, hidle] at hrunning
      cases hrunning
    · exact hbooks.leader other j status
  mapped other j hmap := by
    have hbefore := hbooks.mapped other j hmap
    have hji : j ≠ i := by
      rintro rfl
      rw [hidle] at hbefore
      exact Bool.false_ne_true hbefore.1
    rw [finishStart_running, finishStart_pid, if_neg hji, if_neg hji]
    exact hbefore
  openDone j := by
    rw [finishStart_running, finishStart_done]
    change _ → ∃ channel, _ ∧ channel ∉ c.closed
    split_ifs with hji
    · intro _
      exact ⟨c.nextChan, rfl, fun hmem => Nat.lt_irrefl _ (hbooks.closedBound _ hmem)⟩
    · exact hbooks.openDone j
  noDone j := by
    rw [finishStart_running, finishStart_done]
    split_ifs with hji
    · intro hfalse
      cases hfalse
    · exact hbooks.noDone j
  opened channel hlt := by
    simp only [finishStart_running, finishStart_done]
    rcases Nat.lt_succ_iff_lt_or_eq.mp hlt with hold | rfl
    · rcases hbooks.opened channel hold with hclosed | ⟨j, hrunning, hdone⟩
      · exact .inl hclosed
      · have hji : j ≠ i := by
          rintro rfl
          rw [hidle] at hrunning
          cases hrunning
        exact .inr ⟨j, by simpa [hji] using hrunning, by simpa [hji] using hdone⟩
    · exact .inr ⟨i, by simp, by simp⟩

theorem startOneshot (hbooks : CoreBooks c) (hidle : c.isRunning i = false)
    (hi : i < c.nextInst) : CoreBooks (c.startOneshot i pid) :=
  (hbooks.finishStart hidle hi).of_sameRuns (.setMetrics _ _)

theorem startManaged (hbooks : CoreBooks c) (hidle : c.isRunning i = false)
    (hi : i < c.nextInst) : CoreBooks (c.startManaged i pid) := by
  have hforked : CoreBooks (c.finishStart i pid) := hbooks.finishStart hidle hi
  refine of_sameRuns (c := { c.finishStart i pid with
    pidMap := (c.finishStart i pid).pidMap.insert pid i }) ?_ (.setMetrics _ _)
  have hallocated := hforked.toAllocated
  refine ⟨⟨hallocated.doneBound, hallocated.closedBound, hallocated.doneInj, hallocated.named,
    hallocated.fresh⟩, hforked.leader, ?_, hforked.openDone, hforked.noDone, hforked.opened⟩
  intro other j hmap
  change ((c.finishStart i pid).pidMap.insert pid i).lookup other = some j at hmap
  rw [GoMap.lookup_insert] at hmap
  split_ifs at hmap with hpid
  · cases hmap
    change (c.finishStart i pid).isRunning i = true ∧ ((c.finishStart i pid).heap i).pid = other
    rw [finishStart_running, finishStart_pid, if_pos rfl, if_pos rfl]
    exact ⟨rfl, hpid.symm⟩
  · exact hforked.mapped other j hmap

/-- The end of a process that has been reaped and that no map lists. -/
theorem markExited (hbooks : CoreBooks c) (hleader : NoLeader c i)
    (hmap : ∀ pid, c.pidMap.lookup pid ≠ some i) : CoreBooks (c.markExited i) where
  toAllocated := hbooks.toAllocated.markExited
  leader other j status hchild := by
    have hji : j ≠ i := by
      rintro rfl
      exact hleader other status hchild
    rw [markExited_running, if_neg hji, markExited_pid hji]
    exact hbooks.leader other j status hchild
  mapped other j hother := by
    have hji : j ≠ i := by
      rintro rfl
      exact hmap other hother
    rw [markExited_running, if_neg hji, markExited_pid hji]
    exact hbooks.mapped other j hother
  openDone j := by
    rw [markExited_running, markExited_done]
    split_ifs with hji
    · intro hfalse
      cases hfalse
    · intro hrunning
      obtain ⟨channel, hdone, hopen⟩ := hbooks.openDone j hrunning
      refine ⟨channel, hdone, ?_⟩
      rw [mem_markExited_closed, not_or]
      exact ⟨hopen, fun hown => hji (hbooks.doneInj j i channel hdone hown)⟩
  noDone j := by
    rw [markExited_running, markExited_done]
    split_ifs with hji
    · exact fun _ => rfl
    · exact hbooks.noDone j
  opened channel hlt := by
    simp only [markExited_running, markExited_done, mem_markExited_closed]
    rcases hbooks.opened channel hlt with hclosed | ⟨j, hrunning, hdone⟩
    · exact .inl (.inl hclosed)
    · by_cases hji : j = i
      · exact .inl (.inr (hji ▸ hdone))
      · exact .inr ⟨j, by simpa [hji] using hrunning, by simpa [hji] using hdone⟩

/-- The end of a process that `pidMap` lists, as the reap loop records it. -/
theorem recordExit (hbooks : CoreBooks c) (hleader : NoLeader c i)
    (hmap : c.pidMap.lookup pid = some i) : CoreBooks (c.recordExit i pid) := by
  have herased : CoreBooks { c with pidMap := c.pidMap.erase pid } := by
    refine ⟨⟨hbooks.doneBound, hbooks.closedBound, hbooks.doneInj, hbooks.named, hbooks.fresh⟩,
      hbooks.leader, ?_, hbooks.openDone, hbooks.noDone, hbooks.opened⟩
    intro other j hother
    change (c.pidMap.erase pid).lookup other = some j at hother
    rw [GoMap.lookup_erase] at hother
    split_ifs at hother
    exact hbooks.mapped other j hother
  have hnone : ∀ other, (c.pidMap.erase pid).lookup other ≠ some i := by
    intro other hother
    rw [GoMap.lookup_erase] at hother
    split_ifs at hother with hne
    exact hne ((hbooks.mapped other i hother).2.symm.trans (hbooks.mapped pid i hmap).2)
  have hmarked := herased.markExited (i := i) hleader hnone
  exact ⟨hbooks.toAllocated.recordExit, hmarked.leader, hmarked.mapped, hmarked.openDone,
    hmarked.noDone, hmarked.opened⟩

theorem reloaded {cfg : Config} {dones : List (Option Chan)} (hbooks : CoreBooks c)
    (hreload : Reloaded cfg c c' dones) : CoreBooks c' := by
  have hkeeps : ∀ i, c.isRunning i = true → (c'.heap i).pid = (c.heap i).pid :=
    fun i hrunning => hreload.pid i (hbooks.lt_of_running hrunning)
  have hrunning : ∀ i, c'.isRunning i = c.isRunning i :=
    fun i => hbooks.reloaded_running hreload
  have hdone : ∀ i, c'.done i = c.done i := by
    intro i
    by_cases hi : i < c.nextInst
    · exact hreload.done i hi
    · rcases hreload.fresh i (Nat.not_lt.mp hi) with hsame | hidle
      · exact hsame.2
      · rw [hidle.2, hbooks.noDone i (hbooks.fresh i (Nat.not_lt.mp hi))]
  refine ⟨hbooks.toAllocated.reloaded hreload, ?_, ?_, ?_, ?_, ?_⟩
  · intro pid i status
    rw [hreload.children, hrunning]
    intro hchild
    obtain ⟨hup, hpid⟩ := hbooks.leader pid i status hchild
    exact ⟨hup, (hkeeps i hup).trans hpid⟩
  · intro pid i
    rw [hreload.pidMap, hrunning]
    intro hmap
    obtain ⟨hup, hpid⟩ := hbooks.mapped pid i hmap
    exact ⟨hup, (hkeeps i hup).trans hpid⟩
  · intro i
    rw [hrunning, hdone, hreload.closed]
    exact hbooks.openDone i
  · intro i
    rw [hrunning, hdone]
    exact hbooks.noDone i
  · intro channel
    simp only [hreload.closed, hreload.nextChan, hrunning, hdone]
    exact hbooks.opened channel

end CoreBooks

/-- The oneshots of a boot layer whose end has not been recorded yet. -/
def MainPc.layerOneshots : MainPc → List InstId
  | .oneshots _ procs _ | .oneshotStart _ _ procs _ => procs.map Prod.fst
  | .results waiting arrived _ _ => waiting.map Prod.fst ++ arrived.map Prod.fst
  | _ => []

def MainPc.awaited : MainPc → List (InstId × Pid)
  | .oneshots _ procs _ | .oneshotStart _ _ procs _ => procs
  | .results waiting _ _ _ => waiting
  | _ => []

def MainPc.collected : MainPc → List InstId
  | .results _ arrived _ _ => (arrived.filter (fun result => result.2.isSome)).map Prod.fst
  | _ => []

/-- The pid that the reap loop has collected and not looked up yet. -/
def MainPc.reapedPid : MainPc → Option Pid
  | .reaped pid _ => some pid
  | _ => none

def MainPc.starting : MainPc → Option InstId
  | .oneshotStart i _ _ _ => some i
  | _ => none

/-- The daemon is gone, or will go once all oneshots of the layer are in. -/
def MainPc.doomed : MainPc → Bool
  | .results _ _ (some _) _ => true
  | main => main.ended

structure BootFrame (before after : MainPc) : Prop where
  oneshots : after.layerOneshots ⊆ before.layerOneshots
  nodup : before.layerOneshots.Nodup → after.layerOneshots.Nodup
  awaited : after.awaited ⊆ before.awaited
  collected : after.collected ⊆ before.collected
  reaped : ∀ pid, after.reapedPid = some pid → before.reapedPid = some pid
  left : ∀ i ∈ before.layerOneshots, i ∈ after.layerOneshots ∨ after.doomed = true
  doomed : before.doomed = true → after.doomed = true

namespace BootFrame

variable {before after : MainPc}

theorem refl (main : MainPc) : BootFrame main main :=
  ⟨List.Subset.refl _, fun h => h, List.Subset.refl _, List.Subset.refl _, fun _ h => h,
    fun _ h => .inl h, fun h => h⟩

/-- Without a layer in progress there is nothing to keep. -/
theorem plain (hbefore : before.layerOneshots = []) (hdoomed : before.doomed = false)
    (hafter : after.layerOneshots = []) (hawaited : after.awaited = [])
    (hcollected : after.collected = []) (hreaped : after.reapedPid = none) :
    BootFrame before after := by
  constructor <;> simp [hbefore, hdoomed, hafter, hawaited, hcollected, hreaped]

theorem gone (hended : after.ended = true) (hreturned : after.layerOneshots = []) :
    BootFrame before after := by
  cases after <;> simp_all [MainPc.ended]
  all_goals
    constructor <;> simp [MainPc.layerOneshots, MainPc.awaited, MainPc.collected,
      MainPc.reapedPid, MainPc.doomed, MainPc.ended]

end BootFrame

structure Books (s : State) : Prop where
  core : CoreBooks s.core
  tracked : ∀ i, s.core.isRunning i = true →
    s.core.pidMap.lookup (s.core.heap i).pid = some i ∨ i ∈ s.main.layerOneshots ∨
      s.main.doomed = true
  forking : ∀ i caller, s.forking = some (i, caller) →
    s.core.isCurrent i = true ∧ s.core.isRunning i = false
  oneshots : ∀ i ∈ s.main.layerOneshots,
    s.core.isRunning i = true ∧ ∀ pid, s.core.pidMap.lookup pid ≠ some i
  oneshotsNodup : s.main.layerOneshots.Nodup
  awaited : ∀ proc ∈ s.main.awaited, (s.core.heap proc.1).pid = proc.2
  collected : ∀ i ∈ s.main.collected, NoLeader s.core i
  reaped : ∀ pid, s.main.reapedPid = some pid →
    ∀ i status, s.core.children.lookup pid ≠ some ⟨some i, status⟩
  starting : ∀ i, s.main.starting = some i → i < s.core.nextInst
  loaded : ∀ origin cfg startOrder, s.reload = .locking origin cfg startOrder →
    ∀ p ∈ cfg.processes, ∃ svc, Service.new p = .ok svc

def State.bookedPids (s : State) : List Pid :=
  s.core.pidMap.keys ++ s.main.reapedPid.toList ++
    s.main.layerOneshots.map (fun i => (s.core.heap i).pid)

/-- The condition under which the books stay right: a pid is not used again
before its exit is recorded, and boot starts a oneshot that nobody else has
started or is about to fork. -/
def State.cleanStart (s : State) : Action → Bool
  | .fork (.child pid) => pid ∉ s.bookedPids
  | .main (.child pid) =>
    match s.main with
    | .oneshotStart i _ _ _ =>
      !s.core.isRunning i && s.forking.map Prod.fst ≠ some i && pid ∉ s.bookedPids
    | _ => true
  | _ => true

namespace Books

variable {s s' : State}

section SameRuns

variable (hbooks : Books s) (hcore : SameRuns s.core s'.core)
  (hforking : ∀ i caller, s'.forking = some (i, caller) →
    s.core.isCurrent i = true ∧ s.core.isRunning i = false)
  (hreload : ∀ origin cfg startOrder, s'.reload = .locking origin cfg startOrder →
    ∀ p ∈ cfg.processes, ∃ svc, Service.new p = .ok svc)

include hbooks hcore hforking hreload

/-- Steps that touch no process. -/
theorem of_sameRuns (hmain : BootFrame s.main s'.main)
    (hstarting : ∀ i, s'.main.starting = some i → i < s.core.nextInst) : Books s' := by
  refine {
    core := hbooks.core.of_sameRuns hcore
    tracked := ?_, forking := ?_, oneshots := ?_
    oneshotsNodup := hmain.nodup hbooks.oneshotsNodup
    awaited := ?_, collected := ?_, reaped := ?_, starting := ?_, loaded := hreload }
  · intro i
    rw [hcore.running, hcore.pidMap, hcore.pid]
    intro hrunning
    rcases hbooks.tracked i hrunning with hmap | honeshot | hgone
    · exact .inl hmap
    · exact .inr (hmain.left i honeshot)
    · exact .inr (.inr (hmain.doomed hgone))
  · intro i caller hfork
    rw [hcore.isCurrent, hcore.running]
    exact hforking i caller hfork
  · intro i hi
    rw [hcore.running, hcore.pidMap]
    exact hbooks.oneshots i (hmain.oneshots hi)
  · intro proc hproc
    rw [hcore.pid]
    exact hbooks.awaited proc (hmain.awaited hproc)
  · intro i hi
    unfold NoLeader
    rw [hcore.children]
    exact hbooks.collected i (hmain.collected hi)
  · intro pid hpid
    rw [hcore.children]
    exact hbooks.reaped pid (hmain.reaped pid hpid)
  · intro i hi
    rw [hcore.nextInst]
    exact hstarting i hi

/-- Steps of other goroutines than main, which at most end the daemon. -/
theorem of_other (hmain : s'.main = s.main ∨ s'.main = .aborted ∨ s'.main = .panicked) :
    Books s' := by
  rcases hmain with hsame | hgone | hgone
  · refine hbooks.of_sameRuns hcore hforking hreload ?_ ?_ <;> rw [hsame]
    · exact .refl _
    · exact hbooks.starting
  all_goals
    refine hbooks.of_sameRuns hcore hforking hreload ?_ ?_ <;> rw [hgone]
    · exact .gone rfl rfl
    · intro i hi
      cases hi

end SameRuns

theorem of_taskFrame (hbooks : Books s) (hframe : TaskFrame s t s') : Books s' := by
  refine hbooks.of_other (.of_quiet hframe.core) ?_ ?_
    (hframe.main.imp_right (Or.imp And.right fun h => h.2.2))
  · intro i caller hfork
    rcases hframe.forking with hsame | ⟨j, caller', -, hnew, -, hcurrent, hidle, -⟩
    · exact hbooks.forking i caller (hsame ▸ hfork)
    · rw [hnew] at hfork
      cases hfork
      exact ⟨hcurrent, hidle⟩
  · intro origin cfg startOrder hlocking
    rcases hframe.reload with hsame | ⟨-, _, _, -, hstarting⟩ | ⟨-, _, hloading, -⟩
    · exact hbooks.loaded origin cfg startOrder (hsame ▸ hlocking)
    · rw [hstarting] at hlocking
      cases hlocking
    · rw [hloading] at hlocking
      cases hlocking

theorem of_stopFrame (hbooks : Books s) (hframe : StopFrame s s') : Books s' := by
  refine hbooks.of_other (.of_quiet hframe.core) ?_ ?_ (.inl hframe.main)
  · rw [hframe.forking]
    exact hbooks.forking
  · rw [hframe.reload]
    exact hbooks.loaded

/-- Children may exit, be collected or be adopted: no leader appears. -/
theorem setChildren (hbooks : Books s) {children : GoMap Pid Child} {childStarted : Bool}
    (hleaders : ∀ pid i status, children.lookup pid = some ⟨some i, status⟩ →
      ∃ status', s.core.children.lookup pid = some ⟨some i, status'⟩) :
    Books { s.setChildren children with childStarted } where
  core := hbooks.core.setChildren hleaders
  tracked := hbooks.tracked
  forking := hbooks.forking
  oneshots := hbooks.oneshots
  oneshotsNodup := hbooks.oneshotsNodup
  awaited := hbooks.awaited
  collected i hi pid status hchild := by
    obtain ⟨status', hbefore⟩ := hleaders pid i status hchild
    exact hbooks.collected i hi pid status' hbefore
  reaped pid hpid i status hchild := by
    obtain ⟨status', hbefore⟩ := hleaders pid i status hchild
    exact hbooks.reaped pid hpid i status' hbefore
  starting := hbooks.starting
  loaded := hbooks.loaded

end Books

end Gopherd.Daemon
