import Archon.Kernel.Legacy
import Archon.Node.Stirs

/-! A controller that is rebuilt from what it once wrote. A snapshot is taken over as
it is; logged commands are committed again with the clock left out, and the effects
they ask for again are dropped. -/
namespace Archon.Node
open Archon.Kernel Fallible

namespace Service

/-- The counters are past every id that a logged command brings. Logs of commands alone say
nothing of request ids, for which the lease ids stand in. -/
def resumeIds : Command → ServiceM Unit
  | .setAgentSession _ session =>
    updateState fun state => { state with nextSession := max state.nextSession (session + 1) }
  | .openBinding binding _ _ _ _ =>
    updateState fun state => { state with nextBinding := max state.nextBinding (binding.asU64 + 1) }
  | .reserveLease lease _ _ _ _ | .promoteLease lease _ | .openLease lease _ _ _ _ _ _ =>
    updateState fun state => { state with
      nextLease := max state.nextLease (lease.asU64 + 1)
      nextRequestId := max state.nextRequestId (lease.asU64 + 1) }
  | _ => return

def setReplaying (replaying : Bool) : ServiceM Unit :=
  update fun s => { s with cluster := s.cluster.setReplaying replaying }

def replayOne (command : Command) : ServiceM Unit := do
  resumeIds command
  commit command

/-- The effects of what is replayed were delivered once, before the restart. -/
def replay (commands : List Command) : ServiceM Unit := do
  setReplaying true
  onRefusal (commands.forM replayOne) (setReplaying false)
  setReplaying false
  update fun s => { s with pending := [] }

/-- Take over the cluster and the controller state of a snapshot. -/
def restore (cluster : Cluster) (state : ServiceState) : ServiceM Unit := do
  update fun s => { s with
    cluster := cluster.migrateLegacyObservations
    pending := [] }
  restoreState state

end Service

/-- A controller that has a cluster and a controller state, and has met no agent yet. -/
def NodeService.fresh (cluster : Cluster) (state : ServiceState) : NodeService :=
  { NodeService.new with cluster, state }

namespace Service
variable {w : World} {command : Command} {c c' cluster : Cluster} {state : ServiceState}
  {effects : List Effect}

theorem resumeIds_run (command : Command) (w : World) :
    ∃ next, resumeIds command w = .ok () (w.setState next) := by
  cases command with
  | setAgentSession | openBinding | reserveLease | promoteLease | openLease => exact ⟨_, rfl⟩
  | _ => exact ⟨w.service.state, rfl⟩

theorem replay_ok {u : World} (hservice : w.service = .fresh cluster state)
    (h : replay [command] w = .ok () u) : ∃ again accepted next,
      Cluster.apply command (cluster.setReplaying true) = .ok again accepted ∧
        u.service = .fresh (accepted.setReplaying false) next := by
  obtain ⟨_, v, hv, h⟩ := bind_ok.mp h
  obtain ⟨_, t, ht, h⟩ := bind_ok.mp h
  have hall : [command].forM replayOne v = .ok () t := by
    unfold onRefusal at ht
    split at ht
    · obtain ⟨_, _, -, hthrow⟩ := bind_ok.mp ht
      cases hthrow
    · exact ht
  rw [List.forM_eq_forM, List.forM_cons] at hall
  obtain ⟨_, t', hone, hnil⟩ := bind_ok.mp hall
  cases hnil
  obtain ⟨_, v', hids, hcommit⟩ := bind_ok.mp hone
  obtain ⟨next, hnext⟩ := resumeIds_run command v
  rw [hnext] at hids
  cases hids
  have hcluster : (v.setState next).service.cluster = cluster.setReplaying true := by
    cases hv
    simp only [World.setState, World.update]
    rw [hservice]
    rfl
  cases happly : Cluster.apply command (cluster.setReplaying true) with
  | error e left =>
    rw [commit_run_error (hcluster.symm ▸ happly)] at hcommit
    cases hcommit
  | ok again accepted =>
    rw [commit_run_ok (hcluster.symm ▸ happly)] at hcommit
    cases hcommit
    cases h
    refine ⟨again, accepted, next, rfl, ?_⟩
    cases hv
    simp only [service_commit, World.setState, World.update]
    rw [hservice]
    rfl

theorem replayOne_run (happly : Cluster.apply command w.service.cluster = .ok effects cluster) :
    ∃ next, replayOne command w = .ok () ((w.setState next).commit command effects cluster) := by
  obtain ⟨next, hnext⟩ := resumeIds_run command w
  have hcommit := @commit_run_ok (w.setState next) command effects cluster happly
  exact ⟨next, bind_ok.mpr ⟨(), _, hnext, hcommit⟩⟩

/-- A command that was accepted once is accepted again by a fresh controller whose cluster is
the same but for its clock. -/
theorem replay_run (hservice : w.service = .fresh cluster state) (htwin : c.Twin cluster)
    (happly : Cluster.apply command c = .ok effects c') :
    ∃ u after next, replay [command] w = .ok () u ∧ u.service = .fresh after next ∧ c'.Twin after ∧
      after.replaying = false := by
  have hreplaying : c.Twin (cluster.setReplaying true) := htwin.trans rfl
  obtain ⟨again, cluster', hagain, htwin', -⟩ := hreplaying.apply rfl happly
  obtain ⟨v, hv⟩ : ∃ v, setReplaying true w = .ok () v ∧
      v.service = .fresh (cluster.setReplaying true) state := by
    refine ⟨w.update fun s => { s with cluster := s.cluster.setReplaying true }, rfl, ?_⟩
    rw [World.update, hservice]
    rfl
  have hcluster : v.service.cluster = cluster.setReplaying true := by
    rw [hv.2]
    rfl
  obtain ⟨next, hone⟩ := @replayOne_run v command _ _ (hcluster.symm ▸ hagain)
  have hall : [command].forM replayOne v = .ok () ((v.setState next).commit command again cluster') := by
    rw [List.forM_eq_forM, List.forM_cons, bind_ok]
    exact ⟨(), _, hone, rfl⟩
  have hrun : replay [command] w = .ok () ((((v.setState next).commit command again cluster').update
      fun s => { s with cluster := s.cluster.setReplaying false }).update
        fun s => { s with pending := [] }) :=
    bind_ok.mpr ⟨(), v, hv.1, bind_ok.mpr ⟨(), _, onRefusal_ok hall, rfl⟩⟩
  refine ⟨_, cluster'.setReplaying false, next, hrun, ?_, htwin'.trans rfl, rfl⟩
  simp only [World.update, service_commit, World.setState]
  rw [hv.2]
  rfl

end Service
end Archon.Node
