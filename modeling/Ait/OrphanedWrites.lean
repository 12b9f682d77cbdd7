import Ait.Revocation
import Ait.RouteCoherence

/-!
# Writes whose handler gave up

The removals of a write belong to its handler, while the write itself happens on a
blocking thread. A handler that times out, or that is dropped because its client
disconnects, performs no removal, so a write that commits before or after that leaves
its cache entries behind.
-/

namespace Ait
namespace World

variable {hashKey : String → String} {w : World}

/-- When handler and blocking task of a write are over, its removals have been performed. -/
def SettledWritesInvalidated (w : World) : Prop :=
  ∀ x ∈ w.writes, w.handlerOver x.handler = true → ∀ i ∈ x.stale, (i,x.version) ∈ w.performed

def fillsOrderly (hashKey : String → String) (w : World) (a : Label) : Bool :=
  w.keyFillCurrent hashKey a && w.routeFillCurrent a && w.createSettled a

/-- When no write slips past its handler, every settled write has been followed by its
removals; with orderly fills no request is then answered from before such a write. -/
theorem kept_writes_invalidated {config : ConfigApp} {db : Database} {as : List Label}
    (hrun : Transition.exec (step hashKey) (start config db) as = some w)
    (hkept : Transition.Along (step hashKey) (fun w a => w.kept hashKey a = true)
      (start config db) as) :
    w.SettledWritesInvalidated ∧
      (Transition.Along (step hashKey) (fun w a => w.fillsOrderly hashKey a = true)
        (start config db) as → w.NoStaleDecision hashKey ∧ w.NoStaleRoute) := by
  have hledger : ∀ (w : World) (a : Label) (w' : World), w.step hashKey a = some w' →
      w.kept hashKey a = true → Ledger hashKey w → Ledger hashKey w' :=
    fun w a w' hstep hkept hl => hl.step (step_cases hstep) hkept
  have hl := Transition.exec_invariant hledger hrun hkept (Ledger.start config db)
  refine ⟨fun x hx hover => (hl.settled (List.mem_filter.mpr ⟨hx,hover⟩)).2,fun hfills => ?_⟩
  have hboth := hkept.and hfills
  have hkeys := keys_run hrun <| hboth.mono fun w a ⟨hk,hf⟩ => by
    simp only [fillsOrderly,Bool.and_eq_true] at hf
    simp only [keysOrderly,hk,hf,Bool.and_self]
  have hroutes := routes_run hrun <| hboth.mono fun w a ⟨hk,hf⟩ => by
    simp only [fillsOrderly,Bool.and_eq_true] at hf
    simp only [routesOrderly,hk,hf,Bool.and_self]
  exact ⟨fun i before token _ _ ht => hkeys.2.task i before token _ ht,hroutes.2.noStaleRoute⟩

section Scenario

/-- A deletion that times out while its closure fails on an unknown key writes nothing. -/
theorem kept_writes_invalidated_laptop :
    let as := [.mutate 0 (.deleteApiKey "k9"),.timeout 0,tick 0,
      .authenticate 1 "sk-1",tick 1,tick 1,tick 1,tick 1,tick 1,tick 1,
      .mutate 2 (.deleteApiKey "k1"),tick 2,tick 2,tick 2,tick 2,tick 2,
      .authenticate 3 "sk-1",tick 3,tick 3,tick 3,tick 3,tick 3,tick 3]
    ∃ w, Transition.exec (step id) (start demoConfig laptopDb) as = some w ∧
      w.SettledWritesInvalidated ∧ w.NoStaleDecision id ∧ w.NoStaleRoute := by
  intro as
  have hsome : (Transition.exec (step id) (start demoConfig laptopDb) as).isSome = true := by decide
  have hrun := (Option.some_get hsome).symm
  have hkept := kept_writes_invalidated hrun (by decide)
  exact ⟨_,hrun,hkept.1,hkept.2 (by decide)⟩

/-- The deletion of a cached key commits after its handler has timed out: nothing removes
the entry, and the key is admitted from the row before the deletion. -/
theorem late_deletion_not_invalidated :
    ¬ ∀ (config : ConfigApp) (db : Database) (as : List Label) (w : World),
      Transition.exec (step id) (start config db) as = some w →
        Transition.Along (step id) (fun w a => w.fillsOrderly id a = true) (start config db) as →
          w.SettledWritesInvalidated ∧ w.NoStaleDecision id ∧ w.NoStaleRoute := by
  intro hinvalidated
  let as := [.authenticate 0 "sk-1",tick 0,tick 0,tick 0,tick 0,tick 0,tick 0,
    .mutate 1 (.deleteApiKey "k1"),.timeout 1,tick 1,.authenticate 2 "sk-1",tick 2,tick 2]
  have hsome : (Transition.exec (step id) (start demoConfig laptopDb) as).isSome = true := by decide
  have hrun := (Option.some_get hsome).symm
  generalize hw : (Transition.exec (step id) (start demoConfig laptopDb) as).get hsome = w at hrun
  obtain ⟨-,hdecision,-⟩ := hinvalidated demoConfig laptopDb as w hrun (by decide)
  subst hw
  -- the admitted request rests on the row of version 0, older than the deletion
  obtain ⟨⟨n,hn,hinfo,hnew⟩,-⟩ := hdecision 2 _ "sk-1" _ _ rfl
  have hdeleted : 1 ≤ n := hnew _ List.mem_cons_self rfl
  have hlast : n ≤ 1 := hn
  obtain rfl : n = 1 := by omega
  cases hinfo

end Scenario

end World
end Ait
