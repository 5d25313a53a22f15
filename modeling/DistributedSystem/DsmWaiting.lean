import DistributedSystem.DsmHome

/-!
# Servers that wait for each other

`svc_run` hands one call at a time to `psu_dsm_1`, which runs its handler inline: a
server whose handler waits for the reply to a remote call takes up nothing else. Two
servers that create pages at the same time ask each other, and neither answers.
-/
namespace DistributedSystem.Dsm
open LinkedList Rpc Transition

variable {N : Type} [DecidableEq N]

/-- All servers are idle after `init`. -/
def started (localHost : N → Ip) (nserver : N → ℕ) (server : N → Vector Ip maxServ)
    (segments : N → UInt32 → Option Bytes) (undef : N → ℕ → Undef) :
    N → Status N Ip Server Call Reply :=
  fun n => .idle (init (localHost n) (nserver n) (server n) (segments n) (undef n))

/-- There is no cycle of servers each of which waits for a reply of the next one. -/
def NoWaitCycle (st : N → Status N Ip Server Call Reply) : Prop := Acyclic (waits st)

omit [DecidableEq N] in
theorem noWaitCycle_started (localHost : N → Ip) (nserver : N → ℕ)
    (server : N → Vector Ip maxServ) (segments : N → UInt32 → Option Bytes)
    (undef : N → ℕ → Undef) : NoWaitCycle (started localHost nserver server segments undef) := by
  intro n hn
  obtain ⟨b, hb, -⟩ := Relation.TransGen.head'_iff.mp hn
  simp [waits, started, Status.waitsFor] at hb

/-- For every run of calls on any number of servers with any tables: if every remote
call of a handler is made at another server that does not itself wait, then no state of
the run has a cycle. For two servers, as `init` has them, the converse holds as well. -/
theorem noWaitCycle_of_calleeFree (resolve : Ip → Option N) (localHost : N → Ip)
    (nserver : N → ℕ) (server : N → Vector Ip maxServ) (segments : N → UInt32 → Option Bytes)
    (undef : N → ℕ → Undef) (as : List (Action N Call)) :
    (Along (step (service resolve)) (CalleeFree (service resolve))
        (started localHost nserver server segments undef) as →
      Throughout (step (service resolve)) NoWaitCycle
        (started localHost nserver server segments undef) as) ∧
      ((∀ x y z : N, x = y ∨ y = z ∨ x = z) →
        Throughout (step (service resolve)) NoWaitCycle
          (started localHost nserver server segments undef) as →
        Along (step (service resolve)) (CalleeFree (service resolve))
          (started localHost nserver server segments undef) as) := by
  have hstart := noWaitCycle_started localHost nserver server segments undef
  refine ⟨?_, ?_⟩
  · exact throughout_of_along (fun st a st' hac hg hs => acyclic_step hac hg hs) as hstart
  · intro htwo
    refine (along_iff_throughout (J := fun _ => True) (fun _ _ _ _ _ => trivial) ?_ ?_ as trivial
      hstart).mpr
    · intro st a st' _ hac hs
      refine ⟨fun hg => acyclic_step hac hg hs, ?_⟩
      intro hac'
      by_contra hg
      exact not_acyclic_step htwo hac hg hs hac'
    · intro st a hs
      exact calleeFree_of_stuck hs

/-- The two servers of the table, idle. -/
def startedServers : Bool → Status Bool Ip Server Call Reply :=
  started serverIp (fun _ => 2) (fun _ => serverTable) (fun _ _ => none) (fun _ _ => zeroUndef)

/-- The first server creates a page and asks the second one, which is idle. -/
theorem noWaitCycle_hello :
    Along (step (service resolveTable)) (CalleeFree (service resolveTable)) startedServers
        [.start false (.pageCreat hello), .run false, .take false, .run true, .run false] ∧
      Throughout (step (service resolveTable)) NoWaitCycle startedServers
        [.start false (.pageCreat hello), .run false, .take false, .run true, .run false] := by
  have halong : Along (step (service resolveTable)) (CalleeFree (service resolveTable))
      startedServers
      [.start false (.pageCreat hello), .run false, .take false, .run true, .run false] := by
    decide +kernel
  exact ⟨halong, (noWaitCycle_of_calleeFree resolveTable serverIp (fun _ => 2)
    (fun _ => serverTable) (fun _ _ => none) (fun _ _ => zeroUndef) _).1 halong⟩

/-- Both servers create a page at the same time and wait for each other's PAGE_FIND. -/
theorem not_noWaitCycle : ∃ st, Reaches (step (service resolveTable)) anyStep startedServers st ∧
    waits st false = some true ∧ waits st true = some false ∧ ¬ NoWaitCycle st := by
  let as : List (Action Bool Call) :=
    [.start false (.pageCreat hello), .start true (.pageCreat hello), .run false, .run true]
  let st := (exec (step (service resolveTable)) startedServers as).get (by decide +kernel)
  have hfirst : waits st false = some true := by decide +kernel
  have hsecond : waits st true = some false := by decide +kernel
  refine ⟨st, reaches_of_exec_anyStep as (Option.some_get _).symm, hfirst, hsecond, ?_⟩
  intro hac
  exact hac false (.tail (.single hfirst) hsecond)

end DistributedSystem.Dsm
