import Crinit.SpawnSafety
import Crinit.System

/-! DISABLE keeps a task down: the dependency that it adds is only taken away by ENABLE, by whoever
fulfils it, or with the task. -/
namespace Crinit

open Interleave List

def Event.enables (n : String) : Event → Bool
  | .db (.removeDepFromTask dep m) => dep = ctlEnable && m = n
  | .db (.fulfillDep dep target) => dep = ctlEnable && (target = none || target = some n)
  | _ => false

def staysDisabled (n : String) (e : Step) : Bool :=
  !e.move.event.overwrites n && !e.move.event.enables n

def Disabled (n : String) (w : World) : Prop :=
  ∃ t, w.db.findTask n = some t ∧ ctlEnable ∈ t.deps

variable {n : String} {w : World} {e : Event}

theorem unmatched_of_enables (db : TaskDB) {op : DbOp}
    (kept : Event.enables n (.db op) = false) : ¬ DbCall.Matched n ctlEnable ⟨db, op⟩ := by
  rintro (rfl | rfl | rfl) <;> simp [Event.enables] at kept

theorem disabled_after (disabled : Disabled n w) (kept : e.overwrites n = false)
    (unfulfilled : e.enables n = false) : Disabled n (w.after e) := by
  obtain ⟨t, found, mem⟩ := disabled
  obtain ⟨t', found', ⟨rfl, _⟩ | ⟨op, rfl, change⟩⟩ := find_after found kept
  · exact ⟨t', found', mem⟩
  · exact ⟨t', found', deps_kept change (unmatched_of_enables w.db unfulfilled) mem⟩

theorem disabled_of_added {ok : Bool} (added : (w.db.addDepToTask ctlEnable n ok).ret = 0) :
    Disabled n (w.after (.db (.addDepToTask ctlEnable n ok))) := by
  cases found : w.db.findTask n with
  | none => simp [TaskDB.addDepToTask, found] at added
  | some t =>
    obtain ⟨t', found', _⟩ := find_apply (.addDepToTask ctlEnable n ok) found
    exact ⟨t', found', added_mem added found'⟩

/-- A disabled task is not started. -/
theorem disabled_stays_down {guard : Step → Prop} {b : Boot} {pre mid : List Step} {c c' : Config}
    {i : Nat} {a : Answers} {s : Step} {ok : Bool} (run : Run system guard b.conf pre c)
    (step : c.step system i a = some s)
    (disables : s.move.event = .db (.addDepToTask ctlEnable n ok))
    (done : (c.shared.db.addDepToTask ctlEnable n ok).ret = 0)
    (further : Run system (fun e => staysDisabled n e = true) s.result mid c') :
    Disabled n c'.shared ∧ ∀ e ∈ mid, startsFor n e = false := by
  obtain ⟨t, m, ht, taken, rfl⟩ := step_iff.mp step
  have shared := (system_moves taken).1
  have initially : Disabled n m.shared ∧ m.shared.db.names.Nodup := by
    rw [shared, disables]
    exact ⟨disabled_of_added done, distinct_after (run_distinct run) _⟩
  refine (further.history (fun tr c => (Disabled n c.shared ∧ c.shared.db.names.Nodup) ∧
    ∀ e ∈ tr, startsFor n e = false) ⟨initially, by simp⟩ ?_).imp And.left id
  rintro tr c j u m' o ⟨⟨disabled, distinct⟩, none⟩ - taken kept
  obtain ⟨shared, moves⟩ := system_moves taken
  simp only [staysDisabled, Bool.and_eq_true, Bool.not_eq_true'] at kept
  refine ⟨?_, fun e mem => ?_⟩
  · simp only [Conf.after, shared]
    exact ⟨disabled_after disabled kept.1 kept.2, distinct_after distinct _⟩
  · rcases List.mem_append.mp mem with mem | mem
    · exact none e mem
    · cases List.mem_singleton.mp mem
      by_contra starts
      rw [Bool.not_eq_false] at starts
      obtain ⟨-, v, found, ready, -⟩ := startsFor_ready distinct moves starts
      obtain ⟨t, found', there⟩ := disabled
      cases Option.some.inj (found.symm.trans found')
      rw [ready_deps ready] at there
      cases there

theorem telnet_stays_down : ∃ mid c', Run system (fun e => staysDisabled "telnet" e = true)
    ((telnetBoot.conf.step system 2 {}).get rfl).result mid c' ∧ mid.length = 1 ∧
      ∀ e ∈ mid, startsFor "telnet" e = false := by
  have further := run_of_schedule system (staysDisabled "telnet") (turns 0 1)
    ((telnetBoot.conf.step system 2 {}).get rfl).result (by decide)
  have boot : Run system (fun _ => True) telnetBoot.conf [] telnetBoot.conf := .start
  exact ⟨_, _, further, rfl, (disabled_stays_down boot (Option.some_get _).symm rfl rfl further).2⟩

end Crinit
