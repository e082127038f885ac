import Crinit.Discipline

/-! Dispatch threads and the STOP command work on copies of a task. The options of a copy stay those
of the task, unless it is overwritten. -/
namespace Crinit

open Interleave

def Copied (db : TaskDB) (n : String) (u : Task) : Prop :=
  u.name = n → ∃ t, db.findTask n = some t ∧ u.opts = t.opts

structure Copies (n : String) (c : Config) : Prop where
  distinct : c.shared.db.names.Nodup
  threads : ∀ j d, DispatchAt c j d → Copied c.shared.db n d.task
  handlers : ∀ j h, HandlerAt c j h → ∃ restarts g,
    h.script.Follows (commandDiscipline restarts) g ∧
      ∀ u, g.looked = some u → Copied c.shared.db n u

variable {n : String} {u : Task}

theorem copied_found {db : TaskDB} {m : String} (found : db.findTask m = some u) :
    Copied db n u := by
  rintro rfl
  rw [← findTask_name found] at found
  exact ⟨u, found, rfl⟩

variable {w : World}

theorem copied_after {e : Event} (copied : Copied w.db n u) (kept : e.overwrites n = false) :
    Copied (w.after e).db n u := by
  intro name
  obtain ⟨t, found, same⟩ := copied name
  obtain ⟨t', found', ⟨rfl, _⟩ | ⟨op, _, change⟩⟩ := find_after found kept
  · exact ⟨t', found', same⟩
  · exact ⟨t', found', same.trans (changes_fixed change).1.symm⟩

variable {a : Answers}

theorem copied_next {d d' : Dispatch} {e : Event} (copied : Copied w.db n d.task)
    (next : d.next w a = some (e, d')) : Copied w.db n d'.task := by
  rcases next_task next with same | found
  · rwa [same]
  · exact copied_found found

theorem looked_reply {restarts : Option String} {g : Held} {q : Call}
    (looked : ((commandDiscipline restarts).next g q (q.reply w)).looked = some u) :
    Copied w.db n u := by
  cases q with
  | look m ok =>
    cases ok with
    | true => exact copied_found looked
    | false => cases looked
  | _ => cases looked

variable {c : Config}

theorem copies_step {i : Nat} {t : Thread} {m : Move World Thread Event} (before : Copies n c)
    (ht : c.threads[i]? = some t) (step : system c.shared t a = some m)
    (kept : m.event.overwrites n = false) : Copies n (c.after i m) := by
  obtain ⟨shared, moves⟩ := system_moves step
  refine ⟨?_, ?_, ?_⟩
  · simpa only [Conf.after, shared] using distinct_after before.distinct m.event
  · intro j d hd
    simp only [Conf.after, shared]
    rcases dispatch_origin ht moves hd with ⟨d₀, old, ⟨_, rfl⟩ | ⟨rfl, _⟩⟩ | ⟨_, new⟩
    · exact copied_after (before.threads j d old) kept
    · cases Option.some.inj (ht.symm.trans old)
      exact copied_after (copied_next (before.threads j d₀ old) (dispatch_next ht moves hd)) kept
    · rcases moves_started moves new with ⟨_, _, stop | ⟨_, scan, started⟩⟩
      · obtain ⟨silent, mem | ⟨h, ok, k, rfl, script⟩⟩ :=
          started_stop moves (List.mem_of_getElem? new) stop
        · exact copied_after (copied_found (find_of_mem before.distinct mem)) kept
        · obtain ⟨_, g, follows, looked⟩ := before.handlers i h ht
          rw [script] at follows
          exact copied_after (looked _ follows.1) kept
      · rw [scan]
        exact copied_found (started_found before.distinct (List.mem_of_getElem? started)).1
  · intro j h hh
    simp only [Conf.after, shared]
    obtain ⟨h₀, old, ⟨_, rfl⟩ | ⟨rfl, q, k, script, _, rfl⟩⟩ := handler_origin ht moves hh
    · obtain ⟨restarts, g, follows, looked⟩ := before.handlers j h old
      exact ⟨restarts, g, follows, fun u eq => copied_after (looked u eq) kept⟩
    · obtain ⟨restarts, g, follows, _⟩ := before.handlers j h₀ old
      rw [script] at follows
      exact ⟨restarts, _, follows.2 (q.reply c.shared),
        fun u eq => copied_after (looked_reply eq) kept⟩

theorem boot_copies (b : Boot) (n : String) : Copies n b.conf := by
  refine ⟨b.distinct, fun j d hd => absurd hd (boot_no_dispatch b), ?_⟩
  intro j h hh
  rcases boot_threads b hh with ⟨_, main⟩ | ⟨_, fresh⟩
  · cases main
  · cases fresh with
    | command known =>
      have free (u : Task) (looked : ({} : Held).looked = some u) : Copied
        b.conf.shared.db n u := by
        cases looked
      rcases command_disciplined known with follows | ⟨_, _, m, _, _, follows⟩
      · exact ⟨none, {}, follows, free⟩
      · exact ⟨some m, {}, follows, free⟩

/-- A thread re-arms a task only when the task says TRIGGER_REARM. -/
theorem rearms_of_copies {i : Nat} {d : Dispatch} {t' : Thread} {started : List Thread} {t : Task}
    (copies : Copies n c) (ht : DispatchAt c i d)
    (moves : Moves c.shared a (.dispatch d) (.db (.rearmTrigger n)) t' started)
    (found : c.shared.db.findTask n = some t) : t.triggerRearm = true := by
  cases moves with
  | dispatch next =>
    obtain ⟨name, rearm⟩ := next_rearms next
    obtain ⟨u, found', same⟩ := copies.threads i d ht name
    cases Option.some.inj (found.symm.trans found')
    unfold Task.triggerRearm at rearm ⊢
    rwa [← same]

end Crinit
