import Crinit.Frame

/-! What the threads of crinit share: the TaskDB, the wait inhibition, the child processes, and the
main thread's place on `crinitTaskDB_t::changed`. -/
namespace Crinit

open List

inductive Signal where
  | term | kill
  deriving DecidableEq, Repr

/-- The main thread is not in `pthread_cond_wait`, is in it with no broadcast
since it went to sleep, or is in it with one. -/
inductive Waiter where
  | away | waiting | woken
  deriving DecidableEq, Repr

structure World where
  db : TaskDB := {}
  waitInhibit : Bool := false
  running : List Int := []
  zombies : List Int := []
  waiter : Waiter := .away
  deriving DecidableEq, Repr

/-- Spawned and not reaped: the PID cannot belong to another process. -/
def World.unreaped (w : World) (pid : Int) : Prop := pid ∈ w.running ∨ pid ∈ w.zombies

instance (w : World) (pid : Int) : Decidable (w.unreaped pid) :=
  inferInstanceAs (Decidable (_ ∨ _))

inductive Event where
  | db (op : DbOp)
  | fork (pid : Int)
  | exited (pid : Int)
  | reaped (pid : Int)
  | inhibitWait (inh : Bool)
  | kill (pid : Int) (sig : Signal)
  | sleep
  | wake
  /-- A step that reads the shared state or does not touch it. -/
  | silent

def Waiter.broadcast : Waiter → Waiter
  | .waiting => .woken
  | v => v

def World.after (w : World) : Event → World
  | .db op =>
    let r := op.apply w.db
    { w with db := r.db, waiter := if r.broadcast then w.waiter.broadcast else w.waiter }
  | .fork pid => { w with running := pid :: w.running }
  | .exited pid => { w with running := w.running.erase pid, zombies := pid :: w.zombies }
  | .reaped pid => { w with zombies := w.zombies.erase pid }
  | .inhibitWait inh => { w with waitInhibit := inh }
  | .kill _ _ => w
  | .sleep => { w with waiter := .waiting }
  | .wake => { w with waiter := .away }
  | .silent => w

theorem after_db (w : World) (e : Event) :
    (w.after e).db = w.db ∨ ∃ op, e = .db op ∧ (w.after e).db = (op.apply w.db).db := by
  cases e with
  | db op => exact .inr ⟨op, rfl, rfl⟩
  | _ => exact .inl rfl

def Event.overwrites (n : String) : Event → Bool
  | .db op => op.overwrites n
  | _ => false

theorem find_after {w : World} {e : Event} {n : String} {t : Task}
    (found : w.db.findTask n = some t) (kept : e.overwrites n = false) :
    ∃ t', (w.after e).db.findTask n = some t' ∧
      ((t' = t ∧ ∀ op, e ≠ .db op) ∨ ∃ op, e = .db op ∧ op.Changes n t t') := by
  cases e with
  | db op =>
    obtain ⟨t', found', ⟨overwritten, _⟩ | change⟩ := find_apply op found
    · simp [Event.overwrites, overwritten] at kept
    · exact ⟨t', found', .inr ⟨op, rfl, change⟩⟩
  | _ => exact ⟨t, found, .inl ⟨rfl, fun op eq => by cases eq⟩⟩

theorem distinct_after {w : World} (distinct : w.db.names.Nodup) (e : Event) :
    (w.after e).db.names.Nodup := by
  rcases after_db w e with same | ⟨op, _, same⟩
  · exact same ▸ distinct
  · exact same ▸ nodup_apply op distinct

theorem after_waitInhibit (w : World) (e : Event) :
    (w.after e).waitInhibit = w.waitInhibit ∨
      ∃ inh, e = .inhibitWait inh ∧ (w.after e).waitInhibit = inh := by
  cases e with
  | inhibitWait inh => exact .inr ⟨inh, rfl, rfl⟩
  | _ => exact .inl rfl

theorem unreaped_after {w : World} {pid : Int} (h : w.unreaped pid) (e : Event)
    (kept : e ≠ .reaped pid) : (w.after e).unreaped pid := by
  unfold World.unreaped at *
  cases e with
  | fork q => exact h.imp (mem_cons_of_mem _) id
  | exited q =>
    simp only [World.after]
    by_cases eq : pid = q
    · exact .inr (eq ▸ mem_cons_self ..)
    · exact h.imp (fun m => (mem_erase_of_ne eq).mpr m) (mem_cons_of_mem _)
  | reaped q =>
    have ne : pid ≠ q := fun eq => kept (eq ▸ rfl)
    exact h.imp id fun m => (mem_erase_of_ne ne).mpr m
  | _ => exact h

end Crinit
