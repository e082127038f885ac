import Mathlib.Data.List.Basic

/-! Programs that call out and go on with the reply: run to their end without interference, or
advanced call by call by a scheduler. -/

inductive Script (C R A : Type) where
  | ret (a : A)
  | call (c : C) (next : R → Script C R A)

namespace Script

variable {C R A B S : Type}

def bind : Script C R A → (A → Script C R B) → Script C R B
  | ret a, f => f a
  | call c next, f => call c fun r => (next r).bind f

instance : Monad (Script C R) where
  pure := ret
  bind := bind

def request (c : C) : Script C R R := call c ret

@[simp] theorem pure_eq (a : A) : (pure a : Script C R A) = ret a := rfl

structure Machine (C R S : Type) where
  reply : C → S → R
  after : C → S → S

def run (m : Machine C R S) : Script C R A → S → A × S
  | ret a, s => (a, s)
  | call c next, s => (next (m.reply c s)).run m (m.after c s)

@[simp] theorem run_ret (m : Machine C R S) (a : A) (s : S) :
    (ret a : Script C R A).run m s = (a, s) := rfl

theorem run_bind (m : Machine C R S) (x : Script C R A) (f : A → Script C R B) (s : S) :
    (x >>= f).run m s = (f (x.run m s).1).run m (x.run m s).2 := by
  induction x generalizing s with
  | ret a => rfl
  | call c next ih => exact ih _ _

def returned : Script C R A → Bool
  | ret _ => true
  | call _ _ => false

def Always (p : A → Prop) : Script C R A → Prop
  | ret a => p a
  | call _ next => ∀ r, (next r).Always p

variable {m : Script C R A}

theorem always_bind {p : B → Prop} {f : A → Script C R B} (rest : ∀ a, (f a).Always p) :
    (m >>= f).Always p := by
  induction m with
  | ret a => exact rest a
  | call c next ih => exact fun r => ih r

theorem always_run {p : A → Prop} (always : m.Always p) (machine : Machine C R S) (s : S) :
    p (m.run machine s).1 := by
  induction m generalizing s with
  | ret a => exact always
  | call c next ih => exact ih _ (always _) _

/-- A discipline for callers: `ok` says which calls are allowed in a state of
the discipline, `next` how calls and replies move that state. -/
structure Discipline (C R G : Type) where
  ok : G → C → Prop
  next : G → C → R → G

def Follows {G : Type} (d : Discipline C R G) : G → Script C R A → Prop
  | _, ret _ => True
  | g, call c next => d.ok g c ∧ ∀ r, (next r).Follows d (d.next g c r)

variable {G : Type} {d : Discipline C R G}

theorem follows_bind {g : G} {f : A → Script C R B} (first : m.Follows d g)
    (rest : ∀ a g, (f a).Follows d g) : (m >>= f).Follows d g := by
  induction m generalizing g with
  | ret a => exact rest a g
  | call c next ih => exact ⟨first.1, fun r => ih r (first.2 r)⟩

theorem Follows.mono {H : Type} {d' : Discipline C R H} (rel : G → H → Prop) {g : G} {h : H}
    (follows : m.Follows d g) (start : rel g h)
    (implies : ∀ g h c, rel g h → d.ok g c → d'.ok h c)
    (kept : ∀ g h c r, rel g h → rel (d.next g c r) (d'.next h c r)) : m.Follows d' h := by
  induction m generalizing g h with
  | ret a => trivial
  | call c next ih =>
    exact ⟨implies g h c start follows.1, fun r => ih r (follows.2 r) (kept g h c r start)⟩

def only (allowed : C → Prop) : Discipline C R Unit where
  ok _ c := allowed c
  next _ _ _ := ()

theorem follows_of_only {allowed : C → Prop} (implies : ∀ g c, allowed c → d.ok g c)
    (calls : m.Follows (only allowed) ()) (g : G) : m.Follows d g :=
  calls.mono (fun _ _ => True) trivial (fun _ g c _ => implies g c) fun _ _ _ _ _ => trivial

end Script
