import Mathlib.Data.List.Cycle
import Mathlib.Data.List.Sort

/-! The intrusive list of `list.h`: nodes with two pointers each, in a circle with the list head. -/
namespace Crinit

open List

/-- NULL is `none`. -/
structure Links (α : Type) where
  next : α → Option α
  prev : α → Option α

section Circles

variable {α : Type}

theorem chain_opened {R : α → α → Prop} (list : α) (xs ys : List α) :
    Cycle.Chain R (list :: (xs ++ ys) : List α) ↔
      ((list :: xs).getLast (cons_ne_nil list xs) :: (ys ++ list :: xs)).IsChain R := by
  have rotated : (list :: (xs ++ ys) : Cycle α) = (ys ++ list :: xs : List α) :=
    Cycle.coe_eq_coe.2 (isRotated_append (l := list :: xs))
  rw [rotated, Cycle.chain_ne_nil _ (by simp)]
  simp

theorem nodup_opened {list : α} {xs ys : List α} :
    (list :: (xs ++ ys)).Nodup ↔ (ys ++ list :: xs).Nodup :=
  (isRotated_append (l := list :: xs)).nodup_iff

theorem behind_cons (list : α) (xs ys : List α) : ∃ nx rest, ys ++ list :: xs = nx :: rest ∧
    (ys ++ [list]).head? = some nx ∧ (list :: xs).getLast (cons_ne_nil list xs) ∈ nx :: rest := by
  have last : (list :: xs).getLast (cons_ne_nil list xs) ∈ ys ++ list :: xs :=
    mem_append_right _ (getLast_mem _)
  cases ys with
  | nil => exact ⟨list, xs, rfl, rfl, last⟩
  | cons y ys => exact ⟨y, ys ++ list :: xs, rfl, rfl, last⟩

def Linked (h : Links α) (a b : α) : Prop := h.next a = some b ∧ h.prev b = some a

structure Circle (h : Links α) (list : α) (l : List α) : Prop where
  chain : Cycle.Chain (Linked h) (list :: l : List α)
  nodup : (list :: l).Nodup

variable {h : Links α} {list : α} {l xs ys : List α}

theorem Circle.next_at {x : α} (circle : Circle h list (xs ++ x :: ys)) :
    ∃ nx, (ys ++ [list]).head? = some nx ∧ h.next x = some nx := by
  obtain ⟨nx, rest, opened, first, -⟩ := behind_cons list (xs ++ [x]) ys
  have chain := circle.chain
  rw [append_cons, chain_opened, opened] at chain
  have last : (list :: (xs ++ [x])).getLast (cons_ne_nil _ _) = x := by simp
  rw [last] at chain
  exact ⟨nx, first, (List.isChain_cons_cons.1 chain).1.1⟩

structure Sequence (h : Links α) (list : α) (l : List α) : Prop where
  distinct : (list :: l).Nodup
  forward : (list :: (l ++ [list])).IsChain fun a b => h.next a = some b
  backward : (list :: (l.reverse ++ [list])).IsChain fun a b => h.prev a = some b
  reached : ∀ x, Relation.ReflTransGen (fun a b => h.next a = some b) list x ↔ x ∈ list :: l

theorem Circle.next_head (circle : Circle h list l) :
    ∃ nx, (l ++ [list]).head? = some nx ∧ h.next list = some nx := by
  have chain := (Cycle.chain_coe_cons _ _ _).1 circle.chain
  cases l with
  | nil => exact ⟨list, rfl, (List.isChain_cons_cons.1 chain).1.1⟩
  | cons x l => exact ⟨x, rfl, (List.isChain_cons_cons.1 chain).1.1⟩

theorem Circle.next_mem (circle : Circle h list l) {a b : α} (mem : a ∈ list :: l)
    (next : h.next a = some b) : b ∈ list :: l := by
  have inside {ys : List α} {nx : α} (part : ∀ y ∈ ys, y ∈ l)
      (first : (ys ++ [list]).head? = some nx) : nx ∈ list :: l := by
    have := mem_of_head? first
    simp only [mem_append, mem_singleton] at this
    exact this.elim (fun y => mem_cons_of_mem _ (part _ y)) fun same => same ▸ mem_cons_self
  rcases List.mem_cons.1 mem with rfl | mem
  · obtain ⟨nx, first, next'⟩ := circle.next_head
    cases next.symm.trans next'
    exact inside (fun _ => id) first
  · obtain ⟨xs, ys, rfl⟩ := append_of_mem mem
    obtain ⟨nx, first, next'⟩ := circle.next_at
    cases next.symm.trans next'
    exact inside (fun y mem => mem_append_right _ (mem_cons_of_mem _ mem)) first

theorem Circle.sequence (circle : Circle h list l) : Sequence h list l := by
  have chain := (Cycle.chain_coe_cons _ _ _).1 circle.chain
  have forward : (list :: (l ++ [list])).IsChain fun a b => h.next a = some b :=
    chain.imp fun a b linked => linked.1
  refine ⟨circle.nodup, forward, ?_, fun x => ⟨fun path => ?_, fun mem => ?_⟩⟩
  · have back := List.isChain_reverse.2 (chain.imp fun a b linked => linked.2)
    simpa using back
  · induction path with
    | refl => exact mem_cons_self
    | tail path next ih => exact circle.next_mem ih next
  · refine forward.induction _ _ (fun a b next path => path.tail next) (fun _ => .refl) x ?_
    exact mem_append_left _ mem

end Circles

section Intrusive

variable {α : Type} [DecidableEq α]

def Links.setNext (h : Links α) (a : α) (p : Option α) : Links α :=
  { h with next := Function.update h.next a p }

def Links.setPrev (h : Links α) (a : α) (p : Option α) : Links α :=
  { h with prev := Function.update h.prev a p }

def listInit (h : Links α) (list : α) : Links α :=
  (h.setNext list (some list)).setPrev list (some list)

def listInsert (h : Links α) (entry prev next : α) : Links α :=
  (((h.setNext entry (some next)).setPrev entry (some prev)).setPrev next (some entry)).setNext
    prev (some entry)

/-- The access to a NULL pointer has no result. -/
def listPrepend (h : Links α) (list entry : α) : Option (Links α) :=
  (h.next list).map fun next => listInsert h entry list next

def listAppend (h : Links α) (list entry : α) : Option (Links α) :=
  (h.prev list).bind fun prev => (h.next prev).map fun next => listInsert h entry prev next

def insertLoop (entryCmp : α → α → Int) (list entry : α) (h : Links α) :
    Nat → Option α → Option (Links α)
  | turns + 1, some cur =>
    if cur = list then listAppend h list entry
    else if 0 ≤ entryCmp cur entry then
      (h.prev cur).map fun prev => listInsert h entry prev cur
    else insertLoop entryCmp list entry h turns (h.next cur)
  | _, _ => none

def listInsertSorted (entryCmp : α → α → Int) (turns : Nat) (h : Links α) (list entry : α) :
    Option (Links α) :=
  insertLoop entryCmp list entry h turns (h.next list)

def listDelete (h : Links α) (entry : α) : Option (Links α) :=
  (h.next entry).bind fun next => (h.prev entry).map fun prev =>
    (((h.setPrev next (some prev)).setNext prev (some next)).setNext entry none).setPrev entry none

/-- `crinitListForEachEntrySafe` around a body that deletes some of the entries: the entries it
visits, and the pointers behind it. -/
def forEachEntrySafe (list : α) (deletes : α → Bool) :
    Nat → Links α → α → Option α → Option (List α × Links α)
  | 0, _, _, _ => none
  | turns + 1, h, entry, temp =>
    if entry = list then some ([], h)
    else (if deletes entry then listDelete h entry else some h).bind fun h =>
      temp.bind fun entry' =>
        (forEachEntrySafe list deletes turns h entry' (h.next entry')).map fun r =>
          (entry :: r.1, r.2)

def forEachSafe (list : α) (deletes : α → Bool) (turns : Nat) (h : Links α) :
    Option (List α × Links α) :=
  (h.next list).bind fun entry => forEachEntrySafe list deletes turns h entry (h.next entry)

variable {h : Links α} {list entry pv nx : α} {l xs ys rest : List α}

/-- The four writes of an insertion concern no other pair of neighbours. -/
theorem insert_chain (chain : (pv :: nx :: rest).IsChain (Linked h)) (nodup : (nx :: rest).Nodup)
    (last : pv ∈ nx :: rest) (fresh : entry ∉ nx :: rest) :
    (pv :: entry :: nx :: rest).IsChain (Linked (listInsert h entry pv nx)) := by
  obtain ⟨first, chain⟩ := List.isChain_cons_cons.1 chain
  have other : entry ≠ pv := fun same => fresh (same ▸ last)
  have behind : entry ≠ nx := fun same => fresh (same ▸ mem_cons_self)
  refine .cons_cons ?_ (.cons_cons ?_ (chain.imp_of_mem_tail_imp fun a b mem mem' linked => ?_))
  · simp [Linked, listInsert, Links.setNext, Links.setPrev, behind]
  · simp [Linked, listInsert, Links.setNext, Links.setPrev, other]
  · have notPrev : a ≠ pv := by
      rintro rfl
      cases first.1.symm.trans linked.1
      exact (List.nodup_cons.1 nodup).1 mem'
    have notNext : b ≠ nx := fun same => (List.nodup_cons.1 nodup).1 (same ▸ mem')
    have new : a ≠ entry ∧ b ≠ entry :=
      ⟨fun same => fresh (same ▸ mem), fun same => fresh (same ▸ mem_cons_of_mem _ mem')⟩
    simpa [Linked, listInsert, Links.setNext, Links.setPrev, new, notPrev, notNext] using linked

theorem delete_chain {e : α} (chain : (pv :: e :: nx :: rest).IsChain (Linked h))
    (nodup : (e :: nx :: rest).Nodup) (last : pv ∈ nx :: rest) :
    ∃ h', listDelete h e = some h' ∧ (pv :: nx :: rest).IsChain (Linked h') := by
  obtain ⟨first, chain⟩ := List.isChain_cons_cons.1 chain
  obtain ⟨second, chain⟩ := List.isChain_cons_cons.1 chain
  obtain ⟨gone, nodup⟩ := List.nodup_cons.1 nodup
  have other : pv ≠ e := fun same => gone (same ▸ last)
  have behind : nx ≠ e := fun same => gone (same ▸ mem_cons_self)
  refine ⟨_, by simp [listDelete, second.1, first.2]; rfl, ?_⟩
  refine .cons_cons ?_ (chain.imp_of_mem_tail_imp fun a b mem mem' linked => ?_)
  · simp [Linked, Links.setNext, Links.setPrev, other, behind]
  · have notPrev : a ≠ pv := by
      rintro rfl
      cases first.1.symm.trans linked.1
      exact gone (mem_cons_of_mem _ mem')
    have notNext : b ≠ nx := fun same => (List.nodup_cons.1 nodup).1 (same ▸ mem')
    have stays : a ≠ e ∧ b ≠ e :=
      ⟨fun same => gone (same ▸ mem), fun same => gone (same ▸ mem_cons_of_mem _ mem')⟩
    simpa [Linked, Links.setNext, Links.setPrev, stays, notPrev, notNext] using linked

theorem Circle.insert (circle : Circle h list (xs ++ ys)) (fresh : entry ∉ list :: (xs ++ ys)) :
    ∃ pv nx, (list :: xs).getLast? = some pv ∧ (ys ++ [list]).head? = some nx ∧ Linked h pv nx ∧
      Circle (listInsert h entry pv nx) list (xs ++ entry :: ys) := by
  obtain ⟨nx, rest, opened, first, last⟩ := behind_cons list xs ys
  have chain := (chain_opened list xs ys).1 circle.chain
  have nodup := nodup_opened.1 circle.nodup
  have fresh' : entry ∉ ys ++ list :: xs := by
    simp only [mem_cons, mem_append, not_or] at fresh ⊢
    exact ⟨fresh.2.2, fresh.1, fresh.2.1⟩
  rw [opened] at chain nodup fresh'
  refine ⟨_, nx, getLast?_eq_some_getLast (cons_ne_nil list xs), first,
    (List.isChain_cons_cons.1 chain).1, ⟨(chain_opened list xs _).2 ?_, nodup_opened.2 ?_⟩⟩
  · rw [cons_append, opened]
    exact insert_chain chain nodup last fresh'
  · rw [cons_append, opened]
    exact List.nodup_cons.2 ⟨fresh', nodup⟩

theorem Circle.delete {e : α} (circle : Circle h list (xs ++ e :: ys)) :
    ∃ h', listDelete h e = some h' ∧ Circle h' list (xs ++ ys) := by
  obtain ⟨nx, rest, opened, first, last⟩ := behind_cons list xs ys
  have chain := (chain_opened list xs _).1 circle.chain
  have nodup := nodup_opened.1 circle.nodup
  rw [cons_append, opened] at chain nodup
  obtain ⟨h', made, chain'⟩ := delete_chain chain nodup last
  refine ⟨h', made, (chain_opened list xs ys).2 ?_, nodup_opened.2 ?_⟩
  · rw [opened]
    exact chain'
  · rw [opened]
    exact (List.nodup_cons.1 nodup).2

theorem Circle.init (h : Links α) (list : α) : Circle (listInit h list) list [] :=
  ⟨(Cycle.chain_singleton _ _).2 (by simp [Linked, listInit, Links.setNext, Links.setPrev]),
    nodup_singleton _⟩

theorem Circle.prepend (circle : Circle h list l) (fresh : entry ∉ list :: l) :
    ∃ h', listPrepend h list entry = some h' ∧ Circle h' list (entry :: l) := by
  rw [← nil_append l] at circle fresh
  obtain ⟨_, nx, ⟨⟩, -, linked, circle'⟩ := Circle.insert circle fresh
  have next : h.next list = some nx := linked.1
  exact ⟨_, by rw [listPrepend, next]; rfl, circle'⟩

theorem Circle.append (circle : Circle h list l) (fresh : entry ∉ list :: l) :
    ∃ h', listAppend h list entry = some h' ∧ Circle h' list (l ++ [entry]) := by
  rw [← append_nil l] at circle fresh
  obtain ⟨pv, _, -, ⟨⟩, linked, circle'⟩ := Circle.insert circle fresh
  exact ⟨_, by rw [listAppend, linked.2]; simp [linked.1], circle'⟩

variable {entryCmp : α → α → Int} {turns : Nat}

theorem insertLoop_eq {c : α} (chain : (c :: (l ++ [list])).IsChain (Linked h)) (out : list ∉ l)
    (enough : l.length < turns) :
    insertLoop entryCmp list entry h turns (h.next c) =
      match l.dropWhile fun x => ¬ 0 ≤ entryCmp x entry with
      | [] => listAppend h list entry
      | cur :: _ => (h.prev cur).map fun prev => listInsert h entry prev cur := by
  induction l generalizing c turns with
  | nil =>
    obtain ⟨turns, rfl⟩ := Nat.exists_eq_succ_of_ne_zero (Nat.ne_of_gt enough)
    rw [(List.isChain_cons_cons.1 chain).1.1]
    simp [insertLoop]
  | cons x l ih =>
    obtain ⟨turns, rfl⟩ := Nat.exists_eq_succ_of_ne_zero (Nat.ne_of_gt (Nat.zero_lt_of_lt enough))
    obtain ⟨linked, chain⟩ := List.isChain_cons_cons.1 chain
    obtain ⟨other, out⟩ := ne_and_not_mem_of_not_mem_cons out
    rw [linked.1, insertLoop, if_neg other.symm, dropWhile_cons]
    by_cases stop : 0 ≤ entryCmp x entry
    · simp [stop]
    · simpa [stop] using ih chain out (Nat.lt_of_succ_lt_succ enough)

theorem Circle.insertSorted (circle : Circle h list l) (fresh : entry ∉ list :: l)
    (enough : l.length < turns) :
    ∃ h', listInsertSorted entryCmp turns h list entry = some h' ∧
      Circle h' list (l.orderedInsert (fun a b => 0 ≤ entryCmp b a) entry) := by
  have chain := (Cycle.chain_coe_cons _ _ _).1 circle.chain
  rw [listInsertSorted, insertLoop_eq chain (List.nodup_cons.1 circle.nodup).1 enough,
    orderedInsert_eq_take_drop]
  have split := takeWhile_append_dropWhile (p := fun x => ¬ 0 ≤ entryCmp x entry) (l := l)
  cases rest : l.dropWhile fun x => ¬ 0 ≤ entryCmp x entry with
  | nil =>
    rw [rest, append_nil] at split
    rw [split]
    exact circle.append fresh
  | cons cur ys =>
    rw [rest] at split
    rw [← split] at circle fresh
    obtain ⟨pv, _, -, ⟨⟩, linked, circle'⟩ := Circle.insert circle fresh
    exact ⟨_, by simp [linked.2], circle'⟩

theorem Circle.deleted {e : α} (circle : Circle h list l) (mem : e ∈ l) :
    ∃ h', listDelete h e = some h' ∧ Circle h' list (l.filter (· != e)) := by
  obtain ⟨xs, ys, rfl⟩ := append_of_mem mem
  obtain ⟨h', made, circle'⟩ := circle.delete
  have distinct := (List.nodup_cons.1 circle.nodup).2
  rw [← distinct.erase_eq_filter, erase_append_right _ ?_, erase_cons_head]
  · exact ⟨h', made, circle'⟩
  · intro before
    exact (List.nodup_append.1 distinct).2.2 _ before _ mem_cons_self rfl

inductive ListOp (α : Type)
  | init
  | append (entry : α)
  | prepend (entry : α)
  | insertSorted (entry : α)
  | delete (entry : α)

def ListOp.exec (entryCmp : α → α → Int) (turns : Nat) (list : α) (h : Links α) :
    ListOp α → Option (Links α)
  | .init => some (listInit h list)
  | .append entry => listAppend h list entry
  | .prepend entry => listPrepend h list entry
  | .insertSorted entry => listInsertSorted entryCmp turns h list entry
  | .delete entry => listDelete h entry

def ListOp.apply (entryCmp : α → α → Int) (l : List α) : ListOp α → List α
  | .init => []
  | .append entry => l ++ [entry]
  | .prepend entry => entry :: l
  | .insertSorted entry => l.orderedInsert (fun a b => 0 ≤ entryCmp b a) entry
  | .delete entry => l.filter (· != entry)

/-- A new entry is none of the nodes of the list, and a deleted one is in it. -/
def ListOp.Allowed (list : α) (l : List α) : ListOp α → Prop
  | .init => True
  | .append entry | .prepend entry | .insertSorted entry => entry ∉ list :: l
  | .delete entry => entry ∈ l

def AllAllowed (entryCmp : α → α → Int) (list : α) : List α → List (ListOp α) → Prop
  | _, [] => True
  | l, op :: ops => op.Allowed list l ∧ AllAllowed entryCmp list (op.apply entryCmp l) ops

theorem Circle.step (entryCmp : α → α → Int) {op : ListOp α} (circle : Circle h list l)
    (allowed : op.Allowed list l) (enough : l.length < turns) :
    ∃ h', op.exec entryCmp turns list h = some h' ∧ Circle h' list (op.apply entryCmp l) ∧
      (op.apply entryCmp l).length ≤ l.length + 1 := by
  cases op with
  | init => exact ⟨_, rfl, .init h list, Nat.zero_le _⟩
  | append entry =>
    obtain ⟨h', made, circle'⟩ := circle.append allowed
    exact ⟨h', made, circle', by simp [ListOp.apply]⟩
  | prepend entry =>
    obtain ⟨h', made, circle'⟩ := circle.prepend allowed
    exact ⟨h', made, circle', by simp [ListOp.apply]⟩
  | insertSorted entry =>
    obtain ⟨h', made, circle'⟩ := circle.insertSorted allowed enough
    exact ⟨h', made, circle', by simp [ListOp.apply, orderedInsert_length]⟩
  | delete entry =>
    obtain ⟨h', made, circle'⟩ := circle.deleted allowed
    exact ⟨h', made, circle', Nat.le_succ_of_le (length_filter_le _ _)⟩

theorem Circle.run {ops : List (ListOp α)} (circle : Circle h list l)
    (allowed : AllAllowed entryCmp list l ops) (enough : l.length + ops.length < turns) :
    ∃ h', ops.foldlM (ListOp.exec entryCmp turns list) h = some h' ∧
      Circle h' list (ops.foldl (ListOp.apply entryCmp) l) ∧
      (ops.foldl (ListOp.apply entryCmp) l).length ≤ l.length + ops.length := by
  induction ops generalizing h l with
  | nil => exact ⟨h, rfl, circle, Nat.le_refl _⟩
  | cons op ops ih =>
    rw [length_cons] at enough
    obtain ⟨h₁, made, circle₁, longer⟩ := circle.step entryCmp allowed.1
      (show l.length < turns by omega)
    obtain ⟨h', rest, circle', length⟩ := ih circle₁ allowed.2 (by omega)
    refine ⟨h', ?_, circle', ?_⟩
    · rw [foldlM_cons, made]
      exact rest
    · rw [foldl_cons, length_cons]
      omega

/-- The safe loop from the node behind `xs` on, which are the nodes it kept. -/
theorem Circle.forEach {deletes : α → Bool} {first : α} (circle : Circle h list (xs ++ ys))
    (start : (ys ++ [list]).head? = some first) (enough : ys.length < turns) :
    ∃ h', forEachEntrySafe list deletes turns h first (h.next first) = some (ys, h') ∧
      Circle h' list (xs ++ ys.filter fun x => !deletes x) := by
  induction ys generalizing h xs turns first with
  | nil =>
    obtain ⟨turns, rfl⟩ := Nat.exists_eq_succ_of_ne_zero (Nat.ne_of_gt enough)
    cases start
    exact ⟨h, by simp [forEachEntrySafe], circle⟩
  | cons x ys ih =>
    obtain ⟨turns, rfl⟩ := Nat.exists_eq_succ_of_ne_zero (Nat.ne_of_gt (Nat.zero_lt_of_lt enough))
    replace enough := Nat.lt_of_succ_lt_succ enough
    cases start
    have other : x ≠ list := by
      rintro rfl
      exact (List.nodup_cons.1 circle.nodup).1 (by simp)
    obtain ⟨nx, start, next⟩ := circle.next_at
    rw [next, forEachEntrySafe, if_neg other]
    cases deleted : deletes x with
    | true =>
      obtain ⟨h₁, made, circle₁⟩ := circle.delete
      obtain ⟨h', later, circle'⟩ := ih circle₁ start enough
      exact ⟨h', by simp [made, later], by simpa [deleted] using circle'⟩
    | false =>
      rw [append_cons] at circle
      obtain ⟨h', later, circle'⟩ := ih circle start enough
      exact ⟨h', by simp [later], by simpa [deleted] using circle'⟩

/-- The list is a sequence, the sorted insertion keeps a sorted one sorted, and the safe loop visits
each of its nodes once, whichever of them are deleted on the way. -/
structure Implements (entryCmp : α → α → Int) (turns : Nat) (h : Links α) (list : α)
    (l : List α) : Prop where
  sequence : Sequence h list l
  sorts : ∀ entry ∉ list :: l, (∀ a b, 0 ≤ entryCmp b a ∨ 0 ≤ entryCmp a b) →
    (∀ a b c, 0 ≤ entryCmp b a → 0 ≤ entryCmp c b → 0 ≤ entryCmp c a) →
    l.Pairwise (fun a b => 0 ≤ entryCmp b a) →
    ∃ h' l', listInsertSorted entryCmp turns h list entry = some h' ∧ Sequence h' list l' ∧
      l'.Pairwise (fun a b => 0 ≤ entryCmp b a) ∧ l'.Perm (entry :: l)
  visits : ∀ deletes, ∃ h', forEachSafe list deletes turns h = some (l, h') ∧
    Sequence h' list (l.filter fun x => !deletes x)

theorem Circle.implements (circle : Circle h list l) (enough : l.length < turns) :
    Implements entryCmp turns h list l where
  sequence := circle.sequence
  sorts entry fresh total trans sorted := by
    obtain ⟨h', made, circle'⟩ := circle.insertSorted fresh enough
    have : Std.Total fun a b => 0 ≤ entryCmp b a := ⟨total⟩
    have : IsTrans α fun a b => 0 ≤ entryCmp b a := ⟨trans⟩
    exact ⟨h', _, made, circle'.sequence, sorted.orderedInsert entry l, perm_orderedInsert _ _ _⟩
  visits deletes := by
    obtain ⟨nx, first, next⟩ := circle.next_head
    rw [← nil_append l] at circle
    obtain ⟨h', made, circle'⟩ := circle.forEach first enough
    exact ⟨h', by rw [forEachSafe, next]; exact made, circle'.sequence⟩

theorem list_is_sequence {entryCmp : α → α → Int} {list : α} {ops : List (ListOp α)}
    {turns : Nat}
    (allowed : AllAllowed entryCmp list [] ops) (enough : ops.length < turns) (h : Links α) :
    ∃ h', (.init :: ops).foldlM (ListOp.exec entryCmp turns list) h = some h' ∧
      Implements entryCmp turns h' list (ops.foldl (ListOp.apply entryCmp) []) := by
  obtain ⟨h', made, circle, length⟩ := (Circle.init h list).run allowed (by simpa using enough)
  exact ⟨h', made, circle.implements (by simp at length; omega)⟩

end Intrusive

/-- Numbers as nodes, with 0 as the head. -/
theorem two_sorted_numbers : ∃ h, Implements (fun a b : Int => a - b) 5 h 0 [1, 3] := by
  have allowed : AllAllowed (fun a b : Int => a - b) 0 []
      [.append 3, .insertSorted 2, .prepend 1, .delete 2] := by
    simp [AllAllowed, ListOp.Allowed, ListOp.apply]
  obtain ⟨h, -, implements⟩ := list_is_sequence allowed (by decide : _ < 5)
    ⟨fun _ => none, fun _ => none⟩
  exact ⟨h, implements⟩

end Crinit
