import Crinit.Lib.CText
import Mathlib.Data.List.Basic

/-! The mount points that are unmounted before a shutdown: `crinitGenUnMountList`, which tokenises
each line of `/proc/mounts` in the list node that is filled next. -/
namespace Crinit

open CText List

inductive MountTurn where
  | skipped
  | readOnlyRoot (left : List Char)
  | entry (point : List Char)
  deriving DecidableEq, Repr

/-- The first `strtok_r` ends the source in place, and with it what the target of the node reads
as from then on. -/
def mountTurn (target : List Char) : MountTurn :=
  match strtokR ' ' target with
  | none => .skipped
  | some (source, rest) =>
    if source = "none".toList then .skipped
    else match strtokR ' ' rest with
      | none => .skipped
      | some (point, rest) =>
        if point = "/".toList then
          match strtokR ' ' rest with
          | none => .skipped
          | some (_, rest) =>
            match strtokR ' ' rest with
            | none => .skipped
            | some (options, _) =>
              if "ro,".toList.isPrefixOf options || "ro ".toList.isPrefixOf options then
                .readOnlyRoot (target.takeWhile (· == ' ') ++ source)
              else .skipped
        else .entry point

structure UnMountList where
  target : List Char
  next : List (List Char) := []
  deriving DecidableEq, Repr

/-- A new node is the allocation behind those of the nodes before it. -/
def genUnMountLoop (alloc : Nat → Bool) : Nat → List Char → UnMountList → Bool →
    Option (UnMountList × Bool)
  | 0, _, _, _ => none
  | turns + 1, stream, list, rootfsIsRo =>
    match fgets pathMax stream with
    | none => some (list, rootfsIsRo)
    | some line =>
      let stream := stream.drop line.length
      match mountTurn (textAt line 0) with
      | .skipped => genUnMountLoop alloc turns stream { list with target := [] } rootfsIsRo
      | .readOnlyRoot left => genUnMountLoop alloc turns stream { list with target := left } true
      | .entry point =>
        if alloc (list.next.length + 1) then
          genUnMountLoop alloc turns stream ⟨[], point :: list.next⟩ rootfsIsRo
        else none

/-- `mounts` is what `/proc/mounts` holds, if it can be opened, and `fresh` what the memory of
the first node reads as before anything is written to it. -/
def genUnMountList (mounts : Option (List Char)) (alloc : Nat → Bool) (fresh : List Char) :
    Option (List (List Char) × Bool) :=
  match mounts with
  | none => none
  | some stream =>
    if alloc 0 then
      (genUnMountLoop alloc (stream.length + 1) stream ⟨fresh, []⟩ false).map
        fun r => (r.1.target :: r.1.next, r.2)
    else none

def mountField (i : Nat) (line : List Char) : List Char := (blankFields line).getD i []

def mountSource (line : List Char) : List Char := mountField 0 line

def mountPoint (line : List Char) : List Char := mountField 1 line

def mountOptions (line : List Char) : List Char := mountField 3 line

def firstOption (line : List Char) : List Char := (mountOptions line).takeWhile (· != ',')

structure MountLine (line : List Char) : Prop where
  six : (blankFields line).length = 6
  single : '\n' ∉ line
  text : nul ∉ line
  fits : line.length + 2 ≤ pathMax

def mountText (lines : List (List Char)) : List Char := lines.flatMap (· ++ ['\n'])

def Unmounted (line : List Char) : Prop :=
  mountPoint line ≠ "/".toList ∧ mountSource line ≠ "none".toList

instance (line : List Char) : Decidable (Unmounted line) := inferInstanceAs (Decidable (_ ∧ _))

structure UnmountRight (lines list : List (List Char)) (rootfsIsRo : Bool) : Prop where
  targets : list.filter (· ≠ []) = ((lines.filter Unmounted).map mountPoint).reverse
  root : rootfsIsRo = true ↔
    ∃ line ∈ lines, mountPoint line = "/".toList ∧ firstOption line = "ro".toList

/-- A line that sets the flag: a further option follows `ro`, and the source has a name. -/
def RootSeen (line : List Char) : Prop :=
  mountSource line ≠ "none".toList ∧ mountPoint line = "/".toList ∧
    "ro,".toList.isPrefixOf (mountOptions line) = true

instance (line : List Char) : Decidable (RootSeen line) :=
  inferInstanceAs (Decidable (_ ∧ _ ∧ _))

variable {f line : List Char}

theorem six_fields (six : (blankFields line).length = 6) :
    ∃ fstype freq pass, blankFields line =
      [mountSource line, mountPoint line, fstype, mountOptions line, freq, pass] := by
  unfold mountSource mountPoint mountOptions mountField
  match listed : blankFields line, six with
  | [_, _, fstype, _, freq, pass], _ => exact ⟨fstype, freq, pass, rfl⟩

theorem textAt_line (mount : MountLine line) : textAt (line ++ ['\n']) 0 = line ++ ['\n'] := by
  refine List.takeWhile_eq_self_iff.mpr fun c member => ?_
  rcases List.mem_append.mp member with inside | newline
  · exact bne_iff_ne.mpr fun same => mount.text (same ▸ inside)
  · rw [List.mem_singleton.mp newline]
    decide

theorem blanks_newline (line : List Char) :
    (line ++ ['\n']).takeWhile (· == ' ') = line.takeWhile (· == ' ') := by
  induction line with
  | nil => decide
  | cons c cs ih => by_cases blank : c = ' ' <;> simp [blank, ih]

theorem mountTurn_line (mount : MountLine line) :
    mountTurn (textAt (line ++ ['\n']) 0) =
      if mountSource line = "none".toList then .skipped
      else if mountPoint line = "/".toList then
        if "ro,".toList.isPrefixOf (mountOptions line) then
          .readOnlyRoot (line.takeWhile (· == ' ') ++ mountSource line)
        else .skipped
      else .entry (mountPoint line) := by
  obtain ⟨fstype, freq, pass, listed⟩ := six_fields mount.six
  obtain ⟨rest₁, first, listed₁⟩ := strtokR_next listed (cons_ne_nil _ _) ['\n']
  obtain ⟨rest₂, second, listed₂⟩ := strtokR_next listed₁ (cons_ne_nil _ _) ['\n']
  obtain ⟨rest₃, third, listed₃⟩ := strtokR_next listed₂ (cons_ne_nil _ _) ['\n']
  obtain ⟨rest₄, fourth, -⟩ := strtokR_next listed₃ (cons_ne_nil _ _) ['\n']
  -- no option text has the blank of the second comparison
  have blankless : "ro ".toList.isPrefixOf (mountOptions line) = false := by
    rw [Bool.eq_false_iff]
    intro starts
    obtain ⟨t, same⟩ := List.isPrefixOf_iff_prefix.mp starts
    exact (strtokR_token fourth).choose_spec.inside ' ' (same ▸ by simp) rfl
  rw [textAt_line mount, mountTurn]
  simp only [first, second, third, fourth, blankless, Bool.or_false, blanks_newline]

def leftTarget (fresh : List Char) (lines : List (List Char)) : List Char :=
  match lines.getLast? with
  | none => fresh
  | some line =>
    if RootSeen line then line.takeWhile (· == ' ') ++ mountSource line else []

def unmountPoints (lines : List (List Char)) : List (List Char) :=
  ((lines.filter Unmounted).map mountPoint).reverse

theorem leftTarget_snoc (fresh : List Char) (done : List (List Char)) (line : List Char) :
    leftTarget fresh (done ++ [line]) =
      if RootSeen line then line.takeWhile (· == ' ') ++ mountSource line else [] := by
  simp [leftTarget]

theorem unmountPoints_snoc (done : List (List Char)) (line : List Char) :
    unmountPoints (done ++ [line]) =
      if Unmounted line then mountPoint line :: unmountPoints done else unmountPoints done := by
  unfold unmountPoints
  split_ifs with listed <;> simp [listed]

theorem genUnMountLoop_lines (alloc : Nat → Bool) (memory : ∀ k, alloc k = true)
    (fresh : List Char) (lines done : List (List Char)) (all : ∀ line ∈ lines, MountLine line)
    (turns : Nat) (enough : (mountText lines).length < turns) :
    genUnMountLoop alloc turns (mountText lines) ⟨leftTarget fresh done, unmountPoints done⟩
        (done.any RootSeen) =
      some (⟨leftTarget fresh (done ++ lines), unmountPoints (done ++ lines)⟩,
        (done ++ lines).any RootSeen) := by
  induction lines generalizing done turns with
  | nil =>
    obtain ⟨turns, rfl⟩ := Nat.exists_eq_succ_of_ne_zero (Nat.ne_of_gt enough)
    simp [genUnMountLoop, mountText, fgets]
  | cons line lines ih =>
    obtain ⟨turns, rfl⟩ := Nat.exists_eq_succ_of_ne_zero (Nat.ne_of_gt (Nat.zero_lt_of_lt enough))
    have mount := all line mem_cons_self
    have text : mountText (line :: lines) = line ++ '\n' :: mountText lines := by
      simp [mountText]
    have shorter : (mountText lines).length < turns := by
      rw [text, length_append, length_cons] at enough
      omega
    have rest := ih (done ++ [line]) (fun l member => all l (mem_cons_of_mem _ member)) turns
      shorter
    rw [append_assoc, singleton_append, leftTarget_snoc, unmountPoints_snoc, any_append] at rest
    rw [genUnMountLoop, text, fgets_line mount.single mount.fits]
    dsimp only
    rw [mountTurn_line mount, ← rest]
    by_cases anonymous : mountSource line = "none".toList
    · have unseen : ¬ RootSeen line := fun seen => seen.1 anonymous
      have skipped : ¬ Unmounted line := fun listed => listed.2 anonymous
      simp [anonymous, unseen, skipped]
    · by_cases root : mountPoint line = "/".toList
      · have skipped : ¬ Unmounted line := fun listed => listed.1 root
        by_cases readOnly : "ro,".toList.isPrefixOf (mountOptions line) = true
        · have seen : RootSeen line := ⟨anonymous, root, readOnly⟩
          simp only [anonymous, root, readOnly, seen, skipped]
          simp [seen]
        · have unseen : ¬ RootSeen line := fun seen => readOnly seen.2.2
          simp only [anonymous, root, readOnly, unseen, skipped]
          simp [unseen]
      · have unseen : ¬ RootSeen line := fun seen => root seen.2.1
        have listed : Unmounted line := ⟨root, anonymous⟩
        simp only [anonymous, root, unseen, listed, memory]
        simp [unseen]

theorem genUnMountList_lines (alloc : Nat → Bool) (memory : ∀ k, alloc k = true)
    (fresh : List Char) (lines : List (List Char)) (all : ∀ line ∈ lines, MountLine line) :
    genUnMountList (some (mountText lines)) alloc fresh =
      some (leftTarget fresh lines :: unmountPoints lines, lines.any RootSeen) := by
  have loop := genUnMountLoop_lines alloc memory fresh lines [] all _ (Nat.lt_succ_self _)
  unfold genUnMountList
  simp only [memory, if_true, nil_append] at loop ⊢
  exact congrArg (Option.map _) loop

variable {lines : List (List Char)}

theorem unmountPoints_filled (all : ∀ line ∈ lines, MountLine line) :
    (unmountPoints lines).filter (· ≠ []) = unmountPoints lines := by
  refine List.filter_eq_self.mpr fun point member => ?_
  obtain ⟨line, kept, rfl⟩ := List.mem_map.mp (List.mem_reverse.mp member)
  obtain ⟨fstype, freq, pass, found⟩ := six_fields (all line (mem_of_mem_filter kept)).six
  have listed : mountPoint line ∈ blankFields line := by simp [found]
  have filled := field_ne_nil listed
  simpa using filled

theorem targets_iff (all : ∀ line ∈ lines, MountLine line) (left : List Char) :
    (left :: unmountPoints lines).filter (· ≠ []) = unmountPoints lines ↔ left = [] := by
  by_cases empty : left = []
  · simpa [empty] using unmountPoints_filled all
  · rw [filter_cons_of_pos (by simpa using empty), unmountPoints_filled all]
    simp [empty]

theorem leftTarget_iff {fresh : List Char} (all : ∀ line ∈ lines, MountLine line) :
    leftTarget fresh lines = [] ↔
      (lines = [] → fresh = []) ∧ ∀ line, lines.getLast? = some line → ¬ RootSeen line := by
  cases last : lines.getLast? with
  | none =>
    rw [getLast?_eq_none_iff] at last
    simp [leftTarget, last]
  | some line =>
    have member := mem_of_getLast? last
    obtain ⟨fstype, freq, pass, found⟩ := six_fields (all line member).six
    have listed : mountSource line ∈ blankFields line := by simp [found]
    have named := field_ne_nil listed
    by_cases seen : RootSeen line
    · simp [leftTarget, last, seen, named]
    · simp [leftTarget, last, seen, ne_nil_of_mem member]

theorem rootSeen_first (seen : RootSeen line) :
    mountPoint line = "/".toList ∧ firstOption line = "ro".toList := by
  obtain ⟨t, same⟩ := List.isPrefixOf_iff_prefix.mp seen.2.2
  refine ⟨seen.2.1, ?_⟩
  rw [firstOption, ← same]
  rfl

theorem root_iff (lines : List (List Char)) :
    (lines.any RootSeen = true ↔
      ∃ line ∈ lines, mountPoint line = "/".toList ∧ firstOption line = "ro".toList) ↔
    ((∃ line ∈ lines, mountPoint line = "/".toList ∧ firstOption line = "ro".toList) →
      ∃ line ∈ lines, RootSeen line) := by
  have seen : lines.any RootSeen = true ↔ ∃ line ∈ lines, RootSeen line := by simp
  rw [seen]
  refine ⟨fun same => same.mpr, fun found => ⟨?_, found⟩⟩
  rintro ⟨line, member, here⟩
  exact ⟨line, member, rootSeen_first here⟩

/-- The list is right unless the table is empty and the memory of the only node is not, or the
last line has left the source of a read-only root in its node. -/
theorem unmount_list_iff (lines : List (List Char)) (all : ∀ line ∈ lines, MountLine line)
    (alloc : Nat → Bool) (memory : ∀ k, alloc k = true) (fresh : List Char) :
    (∃ list rootfsIsRo, genUnMountList (some (mountText lines)) alloc fresh =
        some (list, rootfsIsRo) ∧ UnmountRight lines list rootfsIsRo) ↔
      ((lines = [] → fresh = []) ∧ ∀ line, lines.getLast? = some line → ¬ RootSeen line) ∧
      ((∃ line ∈ lines, mountPoint line = "/".toList ∧ firstOption line = "ro".toList) →
        ∃ line ∈ lines, RootSeen line) := by
  rw [genUnMountList_lines alloc memory fresh lines all, ← leftTarget_iff all, ← root_iff,
    ← targets_iff all]
  constructor
  · rintro ⟨list, rootfsIsRo, ⟨⟩, right⟩
    exact ⟨right.targets, right.root⟩
  · rintro ⟨targets, root⟩
    exact ⟨_, _, rfl, targets, root⟩

def mountTable (lines : List String) : List (List Char) := lines.map String.toList

def rootFirst : List (List Char) :=
  mountTable ["/dev/root / ext4 ro,relatime 0 0", "none /run tmpfs rw 0 0",
    "/dev/sda2 /home ext4 rw,relatime 0 0"]

theorem rootFirst_lines : ∀ line ∈ rootFirst, MountLine line := by
  simp only [rootFirst, mountTable, map_cons, map_nil, forall_mem_cons]
  refine ⟨⟨?_, ?_, ?_, ?_⟩, ⟨?_, ?_, ?_, ?_⟩, ⟨?_, ?_, ?_, ?_⟩, forall_mem_nil _⟩ <;> decide

theorem root_first_right :
    (∀ line ∈ rootFirst, MountLine line) ∧
      ∃ list rootfsIsRo, genUnMountList (some (mountText rootFirst)) (fun _ => true) [] =
        some (list, rootfsIsRo) ∧ UnmountRight rootFirst list rootfsIsRo := by
  refine ⟨rootFirst_lines, ?_⟩
  refine (unmount_list_iff rootFirst rootFirst_lines (fun _ => true) (fun _ => rfl) []).mpr ?_
  refine ⟨⟨fun _ => rfl, ?_⟩, fun _ => ⟨_, mem_cons_self, by decide⟩⟩
  rintro line ⟨⟩
  decide

def rootLast : List (List Char) :=
  mountTable ["/dev/sda2 /home ext4 rw,relatime 0 0", "/dev/root / ext4 ro,relatime 0 0"]

def rootOnlyRo : List (List Char) := mountTable ["/dev/root / squashfs ro 0 0"]

/-- A root that is mounted last leaves the device it is on in the list, and one whose only option
is `ro` does not count as read-only. -/
theorem root_device_listed :
    genUnMountList (some (mountText rootLast)) (fun _ => true) [] =
      some (mountTable ["/dev/root", "/home"], true) ∧
    ¬ UnmountRight rootLast (mountTable ["/dev/root", "/home"]) true ∧
    genUnMountList (some (mountText rootOnlyRo)) (fun _ => true) [] = some ([[]], false) ∧
    ¬ UnmountRight rootOnlyRo [[]] false := by
  refine ⟨by decide, fun right => ?_, by decide, fun right => ?_⟩
  · exact absurd right.targets (by decide)
  · have seen := right.root.mpr ⟨_, mem_cons_self, by decide, by decide⟩
    cases seen

end Crinit
