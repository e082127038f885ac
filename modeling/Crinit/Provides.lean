import Crinit.Handlers

/-! The values of PROVIDES. An event is compared with `spawn` and `fail` as far as these go, and
with `wait` one character further. -/
namespace Crinit

open List

inductive PrvEvent where
  | spawn | wait | fail
  deriving DecidableEq, Repr

def PrvEvent.text : PrvEvent → List Char
  | .spawn => eventRunning.toList
  | .wait => eventDone.toList
  | .fail => eventFailed.toList

def PrvEvent.state : PrvEvent → TaskState
  | .spawn => stateRunning
  | .wait => stateDone
  | .fail => stateFailed

def suffixText (notified : Bool) : List Char := if notified then eventNotifySuffix.toList else []

def suffixState (notified : Bool) : TaskState := if notified then stateNotified else 0#64

def EventOf (tok : String) (feature event : List Char) : Prop :=
  ':' ∉ feature ∧ tok.toList = feature ++ ':' :: event

def PrvDocumented (tok : String) (p : TaskPrv) : Prop :=
  ∃ feature, ∃ e : PrvEvent, ∃ notified, EventOf tok feature (e.text ++ suffixText notified) ∧
    p = ⟨String.ofList feature, e.state ||| suffixState notified⟩

/-- The event goes on behind `spawn` or `fail` with a text that is not `-notified`. -/
def Extended (tok : String) : Prop :=
  ∃ feature, ∃ e : PrvEvent, ∃ rest, EventOf tok feature (e.text ++ rest) ∧ e ≠ .wait ∧
    ∀ notified, rest ≠ suffixText notified

def WaitNotified (tok : String) : Prop :=
  ∃ feature, EventOf tok feature (PrvEvent.wait.text ++ suffixText true)

def eventState (event : List Char) : Option TaskState :=
  if eventRunning.toList.isPrefixOf event then some stateRunning
  else if event = eventDone.toList then some stateDone
  else if eventFailed.toList.isPrefixOf event then some stateFailed
  else none

section Token

variable {tok : String} {feature event : List Char}

theorem eventOf_split (split : EventOf tok feature event) :
    tok.toList.takeWhile (· != ':') = feature ∧ tok.toList.dropWhile (· != ':') = ':' :: event := by
  have plain : ∀ c ∈ feature, (c != ':') = true :=
    fun c mem => bne_iff_ne.2 fun same => split.1 (same ▸ mem)
  rw [split.2, takeWhile_append_of_pos plain, dropWhile_append_of_pos plain]
  simp

theorem eventOf_exists (colon : ':' ∈ tok.toList) : ∃ feature event, EventOf tok feature event := by
  have whole := @takeWhile_append_dropWhile _ (· != ':') tok.toList
  cases rest : tok.toList.dropWhile (· != ':') with
  | nil =>
    have all := List.dropWhile_eq_nil_iff.1 rest _ colon
    exact absurd all (by decide)
  | cons c event =>
    have head : ¬ (c != ':') = true := by
      have stop := head?_dropWhile_not (· != ':') tok.toList
      rw [rest] at stop
      simpa using stop
    have same : c = ':' := by simpa using head
    refine ⟨tok.toList.takeWhile (· != ':'), event, fun mem => ?_, ?_⟩
    · exact absurd (mem_takeWhile_imp mem) (by decide)
    · rw [same] at rest
      rw [← rest, whole]

theorem eventOf_unique {feature' event' : List Char} (first : EventOf tok feature event)
    (second : EventOf tok feature' event') : feature = feature' ∧ event = event' := by
  obtain ⟨before, behind⟩ := eventOf_split first
  obtain ⟨before', behind'⟩ := eventOf_split second
  exact ⟨before.symm.trans before', (List.cons.inj (behind.symm.trans behind')).2⟩

theorem parsePrv_event (split : EventOf tok feature event) :
    parsePrv tok = (eventState event).map fun stateReq =>
      ⟨String.ofList feature, if event.dropWhile (· != '-') = eventNotifySuffix.toList
        then stateReq ||| stateNotified else stateReq⟩ := by
  obtain ⟨before, behind⟩ := eventOf_split split
  unfold parsePrv
  rw [behind]
  dsimp only
  rw [before]
  rfl

theorem parsePrv_no_colon (none : ':' ∉ tok.toList) : parsePrv tok = .none := by
  have all : tok.toList.dropWhile (· != ':') = [] :=
    List.dropWhile_eq_nil_iff.2 fun c mem => bne_iff_ne.2 fun same => none (same ▸ mem)
  unfold parsePrv
  rw [all]

variable {p : TaskPrv}

theorem parsed_eventOf (parsed : parsePrv tok = some p) :
    ∃ feature event, EventOf tok feature event := by
  by_cases colon : ':' ∈ tok.toList
  · exact eventOf_exists colon
  · rw [parsePrv_no_colon colon] at parsed
    cases parsed

/-- The six documented events, as the handler reads them. -/
theorem eventState_documented (e : PrvEvent) (notified : Bool) :
    eventState (e.text ++ suffixText notified) =
        (if e = .wait ∧ notified = true then none else some e.state) ∧
      ((e.text ++ suffixText notified).dropWhile (· != '-') = eventNotifySuffix.toList ↔
        notified = true) := by
  cases e <;> cases notified <;> decide

theorem parsePrv_documented (documented : PrvDocumented tok p) (other : ¬ WaitNotified tok) :
    parsePrv tok = some p := by
  obtain ⟨feature, e, notified, split, rfl⟩ := documented
  obtain ⟨state, suffix⟩ := eventState_documented e notified
  have read : ¬ (e = .wait ∧ notified = true) := by
    rintro ⟨rfl, rfl⟩
    exact other ⟨feature, split⟩
  rw [parsePrv_event split, state, if_neg read, Option.map_some]
  cases notified with
  | true => rw [if_pos (suffix.2 rfl)]; rfl
  | false => rw [if_neg (mt suffix.1 (by decide)), suffixState, if_neg (by decide)]; simp

theorem parsePrv_waitNotified (refused : WaitNotified tok) : parsePrv tok = none := by
  obtain ⟨feature, split⟩ := refused
  rw [parsePrv_event split, (eventState_documented .wait true).1]
  rfl

theorem parsePrv_extended (extended : Extended tok) : ∃ p, parsePrv tok = some p := by
  obtain ⟨feature, e, rest, split, notWait, _⟩ := extended
  have begins (word : List Char) : word.isPrefixOf (word ++ rest) = true :=
    List.isPrefixOf_iff_prefix.2 (prefix_append _ _)
  have state : ∃ s, eventState (e.text ++ rest) = some s := by
    unfold eventState
    cases e with
    | spawn => exact ⟨_, if_pos (begins _)⟩
    | wait => exact absurd rfl notWait
    | fail =>
      have fails : eventFailed.toList.isPrefixOf (PrvEvent.fail.text ++ rest) = true := begins _
      have notSpawn : ¬ eventRunning.toList.isPrefixOf (PrvEvent.fail.text ++ rest) = true := by
        simp [PrvEvent.text, eventFailed, eventRunning]
      have notWait : PrvEvent.fail.text ++ rest ≠ eventDone.toList := by
        simp [PrvEvent.text, eventFailed, eventDone]
      exact ⟨stateFailed, by rw [if_neg notSpawn, if_neg notWait, if_pos fails]⟩
  obtain ⟨s, state⟩ := state
  exact ⟨_, by rw [parsePrv_event split, state]; rfl⟩

def PrvEvent.initial : PrvEvent → Char
  | .spawn => 's'
  | .wait => 'w'
  | .fail => 'f'

theorem event_unique {e e' : PrvEvent} {rest rest' : List Char}
    (same : e.text ++ rest = e'.text ++ rest') : e = e' ∧ rest = rest' := by
  have starts (e : PrvEvent) (rest : List Char) : (e.text ++ rest).head? = some e.initial := by
    cases e <;> rfl
  have initials : e.initial = e'.initial := by
    rw [← Option.some.injEq, ← starts e rest, ← starts e' rest', same]
  have events : e = e' := by
    cases e <;> cases e' <;> first | rfl | exact absurd initials (by decide)
  subst events
  exact ⟨rfl, append_cancel_left same⟩

theorem extended_undocumented (extended : Extended tok) : ¬ ∃ p, PrvDocumented tok p := by
  obtain ⟨feature, e, rest, split, _, other⟩ := extended
  rintro ⟨_, feature', e', notified, split', _⟩
  exact other notified (event_unique (eventOf_unique split split').2).2

theorem parsed_cases (parsed : parsePrv tok = some p) :
    (∃ p, PrvDocumented tok p) ∨ Extended tok := by
  obtain ⟨feature, event, split⟩ := parsed_eventOf parsed
  rw [parsePrv_event split] at parsed
  obtain ⟨s, state, _⟩ := Option.map_eq_some_iff.1 parsed
  have begun : ∃ e : PrvEvent, ∃ rest, event = e.text ++ rest ∧ (e = .wait → rest = []) := by
    unfold eventState at state
    split_ifs at state with spawn wait fail
    · obtain ⟨rest, rfl⟩ := List.isPrefixOf_iff_prefix.1 spawn
      exact ⟨.spawn, rest, rfl, by rintro ⟨⟩⟩
    · exact ⟨.wait, [], by rw [wait, append_nil]; rfl, fun _ => rfl⟩
    · obtain ⟨rest, rfl⟩ := List.isPrefixOf_iff_prefix.1 fail
      exact ⟨.fail, rest, rfl, by rintro ⟨⟩⟩
  obtain ⟨e, rest, rfl, whole⟩ := begun
  by_cases suffix : ∃ notified, rest = suffixText notified
  · obtain ⟨notified, rfl⟩ := suffix
    exact .inl ⟨_, feature, e, notified, split, rfl⟩
  · refine .inr ⟨feature, e, rest, split, fun wait => ?_, fun notified same =>
      suffix ⟨notified, same⟩⟩
    exact suffix ⟨false, whole wait⟩

theorem parsed_documented (documented : ∃ p, PrvDocumented tok p) (parsed : parsePrv tok = some p) :
    PrvDocumented tok p := by
  obtain ⟨p', documented⟩ := documented
  have other : ¬ WaitNotified tok := by
    intro refused
    rw [parsePrv_waitNotified refused] at parsed
    cases parsed
  have same := (parsePrv_documented documented other).symm.trans parsed
  exact Option.some.inj same ▸ documented

end Token

variable {Env Redir Cgroup : Type}

structure ProvidesExact (val : String) (toks : List String) (d : TaskDraft Env Redir Cgroup) :
    Prop where
  accepts : (∃ d', cfgPrvHandler val d = some d') ↔ ∀ tok ∈ toks, ∃ p, PrvDocumented tok p
  appends : ∀ d', cfgPrvHandler val d = some d' →
    ∃ prv, List.Forall₂ PrvDocumented toks prv ∧ d' = { d with prv := d.prv ++ prv }

variable {toks : List String}

theorem cfgPrvHandler_accepts {val : String} (split : confConvToStrArr val false = some toks)
    (d : TaskDraft Env Redir Cgroup) :
    (∃ d', cfgPrvHandler val d = some d') ↔ ∀ tok ∈ toks, ∃ p, parsePrv tok = some p := by
  constructor
  · rintro ⟨d', handled⟩ tok mem
    obtain ⟨toks', prv, split', parsed, _⟩ := cfgPrvHandler_iff.1 handled
    cases Option.some.inj (split.symm.trans split')
    obtain ⟨p, _, parsed⟩ := Collect.forall₂_left (Collect.mapM_some_iff.1 parsed) mem
    exact ⟨p, parsed⟩
  · intro all
    cases parsed : toks.mapM parsePrv with
    | none =>
      obtain ⟨tok, mem, refused⟩ := Collect.mapM_none_iff.1 parsed
      obtain ⟨p, accepted⟩ := all tok mem
      exact absurd (refused.symm.trans accepted) (by simp)
    | some prv => exact ⟨_, cfgPrvHandler_iff.2 ⟨toks, prv, split, parsed, rfl⟩⟩

theorem prv_accepted_iff (known : ∀ tok ∈ toks, (∃ p, PrvDocumented tok p) ∨ Extended tok) :
    (∀ tok ∈ toks, ∃ p, parsePrv tok = some p) ↔ ¬ ∃ tok ∈ toks, WaitNotified tok := by
  constructor
  · rintro all ⟨tok, mem, refused⟩
    obtain ⟨p, accepted⟩ := all tok mem
    exact absurd ((parsePrv_waitNotified refused).symm.trans accepted) (by simp)
  · intro none tok mem
    rcases known tok mem with ⟨p, documented⟩ | extended
    · exact ⟨p, parsePrv_documented documented fun refused => none ⟨tok, mem, refused⟩⟩
    · exact parsePrv_extended extended

theorem prv_documented_iff (known : ∀ tok ∈ toks, (∃ p, PrvDocumented tok p) ∨ Extended tok) :
    (∀ tok ∈ toks, ∃ p, PrvDocumented tok p) ↔ ¬ ∃ tok ∈ toks, Extended tok := by
  constructor
  · rintro all ⟨tok, mem, extended⟩
    exact extended_undocumented extended (all tok mem)
  · intro none tok mem
    exact (known tok mem).resolve_right fun extended => none ⟨tok, mem, extended⟩

/-- The handler accepts exactly the grammar if a token is malformed in any case, or if what it takes
and what it refuses against the grammar make up for each other. -/
theorem provides_exact_iff {val : String} {toks : List String}
    (split : confConvToStrArr val false = some toks) (d : TaskDraft Env Redir Cgroup) :
    ProvidesExact val toks d ↔
      (∃ tok ∈ toks, (¬ ∃ p, PrvDocumented tok p) ∧ ¬ Extended tok) ∨
        ((∃ tok ∈ toks, WaitNotified tok) ↔ ∃ tok ∈ toks, Extended tok) := by
  have accepts := cfgPrvHandler_accepts split d
  have same : ProvidesExact val toks d ↔ ((∀ tok ∈ toks, ∃ p, parsePrv tok = some p) ↔
      ∀ tok ∈ toks, ∃ p, PrvDocumented tok p) := by
    constructor
    · intro exactly
      rw [← accepts]
      exact exactly.accepts
    · intro same
      refine ⟨accepts.trans same, fun d' handled => ?_⟩
      obtain ⟨toks', prv, split', parsed, rfl⟩ := cfgPrvHandler_iff.1 handled
      cases Option.some.inj (split.symm.trans split')
      refine ⟨prv, ?_, rfl⟩
      have documented := same.1 (accepts.1 ⟨_, handled⟩)
      refine ((List.forall₂_and_left _ _).2 ⟨documented, Collect.mapM_some_iff.1 parsed⟩).imp ?_
      exact fun tok p both => parsed_documented both.1 both.2
  rw [same]
  by_cases malformed : ∃ tok ∈ toks, (¬ ∃ p, PrvDocumented tok p) ∧ ¬ Extended tok
  · refine iff_of_true ?_ (.inl malformed)
    obtain ⟨tok, mem, undocumented, short⟩ := malformed
    refine iff_of_false (fun all => ?_) fun all => undocumented (all tok mem)
    obtain ⟨p, parsed⟩ := all tok mem
    exact (parsed_cases parsed).elim undocumented short
  · have known : ∀ tok ∈ toks, (∃ p, PrvDocumented tok p) ∨ Extended tok := by
      intro tok mem
      by_contra neither
      rw [not_or] at neither
      exact malformed ⟨tok, mem, neither⟩
    rw [prv_accepted_iff known, prv_documented_iff known, not_iff_not, or_iff_right malformed]

def providesDraft : TaskDraft Unit Unit Unit := { taskEnv := (), elosFilters := () }

theorem wait_provided : ProvidesExact "dhcp:wait net:spawn-notified log:fail"
    ["dhcp:wait", "net:spawn-notified", "log:fail"] providesDraft := by
  have documented : ∀ tok ∈ ["dhcp:wait", "net:spawn-notified", "log:fail"],
      (∃ p, PrvDocumented tok p) ∧ (parsePrv tok).isSome = true := by
    simp only [List.forall_mem_cons]
    refine ⟨⟨⟨_, "dhcp".toList, .wait, false, ⟨by decide, by decide⟩, rfl⟩, by decide⟩,
      ⟨⟨_, "net".toList, .spawn, true, ⟨by decide, by decide⟩, rfl⟩, by decide⟩,
      ⟨⟨_, "log".toList, .fail, false, ⟨by decide, by decide⟩, rfl⟩, by decide⟩,
      List.forall_mem_nil _⟩
  refine (provides_exact_iff (by decide) providesDraft).2 (.inr (iff_of_false ?_ ?_))
  · rintro ⟨tok, mem, refused⟩
    have read := (documented tok mem).2
    rw [parsePrv_waitNotified refused] at read
    cases read
  · rintro ⟨tok, mem, extended⟩
    exact extended_undocumented extended (documented tok mem).1

/-- A documented event is refused, and one that is not documented is taken. -/
theorem provides_misread :
    (cfgPrvHandler "dhcp:wait-notified" providesDraft).isSome = false ∧
      ¬ ProvidesExact "dhcp:wait-notified" ["dhcp:wait-notified"] providesDraft ∧
    (cfgPrvHandler "dhcp:spawned" providesDraft).map TaskDraft.prv =
        some [⟨"dhcp", stateRunning⟩] ∧
      ¬ ProvidesExact "dhcp:spawned" ["dhcp:spawned"] providesDraft := by
  have refused : (cfgPrvHandler "dhcp:wait-notified" providesDraft).isSome = false := by decide
  have taken : (cfgPrvHandler "dhcp:spawned" providesDraft).map TaskDraft.prv =
      some [⟨"dhcp", stateRunning⟩] := by decide
  refine ⟨refused, fun exactly => ?_, taken, fun exactly => ?_⟩
  · have documented : PrvDocumented "dhcp:wait-notified" ⟨"dhcp", stateDone ||| stateNotified⟩ :=
      ⟨"dhcp".toList, .wait, true, ⟨by decide, by decide⟩, by decide⟩
    obtain ⟨d', accepted⟩ := exactly.accepts.2 fun tok mem =>
      List.mem_singleton.1 mem ▸ ⟨_, documented⟩
    rw [accepted] at refused
    cases refused
  · obtain ⟨d', accepted, _⟩ := Option.map_eq_some_iff.1 taken
    have documented := exactly.accepts.1 ⟨d', accepted⟩ "dhcp:spawned" mem_cons_self
    refine extended_undocumented ⟨"dhcp".toList, .spawn, "ed".toList, ⟨by decide, by decide⟩,
      by decide, ?_⟩ documented
    intro notified
    cases notified <;> decide

end Crinit
