import Plasmosome.Membrane.HandshakeLaws

/-!
# What a handshake admits

A handshake that returns an association went through its five stages in order,
each in time and with the helper at the other end. Whatever it comes to, it wrote
nothing but its two hellos and asked for no data connection before both were
answered.
-/

namespace Plasmosome.Membrane

open Foundation
open Serde

section Order

variable (budget : ProbeBudget) (expected : Expected) (library : Library)

/-- Both lanes were accepted and their hellos answered with the same boot token. -/
structure Introduced (boot : BootToken) (events : List Event) : Prop where
  events_eq : ∃ check normal normalHello withdrawal withdrawalHello,
    events = ⟨.clock, check⟩ :: (normal ++ (normalHello ++ (withdrawal ++ withdrawalHello))) ∧
    InTime budget check ∧
    Accepted budget expected.peer .control normal ∧
    Greeted budget expected.peer .normalAccept .normal
      (fun frame => judgeNormal library frame expected.policy) boot normalHello ∧
    Accepted budget expected.peer .control withdrawal ∧
    Greeted budget expected.peer .withdrawalAccept .withdrawal
      (fun frame => judgeWithdrawal library frame expected.policy boot) () withdrawalHello

/-- Both lanes, and then a data connection. -/
structure Admitted (association : Association) (events : List Event) : Prop where
  association_eq : association = ⟨association.boot, expected.policy, expected.peer, .normalAccept,
    .withdrawalAccept, .dataAccept⟩
  events_eq : ∃ introduction data, events = introduction ++ data ∧
    Introduced budget expected library association.boot introduction ∧
    Accepted budget expected.peer .data data

/-- What holds of a handshake's events, however it ends. -/
structure Orderly (outcome : Outcome HandshakeFailure Association) (events : List Event) : Prop
    where
  admitted : ∀ association, outcome = .ok association →
    Admitted budget expected library association events
  guarded : Guarded budget events
  settled : Settled (causeOf outcome) events
  normal_part : written .normalAccept events <+: helloRequest .normal
  withdrawal_part : written .withdrawalAccept events <+: helloRequest .withdrawal
  only_lanes : ∀ stream, stream ≠ .normalAccept → stream ≠ .withdrawalAccept →
    written stream events = []
  data_last : ∀ before answer after, events = before ++ ⟨.acceptReady .data, answer⟩ :: after →
    ∃ boot introduction rest, before = introduction ++ rest ∧
      Introduced budget expected library boot introduction

end Order

section Runs

variable {budget : ProbeBudget} {expected : Expected} {library : Library} {α : Type}
  {cause : Option Liveness} {events : List Event}

theorem written_accept {listener : Listener} (hcalm : Calm budget (IsAccept listener) cause events)
    (stream : Stage) : written stream events = [] := by
  refine hcalm.written_nil fun event haccept => ?_
  rcases event with ⟨question, answer⟩
  cases question with
  | acceptReady other => rfl
  | _ => exact haccept.elim

theorem written_other {lane stream : Stage} (hcalm : Calm budget (OnLane lane) cause events)
    (hother : stream ≠ lane) : written stream events = [] := by
  refine hcalm.written_nil fun event hlane => ?_
  rcases event with ⟨question, answer⟩
  cases question with
  | write other bytes =>
      have hsame : other = lane := hlane.resolve_right fun hread =>
        hread.elim (fun hread => hread) (fun hpeer => by cases hpeer)
      change Except SystemError _ at answer
      cases answer with
      | error error => rfl
      | ok sent => exact if_neg fun heq => hother (heq.symm.trans hsame)
  | _ => rfl

/-- No data connection is asked for among these events. -/
def NoData (events : List Event) : Prop := ∀ event ∈ events, event.1 ≠ .acceptReady .data

theorem NoData.append {first second : List Event} (hfirst : NoData first)
    (hsecond : NoData second) :
    NoData (first ++ second) := by
  intro event hevent
  rcases List.mem_append.mp hevent with hmem | hmem
  · exact hfirst event hmem
  · exact hsecond event hmem

theorem noData_clock (reading : Reading) : NoData [⟨.clock, reading⟩] := by
  intro event hevent
  cases List.mem_singleton.mp hevent
  intro hdata
  cases hdata

theorem ne_data_of_quiet {event : Event} (hquiet : Quiet event) : event.1 ≠ .acceptReady .data := by
  rcases event with ⟨question, answer⟩
  intro hdata
  cases hdata
  exact hquiet

theorem noData_accept (hcalm : Calm budget (IsAccept .control) cause events) : NoData events := by
  intro event hevent
  rcases hcalm.kinds event hevent with hquiet | haccept
  · exact ne_data_of_quiet hquiet
  · rcases event with ⟨question, answer⟩
    intro hdata
    cases hdata
    cases haccept

theorem noData_lane {lane : Stage} (hcalm : Calm budget (OnLane lane) cause events) :
    NoData events := by
  intro event hevent
  rcases hcalm.kinds event hevent with hquiet | hlane
  · exact ne_data_of_quiet hquiet
  · rcases event with ⟨question, answer⟩
    intro hdata
    cases hdata
    rcases hlane with hwrite | hread | hpeer
    · exact hwrite
    · exact hread
    · cases hpeer

theorem NoData.last (hnone : NoData events) {before after : List Event}
    {answer : Except SystemError (Option Connection)} {conclusion : Prop}
    (hevents : events = before ++ ⟨.acceptReady .data, answer⟩ :: after) : conclusion :=
  (hnone ⟨.acceptReady .data, answer⟩ (hevents ▸ by simp) rfl).elim

/-- The events of stages that went through, before a data connection was asked for: what the two
lanes took so far, and every liveness check said that the helper runs. -/
structure Before (budget : ProbeBudget) (normal withdrawal : List UInt8) (past : List Event) : Prop
    where
  guarded : Guarded budget past
  running : AllRunning past
  normal_eq : written .normalAccept past = normal
  withdrawal_eq : written .withdrawalAccept past = withdrawal
  only_lanes : ∀ stream, stream ≠ .normalAccept → stream ≠ .withdrawalAccept →
    written stream past = []
  no_data : NoData past

namespace Before

variable {normal withdrawal : List UInt8} {past more : List Event}

theorem start (check : Reading) : Before budget [] [] [⟨.clock, check⟩] where
  guarded := .single fun hwait => hwait
  running answer hanswer := by cases List.mem_singleton.mp hanswer
  normal_eq := rfl
  withdrawal_eq := rfl
  only_lanes _ _ _ := rfl
  no_data := noData_clock check

theorem accept (hpast : Before budget normal withdrawal past)
    (hmore : Calm budget (IsAccept .control) none more) :
    Before budget normal withdrawal (past ++ more) where
  guarded := hpast.guarded.append hmore.guarded
  running := hpast.running.append hmore.settled
  normal_eq := by rw [written_append, written_accept hmore, List.append_nil, hpast.normal_eq]
  withdrawal_eq := by
    rw [written_append, written_accept hmore, List.append_nil, hpast.withdrawal_eq]
  only_lanes stream hnormal hwithdrawal := by
    rw [written_append, written_accept hmore, hpast.only_lanes stream hnormal hwithdrawal]
    rfl
  no_data := hpast.no_data.append (noData_accept hmore)

theorem normalHello (hpast : Before budget [] withdrawal past)
    (hmore : Calm budget (OnLane .normalAccept) none more) :
    Before budget (written .normalAccept more) withdrawal (past ++ more) where
  guarded := hpast.guarded.append hmore.guarded
  running := hpast.running.append hmore.settled
  normal_eq := by rw [written_append, hpast.normal_eq, List.nil_append]
  withdrawal_eq := by
    rw [written_append, written_other hmore (by decide), List.append_nil, hpast.withdrawal_eq]
  only_lanes stream hnormal hwithdrawal := by
    rw [written_append, written_other hmore hnormal, hpast.only_lanes stream hnormal hwithdrawal]
    rfl
  no_data := hpast.no_data.append (noData_lane hmore)

theorem withdrawalHello (hpast : Before budget normal [] past)
    (hmore : Calm budget (OnLane .withdrawalAccept) none more) :
    Before budget normal (written .withdrawalAccept more) (past ++ more) where
  guarded := hpast.guarded.append hmore.guarded
  running := hpast.running.append hmore.settled
  normal_eq := by
    rw [written_append, written_other hmore (by decide), List.append_nil, hpast.normal_eq]
  withdrawal_eq := by rw [written_append, hpast.withdrawal_eq, List.nil_append]
  only_lanes stream hnormal hwithdrawal := by
    rw [written_append, written_other hmore hwithdrawal,
      hpast.only_lanes stream hnormal hwithdrawal]
    rfl
  no_data := hpast.no_data.append (noData_lane hmore)

/-- A stage after these that stops the handshake, before a data connection is asked for. -/
theorem stopped {allowed : Event → Prop} {β : Type} {stop : Stop HandshakeFailure}
    {left : Option Liveness} (hpast : Before budget normal withdrawal past)
    (hmore : Staged budget allowed (.stop stop : Outcome HandshakeFailure β) left more)
    (hnormal : normal ++ written .normalAccept more <+: helloRequest .normal)
    (hwithdrawal : withdrawal ++ written .withdrawalAccept more <+: helloRequest .withdrawal)
    (hlanes : ∀ stream, stream ≠ .normalAccept → stream ≠ .withdrawalAccept →
      written stream more = []) (hdata : NoData more) :
    Orderly budget expected library (.stop stop) (past ++ more) where
  admitted association hok := by cases hok
  guarded := hpast.guarded.append hmore.calm.guarded
  settled := by
    have hcause : causeOf (.stop stop : Outcome HandshakeFailure Association) =
        causeOf (.stop stop : Outcome HandshakeFailure β) := by
      cases stop <;> rfl
    rw [hcause]
    exact Settled.append hpast.running hmore.calm.settled
  normal_part := by rwa [written_append, hpast.normal_eq]
  withdrawal_part := by rwa [written_append, hpast.withdrawal_eq]
  only_lanes stream hnormal hwithdrawal := by
    rw [written_append, hpast.only_lanes stream hnormal hwithdrawal,
      hlanes stream hnormal hwithdrawal]
    rfl
  data_last _ _ _ hevents := (hpast.no_data.append hdata).last hevents

theorem accept_stopped {β : Type} {stop : Stop HandshakeFailure} {left : Option Liveness}
    (hpast : Before budget normal withdrawal past)
    (hmore : Staged budget (IsAccept .control) (.stop stop : Outcome HandshakeFailure β) left more)
    (hnormal : normal <+: helloRequest .normal)
    (hwithdrawal : withdrawal <+: helloRequest .withdrawal) :
    Orderly budget expected library (.stop stop) (past ++ more) := by
  refine hpast.stopped hmore ?_ ?_ (fun stream _ _ => written_accept hmore.calm stream)
    (noData_accept hmore.calm)
  · rwa [written_accept hmore.calm, List.append_nil]
  · rwa [written_accept hmore.calm, List.append_nil]

/-- The data stage comes after the introduction, whatever it comes to. -/
theorem data_last_of_introduced (hpast : Before budget normal withdrawal past) {boot : BootToken}
    (hintroduced : Introduced budget expected library boot past) {before after : List Event}
    {answer : Except SystemError (Option Connection)}
    (hevents : past ++ more = before ++ ⟨.acceptReady .data, answer⟩ :: after) :
    ∃ boot introduction rest, before = introduction ++ rest ∧
      Introduced budget expected library boot introduction := by
  rcases List.append_eq_append_iff.mp hevents with ⟨rest, hbefore, -⟩ | ⟨rest, hsplit, hrest⟩
  · exact ⟨boot, past, rest, hbefore, hintroduced⟩
  · cases rest with
    | nil =>
        rw [List.append_nil] at hsplit
        exact ⟨boot, past, [], by rw [List.append_nil, hsplit], hintroduced⟩
    | cons first rest =>
        obtain ⟨rfl, -⟩ := List.cons.inj hrest
        have hmem : (⟨.acceptReady .data, answer⟩ : Event) ∈ past := by
          rw [hsplit]
          exact List.mem_append_right _ List.mem_cons_self
        exact (hpast.no_data _ hmem rfl).elim

end Before

theorem Greeted.written_eq {stream : Stage} {lane : ControlLane}
    {judge : List UInt8 → Except HelloRefusal α} {value : α}
    (hgreeted : Greeted budget expected.peer stream lane judge value events) :
    written stream events = helloRequest lane := by
  obtain ⟨sending, reading, frame, check, rfl, hsent, -, -, -, hreading, -⟩ := hgreeted.events_eq
  have hread : written stream reading = [] := written_eq_nil fun event hevent =>
    (hreading event hevent).elim (fun hquiet => taken_quiet hquiet stream)
      fun hread => taken_read hread stream
  rw [written_append, written_append, hread, hsent]
  simp [written, taken]

/-- The data connection, after both hellos. -/
theorem ensures_data (rounds : Nat) {past : List Event} {boot : BootToken}
    (hpast : Before budget (helloRequest .normal) (helloRequest .withdrawal) past)
    (hintroduced : Introduced budget expected library boot past) :
    (accept budget rounds expected .data .dataAccept >>= fun data =>
      (pure ⟨boot, expected.policy, expected.peer, .normalAccept, .withdrawalAccept, data⟩ :
        Step HandshakeFailure Association)).Ensures none fun outcome _ more =>
          Orderly budget expected library outcome (past ++ more) := by
  have hrest : ∀ outcome more, Calm budget (IsAccept .data) (causeOf outcome) more →
      (∀ association, outcome = .ok association →
        Admitted budget expected library association (past ++ more)) →
      Orderly budget expected library outcome (past ++ more) := by
    intro outcome more hmore hadmitted
    exact {
      admitted := hadmitted
      guarded := hpast.guarded.append hmore.guarded
      settled := Settled.append hpast.running hmore.settled
      normal_part := by
        rw [written_append, written_accept hmore, List.append_nil, hpast.normal_eq]
      withdrawal_part := by
        rw [written_append, written_accept hmore, List.append_nil, hpast.withdrawal_eq]
      only_lanes := fun stream hnormal hwithdrawal => by
        rw [written_append, written_accept hmore, hpast.only_lanes stream hnormal hwithdrawal]
        rfl
      data_last := fun _ _ _ hevents => hpast.data_last_of_introduced hintroduced hevents }
  refine Program.ensures_bind (ensures_accept rounds .data .dataAccept) ?_ ?_
  · rintro data _ more ⟨⟨rfl, hmore⟩, haccepted⟩
    obtain ⟨rfl, hdata⟩ := haccepted data rfl
    refine Program.ensures_pure ?_
    rw [List.append_nil]
    refine hrest _ more hmore fun association hok => ?_
    cases hok
    exact ⟨rfl, past, more, rfl, hintroduced, hdata⟩
  · rintro stop _ more ⟨⟨rfl, hmore⟩, -⟩
    refine hrest _ more ?_ fun association hok => by cases hok
    cases stop with
    | error failure => exact hmore
    | running => exact hmore

/-- Whatever the world answers, and however many rounds a loop is given, a handshake is orderly. -/
theorem handshake_admits_in_order (budget : ProbeBudget) (rounds : Nat) (expected : Expected)
    (library : Library) (answers : world.World) :
    Orderly budget expected library
      (handshakeWith budget rounds expected library answers none []).outcome
      (handshakeWith budget rounds expected library answers none []).events := by
  have hrun : (handshakeWith budget rounds expected library).Ensures none
      fun outcome _ events => Orderly budget expected library outcome events := by
    refine ensures_check_bind (fun check stop _ => ?_) fun check left hcheck => ?_
    · have hstopped : Staged budget Nothing (.stop (.error (stopped .normalAccept stop)) :
          Outcome HandshakeFailure Unit) none [] := ⟨rfl, by
        rw [causeOf, cause_stopped]
        exact .nil⟩
      exact (Before.start check).stopped hstopped List.nil_prefix List.nil_prefix
        (fun _ _ _ => rfl) fun event hevent => by cases hevent
    have hstart : Before budget [] [] [⟨.clock, check⟩] := .start check
    refine Program.ensures_bind (ensures_accept rounds .control .normalAccept) ?_ ?_
    · rintro normal _ first ⟨⟨rfl, hfirst⟩, haccepted⟩
      obtain ⟨rfl, hnormal⟩ := haccepted normal rfl
      have hlane := hstart.accept hfirst
      refine Program.ensures_bind (ensures_hello rounds .normalAccept .normal .normalReply _) ?_ ?_
      · rintro boot _ second ⟨⟨rfl, hsecond⟩, -, hgreeted⟩
        have hhello := hgreeted boot rfl
        have hgreeting := hlane.normalHello hsecond
        rw [hhello.written_eq] at hgreeting
        refine Program.ensures_bind (ensures_accept rounds .control .withdrawalAccept) ?_ ?_
        · rintro withdrawal _ third ⟨⟨rfl, hthird⟩, haccepted⟩
          obtain ⟨rfl, hwithdrawal⟩ := haccepted withdrawal rfl
          have hother := hgreeting.accept hthird
          refine Program.ensures_bind
            (ensures_hello rounds .withdrawalAccept .withdrawal .withdrawalReply _) ?_ ?_
          · rintro _ _ fourth ⟨⟨rfl, hfourth⟩, -, hanswered⟩
            have hreply := hanswered () rfl
            have hboth := hother.withdrawalHello hfourth
            rw [hreply.written_eq] at hboth
            have hintroduced : Introduced budget expected library boot
                ([⟨.clock, check⟩] ++ first ++ second ++ third ++ fourth) :=
              ⟨check, first, second, third, fourth, by simp, inTime_of_remaining hcheck, hnormal,
                hhello, hwithdrawal, hreply⟩
            refine (ensures_data rounds hboth hintroduced).mono fun outcome _ more horderly => ?_
            simpa [List.append_assoc] using horderly
          · rintro stop _ fourth ⟨hfourth, hpart, -⟩
            have horderly : Orderly budget expected library (.stop stop)
                ([⟨.clock, check⟩] ++ first ++ second ++ third ++ fourth) :=
              hother.stopped hfourth (by
                rw [written_other hfourth.calm (by decide), List.append_nil])
                (by simpa using hpart)
                (fun stream _ hwithdrawal => written_other hfourth.calm hwithdrawal)
                (noData_lane hfourth.calm)
            simpa [List.append_assoc] using horderly
        · rintro stop _ third ⟨hthird, -⟩
          have horderly : Orderly budget expected library (.stop stop)
              ([⟨.clock, check⟩] ++ first ++ second ++ third) :=
            hgreeting.accept_stopped hthird (List.prefix_refl _) List.nil_prefix
          simpa [List.append_assoc] using horderly
      · rintro stop _ second ⟨hsecond, hpart, -⟩
        exact hlane.stopped hsecond (by simpa using hpart) (by
          rw [written_other hsecond.calm (by decide)]
          exact List.nil_prefix) (fun stream hnormal _ => written_other hsecond.calm hnormal)
          (noData_lane hsecond.calm)
    · rintro stop _ first ⟨hfirst, -⟩
      exact hstart.accept_stopped hfirst List.nil_prefix List.nil_prefix
  exact hrun answers []

end Runs

end Plasmosome.Membrane
